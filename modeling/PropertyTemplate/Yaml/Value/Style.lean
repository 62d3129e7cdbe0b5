import PropertyTemplate.Yaml.Character
import PropertyTemplate.Yaml.Scalar

/-! # Styles of scalars

A scalar is written plainly if it reads back as it was, else between quotes, and a text of several
lines as a literal block. What a text may hold in each style follows from its characters.
-/

namespace PropertyTemplate.Yaml

inductive Style
  | plain
  | single
  | double
  | literal
  deriving DecidableEq, Repr

namespace Style

structure Traits where
  multiline : Bool
  plainAllowed : Bool
  singleAllowed : Bool
  literalAllowed : Bool

/-- A character that a plain scalar may not start with, given whether a blank follows it. -/
def isLeadIndicator (c : Char) (beforeBlank : Bool) : Bool :=
  c == '#' || c == ',' || c == '[' || c == ']' || c == '{' || c == '}' || c == '&' || c == '*'
    || c == '!' || c == '|' || c == '>' || c == '\'' || c == '"' || c == '%' || c == '@'
    || c == '\x60' || (beforeBlank && (c == '?' || c == ':' || c == '-'))

/-- The text would be read as something else if it were plain: a colon before a blank or a hash
behind one lies in it. `previous` is the character before. -/
def hasIndicator : Char → List Char → Bool
  | _, [] => false
  | previous, c :: rest =>
    (c == ':' && startsBlank rest) || (c == '#' && isBlankOrBreak previous) || hasIndicator c rest

def startsWithMark (text : List Char) : Bool :=
  ['-', '-', '-'].isPrefixOf text || ['.', '.', '.'].isPrefixOf text

/-- Two neighbours of which `p` holds for the first and `q` for the second. -/
def hasPair (p q : Char → Bool) : List Char → Bool
  | x :: y :: rest => (p x && q y) || hasPair p q (y :: rest)
  | _ => false

def traits (text : List Char) : Traits :=
  match text with
  | [] => ⟨false, true, true, false⟩
  | first :: rest =>
    let isSpace (c : Char) : Bool := c == ' '
    let last := (first :: rest).getLast (by simp)
    let multiline := text.any isBreak
    let bordered := isSpace first || isBreak first || isSpace last || isBreak last
    let breakSpace := hasPair isBreak isSpace text
    let hidden := hasPair isSpace isBreak text || text.any (!isPrintable ·)
    let indicated := startsWithMark text || isLeadIndicator first (startsBlank rest)
      || hasIndicator first rest
    { multiline
      plainAllowed := !(bordered || breakSpace || hidden || multiline || indicated)
      singleAllowed := !(breakSpace || hidden)
      literalAllowed := !(isSpace last || hidden) }

/-- The style that a text asks for. Digits with a leading zero are a text, but are quoted. -/
def wanted (s : String) : Style :=
  if s.toList.contains '\n' then .literal
  else
    match Scalar.ofPlain s.toList with
    | .ok (.string _) => if Scalar.hasLeadingZero s.toList then .single else .plain
    | _ => .single

/-- The style that a text gets that asks for one, as a key before its colon or elsewhere. -/
def chosen (style : Style) (asKey : Bool) (text : List Char) : Style :=
  let t := traits text
  let style := if asKey && t.multiline then .double else style
  let style := if style == .plain && !t.plainAllowed then .single else style
  let style := if style == .single && !t.singleAllowed then .double else style
  if style == .literal && (!t.literalAllowed || asKey) then .double else style

end Style

end PropertyTemplate.Yaml
