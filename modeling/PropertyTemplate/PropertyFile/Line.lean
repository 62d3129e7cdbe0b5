import PropertyTemplate.Text.WhiteSpace

/-! # Lines of property files

A natural line ends at a line break. A logical line is one natural line, or several that are joined
because all but the last end in a backslash that is not itself escaped. A comment is always a line
of its own.
-/

namespace PropertyTemplate.PropertyFile

def isSpace (c : Char) : Bool :=
  c == ' ' || c == '\t' || c == '\r' || c == '\n' || c == '\x0c'

def isCommentMark (c : Char) : Bool := c == '#' || c == '!'

/-- The lines of a text, without their ends. What follows the last end is a line as well. -/
def naturalLines : List Char → List (List Char)
  | [] => [[]]
  | '\r' :: '\n' :: rest => [] :: naturalLines rest
  | c :: rest =>
    if c == '\r' || c == '\n' then [] :: naturalLines rest
    else
      match naturalLines rest with
      | [] => [[c]]
      | line :: lines => (c :: line) :: lines

def isComment (line : List Char) : Bool :=
  (line.dropWhile isSpace).head?.any isCommentMark

def continues (line : List Char) : Bool :=
  (line.reverse.takeWhile (· == '\\')).length % 2 == 1

structure LogicalLine where
  number : Nat
  text : List Char
  deriving DecidableEq, Repr

/-- The logical lines among natural lines that are counted from `number`. A line that is begun and
never ended is lost. -/
def logicalLinesFrom (begun : Option LogicalLine) (number : Nat) :
    List (List Char) → List LogicalLine
  | [] => []
  | line :: lines =>
    let current : LogicalLine := match begun with
      | none => ⟨number, line⟩
      | some b => ⟨b.number, b.text ++ Text.dropLeadingSpace line⟩
    if begun.isNone && isComment line then current :: logicalLinesFrom none (number + 1) lines
    else if continues current.text then
      logicalLinesFrom (some { current with text := current.text.dropLast }) (number + 1) lines
    else current :: logicalLinesFrom none (number + 1) lines

def logicalLines (text : List Char) : List LogicalLine :=
  logicalLinesFrom none 1 (naturalLines text)

/-- What a logical line says, with its escape sequences as they are written. -/
inductive Statement
  | empty
  | comment (text : List Char)
  | property (key value : List Char)
  deriving DecidableEq, Repr

/-- The longest run that may be a key, and what lies behind it. A backslash joins the character
behind it to the key. -/
def spanKey : List Char → List Char × List Char
  | '\\' :: c :: rest =>
    let (key, rest) := spanKey rest
    ('\\' :: c :: key, rest)
  | c :: rest =>
    if c == '\\' || c == ':' || c == '=' || isSpace c then ([], c :: rest)
    else
      let (key, rest) := spanKey rest
      (c :: key, rest)
  | [] => ([], [])

/-- The value behind a key: a separator is a colon or an equals sign with white space around it, or
white space alone. -/
def valueBehind? (rest : List Char) : Option (List Char) :=
  match rest.dropWhile isSpace with
  | [] => if rest.isEmpty then none else some []
  | c :: value =>
    if c == ':' || c == '=' then some (value.dropWhile isSpace)
    else if rest.head?.any isSpace then some (c :: value)
    else none

namespace Statement

/-- What a logical line says. A key without value has an empty one, but an empty key needs a
separator. -/
def ofLine (line : List Char) : Statement :=
  match line.dropWhile isSpace with
  | [] => .empty
  | c :: rest =>
    if isCommentMark c then
      .comment ((rest.dropWhile isSpace).reverse.dropWhile isSpace).reverse
    else
      let (key, rest) := spanKey (c :: rest)
      match valueBehind? rest with
      | some value => .property key value
      | none => if key.isEmpty || !rest.isEmpty then .empty else .property key []

end Statement

end PropertyTemplate.PropertyFile
