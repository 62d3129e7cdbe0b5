import PropertyTemplate.Yaml.Error
import PropertyTemplate.Yaml.Token.Fold

/-! # Plain scalars

A plain scalar is written without quotes. It ends at a colon before white space, at a comment, at a
document mark, at a line that is not indented enough, and in a flow collection at an indicator.
-/

namespace PropertyTemplate.Yaml

def isFlowIndicator (c : Char) : Bool :=
  c == ',' || c == '[' || c == ']' || c == '{' || c == '}'

def plainRun (inFlow : Bool) : List Char → Except Error (List Char)
  | [] => .ok []
  | c :: rest =>
    if isBlankOrBreak c then .ok []
    else if c == ':' && inFlow && firstIs false (fun d => isFlowIndicator d || d == '?') rest then
      .error .ambiguousColon
    else if c == ':' && startsBlank rest then .ok []
    else if inFlow && isFlowIndicator c then .ok []
    else (plainRun inFlow rest).map (c :: ·)

/-- A plain scalar, what lies behind it, and whether its end was looked for on a later line. -/
structure PlainScalar where
  text : List Char
  cursor : Cursor
  broken : Bool

/-- Reads a plain scalar onto `text`, with the gap that lies before the cursor, in `fuel` runs. -/
def readPlainFrom (inFlow : Bool) (indent : Int) :
    Nat → List Char → Gap → Cursor → Except Error PlainScalar
  | 0, text, gap, c => .ok ⟨text, c, gap.broken⟩
  | fuel + 1, text, gap, c =>
    if c.atDocumentMark || c.next (· == '#') then .ok ⟨text, c, gap.broken⟩
    else do
      let run ← plainRun inFlow c.rest
      if run.isEmpty then return ⟨text, c, gap.broken⟩
      let text := text ++ gap.text ++ run
      let c := c.advance run.length
      if !c.next isBlankOrBreak then return ⟨text, c, false⟩
      match Gap.read (fun column => (column : Int) < indent) fuel {} c with
      | none => throw .tabIndentation
      | some (gap, c) =>
        if !inFlow && (c.column : Int) < indent then return ⟨text, c, gap.broken⟩
        readPlainFrom inFlow indent fuel text gap c

def readPlain (inFlow : Bool) (indent : Int) (c : Cursor) : Except Error PlainScalar :=
  readPlainFrom inFlow indent (c.rest.length + 1) [] {} c

end PropertyTemplate.Yaml
