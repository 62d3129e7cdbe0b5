import PropertyTemplate.Yaml.Error
import PropertyTemplate.Yaml.Token.Fold

/-! # Quoted scalars

Between single quotes a doubled quote stands for one. Between double quotes a backslash starts an
escape sequence, and before a line break it removes the break.
-/

namespace PropertyTemplate.Yaml

def readHex? : Nat → Nat → List Char → Option (Nat × List Char)
  | 0, value, rest => some (value, rest)
  | _ + 1, _, [] => none
  | n + 1, value, c :: rest => do readHex? n (16 * value + (← hexValue? c)) rest

def charOfCode? (code : Nat) : Option Char :=
  if code.isValidChar then some (Char.ofNat code) else none

def readEscape? : List Char → Option (Char × List Char)
  | '0' :: rest => some ('\x00', rest)
  | 'a' :: rest => some ('\x07', rest)
  | 'b' :: rest => some ('\x08', rest)
  | 't' :: rest => some ('\t', rest)
  | '\t' :: rest => some ('\t', rest)
  | 'n' :: rest => some ('\n', rest)
  | 'v' :: rest => some ('\x0b', rest)
  | 'f' :: rest => some ('\x0c', rest)
  | 'r' :: rest => some ('\r', rest)
  | 'e' :: rest => some ('\x1b', rest)
  | ' ' :: rest => some (' ', rest)
  | '"' :: rest => some ('"', rest)
  | '/' :: rest => some ('/', rest)
  | '\\' :: rest => some ('\\', rest)
  | 'N' :: rest => some ('\u0085', rest)
  | '_' :: rest => some ('\u00a0', rest)
  | 'L' :: rest => some ('\u2028', rest)
  | 'P' :: rest => some ('\u2029', rest)
  | 'x' :: rest => hex 2 rest
  | 'u' :: rest => hex 4 rest
  | 'U' :: rest => hex 8 rest
  | _ => none
where
  hex (n : Nat) (rest : List Char) : Option (Char × List Char) := do
    let (code, rest) ← readHex? n 0 rest
    return (← charOfCode? code, rest)

/-- How a run inside quotes ends: before white space, the closing quote or the end of the text, or
before a backslash that removes a line break. -/
structure QuotedRun where
  text : List Char
  rest : List Char
  joined : Bool

/-- The longest run inside quotes without white space, `fuel` characters at most. -/
def quotedRun (single : Bool) : Nat → List Char → Except Error QuotedRun
  | 0, rest => .ok ⟨[], rest, false⟩
  | _, [] => .ok ⟨[], [], false⟩
  | fuel + 1, c :: rest =>
    if isBlankOrBreak c then .ok ⟨[], c :: rest, false⟩
    else if single then
      match c, rest with
      | '\'', '\'' :: rest => add '\'' (quotedRun single fuel rest)
      | '\'', rest => .ok ⟨[], '\'' :: rest, false⟩
      | c, rest => add c (quotedRun single fuel rest)
    else if c == '"' then .ok ⟨[], c :: rest, false⟩
    else if c == '\\' then
      if firstIs false isBreak rest then .ok ⟨[], rest, true⟩
      else
        match readEscape? rest with
        | none => .error .badEscape
        | some (escaped, rest) => add escaped (quotedRun single fuel rest)
    else add c (quotedRun single fuel rest)
where
  add (c : Char) (run : Except Error QuotedRun) : Except Error QuotedRun :=
    run.map fun r => { r with text := c :: r.text }

/-- Reads a quoted scalar onto `text` in `fuel` runs; the opening quote is behind the cursor. -/
def readQuotedFrom (single : Bool) :
    Nat → List Char → Cursor → Except Error (List Char × Cursor)
  | 0, _, _ => .error .unterminatedQuote
  | fuel + 1, text, c => do
    if c.atDocumentMark then throw .documentMarkInQuote
    if c.isAtEnd then throw .unterminatedQuote
    let run ← quotedRun single fuel c.rest
    let text := text ++ run.text
    let c := c.advance (c.rest.length - run.rest.length)
    let c := if run.joined then c.readBreak.2 else c
    if c.next (· == if single then '\'' else '"') then return (text, c.advance 1)
    match Gap.read (fun _ => false) fuel { broken := run.joined } c with
    | none => throw .tabIndentation
    | some (gap, c) => readQuotedFrom single fuel (text ++ gap.text) c

def readQuoted (single : Bool) (c : Cursor) : Except Error (List Char × Cursor) :=
  readQuotedFrom single (c.rest.length + 1) [] (c.advance 1)

end PropertyTemplate.Yaml
