import PropertyTemplate.Yaml.Character

/-! # Cursors

A cursor is the rest of a text with the place where the rest starts. Going forward never makes the
rest longer.
-/

namespace PropertyTemplate.Yaml

/-- The rest of a text, how many octets of it were read before, and the line and column where it
starts. -/
structure Cursor where
  rest : List Char
  index : Nat := 0
  line : Nat := 0
  column : Nat := 0
  deriving DecidableEq, Repr

def octets (text : List Char) : Nat := text.foldr (fun c n => c.utf8Size + n) 0

namespace Cursor

def advance (n : Nat) (c : Cursor) : Cursor :=
  { c with
    rest := c.rest.drop n, index := c.index + octets (c.rest.take n), column := c.column + n }

/-- The line break at the cursor, as it counts in a scalar, and the cursor behind it. Breaks of
ASCII and the next-line character count as a line feed. -/
def readBreak (c : Cursor) : List Char × Cursor :=
  match c.rest with
  | '\r' :: '\n' :: rest => (['\n'], ⟨rest, c.index + 2, c.line + 1, 0⟩)
  | b :: rest =>
    if isBreak b then
      (if b == '\u2028' || b == '\u2029' then [b] else ['\n'],
        ⟨rest, c.index + b.utf8Size, c.line + 1, 0⟩)
    else ([], c)
  | [] => ([], c)

def takeWhile (p : Char → Bool) (c : Cursor) : List Char × Cursor :=
  let run := c.rest.takeWhile p
  (run, c.advance run.length)

def skipWhile (p : Char → Bool) (c : Cursor) : Cursor := (c.takeWhile p).2

/-- A document mark, three hyphens or dots, starts the line. -/
def atMark (mark : Char) (c : Cursor) : Bool :=
  match c.rest with
  | x :: y :: z :: rest =>
    c.column == 0 && x == mark && y == mark && z == mark && startsBlank rest
  | _ => false

def atDocumentMark (c : Cursor) : Bool := c.atMark '-' || c.atMark '.'

def next (p : Char → Bool) (c : Cursor) : Bool := firstIs false p c.rest

def isAtEnd (c : Cursor) : Bool := c.rest.isEmpty

/-- Blanks, then perhaps a comment, up to the end of the line and over it. -/
def skipLineEnd? (c : Cursor) : Option Cursor :=
  let c := c.skipWhile isBlank
  let c := if c.next (· == '#') then c.skipWhile (!isBreak ·) else c
  if startsBreak c.rest then some c.readBreak.2 else none

end Cursor

end PropertyTemplate.Yaml
