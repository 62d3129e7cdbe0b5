import PropertyTemplate.Yaml.Error
import PropertyTemplate.Yaml.Cursor

/-! # Block scalars

A block scalar is written as indented lines under a header. The header says whether line breaks are
kept or folded, what becomes of those at the end, and perhaps how far the lines are indented.
-/

namespace PropertyTemplate.Yaml

inductive Chomping
  | strip
  | clip
  | keep
  deriving DecidableEq, Repr

structure BlockHeader where
  chomping : Chomping := .clip
  indentation : Option Nat := none
  deriving DecidableEq, Repr

namespace BlockHeader

def indentation? (c : Char) : Option Nat :=
  if '1' ≤ c ∧ c ≤ '9' then some (c.toNat - '0'.toNat) else none

def chomping? (c : Char) : Option Chomping :=
  match c with
  | '+' => some .keep
  | '-' => some .strip
  | _ => none

/-- Reads the header: both parts may be missing, and stand in any order. -/
def read (c : Cursor) : BlockHeader × Cursor :=
  match c.rest with
  | [] => ({}, c)
  | x :: rest =>
    let y := rest.head?
    match chomping? x, indentation? x with
    | some chomping, _ =>
      match y.bind indentation? with
      | some n => (⟨chomping, some n⟩, c.advance 2)
      | none => (⟨chomping, none⟩, c.advance 1)
    | none, some n =>
      match y.bind chomping? with
      | some chomping => (⟨chomping, some n⟩, c.advance 2)
      | none => (⟨.clip, some n⟩, c.advance 1)
    | none, none => ({}, c)

end BlockHeader

/-- Spaces up to column `indent`, or all of them if the indentation is not known yet. -/
def skipIndentation (indent : Option Nat) (c : Cursor) : Cursor :=
  let spaces := (c.rest.takeWhile (· == ' ')).length
  c.advance (match indent with
    | none => spaces
    | some n => min spaces (n - c.column))

/-- Empty lines: their breaks, the widest indentation seen, and the cursor behind the indentation
of the first line that is not empty. -/
def readEmptyLines (indent : Option Nat) :
    Nat → Nat → Cursor → Except Error (List Char × Nat × Cursor)
  | 0, widest, c => .ok ([], widest, c)
  | fuel + 1, widest, c =>
    let c := skipIndentation indent c
    let widest := max widest c.column
    if c.next (· == '\t') && indent.all (c.column < ·) then .error .tabIndentation
    else if !c.next isBreak then .ok ([], widest, c)
    else do
      let (lineBreak, c) := c.readBreak
      let (breaks, widest, c) ← readEmptyLines indent fuel widest c
      return (lineBreak ++ breaks, widest, c)

/-- A block scalar that is read as far as the cursor: its text, the break of its last line, the
breaks of the empty lines after it, and whether that line starts with a blank. -/
structure BlockLines where
  text : List Char := []
  lastBreak : List Char := []
  emptyBreaks : List Char := []
  blank : Bool := false
  cursor : Cursor

namespace BlockLines

/-- What joins the last line to the next one. Folding makes a space of a single line feed between
two lines of which neither starts with a blank. -/
def joint (b : BlockLines) (folded blank : Bool) : List Char :=
  if folded && b.lastBreak == ['\n'] && !b.blank && !blank then
    (if b.emptyBreaks == [] then [' '] else []) ++ b.emptyBreaks
  else b.lastBreak ++ b.emptyBreaks

/-- Reads lines while they are indented as far as `indent`, `fuel` of them at most. -/
def read (folded : Bool) (indent : Nat) : Nat → BlockLines → Except Error BlockLines
  | 0, b => .ok b
  | fuel + 1, b =>
    if b.cursor.column ≠ indent || b.cursor.isAtEnd then .ok b
    else do
      let blank := b.cursor.next isBlank
      let (line, c) := b.cursor.takeWhile (!isBreak ·)
      let (lastBreak, c) := c.readBreak
      let (emptyBreaks, _, c) ← readEmptyLines (some indent) (fuel + 1) 0 c
      let text := b.text ++ b.joint folded blank ++ line
      read folded indent fuel ⟨text, lastBreak, emptyBreaks, blank, c⟩

def chomped (b : BlockLines) : Chomping → List Char
  | .strip => b.text
  | .clip => b.text ++ b.lastBreak
  | .keep => b.text ++ b.lastBreak ++ b.emptyBreaks

end BlockLines

/-- The block scalar at the cursor, which stands at its indicator. `parent` is the indentation of
the collection around it. -/
def readBlock (folded : Bool) (parent : Int) (c : Cursor) : Except Error (List Char × Cursor) := do
  let (header, c) := BlockHeader.read (c.advance 1)
  match c.skipLineEnd? with
  | none => throw .badBlockHeader
  | some c =>
    let stated := header.indentation.map fun n => (max parent 0).toNat + n
    let (emptyBreaks, widest, c) ← readEmptyLines stated (c.rest.length + 1) 0 c
    let indent := stated.getD (max widest (max (parent + 1) 1).toNat)
    let b ← BlockLines.read folded indent (c.rest.length + 1) { emptyBreaks, cursor := c }
    return (b.chomped header.chomping, b.cursor)

end PropertyTemplate.Yaml
