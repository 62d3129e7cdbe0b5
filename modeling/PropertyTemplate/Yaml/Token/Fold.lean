import PropertyTemplate.Yaml.Cursor

/-! # Folding

White space inside a plain or quoted scalar may run over line breaks. Within a line it stands for
itself; a single line feed becomes a space, and further breaks stand for themselves.
-/

namespace PropertyTemplate.Yaml

/-- White space between two runs of a scalar: the blanks of the first line, or the first line break
and those after it. -/
structure Gap where
  blanks : List Char := []
  firstBreak : List Char := []
  laterBreaks : List Char := []
  broken : Bool := false
  deriving DecidableEq, Repr

namespace Gap

def text (g : Gap) : List Char :=
  if !g.broken then g.blanks
  else if g.firstBreak == ['\n'] then (if g.laterBreaks == [] then [' '] else g.laterBreaks)
  else g.firstBreak ++ g.laterBreaks

/-- The gap with a blank at its end; blanks after a line break do not count. -/
def addBlank (g : Gap) (blank : Char) : Gap :=
  if g.broken then g else { g with blanks := g.blanks ++ [blank] }

def addBreak (g : Gap) (lineBreak : List Char) : Gap :=
  if g.broken then { g with laterBreaks := g.laterBreaks ++ lineBreak }
  else { g with blanks := [], firstBreak := lineBreak, broken := true }

/-- Reads blanks and line breaks onto a gap, `fuel` of them at most. `noTab` tells the columns in
which a tab may not stand after a line break. -/
def read (noTab : Nat → Bool) : Nat → Gap → Cursor → Option (Gap × Cursor)
  | 0, g, c => some (g, c)
  | fuel + 1, g, c =>
    match c.rest with
    | [] => some (g, c)
    | b :: _ =>
      if isBlank b then
        if g.broken && b == '\t' && noTab c.column then none
        else read noTab fuel (g.addBlank b) (c.advance 1)
      else if isBreak b then
        let (lineBreak, c) := c.readBreak
        read noTab fuel (g.addBreak lineBreak) c
      else some (g, c)

end Gap

end PropertyTemplate.Yaml
