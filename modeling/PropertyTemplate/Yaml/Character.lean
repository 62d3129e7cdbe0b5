/-! # Characters of YAML

The classes of characters that tokens are made of. Line breaks are the carriage return, the line
feed, and three characters beyond ASCII.
-/

namespace PropertyTemplate.Yaml

def isBreak (c : Char) : Bool :=
  c == '\r' || c == '\n' || c == '\u0085' || c == '\u2028' || c == '\u2029'

def isBlank (c : Char) : Bool := c == ' ' || c == '\t'

def isBlankOrBreak (c : Char) : Bool := isBlank c || isBreak c

def isWord (c : Char) : Bool := c.isAlphanum || c == '-' || c == '_'

def isAllowed (c : Char) : Bool :=
  c == '\t' || c == '\n' || c == '\r' || (' ' ≤ c && c ≤ '~') || c == '\u0085'
    || ('\u00a0' ≤ c && c ≤ '\ud7ff') || ('\ue000' ≤ c && c ≤ '\ufffd') || 0x10000 ≤ c.toNat

/-- A character that the text of a plain or quoted scalar shows as itself. -/
def isPrintable (c : Char) : Bool :=
  c == '\n' || (' ' ≤ c && c ≤ '~') || ('\u00a0' ≤ c && c ≤ '\ud7ff')
    || ('\ue000' ≤ c && c ≤ '\ufffd' && c != '\ufeff') || 0x10000 ≤ c.toNat

/-- What `p` says of the first character, or `atEnd` if there is none. -/
def firstIs (atEnd : Bool) (p : Char → Bool) : List Char → Bool
  | [] => atEnd
  | c :: _ => p c

/-- The text ends, or goes on with a blank or a line break. -/
def startsBlank : List Char → Bool := firstIs true isBlankOrBreak

def startsBreak : List Char → Bool := firstIs true isBreak

def hexValue? (c : Char) : Option Nat :=
  if '0' ≤ c ∧ c ≤ '9' then some (c.toNat - '0'.toNat)
  else if 'a' ≤ c ∧ c ≤ 'f' then some (c.toNat - 'a'.toNat + 10)
  else if 'A' ≤ c ∧ c ≤ 'F' then some (c.toNat - 'A'.toNat + 10)
  else none

end PropertyTemplate.Yaml
