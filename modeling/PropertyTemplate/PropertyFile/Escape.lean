/-! # Escape sequences of property files

A backslash gives the character behind it a meaning of its own: four of them are control characters,
and one announces the four hexadecimal digits of a code point. All others mean themselves.
-/

namespace PropertyTemplate.PropertyFile

inductive EscapeError
  | tooFewDigits
  | notHexadecimal
  | notACharacter
  deriving DecidableEq, Repr

def EscapeError.message : EscapeError → String
  | tooFewDigits => "Malformed \\uxxxx encoding: not enough digits."
  | notHexadecimal => "Malformed \\uxxxx encoding: not hex."
  | notACharacter => "Malformed \\uxxxx encoding: invalid character."

def hexDigit? (c : Char) : Option Nat :=
  if '0' ≤ c ∧ c ≤ '9' then some (c.toNat - '0'.toNat)
  else if 'a' ≤ c ∧ c ≤ 'f' then some (c.toNat - 'a'.toNat + 10)
  else if 'A' ≤ c ∧ c ≤ 'F' then some (c.toNat - 'A'.toNat + 10)
  else none

/-- The value of hexadecimal digits, of which the first may be a plus sign instead. -/
def hexadecimal? (digits : List Char) : Option Nat :=
  let digits := match digits with
    | '+' :: digits => digits
    | digits => digits
  digits.foldlM (fun value c => (hexDigit? c).map (16 * value + ·)) 0

def codePoint (digits : List Char) : Except EscapeError Char :=
  match hexadecimal? digits with
  | none => .error .notHexadecimal
  | some code => if code.isValidChar then .ok (Char.ofNat code) else .error .notACharacter

def meaning (c : Char) : Char :=
  match c with
  | 't' => '\t'
  | 'n' => '\n'
  | 'f' => '\x0c'
  | 'r' => '\r'
  | c => c

/-- The text that is written with escape sequences. A backslash at the end is a null character. -/
def unescape : List Char → Except EscapeError (List Char)
  | [] => .ok []
  | '\\' :: 'u' :: a :: b :: c :: d :: rest => do
    let character ← codePoint [a, b, c, d]
    return character :: (← unescape rest)
  | '\\' :: 'u' :: _ => .error .tooFewDigits
  | '\\' :: c :: rest => (unescape rest).map (meaning c :: ·)
  | ['\\'] => .ok ['\x00']
  | c :: rest => (unescape rest).map (c :: ·)

end PropertyTemplate.PropertyFile
