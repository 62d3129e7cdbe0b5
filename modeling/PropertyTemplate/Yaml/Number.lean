import PropertyTemplate.Decimal.Shortest

/-! # Numbers of YAML

A number is an integer or a floating point number. Integers are written in decimal. A floating
point number is written with the fewest digits that read back, and as far as sixteen places before
the point or five behind it without an exponent.
-/

namespace PropertyTemplate.Yaml

open Decimal

inductive Number
  | integer (value : Int)
  | float (value : Binary64)
  deriving DecidableEq, Repr

/-- Where positional notation ends. A number is written without an exponent if its point stands at
most `greatestPoint` places behind its first digit, and more than `leastPoint`. -/
structure FloatFormat where
  greatestPoint : Int
  leastPoint : Int

namespace FloatFormat

/-- The text of a positive decimal; the point of a positional one has a digit on either side. -/
def decimalText (f : FloatFormat) (s : Scientific) : List Char :=
  let digits := Nat.toDigits 10 s.digits
  let point : Int := digits.length + s.exponent
  let zeros (n : Int) : List Char := List.replicate n.toNat '0'
  if f.leastPoint < point ∧ point ≤ f.greatestPoint then
    if 0 ≤ s.exponent then digits ++ zeros s.exponent ++ ['.', '0']
    else if 0 < point then digits.take point.toNat ++ '.' :: digits.drop point.toNat
    else ['0', '.'] ++ zeros (-point) ++ digits
  else
    let fraction := digits.drop 1
    digits.take 1 ++ (if fraction.isEmpty then [] else '.' :: fraction)
      ++ 'e' :: (toString (point - 1)).toList

def floatText (f : FloatFormat) : Binary64 → List Char
  | .nan => ['.', 'n', 'a', 'n']
  | .infinite negative => (if negative then ['-'] else []) ++ ['.', 'i', 'n', 'f']
  | .finite negative significand exponent =>
    (if negative then ['-'] else []) ++
      if significand = 0 then ['0', '.', '0']
      else f.decimalText (shortest significand exponent)

end FloatFormat

namespace Number

/-- Numbers from `0.00001` to below `10 ^ 16` are written without an exponent. -/
def format : FloatFormat := ⟨16, -5⟩

def text : Number → String
  | .integer value => toString value
  | .float value => String.ofList (format.floatText value)

/-- Equality of keys: floating point numbers are compared as numbers. -/
def same : Number → Number → Bool
  | .integer m, .integer n => m == n
  | .float x, .float y => x.same y
  | _, _ => false

end Number

end PropertyTemplate.Yaml
