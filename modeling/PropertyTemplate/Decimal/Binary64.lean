/-! # Binary floating point

A finite number of 64-bit floating point is a significand below `2 ^ 53` times a power of two.
A decimal is rounded to the nearest of them in exact arithmetic; a tie goes to the even significand.
-/

namespace PropertyTemplate.Decimal

/-- A floating point number; a finite one is `significand * 2 ^ exponent`, negated if `negative`. -/
inductive Binary64
  | nan
  | infinite (negative : Bool)
  | finite (negative : Bool) (significand : Nat) (exponent : Int)
  deriving DecidableEq, Repr, Inhabited

/-- The integer nearest to a quotient, and the even one of two that are equally near. -/
def roundQuotient (num den : Nat) : Nat :=
  let floor := num / den
  let rest := num % den
  if 2 * rest < den then floor
  else if den < 2 * rest then floor + 1
  else if floor % 2 = 0 then floor
  else floor + 1

namespace Binary64

def leastExponent : Int := -1074

def greatestExponent : Int := 971

def zero (negative : Bool) : Binary64 := .finite negative 0 leastExponent

/-- The number nearest to the quotient of two positive integers, each the other's scale. -/
def ofQuotient (negative : Bool) (num den : Nat) : Binary64 :=
  let scaled (e : Int) : Nat × Nat := (num * Nat.pow 2 (-e).toNat, den * Nat.pow 2 e.toNat)
  let guess : Int := max (Nat.log2 num - Nat.log2 den - 53 : Int) leastExponent
  let exponent := if Nat.pow 2 53 ≤ (scaled guess).1 / (scaled guess).2 then guess + 1 else guess
  let rounded := roundQuotient (scaled exponent).1 (scaled exponent).2
  let (significand, exponent) :=
    if rounded = Nat.pow 2 53 then (Nat.pow 2 52, exponent + 1) else (rounded, exponent)
  if greatestExponent < exponent then .infinite negative
  else .finite negative significand exponent

/-- The number nearest to `digits * 10 ^ exponent`. Exponents out of all reach are settled without
computing the power. -/
def ofDecimal (negative : Bool) (digits : Nat) (exponent : Int) : Binary64 :=
  if digits = 0 then zero negative
  else if 400 < exponent then .infinite negative
  else if exponent < -(400 + Nat.log2 digits : Int) then zero negative
  else ofQuotient negative (digits * Nat.pow 10 exponent.toNat) (Nat.pow 10 (-exponent).toNat)

def isFinite : Binary64 → Bool
  | finite .. => true
  | _ => false

/-- Numerical equality: the two zeros are equal, and here so are two that are not numbers. -/
def same : Binary64 → Binary64 → Bool
  | finite s m e, finite s' m' e' => (m == 0 && m' == 0) || (s == s' && m == m' && e == e')
  | x, y => decide (x = y)

end Binary64

end PropertyTemplate.Decimal
