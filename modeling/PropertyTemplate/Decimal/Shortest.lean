import PropertyTemplate.Decimal.Binary64

/-! # Shortest decimals

The shortest decimal of a floating point number has the fewest digits among the decimals that round
to it, and is the nearest of those. It is found on grids of one digit, two digits and so on: if a
grid has a point that rounds to the number, then so does one of the two points next to it.
-/

namespace PropertyTemplate.Decimal

structure Scientific where
  digits : Nat
  exponent : Int
  deriving DecidableEq, Repr, Inhabited

namespace Scientific

/-- The same value without trailing zeros; the first argument bounds their number. -/
def trim : Nat → Scientific → Scientific
  | 0, s => s
  | fuel + 1, s =>
    if s.digits ≠ 0 ∧ s.digits % 10 = 0 then trim fuel ⟨s.digits / 10, s.exponent + 1⟩ else s

end Scientific

/-- The greatest `p` near the guess with `10 ^ p ≤ num / den`. -/
def decimalMagnitude (num den : Nat) : Int :=
  let guess : Int := ((Nat.log2 num : Int) - Nat.log2 den) * 30103 / 100000
  let reached (p : Int) : Bool := den * Nat.pow 10 p.toNat ≤ num * Nat.pow 10 (-p).toNat
  if reached (guess + 1) then guess + 1
  else if reached guess then guess
  else guess - 1

/-- A point of the grid of multiples of `10 ^ k` between `low` and `high` and nearest to `value`,
all three counted in `1 / den`. The ends belong to the interval if `closed`. -/
def gridPoint? (low value high den : Nat) (closed : Bool) (k : Int) : Option Scientific :=
  let unit := den * Nat.pow 10 k.toNat
  let zoom := Nat.pow 10 (-k).toNat
  let below := value * zoom / unit
  let hits (c : Nat) : Bool :=
    if closed then low * zoom ≤ c * unit ∧ c * unit ≤ high * zoom
    else low * zoom < c * unit ∧ c * unit < high * zoom
  match hits below, hits (below + 1) with
  | false, false => none
  | true, false => some ⟨below, k⟩
  | false, true => some ⟨below + 1, k⟩
  | true, true =>
    let down := value * zoom - below * unit
    let up := (below + 1) * unit - value * zoom
    if down < up ∨ (down = up ∧ below % 2 = 0) then some ⟨below, k⟩ else some ⟨below + 1, k⟩

def shortest (significand : Nat) (exponent : Int) : Scientific :=
  if significand = 0 then ⟨0, 0⟩
  else
    let scale := Nat.pow 2 (exponent - 2).toNat
    let den := Nat.pow 2 (2 - exponent).toNat
    let gap := if significand = Nat.pow 2 52 ∧ Binary64.leastExponent < exponent then 1 else 2
    let value := 4 * significand * scale
    let low := (4 * significand - gap) * scale
    let high := (4 * significand + 2) * scale
    let closed := significand % 2 = 0
    let magnitude := decimalMagnitude value den
    let found := (List.range 17).findSome? fun (n : Nat) =>
      gridPoint? low value high den closed (magnitude - n)
    (found.getD ⟨significand, 0⟩).trim 17

end PropertyTemplate.Decimal
