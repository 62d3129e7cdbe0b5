import PropertyTemplate.Yaml.Error
import PropertyTemplate.Yaml.Node
import PropertyTemplate.Yaml.Value

/-! # Scalars

A plain scalar is null, a boolean, an integer, a floating point number or else a text. Digits with a
leading zero are a text. An integer of more than 64 bits is refused if it has at most 128 bits, and
is a floating point number if it has more.
-/

namespace PropertyTemplate.Yaml.Scalar

open Decimal

def isNull (s : String) : Bool := s == "null" || s == "Null" || s == "NULL" || s == "~"

def boolean? (s : String) : Option Bool :=
  if s == "true" || s == "True" || s == "TRUE" then some true
  else if s == "false" || s == "False" || s == "FALSE" then some false
  else none

def digit? (base : Nat) (c : Char) : Option Nat :=
  let value :=
    if '0' ≤ c ∧ c ≤ '9' then c.toNat - '0'.toNat
    else if 'a' ≤ c ∧ c ≤ 'z' then c.toNat - 'a'.toNat + 10
    else if 'A' ≤ c ∧ c ≤ 'Z' then c.toNat - 'A'.toNat + 10
    else base
  if value < base then some value else none

def natural? (base : Nat) (digits : List Char) : Option Nat :=
  if digits.isEmpty then none
  else digits.foldlM (fun value c => (digit? base c).map (base * value + ·)) 0

def unsigned : List Char → List Char
  | '+' :: rest => rest
  | '-' :: rest => rest
  | s => s

/-- More than one digit, of which the first is zero, perhaps behind a sign. -/
def hasLeadingZero (s : List Char) : Bool :=
  match unsigned s with
  | '0' :: c :: rest => (c :: rest).all Char.isDigit
  | _ => false

/-- The value of digits in the base that they name, or else in base ten. -/
def magnitude? : List Char → Option Nat
  | '0' :: 'x' :: digits => natural? 16 digits
  | '0' :: 'o' :: digits => natural? 8 digits
  | '0' :: 'b' :: digits => natural? 2 digits
  | digits => natural? 10 digits

inductive IntegerReading
  | value (n : Int)
  | outOfRange
  | tooLong
  deriving DecidableEq, Repr

/-- An integer of 64 bits is read, and one of 128 bits is out of range; a negative one is signed. -/
def IntegerReading.ofMagnitude (negative : Bool) (n : Nat) : IntegerReading :=
  if negative then
    if n ≤ Nat.pow 2 63 then .value (-n) else if n ≤ Nat.pow 2 127 then .outOfRange else .tooLong
  else
    if n < Nat.pow 2 64 then .value n else if n < Nat.pow 2 128 then .outOfRange else .tooLong

def integer? (s : List Char) : Option IntegerReading :=
  if hasLeadingZero s then none
  else
    match s with
    | '-' :: rest => (magnitude? rest).map (.ofMagnitude true)
    | '+' :: rest => (magnitude? rest).map (.ofMagnitude false)
    | s => (magnitude? s).map (.ofMagnitude false)

def exponent? : List Char → Option Int
  | [] => some 0
  | c :: rest =>
    if c == 'e' || c == 'E' then
      match rest with
      | '-' :: digits => (natural? 10 digits).map fun n => -(n : Int)
      | '+' :: digits => (natural? 10 digits).map fun n => (n : Int)
      | digits => (natural? 10 digits).map fun n => (n : Int)
    else none

/-- The floating point number nearest to a decimal without a sign. -/
def decimal? (negative : Bool) (s : List Char) : Option Binary64 := do
  let whole := s.takeWhile Char.isDigit
  let rest := s.dropWhile Char.isDigit
  let (fraction, rest) := match rest with
    | '.' :: rest => (rest.takeWhile Char.isDigit, rest.dropWhile Char.isDigit)
    | rest => ([], rest)
  let digits ← natural? 10 (whole ++ fraction)
  return .ofDecimal negative digits ((← exponent? rest) - fraction.length)

/-- The floating point number that a text is. Overflow is none, infinity has a word of its own. -/
def float? (s : List Char) : Option Binary64 :=
  let finite? (x : Option Binary64) : Option Binary64 := x.filter Binary64.isFinite
  let isInfinity (t : List Char) : Bool := [".inf", ".Inf", ".INF"].contains (String.ofList t)
  if [".nan", ".NaN", ".NAN"].contains (String.ofList s) then some .nan
  else
    match s with
    | '+' :: rest =>
      if isInfinity rest then some (.infinite false) else finite? (decimal? false rest)
    | '-' :: rest =>
      if isInfinity rest then some (.infinite true) else finite? (decimal? true rest)
    | s => if isInfinity s then some (.infinite false) else finite? (decimal? false s)

def ofPlain (text : List Char) : Except Error Value :=
  let s := String.ofList text
  if text.isEmpty || isNull s then .ok .null
  else
    match boolean? s with
    | some b => .ok (.boolean b)
    | none =>
      match integer? text with
      | some (.value n) => .ok (.number (.integer n))
      | some .outOfRange => .error .integerOutOfRange
      | _ =>
        if hasLeadingZero text then .ok (.string s)
        else .ok (((float? text).map fun x => Value.number (.float x)).getD (.string s))

def ofTyped (type : ScalarType) (text : List Char) : Except Error Value :=
  let s := String.ofList text
  match type with
  | .null => if isNull s then .ok .null else .error .mistypedScalar
  | .boolean =>
    match boolean? s with
    | some b => .ok (.boolean b)
    | none => .error .mistypedScalar
  | .integer =>
    match integer? text with
    | some (.value n) => .ok (.number (.integer n))
    | some .outOfRange => .error .integerOutOfRange
    | _ => .error .mistypedScalar
  | .float =>
    match float? text with
    | some x => .ok (.number (.float x))
    | none => .error .mistypedScalar

end PropertyTemplate.Yaml.Scalar
