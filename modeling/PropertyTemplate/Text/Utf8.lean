/-! # Reading UTF-8

Bytes are read as UTF-8 as a whole or not at all. For bytes that are not, the place of the first
fault is where the longest valid beginning ends, and its length is that of the longest beginning of
a character there, if more than the end is missing.
-/

namespace PropertyTemplate.Text

/-- Where bytes stop being UTF-8, and how many bytes are wrong there unless the end is missing. -/
structure Utf8Error where
  index : Nat
  length : Option Nat
  deriving DecidableEq, Repr

def Utf8Error.message (e : Utf8Error) : String :=
  match e.length with
  | some n => "invalid utf-8 sequence of " ++ toString n ++ " bytes from index " ++ toString e.index
  | none => "incomplete utf-8 byte sequence from index " ++ toString e.index

/-- The bytes that may follow the first byte of a character. An empty list says that the byte starts
no character of several bytes. -/
def followers (lead : UInt8) : List (UInt8 × UInt8) :=
  let any : UInt8 × UInt8 := (0x80, 0xBF)
  if 0xC2 ≤ lead && lead ≤ 0xDF then [any]
  else if lead == 0xE0 then [(0xA0, 0xBF), any]
  else if lead == 0xED then [(0x80, 0x9F), any]
  else if 0xE1 ≤ lead && lead ≤ 0xEF then [any, any]
  else if lead == 0xF0 then [(0x90, 0xBF), any, any]
  else if lead == 0xF4 then [(0x80, 0x8F), any, any]
  else if 0xF1 ≤ lead && lead ≤ 0xF3 then [any, any, any]
  else []

/-- What is due before the next character: the ranges of its other bytes, the index of its first
byte and how many of its bytes were read. -/
structure Pending where
  ranges : List (UInt8 × UInt8)
  index : Nat
  count : Nat

/-- The first fault of bytes that start at `index`, inside a character that is begun or not. -/
def faultFrom (pending : Option Pending) (index : Nat) : List UInt8 → Option Utf8Error
  | [] => pending.map fun p => ⟨p.index, none⟩
  | byte :: bytes =>
    match pending with
    | none =>
      if byte < 0x80 then faultFrom none (index + 1) bytes
      else if (followers byte).isEmpty then some ⟨index, some 1⟩
      else faultFrom (some ⟨followers byte, index, 1⟩) (index + 1) bytes
    | some p =>
      match p.ranges with
      | [] => some ⟨p.index, some p.count⟩
      | (low, high) :: ranges =>
        if low ≤ byte && byte ≤ high then
          faultFrom (if ranges.isEmpty then none else some ⟨ranges, p.index, p.count + 1⟩)
            (index + 1) bytes
        else some ⟨p.index, some p.count⟩

def decodeUtf8 (bytes : ByteArray) : Except Utf8Error String :=
  match String.fromUTF8? bytes with
  | some text => .ok text
  | none => .error ((faultFrom none 0 bytes.toList).getD ⟨0, none⟩)

end PropertyTemplate.Text
