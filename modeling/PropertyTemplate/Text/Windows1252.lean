/-! # Windows-1252

A character set of one byte for each character. It is ASCII below 128 and agrees with Unicode from
160 on; of the bytes between, five have no character and stand for the control character of their
number.
-/

namespace PropertyTemplate.Text.Windows1252

/-- The characters of the bytes from 128 to 159. -/
def upperControls : List Char :=
  ['\u20ac', '\u0081', '\u201a', '\u0192', '\u201e', '\u2026', '\u2020', '\u2021',
    '\u02c6', '\u2030', '\u0160', '\u2039', '\u0152', '\u008d', '\u017d', '\u008f',
    '\u0090', '\u2018', '\u2019', '\u201c', '\u201d', '\u2022', '\u2013', '\u2014',
    '\u02dc', '\u2122', '\u0161', '\u203a', '\u0153', '\u009d', '\u017e', '\u0178']

def decodeByte (byte : UInt8) : Char :=
  if 128 ≤ byte ∧ byte < 160 then upperControls.getD (byte.toNat - 128) '\x00'
  else Char.ofNat byte.toNat

def decode (bytes : List UInt8) : List Char := bytes.map decodeByte

theorem decodeByte_ascii (byte : UInt8) (h : byte < 128) :
    decodeByte byte = Char.ofNat byte.toNat := by
  unfold decodeByte
  grind

end PropertyTemplate.Text.Windows1252
