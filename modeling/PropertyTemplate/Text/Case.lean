/-! # Comparison without regard to ASCII case

Only the 26 letters of ASCII have a case here: every other character equals itself alone.
-/

namespace PropertyTemplate.Text

def lowerAscii (c : Char) : Char :=
  if 'A' ≤ c ∧ c ≤ 'Z' then Char.ofNat (c.toNat + 32) else c

def eqIgnoringCase (s t : String) : Bool :=
  s.toList.map lowerAscii == t.toList.map lowerAscii

end PropertyTemplate.Text
