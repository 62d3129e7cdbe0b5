/-! # White space

The characters that Unicode calls white space.
-/

namespace PropertyTemplate.Text

def whiteSpaceRanges : List (Nat × Nat) :=
  [(0x09, 0x0D), (0x20, 0x20), (0x85, 0x85), (0xA0, 0xA0), (0x1680, 0x1680), (0x2000, 0x200A),
    (0x2028, 0x2029), (0x202F, 0x202F), (0x205F, 0x205F), (0x3000, 0x3000)]

def isWhiteSpace (c : Char) : Bool :=
  whiteSpaceRanges.any fun (first, last) => first ≤ c.toNat && c.toNat ≤ last

def dropLeadingSpace (text : List Char) : List Char := text.dropWhile isWhiteSpace

def dropTrailingSpace (text : List Char) : List Char :=
  (text.reverse.dropWhile isWhiteSpace).reverse

end PropertyTemplate.Text
