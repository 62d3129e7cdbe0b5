import Mathlib.Data.List.Basic
import PropertyTemplate.Proofs.Text.Occurrence

/-! # Offsets in UTF-8

The octets of a text are those of its characters, and each position between characters has its
offset among the octets. The first octet of a character is told from the others, so the octets of a
needle occur only where its characters do. A search among octets finds the offset of what a search
among characters finds, and a string can be cut at the offsets of positions and nowhere else.
-/

namespace PropertyTemplate.Text

def encodeUtf8 (text : List Char) : List UInt8 := text.flatMap String.utf8EncodeChar

/-- How many octets lie before a position between characters. -/
def offsetOf (text : List Char) (position : Nat) : Nat := (encodeUtf8 (text.take position)).length

@[simp] theorem encodeUtf8_nil : encodeUtf8 [] = [] := rfl

@[simp] theorem encodeUtf8_cons (c : Char) (text : List Char) :
    encodeUtf8 (c :: text) = String.utf8EncodeChar c ++ encodeUtf8 text := List.flatMap_cons

@[simp] theorem encodeUtf8_append (x y : List Char) :
    encodeUtf8 (x ++ y) = encodeUtf8 x ++ encodeUtf8 y := List.flatMap_append

variable {text needle before after rest : List Char} {position start stop : Nat}

theorem encodeUtf8_eq_nil_iff : encodeUtf8 text = [] ↔ text = [] := by
  cases text with
  | nil => simp
  | cons c text => simp [String.utf8EncodeChar_ne_nil]

theorem length_encodeUtf8_pos (h : text ≠ []) : 0 < (encodeUtf8 text).length :=
  List.length_pos_iff.2 (mt encodeUtf8_eq_nil_iff.1 h)

theorem encodeUtf8_prefix_iff : encodeUtf8 needle <+: encodeUtf8 text ↔ needle <+: text := by
  constructor
  · rintro ⟨tail, h⟩
    apply List.isPrefix_of_utf8Encode_append_eq_utf8Encode tail.toByteArray
    rw [List.utf8Encode, List.utf8Encode, ← List.toByteArray_append]
    exact congrArg _ h
  · rintro ⟨tail, rfl⟩
    rw [encodeUtf8_append]
    exact List.prefix_append _ _

theorem exists_first_octet (h : needle ≠ []) :
    ∃ octet octets, encodeUtf8 needle = octet :: octets ∧ octet.IsUTF8FirstByte := by
  obtain ⟨c, tail, rfl⟩ := List.exists_cons_of_ne_nil h
  have hpos : 0 < (String.utf8EncodeChar c).length :=
    List.length_pos_iff.2 String.utf8EncodeChar_ne_nil
  refine ⟨(String.utf8EncodeChar c)[0], (String.utf8EncodeChar c).drop 1 ++ encodeUtf8 tail, ?_,
    UInt8.isUTF8FirstByte_getElem_utf8EncodeChar.2 rfl⟩
  rw [encodeUtf8_cons, ← List.cons_append, ← List.drop_eq_getElem_cons hpos, List.drop_zero]

theorem not_prefix_inside (hne : needle ≠ []) {c : Char} {i : Nat} (hpos : 0 < i)
    (hlt : i < (String.utf8EncodeChar c).length) (octets : List UInt8) :
    ¬ encodeUtf8 needle <+: (String.utf8EncodeChar c ++ octets).drop i := by
  intro h
  obtain ⟨octet, others, hneedle, hfirst⟩ := exists_first_octet hne
  rw [List.drop_append_of_le_length (Nat.le_of_lt hlt), List.drop_eq_getElem_cons hlt, hneedle,
    List.cons_append, List.cons_prefix_cons] at h
  rw [h.1] at hfirst
  exact Nat.ne_of_gt hpos (UInt8.isUTF8FirstByte_getElem_utf8EncodeChar.1 hfirst)

/-- The octets of a needle occur only where its characters do. -/
theorem exists_append_of_prefix_drop (hne : needle ≠ []) {i : Nat}
    (h : encodeUtf8 needle <+: (encodeUtf8 text).drop i) :
    ∃ before rest, text = before ++ rest ∧ i = (encodeUtf8 before).length ∧ needle <+: rest := by
  induction text generalizing i with
  | nil =>
    rw [encodeUtf8_nil, List.drop_nil, List.prefix_nil, encodeUtf8_eq_nil_iff] at h
    exact absurd h hne
  | cons c text ih =>
    rcases Nat.eq_zero_or_pos i with rfl | hpos
    · exact ⟨[], c :: text, rfl, rfl, encodeUtf8_prefix_iff.1 h⟩
    · -- No needle starts inside the first character, so the rest of the text is searched.
      rw [encodeUtf8_cons] at h
      have hge : (String.utf8EncodeChar c).length ≤ i :=
        Nat.le_of_not_lt fun hlt => not_prefix_inside hne hpos hlt _ h
      rw [List.drop_append, List.drop_eq_nil_of_le hge, List.nil_append] at h
      obtain ⟨before, rest, rfl, hlen, hprefix⟩ := ih h
      refine ⟨c :: before, rest, rfl, ?_, hprefix⟩
      rw [encodeUtf8_cons, List.length_append]
      omega

theorem isInfix_of_encodeUtf8 (hne : needle ≠ []) (h : encodeUtf8 needle <:+: encodeUtf8 text) :
    needle <:+: text := by
  obtain ⟨front, tail, heq⟩ := h
  have hprefix : encodeUtf8 needle <+: (encodeUtf8 text).drop front.length := by
    rw [← heq, List.append_assoc, List.drop_left]
    exact List.prefix_append _ _
  obtain ⟨before, rest, rfl, -, hneedle⟩ := exists_append_of_prefix_drop hne hprefix
  exact hneedle.isInfix.trans (List.suffix_append _ _).isInfix

theorem LeftmostCut.encodeUtf8 (hne : needle ≠ []) (h : LeftmostCut needle text before after) :
    LeftmostCut (encodeUtf8 needle) (encodeUtf8 text) (encodeUtf8 before) (encodeUtf8 after) where
  eq_append := by rw [h.eq_append, encodeUtf8_append, encodeUtf8_append]
  leftmost i hi hprefix := by
    obtain ⟨front, rest, htext, rfl, hneedle⟩ := exists_append_of_prefix_drop hne hprefix
    have hfront : front <+: text := htext ▸ List.prefix_append _ _
    have hbefore : before <+: text := h.eq_append ▸ List.prefix_append _ _
    -- Both are beginnings of the text, so the one of fewer octets is the one of fewer characters.
    have hlt : front.length < before.length := by
      apply Nat.lt_of_not_le
      intro hle
      obtain ⟨between, rfl⟩ := List.prefix_of_prefix_length_le hbefore hfront hle
      rw [encodeUtf8_append, List.length_append] at hi
      omega
    apply h.leftmost _ hlt
    rwa [htext, List.drop_left]

theorem offsetOf_add (text : List Char) (position count : Nat) :
    offsetOf text (position + count) =
      offsetOf text position + (encodeUtf8 ((text.drop position).take count)).length := by
  rw [offsetOf, List.take_add, encodeUtf8_append, List.length_append, offsetOf]

theorem offsetOf_add_of_prefix (h : needle <+: text.drop position) :
    offsetOf text (position + needle.length) =
      offsetOf text position + (encodeUtf8 needle).length := by
  rw [offsetOf_add, ← List.prefix_iff_eq_take.1 h]

theorem offsetOf_length (text : List Char) :
    offsetOf text text.length = (encodeUtf8 text).length := by
  rw [offsetOf, List.take_length]

theorem offsetOf_mono (h : start ≤ stop) : offsetOf text start ≤ offsetOf text stop := by
  obtain ⟨count, rfl⟩ := Nat.exists_eq_add_of_le h
  rw [offsetOf_add]
  exact Nat.le_add_right _ _

theorem offsetOf_strictMono (h : start < stop) (hle : stop ≤ text.length) :
    offsetOf text start < offsetOf text stop := by
  obtain ⟨count, rfl⟩ := Nat.exists_eq_add_of_lt h
  rw [Nat.add_assoc, offsetOf_add]
  apply Nat.lt_add_of_pos_right
  apply length_encodeUtf8_pos
  rw [← List.length_pos_iff, List.length_take, List.length_drop]
  omega

theorem offsetOf_inj (hstart : start ≤ text.length) (hstop : stop ≤ text.length)
    (h : offsetOf text start = offsetOf text stop) : start = stop := by
  rcases Nat.lt_trichotomy start stop with hlt | heq | hgt
  · exact absurd h (Nat.ne_of_lt (offsetOf_strictMono hlt hstop))
  · exact heq
  · exact absurd h (Nat.ne_of_gt (offsetOf_strictMono hgt hstart))

theorem take_offsetOf (text : List Char) (position : Nat) :
    (encodeUtf8 text).take (offsetOf text position) = encodeUtf8 (text.take position) := by
  conv => lhs; rw [← List.take_append_drop position text, encodeUtf8_append]
  rw [offsetOf, List.take_append_drop, List.take_left]

theorem drop_offsetOf (text : List Char) (position : Nat) :
    (encodeUtf8 text).drop (offsetOf text position) = encodeUtf8 (text.drop position) := by
  conv => lhs; rw [← List.take_append_drop position text, encodeUtf8_append]
  rw [offsetOf, List.take_append_drop, List.drop_left]

theorem findFrom_encodeUtf8 (hne : needle ≠ []) (hle : position ≤ text.length) :
    findFrom (encodeUtf8 needle) (encodeUtf8 text) (offsetOf text position) =
      (findFrom needle text position).map (offsetOf text) := by
  by_cases h : needle <:+: text.drop position
  · obtain ⟨before, after, hcut⟩ := exists_leftmostCut h
    have hencoded := hcut.encodeUtf8 hne
    rw [← drop_offsetOf] at hencoded
    have hbound : offsetOf text position ≤ (encodeUtf8 text).length :=
      offsetOf_length text ▸ offsetOf_mono hle
    rw [(findFrom_eq_some hbound hencoded).1, (findFrom_eq_some hle hcut).1, Option.map_some,
      offsetOf_add_of_prefix (hcut.eq_append ▸ List.prefix_append _ _)]
  · rw [findFrom_eq_none h, Option.map_none]
    apply findFrom_eq_none
    rw [drop_offsetOf]
    exact mt (isInfix_of_encodeUtf8 hne) h

theorem extract_encodeUtf8 (text : List Char) (h : start ≤ stop) :
    (encodeUtf8 text).extract (offsetOf text start) (offsetOf text stop) =
      encodeUtf8 (text.extract start stop) := by
  have hstart : offsetOf text start = offsetOf (text.take stop) start := by
    rw [offsetOf, offsetOf, List.take_take, Nat.min_eq_left h]
  rw [List.extract_eq_take_drop, List.extract_eq_take_drop, ← List.drop_take, ← List.drop_take,
    take_offsetOf, hstart, drop_offsetOf]

theorem offsetOf_add_of_findFrom {found : Nat} (h : findFrom needle text position = some found) :
    offsetOf text (found + needle.length) = offsetOf text found + (encodeUtf8 needle).length := by
  obtain ⟨before, after, hcut, rfl⟩ := leftmostCut_of_findFrom h
  apply offsetOf_add_of_prefix
  rw [drop_of_drop_eq hcut.eq_append]
  exact List.prefix_append _ _

section Escape

theorem encodeUtf8_escape : encodeUtf8 ['\\'] = [0x5C] := rfl

theorem offsetOf_succ_of_escape (h : text[position]? = some '\\') :
    offsetOf text (position + 1) = offsetOf text position + 1 := by
  rw [← List.head?_drop, ← List.singleton_prefix_iff_head?_eq_some] at h
  exact offsetOf_add_of_prefix h

theorem offsetOf_sub_one_of_escape (hpos : 0 < position) (h : text[position - 1]? = some '\\') :
    offsetOf text position - 1 = offsetOf text (position - 1) := by
  have hsucc := offsetOf_succ_of_escape h
  rw [Nat.sub_add_cancel hpos] at hsucc
  omega

/-- The octet of the escape mark is never a part of another character. -/
theorem octet_eq_escape_iff (hlt : position < text.length) :
    (encodeUtf8 text)[offsetOf text (position + 1) - 1]? = some 0x5C ↔
      text[position]? = some '\\' := by
  constructor
  · intro h
    rw [← List.head?_drop, ← List.singleton_prefix_iff_head?_eq_some, ← encodeUtf8_escape] at h
    obtain ⟨before, rest, htext, hoffset, hrest⟩ := exists_append_of_prefix_drop (by simp) h
    have hmark : text[before.length]? = some '\\' := by
      rw [← List.head?_drop, htext, List.drop_left, ← List.singleton_prefix_iff_head?_eq_some]
      exact hrest
    have hbefore : offsetOf text before.length = (encodeUtf8 before).length := by
      rw [offsetOf, htext, List.take_left]
    have hsucc := offsetOf_succ_of_escape hmark
    have hpos : offsetOf text 0 < offsetOf text (position + 1) :=
      offsetOf_strictMono (Nat.succ_pos position) hlt
    have hle : before.length + 1 ≤ text.length := (List.getElem?_eq_some_iff.1 hmark).1
    -- The mark is one octet, so it ends at the offset where the position behind it is.
    have hends : offsetOf text (before.length + 1) = offsetOf text (position + 1) := by omega
    rwa [Nat.succ.inj (offsetOf_inj hle hlt hends)] at hmark
  · intro h
    rw [offsetOf_succ_of_escape h, Nat.add_sub_cancel, ← List.head?_drop, drop_offsetOf,
      ← List.singleton_prefix_iff_head?_eq_some, ← encodeUtf8_escape, encodeUtf8_prefix_iff,
      List.singleton_prefix_iff_head?_eq_some, List.head?_drop]
    exact h

end Escape

section Strings

variable {text : String} {offset : Nat}

def IsBoundary (text : String) (offset : Nat) : Prop := String.Pos.Raw.IsValid text ⟨offset⟩

instance (text : String) (offset : Nat) : Decidable (IsBoundary text offset) :=
  inferInstanceAs (Decidable (String.Pos.Raw.IsValid text ⟨offset⟩))

/-- The text between two offsets, if they are in order and each is a boundary. -/
def slice? (text : String) (start stop : Nat) : Option String :=
  if h : IsBoundary text start ∧ IsBoundary text stop ∧ start ≤ stop then
    some (text.extract ⟨⟨start⟩, h.1⟩ ⟨⟨stop⟩, h.2.1⟩)
  else none

theorem exists_slice? (hstart : IsBoundary text start) (hstop : IsBoundary text stop)
    (hle : start ≤ stop) : ∃ part, slice? text start stop = some part :=
  ⟨_, dif_pos ⟨hstart, hstop, hle⟩⟩

theorem toByteArray_eq (text : String) :
    text.toByteArray = (encodeUtf8 text.toList).toByteArray := by
  conv => lhs; rw [← String.ofList_toList (s := text), String.toByteArray_ofList]
  rfl

theorem utf8ByteSize_eq (text : String) : text.utf8ByteSize = (encodeUtf8 text.toList).length := by
  rw [← String.size_toByteArray, toByteArray_eq, List.size_toByteArray]

theorem isBoundary_offsetOf (text : String) (position : Nat) :
    IsBoundary text (offsetOf text.toList position) := by
  rw [IsBoundary, String.Pos.Raw.isValid_iff_exists_take_toList]
  exact ⟨position, by rw [utf8ByteSize_eq, String.toList_ofList]; rfl⟩

theorem isBoundary_iff :
    IsBoundary text offset ↔
      ∃ position ≤ text.toList.length, offset = offsetOf text.toList position := by
  constructor
  · rw [IsBoundary, String.Pos.Raw.isValid_iff_exists_append]
    rintro ⟨front, back, rfl, h⟩
    refine ⟨front.toList.length, by simp, ?_⟩
    rw [offsetOf, String.toList_append, List.take_left, ← utf8ByteSize_eq]
    exact congrArg String.Pos.Raw.byteIdx h
  · rintro ⟨position, -, rfl⟩
    exact isBoundary_offsetOf text position

theorem le_utf8ByteSize (h : IsBoundary text offset) : offset ≤ text.utf8ByteSize :=
  String.Pos.Raw.IsValid.le_rawEndPos h

theorem isBoundary_utf8ByteSize (text : String) : IsBoundary text text.utf8ByteSize := by
  rw [utf8ByteSize_eq, ← offsetOf_length]
  exact isBoundary_offsetOf text _

theorem slice?_offsetOf (text : String) (h : start ≤ stop) :
    slice? text (offsetOf text.toList start) (offsetOf text.toList stop) =
      some (String.ofList (text.toList.extract start stop)) := by
  rw [slice?, dif_pos ⟨isBoundary_offsetOf text _, isBoundary_offsetOf text _, offsetOf_mono h⟩]
  congr 1
  rw [← String.toByteArray_inj, String.toByteArray_extract, toByteArray_eq, toByteArray_eq,
    String.toList_ofList, ← extract_encodeUtf8 _ h]
  apply ByteArray.ext
  rw [ByteArray.data_extract, List.data_toByteArray, List.data_toByteArray, List.extract_toArray]

/-- Inside a character a string cannot be cut. -/
example : slice? "né" 1 3 = some "é" ∧ slice? "né" 1 2 = none := by decide

end Strings

end PropertyTemplate.Text
