import Mathlib.Data.List.GetD
import PropertyTemplate.Text.Windows1252

/-! # UTF-8 that is read as Windows-1252

A text in UTF-8 whose octets are read as Windows-1252 keeps its characters of ASCII. Every other
character becomes several, none of which is of ASCII: the text grows, and different texts stay
different.
-/

namespace PropertyTemplate.Text.Windows1252

/-- The characters that the UTF-8 octets of a text are read as. -/
def misread (text : List Char) : List Char :=
  text.flatMap fun c => decode (String.utf8EncodeChar c)

def IsAscii (text : List Char) : Prop := ∀ c ∈ text, c.toNat < 128

instance : DecidablePred IsAscii := List.decidableBAll fun c : Char => c.toNat < 128

section Octets

theorem toList_loop_eq_append (bytes : ByteArray) (i : Nat) (read : List UInt8) :
    ByteArray.toList.loop bytes i read = read.reverse ++ bytes.data.toList.drop i := by
  fun_induction ByteArray.toList.loop bytes i read with
  | case1 i read h ih =>
    have hlt : i < bytes.data.toList.length := h
    have hget : bytes.get! i = bytes.data.toList[i] := by
      rw [Array.getElem_toList]
      exact getElem!_pos bytes.data i h
    rw [ih, List.drop_eq_getElem_cons hlt, hget, List.reverse_cons, List.append_assoc]
    rfl
  | case2 i read h =>
    have hle : bytes.data.toList.length ≤ i := Nat.not_lt.1 h
    rw [List.drop_of_length_le hle, List.append_nil]

theorem toList_toUTF8 (text : String) :
    text.toUTF8.toList = text.toList.flatMap String.utf8EncodeChar := by
  conv => lhs; rw [← String.ofList_toList (s := text)]
  rw [String.toUTF8_eq_toByteArray, String.toByteArray_ofList, ByteArray.toList,
    toList_loop_eq_append]
  exact List.toList_data_toByteArray

theorem le_ofNat_mod_add (v : Nat) {m mark : Nat} (h : 0 < m ∧ 128 ≤ mark ∧ m + mark ≤ 256) :
    128 ≤ UInt8.ofNat (v % m + mark) := by
  obtain ⟨hm, hmark, hle⟩ := h
  have hlt := Nat.mod_lt v hm
  rw [UInt8.le_iff_toNat_le, UInt8.toNat_ofNat', Nat.mod_eq_of_lt (by omega)]
  exact Nat.le_trans hmark (Nat.le_add_left ..)

theorem le_of_mem_utf8EncodeChar {c : Char} (h : 128 ≤ c.toNat) :
    ∀ byte ∈ String.utf8EncodeChar c, 128 ≤ byte := by
  have hlead : ¬ c.val.toNat ≤ 127 := Nat.not_le.2 h
  unfold String.utf8EncodeChar
  simp only [hlead, if_false]
  split
  · simp only [List.forall_mem_cons]
    exact ⟨le_ofNat_mod_add _ (by decide), le_ofNat_mod_add _ (by decide), nofun⟩
  split
  · simp only [List.forall_mem_cons]
    exact ⟨le_ofNat_mod_add _ (by decide), le_ofNat_mod_add _ (by decide),
      le_ofNat_mod_add _ (by decide), nofun⟩
  · simp only [List.forall_mem_cons]
    exact ⟨le_ofNat_mod_add _ (by decide), le_ofNat_mod_add _ (by decide),
      le_ofNat_mod_add _ (by decide), le_ofNat_mod_add _ (by decide), nofun⟩

theorem utf8EncodeChar_of_ascii {c : Char} (h : c.toNat < 128) :
    String.utf8EncodeChar c = [UInt8.ofNat c.toNat] := by
  have hle : c.val.toNat ≤ 127 := Nat.le_of_lt_succ h
  simp only [String.utf8EncodeChar, hle, if_true]
  rfl

variable {byte byte' : UInt8}

theorem toNat_decodeByte (h : ¬ (128 ≤ byte ∧ byte < 160)) :
    (decodeByte byte).toNat = byte.toNat := by
  have hvalid : byte.toNat.isValidChar := .inl (Nat.lt_of_lt_of_le byte.toNat_lt (by decide))
  rw [decodeByte, if_neg h, Char.ofNat, dif_pos hvalid]
  rfl

theorem decodeByte_of_control (h : 128 ≤ byte ∧ byte < 160) :
    byte.toNat - 128 < upperControls.length ∧
      decodeByte byte = upperControls.getD (byte.toNat - 128) '\x00' := by
  have hlt : byte.toNat < 160 := UInt8.lt_iff_toNat_lt.1 h.2
  refine ⟨?_, if_pos h⟩
  rw [show upperControls.length = 32 from rfl]
  omega

theorem bounds_of_mem_upperControls : ∀ c ∈ upperControls,
    128 ≤ c.toNat ∧ (c.toNat < 160 ∨ 256 ≤ c.toNat) := by
  have hall : upperControls.all
      (fun c => 128 ≤ c.toNat ∧ (c.toNat < 160 ∨ 256 ≤ c.toNat)) = true := by decide
  simpa only [List.all_eq_true, decide_eq_true_eq] using hall

theorem toNat_decodeByte_of_control (h : 128 ≤ byte ∧ byte < 160) :
    128 ≤ (decodeByte byte).toNat ∧
      ((decodeByte byte).toNat < 160 ∨ 256 ≤ (decodeByte byte).toNat) := by
  obtain ⟨hlt, hget⟩ := decodeByte_of_control h
  rw [hget, List.getD_eq_getElem _ _ hlt]
  exact bounds_of_mem_upperControls _ (List.getElem_mem hlt)

theorem toNat_decodeByte_of_not_control (h : ¬ (128 ≤ byte ∧ byte < 160)) :
    (decodeByte byte).toNat < 128 ∨
      160 ≤ (decodeByte byte).toNat ∧ (decodeByte byte).toNat < 256 := by
  rw [toNat_decodeByte h]
  have hlt := byte.toNat_lt
  rw [UInt8.le_iff_toNat_le, UInt8.lt_iff_toNat_lt, show (128 : UInt8).toNat = 128 from rfl,
    show (160 : UInt8).toNat = 160 from rfl] at h
  omega

theorem le_toNat_decodeByte (h : 128 ≤ byte) : 128 ≤ (decodeByte byte).toNat := by
  by_cases hcontrol : 128 ≤ byte ∧ byte < 160
  · exact (toNat_decodeByte_of_control hcontrol).1
  · rw [toNat_decodeByte hcontrol]
    exact UInt8.le_iff_toNat_le.1 h

theorem nodup_upperControls : upperControls.Nodup := by decide +kernel

theorem decodeByte_injective : Function.Injective decodeByte := by
  intro byte byte' heq
  by_cases h : 128 ≤ byte ∧ byte < 160 <;> by_cases h' : 128 ≤ byte' ∧ byte' < 160
  · obtain ⟨hlt, hget⟩ := decodeByte_of_control h
    obtain ⟨hlt', hget'⟩ := decodeByte_of_control h'
    rw [hget, hget', List.getD_inj hlt hlt' nodup_upperControls] at heq
    have hle : 128 ≤ byte.toNat := UInt8.le_iff_toNat_le.1 h.1
    have hle' : 128 ≤ byte'.toNat := UInt8.le_iff_toNat_le.1 h'.1
    exact UInt8.toNat_inj.1 (by omega)
  · have hcontrol := toNat_decodeByte_of_control h
    have hother := toNat_decodeByte_of_not_control h'
    rw [heq] at hcontrol
    omega
  · have hcontrol := toNat_decodeByte_of_control h'
    have hother := toNat_decodeByte_of_not_control h
    rw [heq] at hother
    omega
  · have hnat := congrArg Char.toNat heq
    rw [toNat_decodeByte h, toNat_decodeByte h'] at hnat
    exact UInt8.toNat_inj.1 hnat

end Octets

section Misread

variable {c : Char} {text : List Char} {P : Char → Prop}

theorem decode_toUTF8 (text : String) : decode text.toUTF8.toList = misread text.toList := by
  rw [toList_toUTF8, decode, List.map_flatMap]
  rfl

@[simp] theorem misread_nil : misread [] = [] := rfl

theorem misread_cons (c : Char) (text : List Char) :
    misread (c :: text) = decode (String.utf8EncodeChar c) ++ misread text := rfl

@[simp] theorem misread_append (text rest : List Char) :
    misread (text ++ rest) = misread text ++ misread rest := List.flatMap_append

theorem decode_utf8EncodeChar_of_ascii (h : c.toNat < 128) :
    decode (String.utf8EncodeChar c) = [c] := by
  have hlt : UInt8.ofNat c.toNat < 128 := by
    rw [UInt8.lt_iff_toNat_lt, UInt8.toNat_ofNat', Nat.mod_eq_of_lt (by omega)]
    exact h
  rw [utf8EncodeChar_of_ascii h, decode, List.map_singleton, decodeByte_ascii _ hlt,
    UInt8.toNat_ofNat', Nat.mod_eq_of_lt (by omega), Char.ofNat_toNat]

theorem misread_cons_of_ascii (h : c.toNat < 128) (text : List Char) :
    misread (c :: text) = c :: misread text := by
  rw [misread_cons, decode_utf8EncodeChar_of_ascii h, List.singleton_append]

theorem le_of_mem_decode_utf8EncodeChar (h : 128 ≤ c.toNat) :
    ∀ d ∈ decode (String.utf8EncodeChar c), 128 ≤ d.toNat := by
  intro d hd
  obtain ⟨byte, hbyte, rfl⟩ := List.mem_map.1 hd
  exact le_toNat_decodeByte (le_of_mem_utf8EncodeChar h byte hbyte)

/-- What holds of all characters beyond ASCII and of a text holds of the misread text. -/
theorem forall_mem_misread (hbeyond : ∀ d : Char, 128 ≤ d.toNat → P d) (h : ∀ d ∈ text, P d) :
    ∀ d ∈ misread text, P d := by
  intro d hd
  obtain ⟨c, hc, hd⟩ := List.mem_flatMap.1 hd
  rcases Nat.lt_or_ge c.toNat 128 with hascii | hge
  · rw [decode_utf8EncodeChar_of_ascii hascii, List.mem_singleton] at hd
    rw [hd]
    exact h c hc
  · exact hbeyond d (le_of_mem_decode_utf8EncodeChar hge d hd)

theorem forall_head?_misread (hbeyond : ∀ d : Char, 128 ≤ d.toNat → P d)
    (h : ∀ d ∈ text.head?, P d) : ∀ d ∈ (misread text).head?, P d := by
  cases text with
  | nil => nofun
  | cons c text =>
    intro d hd
    rcases Nat.lt_or_ge c.toNat 128 with hascii | hge
    · rw [misread_cons_of_ascii hascii] at hd
      exact h d hd
    · obtain ⟨first, rest, hdecode⟩ := List.exists_cons_of_ne_nil
        (show decode (String.utf8EncodeChar c) ≠ [] by simp [decode])
      have hfirst := le_of_mem_decode_utf8EncodeChar hge first (by simp [hdecode])
      rw [misread_cons, hdecode, List.cons_append, List.head?_cons, Option.mem_some_iff] at hd
      exact hd ▸ hbeyond first hfirst

theorem misread_of_isAscii (h : IsAscii text) : misread text = text := by
  induction text with
  | nil => rfl
  | cons c text ih =>
    obtain ⟨hc, htext⟩ := List.forall_mem_cons.1 h
    rw [misread_cons_of_ascii hc, ih htext]

theorem length_decode_utf8EncodeChar (c : Char) :
    (decode (String.utf8EncodeChar c)).length = c.utf8Size := by
  rw [decode, List.length_map, String.length_utf8EncodeChar]

theorem length_le_length_misread (text : List Char) : text.length ≤ (misread text).length := by
  induction text with
  | nil => exact Nat.le_refl 0
  | cons c text ih =>
    have hpos := c.utf8Size_pos
    rw [misread_cons, List.length_append, length_decode_utf8EncodeChar, List.length_cons]
    omega

theorem one_lt_utf8Size (h : 128 ≤ c.toNat) : 1 < c.utf8Size := by
  have hpos := c.utf8Size_pos
  have hne : c.utf8Size ≠ 1 := fun heq =>
    Nat.not_le.2 h (UInt32.le_iff_toNat_le.1 (Char.utf8Size_eq_one_iff.1 heq))
  omega

theorem length_lt_length_misread (h : ¬ IsAscii text) : text.length < (misread text).length := by
  induction text with
  | nil => exact absurd nofun h
  | cons c text ih =>
    rw [misread_cons, List.length_append, length_decode_utf8EncodeChar, List.length_cons]
    rcases Nat.lt_or_ge c.toNat 128 with hascii | hge
    · have htext : ¬ IsAscii text := fun htext => h (List.forall_mem_cons.2 ⟨hascii, htext⟩)
      have hpos := c.utf8Size_pos
      have hlt := ih htext
      omega
    · have hsize := one_lt_utf8Size hge
      have hle := length_le_length_misread text
      omega

theorem misread_eq_self_iff : misread text = text ↔ IsAscii text := by
  constructor
  · intro h
    refine Decidable.byContradiction fun hascii => ?_
    exact Nat.ne_of_gt (length_lt_length_misread hascii) (congrArg List.length h)
  · exact misread_of_isAscii

theorem misread_injective : Function.Injective misread := by
  intro text other heq
  have hoctets : text.flatMap String.utf8EncodeChar = other.flatMap String.utf8EncodeChar := by
    rw [← List.map_inj_right decodeByte_injective, List.map_flatMap, List.map_flatMap]
    exact heq
  have hstrings : String.ofList text = String.ofList other := by
    rw [← String.toByteArray_inj, String.toByteArray_ofList, String.toByteArray_ofList,
      List.utf8Encode, List.utf8Encode, hoctets]
  rw [← String.toList_ofList (l := text), hstrings, String.toList_ofList]

end Misread

end PropertyTemplate.Text.Windows1252
