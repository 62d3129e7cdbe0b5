import Mathlib.Data.List.Forall2
import PropertyTemplate.Text.Case

/-! # Letters in both cases

A character is read as a small letter if it is that letter or its capital. So a text equals a word
of small letters without regard to case if it spells the word in letters of either case.
-/

namespace PropertyTemplate.Text

theorem forall_char_of_lt {bound : Nat} {P : Char → Prop}
    (h : ∀ code < bound, P (Char.ofNat code)) : ∀ c : Char, c.toNat < bound → P c := by
  intro c hc
  rw [← Char.ofNat_toNat c]
  exact h c.toNat hc

/-- A text spells a word in letters of either case. -/
def Spells (text word : String) : Prop :=
  List.Forall₂ (fun c letter => c = letter ∨ c = letter.toUpper) text.toList word.toList

variable {c letter : Char} {text word : String}

theorem toNat_lowerAscii (c : Char) : (lowerAscii c).toNat =
    if 65 ≤ c.toNat ∧ c.toNat ≤ 90 then c.toNat + 32 else c.toNat := by
  by_cases hc : c.toNat < 91
  · exact forall_char_of_lt (P := fun c => (lowerAscii c).toNat =
      if 65 ≤ c.toNat ∧ c.toNat ≤ 90 then c.toNat + 32 else c.toNat) (by decide) c hc
  · have hcapital : ¬ ('A' ≤ c ∧ c ≤ 'Z') := fun h => hc (Nat.lt_succ_of_le h.2)
    rw [lowerAscii, if_neg hcapital, if_neg (by omega)]

theorem toNat_toUpper (hletter : 'a' ≤ letter ∧ letter ≤ 'z') :
    letter.toUpper.toNat + 32 = letter.toNat := by
  have hcode : letter.toNat < 123 := Nat.lt_succ_of_le hletter.2
  exact forall_char_of_lt (P := fun letter => 'a' ≤ letter →
    letter.toUpper.toNat + 32 = letter.toNat) (by decide) letter hcode hletter.1

theorem lowerAscii_eq_iff (hletter : 'a' ≤ letter ∧ letter ≤ 'z') :
    lowerAscii c = letter ↔ c = letter ∨ c = letter.toUpper := by
  have hlower := toNat_lowerAscii c
  have hupper := toNat_toUpper hletter
  have hleft : 97 ≤ letter.toNat := hletter.1
  have hright : letter.toNat ≤ 122 := hletter.2
  rw [← Char.toNat_inj, ← Char.toNat_inj, ← Char.toNat_inj, hlower]
  split <;> omega

theorem map_lowerAscii_eq_iff {s letters : List Char}
    (hletters : ∀ letter ∈ letters, 'a' ≤ letter ∧ letter ≤ 'z') :
    s.map lowerAscii = letters ↔
      List.Forall₂ (fun c letter => c = letter ∨ c = letter.toUpper) s letters := by
  rw [← List.forall₂_eq_eq_eq, List.forall₂_map_left_iff]
  induction letters generalizing s with
  | nil => simp
  | cons letter letters ih =>
    obtain ⟨hletter, hletters⟩ := List.forall_mem_cons.1 hletters
    cases s with
    | nil => simp
    | cons c s => rw [List.forall₂_cons, List.forall₂_cons, ih hletters, lowerAscii_eq_iff hletter]

theorem eqIgnoringCase_iff (hword : ∀ letter ∈ word.toList, 'a' ≤ letter ∧ letter ≤ 'z') :
    eqIgnoringCase text word = true ↔ Spells text word := by
  have hlower : word.toList.map lowerAscii = word.toList :=
    (map_lowerAscii_eq_iff hword).2 (List.forall₂_same.2 fun _ _ => .inl rfl)
  rw [eqIgnoringCase, beq_iff_eq, hlower, map_lowerAscii_eq_iff hword, Spells]

end PropertyTemplate.Text
