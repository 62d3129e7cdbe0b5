import Mathlib.Data.List.Infix
import PropertyTemplate.Proofs.Text.Occurrence

/-! # Occurrences that overlap

Two occurrences of a needle overlap in a border: a beginning of the needle that is also its end. No
occurrence reaches over a mark that the needle does not hold, so a mark can be written before an
occurrence, and it stays the leftmost one.
-/

namespace PropertyTemplate.Text

variable {α : Type} {needle text before after rest : List α} {mark : α}

/-- An occurrence that starts in `before` and does not end there reaches what follows. -/
theorem drop_append_isPrefix {i : Nat} (h : needle <+: (before ++ rest).drop i)
    (hi : i ≤ before.length) (hlt : before.length < i + needle.length) :
    before.drop i <+: needle ∧ needle.drop (before.length - i) <+: rest := by
  rw [List.drop_append_of_le_length hi] at h
  have hlen : (before.drop i).length = before.length - i := List.length_drop
  constructor
  · exact List.prefix_of_prefix_length_le (List.prefix_append _ _) h (by omega)
  · have hdrop := h.drop (before.length - i)
    rwa [List.drop_left' hlen] at hdrop

theorem mem_of_isPrefix_drop {i j : Nat} {c : α} (h : needle <+: text.drop i) (hi : i ≤ j)
    (hj : j < i + needle.length) (hget : text[j]? = some c) : c ∈ needle := by
  obtain ⟨tail, htail⟩ := h
  have hat : (text.drop i)[j - i]? = some c := by
    rw [List.getElem?_drop, Nat.add_sub_cancel' hi, hget]
  rw [← htail, List.getElem?_append_left (by omega)] at hat
  exact List.mem_of_getElem? hat

/-- A value that shares nothing with the needle keeps it from occurring where the value stands in
its place, and before. -/
theorem LeftmostCut.not_isPrefix_drop_value (h : LeftmostCut needle text before after)
    (hneedle : needle ≠ []) {value : List α} (hvalue : value ≠ [])
    (hforeign : ∀ c ∈ value, c ∉ needle) (rest : List α) :
    ∀ i < (before ++ value).length, ¬ needle <+: (before ++ value ++ rest).drop i := by
  intro i hi hp
  have hpos := List.length_pos_iff.2 hneedle
  have hvaluePos := List.length_pos_iff.2 hvalue
  rw [List.length_append] at hi
  rcases Nat.lt_or_ge before.length (i + needle.length) with hlt | hge
  · -- the occurrence would hold a part of the value
    obtain ⟨c, hc⟩ : ∃ c, value[i - before.length]? = some c :=
      ⟨_, List.getElem?_eq_getElem (by omega)⟩
    refine hforeign c (List.mem_of_getElem? hc) ?_
    refine mem_of_isPrefix_drop hp (Nat.le_max_left i before.length) (by omega) ?_
    rw [List.append_assoc, List.getElem?_append_right (by omega),
      List.getElem?_append_left (by omega), ← hc]
    congr 1
    omega
  · refine h.leftmost i (by omega) ?_
    rw [List.append_assoc] at hp
    rw [h.eq_append, List.drop_append_of_le_length (by omega)]
    exact (prefix_drop_of_append hp hge).trans (List.prefix_append _ _)

/-- A mark before an occurrence leaves it the leftmost one, whatever follows. -/
theorem LeftmostCut.insert_mark (h : LeftmostCut needle text before after)
    (hne : needle ≠ []) (hmark : mark ∉ needle) (rest : List α) :
    LeftmostCut needle (before ++ mark :: (needle ++ rest)) (before ++ [mark]) rest where
  eq_append := by rw [List.append_assoc, List.singleton_append]
  leftmost := by
    have hfront := h.not_isPrefix_drop_value hne (List.cons_ne_nil mark []) (by simpa using hmark)
      (needle ++ rest)
    rwa [List.append_assoc, List.singleton_append] at hfront

/-- No beginning of the needle is also its end, but the empty one and the whole needle. -/
def Borderless (needle : List α) : Prop :=
  ∀ border, border ≠ [] → border ≠ needle → border <+: needle → ¬ border <:+ needle

theorem borderless_iff :
    Borderless needle ↔ ∀ i < needle.length, 0 < i → ¬ needle.drop i <+: needle := by
  constructor
  · intro h i hlt hpos hp
    refine h _ ?_ ?_ hp (List.drop_suffix i needle)
    · rw [ne_eq, List.drop_eq_nil_iff]
      omega
    · intro heq
      have hlen := congrArg List.length heq
      rw [List.length_drop] at hlen
      omega
  · intro h border hne hproper hpre hsuf
    have hlen := List.length_pos_iff.2 hne
    have hle := hsuf.length_le
    have hlt : border.length ≠ needle.length := fun heq => hproper (hsuf.eq_of_length heq)
    rw [List.suffix_iff_eq_drop.1 hsuf] at hpre
    exact h _ (by omega) (by omega) hpre

instance [DecidableEq α] : Decidable (Borderless needle) := decidable_of_iff _ borderless_iff.symm

example : Borderless ['}'] ∧ Borderless ['%', '>'] ∧ ¬ Borderless ['a', 'b', 'a'] := by decide

namespace Borderless

theorem not_isPrefix_drop (h : Borderless needle) {i : Nat} (hpos : 0 < i)
    (hlt : i < needle.length) (rest : List α) : ¬ needle <+: (needle ++ rest).drop i := by
  intro hp
  refine borderless_iff.1 h i hlt hpos (drop_append_isPrefix hp (by omega) (by omega)).1

theorem leftmostCut_append (h : Borderless needle) (hno : ¬ needle <:+: text) (rest : List α) :
    LeftmostCut needle (text ++ (needle ++ rest)) text rest where
  eq_append := rfl
  leftmost i hi hp := by
    rcases Nat.lt_or_ge text.length (i + needle.length) with hlt | hge
    · have hreach := (drop_append_isPrefix hp (by omega) hlt).2
      refine borderless_iff.1 h (text.length - i) (by omega) (by omega) ?_
      exact List.prefix_of_prefix_length_le hreach (List.prefix_append _ _) (by simp)
    · exact hno (isInfix_of_prefix_drop (prefix_drop_of_append hp hge))

end Borderless

end PropertyTemplate.Text
