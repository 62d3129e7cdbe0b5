/-! # Occurrences

The leftmost occurrence of one list in another cuts it into what lies before and what lies after.
The cut loses nothing. A search from a position finds the leftmost occurrence that starts there or
later, and what it finds lies inside the text.
-/

namespace PropertyTemplate.Text

variable {α : Type} [DecidableEq α]

/-- The parts of a list around the leftmost occurrence of `needle`. -/
def cut (needle : List α) : List α → Option (List α × List α)
  | [] => if needle = [] then some ([], []) else none
  | c :: rest =>
    if needle.isPrefixOf (c :: rest) then some ([], (c :: rest).drop needle.length)
    else (cut needle rest).map fun parts => (c :: parts.1, parts.2)

theorem eq_append_of_cut {needle : List α} : ∀ {text before after : List α},
    cut needle text = some (before, after) → text = before ++ needle ++ after
  | [], before, after, h => by
      by_cases hn : needle = [] <;> simp_all [cut]
  | c :: rest, before, after, h => by
      unfold cut at h
      split at h
      · rename_i hp
        obtain ⟨tail, ht⟩ := List.isPrefixOf_iff_prefix.1 hp
        simp only [Option.some.injEq, Prod.mk.injEq] at h
        obtain ⟨rfl, rfl⟩ := h
        rw [← ht]
        simp
      · obtain ⟨⟨b, a⟩, hcut, heq⟩ := Option.map_eq_some_iff.1 h
        simp only [Prod.mk.injEq] at heq
        obtain ⟨rfl, rfl⟩ := heq
        rw [eq_append_of_cut hcut]
        simp

theorem length_of_cut {needle text before after : List α}
    (h : cut needle text = some (before, after)) :
    before.length + needle.length + after.length = text.length := by
  rw [eq_append_of_cut h]
  simp
  omega

/-- Where `needle` occurs first at or after a position. -/
def findFrom (needle text : List α) (position : Nat) : Option Nat :=
  if position ≤ text.length then
    (cut needle (text.drop position)).map fun parts => position + parts.1.length
  else none

theorem bounds_of_findFrom {needle text : List α} {position found : Nat}
    (h : findFrom needle text position = some found) :
    position ≤ found ∧ found + needle.length ≤ text.length := by
  unfold findFrom at h
  split at h
  · rename_i hle
    obtain ⟨⟨before, after⟩, hcut, rfl⟩ := Option.map_eq_some_iff.1 h
    have hlen := length_of_cut hcut
    rw [List.length_drop] at hlen
    dsimp only
    omega
  · simp at h

end PropertyTemplate.Text
