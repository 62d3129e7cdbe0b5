import PropertyTemplate.Text.Occurrence

/-! # Leftmost occurrences

Two lists stand around the leftmost occurrence of a needle in a text. They are unique, a cut finds
them whenever the needle occurs at all, and a search from a position finds their place in the rest
of the text.
-/

namespace PropertyTemplate.Text

variable {α : Type} {needle text before after before' after' rest : List α} {position : Nat}

/-- The parts of a text around the leftmost occurrence of `needle`. -/
structure LeftmostCut (needle text before after : List α) : Prop where
  eq_append : text = before ++ (needle ++ after)
  leftmost : ∀ i < before.length, ¬ needle <+: text.drop i

namespace LeftmostCut

theorem isInfix (h : LeftmostCut needle text before after) : needle <:+: text :=
  ⟨before, after, by rw [h.eq_append, List.append_assoc]⟩

theorem drop_length (h : LeftmostCut needle text before after) :
    text.drop before.length = needle ++ after := by
  rw [h.eq_append, List.drop_left]

theorem length_eq (h : LeftmostCut needle text before after) :
    text.length = before.length + (needle.length + after.length) := by
  rw [h.eq_append, List.length_append, List.length_append]

theorem length_le (h : LeftmostCut needle text before after)
    (h' : LeftmostCut needle text before' after') : before.length ≤ before'.length := by
  apply Nat.le_of_not_lt
  intro hlt
  exact h.leftmost _ hlt (h'.drop_length ▸ List.prefix_append _ _)

theorem unique (h : LeftmostCut needle text before after)
    (h' : LeftmostCut needle text before' after') : before = before' ∧ after = after' := by
  have hlen : before.length = before'.length :=
    Nat.le_antisymm (h.length_le h') (h'.length_le h)
  obtain ⟨hbefore, hrest⟩ := List.append_inj (h.eq_append.symm.trans h'.eq_append) hlen
  exact ⟨hbefore, List.append_cancel_left hrest⟩

theorem of_isPrefix (h : needle <+: text) :
    LeftmostCut needle text [] (text.drop needle.length) where
  eq_append := by
    obtain ⟨tail, rfl⟩ := h
    simp
  leftmost i hi := absurd hi (Nat.not_lt_zero i)

theorem cons {c : α} (hp : ¬ needle <+: c :: text) (h : LeftmostCut needle text before after) :
    LeftmostCut needle (c :: text) (c :: before) after where
  eq_append := by rw [h.eq_append]; rfl
  leftmost
    | 0, _ => hp
    | i + 1, hi => h.leftmost i (Nat.lt_of_succ_lt_succ hi)

end LeftmostCut

theorem isInfix_of_prefix_drop {i : Nat} (h : needle <+: text.drop i) : needle <:+: text :=
  h.isInfix.trans (List.drop_suffix i text).isInfix

theorem prefix_drop_of_append {i : Nat} (h : needle <+: (text ++ rest).drop i)
    (hle : i + needle.length ≤ text.length) : needle <+: text.drop i := by
  rw [List.drop_append_of_le_length (by omega)] at h
  refine List.prefix_of_prefix_length_le h (List.prefix_append _ _) ?_
  rw [List.length_drop]
  omega

/-- Behind text in which no occurrence starts, a needle occurs only if it does in the rest. -/
theorem isInfix_of_append {front : List α}
    (hfront : ∀ i < front.length, ¬ needle <+: (front ++ text).drop i)
    (h : needle <:+: front ++ text) : needle <:+: text := by
  obtain ⟨before, after, heq⟩ := h
  rw [List.append_assoc] at heq
  have hp : needle <+: (front ++ text).drop before.length := by
    rw [← heq, List.drop_left]
    exact List.prefix_append _ _
  have hge : front.length ≤ before.length := Nat.le_of_not_lt fun hlt => hfront _ hlt hp
  rw [List.drop_append, List.drop_eq_nil_of_le hge, List.nil_append] at hp
  exact isInfix_of_prefix_drop hp

theorem not_isInfix_of_front {front : List α} (hne : needle ≠ [])
    (hfront : ∀ i < front.length, ¬ needle <+: (front ++ text).drop i) : ¬ needle <:+: front := by
  rintro ⟨before, after, rfl⟩
  have hpos := List.length_pos_iff.2 hne
  apply hfront before.length
  · simp only [List.length_append]
    omega
  · rw [List.append_assoc, List.append_assoc, List.drop_left]
    exact List.prefix_append _ _

namespace LeftmostCut

theorem replace_after (h : LeftmostCut needle text before after) (after' : List α) :
    LeftmostCut needle (before ++ (needle ++ after')) before after' where
  eq_append := rfl
  leftmost i hi hp := by
    rw [← List.append_assoc] at hp
    have hinside := prefix_drop_of_append hp (by rw [List.length_append]; omega)
    apply h.leftmost i hi
    rw [h.eq_append, ← List.append_assoc, List.drop_append_of_le_length (by simp; omega)]
    exact hinside.trans (List.prefix_append _ _)

/-- Text behind an occurrence makes none that is further to the left. -/
theorem append_right (h : LeftmostCut needle text before after) (rest : List α) :
    LeftmostCut needle (text ++ rest) before (after ++ rest) := by
  have happend := h.replace_after (after ++ rest)
  rwa [← List.append_assoc needle, ← List.append_assoc, ← h.eq_append] at happend

theorem append_left {front : List α}
    (hfront : ∀ i < front.length, ¬ needle <+: (front ++ text).drop i)
    (h : LeftmostCut needle text before after) :
    LeftmostCut needle (front ++ text) (front ++ before) after where
  eq_append := by rw [h.eq_append, List.append_assoc]
  leftmost i hi hp := by
    rcases Nat.lt_or_ge i front.length with hlt | hge
    · exact hfront i hlt hp
    · rw [List.length_append] at hi
      rw [List.drop_append, List.drop_eq_nil_of_le hge, List.nil_append] at hp
      exact h.leftmost _ (by omega) hp

end LeftmostCut

theorem exists_leftmostCut (h : needle <:+: text) :
    ∃ before after, LeftmostCut needle text before after := by
  induction text with
  | nil => exact ⟨[], _, .of_isPrefix (List.infix_nil.1 h ▸ List.prefix_rfl)⟩
  | cons c text ih =>
    by_cases hp : needle <+: c :: text
    · exact ⟨[], _, .of_isPrefix hp⟩
    · obtain ⟨before, after, hcut⟩ := ih ((List.infix_cons_iff.1 h).resolve_left hp)
      exact ⟨c :: before, after, hcut.cons hp⟩

theorem extract_of_drop_eq (h : text.drop position = before ++ rest) :
    text.extract position (position + before.length) = before := by
  rw [List.extract_eq_take_drop, h, Nat.add_sub_cancel_left, List.take_left]

theorem drop_of_drop_eq (h : text.drop position = before ++ rest) :
    text.drop (position + before.length) = rest := by
  rw [← List.drop_drop, h, List.drop_left]

theorem LeftmostCut.drop_behind (h : LeftmostCut needle (text.drop position) before after) :
    text.drop (position + before.length + needle.length) = after :=
  drop_of_drop_eq (drop_of_drop_eq h.eq_append)

section Cut

variable [DecidableEq α]

theorem leftmostCut_of_cut (h : cut needle text = some (before, after)) :
    LeftmostCut needle text before after := by
  induction text generalizing before with
  | nil =>
    by_cases hn : needle = []
    · subst hn
      obtain ⟨rfl, rfl⟩ : [] = before ∧ [] = after := by simpa [cut] using h
      exact .of_isPrefix List.prefix_rfl
    · simp [cut, hn] at h
  | cons c text ih =>
    unfold cut at h
    split at h
    · rename_i hp
      obtain ⟨rfl, rfl⟩ : [] = before ∧ _ = after := by simpa using h
      exact .of_isPrefix (List.isPrefixOf_iff_prefix.1 hp)
    · rename_i hp
      obtain ⟨⟨init, tail⟩, hcut, heq⟩ := Option.map_eq_some_iff.1 h
      obtain ⟨rfl, rfl⟩ := Prod.mk.injEq .. ▸ heq
      exact (ih hcut).cons fun hpre => hp (List.isPrefixOf_iff_prefix.2 hpre)

theorem cut_isSome_of_isInfix (h : needle <:+: text) : (cut needle text).isSome := by
  induction text with
  | nil => simp [cut, List.infix_nil.1 h]
  | cons c text ih =>
    unfold cut
    split
    · rfl
    · rename_i hp
      rw [Option.isSome_map]
      exact ih ((List.infix_cons_iff.1 h).resolve_left
        fun hpre => hp (List.isPrefixOf_iff_prefix.2 hpre))

theorem cut_eq_some_iff :
    cut needle text = some (before, after) ↔ LeftmostCut needle text before after := by
  constructor
  · exact leftmostCut_of_cut
  · intro h
    obtain ⟨⟨init, tail⟩, hcut⟩ := Option.isSome_iff_exists.1 (cut_isSome_of_isInfix h.isInfix)
    obtain ⟨rfl, rfl⟩ := (leftmostCut_of_cut hcut).unique h
    exact hcut

theorem cut_eq_none_iff : cut needle text = none ↔ ¬ needle <:+: text := by
  constructor
  · intro h hin
    simpa [h] using cut_isSome_of_isInfix hin
  · intro h
    cases hcut : cut needle text with
    | none => rfl
    | some parts => exact absurd (leftmostCut_of_cut hcut).isInfix h

theorem findFrom_eq_none (h : ¬ needle <:+: text.drop position) :
    findFrom needle text position = none := by
  unfold findFrom
  split
  · rw [cut_eq_none_iff.2 h, Option.map_none]
  · rfl

theorem not_isInfix_of_findFrom (hle : position ≤ text.length)
    (h : findFrom needle text position = none) : ¬ needle <:+: text.drop position := by
  rw [findFrom, if_pos hle, Option.map_eq_none_iff] at h
  exact cut_eq_none_iff.1 h

theorem findFrom_eq_some (hle : position ≤ text.length)
    (h : LeftmostCut needle (text.drop position) before after) :
    findFrom needle text position = some (position + before.length) ∧
      position + before.length + needle.length ≤ text.length ∧
      text.drop (position + before.length + needle.length) = after := by
  have hfound : findFrom needle text position = some (position + before.length) := by
    rw [findFrom, if_pos hle, cut_eq_some_iff.2 h, Option.map_some]
  exact ⟨hfound, (bounds_of_findFrom hfound).2, h.drop_behind⟩

theorem leftmostCut_of_findFrom {found : Nat} (h : findFrom needle text position = some found) :
    ∃ before after, LeftmostCut needle (text.drop position) before after ∧
      found = position + before.length := by
  unfold findFrom at h
  split at h
  · obtain ⟨⟨before, after⟩, hcut, rfl⟩ := Option.map_eq_some_iff.1 h
    exact ⟨before, after, leftmostCut_of_cut hcut, rfl⟩
  · simp at h

end Cut

end PropertyTemplate.Text
