import Mathlib.Data.List.Sort
import PropertyTemplate.Property.Bindings

/-! # Bindings after several writes

Of several writes to one key the last one is found, and only bindings that were never written to are
empty. Bindings are known by what they bind: their entries are the pairs of bound keys and values,
and their keys are listed in order.
-/

namespace PropertyTemplate.Bindings

theorem get?_insertMany (b : Bindings) (writes : List (String × String)) (key : String) :
    (b.insertMany writes).get? key = (writes.reverse.lookup key).or (b.get? key) := by
  induction writes generalizing b with
  | nil => rfl
  | cons w writes ih =>
    rw [insertMany_cons, ih, get?_insert, List.reverse_cons, List.lookup_append, Option.or_assoc,
      lookup_cons_eq_ite]
    split <;> rfl

theorem get?_ofList (writes : List (String × String)) (key : String) :
    (ofList writes).get? key = writes.reverse.lookup key := by
  rw [ofList, get?_insertMany, get?_empty, Option.or_none]

theorem insertMany_append (b : Bindings) (writes later : List (String × String)) :
    b.insertMany (writes ++ later) = (b.insertMany writes).insertMany later := List.foldl_append

/-- A key has the value that was written to it last. -/
theorem get?_ofList_eq_some_iff {writes : List (String × String)} {key value : String} :
    (ofList writes).get? key = some value ↔ ∃ before after,
      writes = before ++ (key, value) :: after ∧ ∀ later ∈ after, later.1 ≠ key := by
  rw [get?_ofList, List.lookup_eq_some_iff]
  constructor
  · rintro ⟨after, before, heq, hafter⟩
    refine ⟨before.reverse, after.reverse, by simpa using List.reverse_eq_iff.1 heq, ?_⟩
    intro later hlater
    exact (bne_iff_ne.1 (hafter later (List.mem_reverse.1 hlater))).symm
  · rintro ⟨before, after, rfl, hafter⟩
    refine ⟨after.reverse, before.reverse, by simp, ?_⟩
    intro later hlater
    exact bne_iff_ne.2 (hafter later (List.mem_reverse.1 hlater)).symm

theorem exists_get?_ofList_iff {writes : List (String × String)} {key : String} :
    (∃ value, (ofList writes).get? key = some value) ↔ ∃ write ∈ writes, write.1 = key := by
  rw [get?_ofList, ← Option.isSome_iff_exists, List.lookup_isSome_iff]
  simp only [List.mem_reverse, beq_iff_eq, eq_comm (a := key)]

theorem isEmpty_insert (b : Bindings) (key value : String) :
    (b.insert key value).isEmpty = false := by
  obtain ⟨entries, _⟩ := b
  cases entries with
  | nil => rfl
  | cons e entries =>
    simp only [insert, isEmpty, insertEntry]
    split
    · rfl
    · split <;> rfl

theorem isEmpty_insertMany (b : Bindings) (writes : List (String × String)) :
    (b.insertMany writes).isEmpty = (b.isEmpty && writes.isEmpty) := by
  induction writes generalizing b with
  | nil => simp
  | cons w writes ih => simp [ih, isEmpty_insert]

theorem isEmpty_ofList (writes : List (String × String)) :
    (ofList writes).isEmpty = writes.isEmpty := by
  rw [ofList, isEmpty_insertMany]
  rfl

section Entries

variable {b b' : Bindings} {key value : String}

theorem lookup_eq_some_iff_mem : ∀ {entries : List (String × String)}, Ordered entries →
    (entries.lookup key = some value ↔ (key, value) ∈ entries)
  | [], _ => by simp
  | (k, v) :: rest, h => by
      obtain ⟨hk, hrest⟩ := List.pairwise_cons.1 h
      rw [lookup_cons_eq_ite, List.mem_cons, Prod.mk.injEq]
      split
      · rename_i heq
        subst heq
        rw [Option.some.injEq]
        constructor
        · exact fun hv => .inl ⟨rfl, hv.symm⟩
        · rintro (⟨-, hv⟩ | hmem)
          · exact hv.symm
          · exact absurd (hk _ hmem) (String.lt_irrefl key)
      · rename_i hne
        rw [lookup_eq_some_iff_mem hrest]
        constructor
        · exact .inr
        · rintro (⟨heq, -⟩ | hmem)
          · exact absurd heq hne
          · exact hmem

theorem mem_entries_iff : (key, value) ∈ b.entries ↔ b.get? key = some value :=
  (lookup_eq_some_iff_mem b.ordered).symm

theorem mem_keys_iff : key ∈ b.keys ↔ ∃ value, b.get? key = some value := by
  simp only [keys, List.mem_map, ← mem_entries_iff, Prod.exists, exists_and_right,
    exists_eq_right]

theorem keys_increasing (b : Bindings) : b.keys.Pairwise (· < ·) := List.pairwise_map.2 b.ordered

theorem eq_of_get? (h : ∀ key, b.get? key = b'.get? key) : b = b' := by
  have hirrefl : Std.Irrefl fun e e' : String × String => e.1 < e'.1 :=
    ⟨fun e => String.lt_irrefl e.1⟩
  have hantisymm : Std.Antisymm fun e e' : String × String => e.1 < e'.1 :=
    ⟨fun _ _ hlt hgt => absurd hgt (String.lt_asymm hlt)⟩
  have hentries : b.entries = b'.entries := by
    apply List.Pairwise.eq_of_mem_iff b.ordered b'.ordered
    rintro ⟨key, value⟩
    rw [mem_entries_iff, mem_entries_iff, h]
  cases b
  cases b'
  cases hentries
  rfl

theorem lookup_reverse : ∀ {entries : List (String × String)}, Ordered entries →
    entries.reverse.lookup key = entries.lookup key
  | [], _ => rfl
  | (k, v) :: rest, h => by
      obtain ⟨hk, hrest⟩ := List.pairwise_cons.1 h
      rw [List.reverse_cons, List.lookup_append, lookup_reverse hrest, lookup_cons_eq_ite,
        lookup_cons_eq_ite]
      split
      · rename_i heq
        subst heq
        have hnone : rest.lookup key = none := by
          rw [List.lookup_eq_none_iff]
          intro e he
          exact bne_iff_ne.2 fun heq => String.lt_irrefl key (heq ▸ hk e he)
        rw [hnone, Option.none_or]
      · exact Option.or_none

/-- Entries that are written over bindings have precedence over them. -/
theorem get?_insertMany_entries (b b' : Bindings) (key : String) :
    (b.insertMany b'.entries).get? key = (b'.get? key).or (b.get? key) := by
  rw [get?_insertMany, lookup_reverse b'.ordered]
  rfl

theorem entries_ofList_perm {writes : List (String × String)}
    (h : (writes.map (·.1)).Nodup) : (ofList writes).entries.Perm writes := by
  have hentries : (ofList writes).entries.Nodup := by
    refine List.Pairwise.imp ?_ (ofList writes).ordered
    rintro e _ hlt rfl
    exact String.lt_irrefl e.1 hlt
  rw [List.perm_ext_iff_of_nodup hentries (.of_map _ h)]
  rintro ⟨key, value⟩
  rw [mem_entries_iff, get?_ofList_eq_some_iff]
  constructor
  · rintro ⟨before, after, rfl, -⟩
    simp
  · intro hmem
    obtain ⟨before, after, rfl⟩ := List.append_of_mem hmem
    refine ⟨before, after, rfl, ?_⟩
    intro later hlater heq
    rw [List.map_append, List.map_cons] at h
    have hnot := (List.nodup_cons.1 (List.nodup_append.1 h).2.1).1
    exact hnot (List.mem_map.2 ⟨later, hlater, heq⟩)

end Entries

end PropertyTemplate.Bindings
