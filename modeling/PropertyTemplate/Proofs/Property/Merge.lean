import Mathlib.Data.List.Induction
import PropertyTemplate.Placeholder.Resolver
import PropertyTemplate.Proofs.Property.Bindings
import PropertyTemplate.Property.Stack

/-! # The merged map of a stack

A stack answers as one map does, in which each key has its value in the first source that binds it.
Its keys are the keys of that map in the order of their code points. What the sources are, and which
of them is the first, follows from the history of the stack alone.
-/

namespace PropertyTemplate

section Repetitions

variable {α : Type} [BEq α]

theorem eraseReps_loop_eq (a : α) (l kept : List α) :
    List.eraseRepsBy.loop (· == ·) a l kept = kept.reverse ++ (a :: l).eraseReps := by
  induction l generalizing a kept with
  | nil => simp [List.eraseReps, List.eraseRepsBy, List.eraseRepsBy.loop]
  | cons b l ih =>
    rw [List.eraseReps, List.eraseRepsBy, List.eraseRepsBy.loop, List.eraseRepsBy.loop]
    split
    · rw [ih, ih, List.reverse_nil, List.nil_append]
    · rw [ih, ih]
      simp

theorem eraseReps_cons_cons (a b : α) (l : List α) : (a :: b :: l).eraseReps =
    if a == b then (a :: l).eraseReps else a :: (b :: l).eraseReps := by
  rw [List.eraseReps, List.eraseRepsBy, List.eraseRepsBy.loop]
  split <;> rename_i h <;> simp [h, eraseReps_loop_eq]

theorem mem_eraseReps_cons [LawfulBEq α] {a c : α} {l : List α} :
    c ∈ (a :: l).eraseReps ↔ c ∈ a :: l := by
  induction l generalizing a with
  | nil => rfl
  | cons b l ih =>
    rw [eraseReps_cons_cons]
    split
    · rename_i heq
      rw [ih, ← eq_of_beq heq]
      simp
    · rw [List.mem_cons, ih, ← List.mem_cons]

theorem mem_eraseReps [LawfulBEq α] {c : α} : ∀ {l : List α}, c ∈ l.eraseReps ↔ c ∈ l
  | [] => Iff.rfl
  | _ :: _ => mem_eraseReps_cons

theorem eraseReps_increasing : ∀ {l : List String}, l.Pairwise (· ≤ ·) →
    l.eraseReps.Pairwise (· < ·)
  | [], _ => .nil
  | a :: l, h => by
      induction l generalizing a with
      | nil => exact List.pairwise_singleton _ _
      | cons b l ih =>
        obtain ⟨ha, hb⟩ := List.pairwise_cons.1 h
        rw [eraseReps_cons_cons]
        split
        · rename_i heq
          rw [← eq_of_beq heq] at hb
          exact ih a hb
        · rename_i hne
          have hab : a < b := Std.lt_of_le_of_ne (ha b List.mem_cons_self) (by simpa using hne)
          refine List.pairwise_cons.2 ⟨?_, ih b hb⟩
          intro c hc
          rcases List.mem_cons.1 (mem_eraseReps.1 hc) with rfl | hc
          · exact hab
          · exact Std.lt_of_lt_of_le hab ((List.pairwise_cons.1 hb).1 c hc)

end Repetitions

section CodePoints

def codePoints (s : String) : List Nat := s.toList.map Char.toNat

theorem map_toNat_lt_iff : ∀ {s t : List Char}, s.map Char.toNat < t.map Char.toNat ↔ s < t
  | [], [] => by simp
  | [], _ :: _ => by simp
  | _ :: _, [] => by simp
  | a :: s, b :: t => by
      simp only [List.map_cons, List.cons_lt_cons_iff, map_toNat_lt_iff, Char.toNat_inj,
        Char.lt_def]
      rfl

theorem codePoints_lt_iff {s t : String} : codePoints s < codePoints t ↔ s < t :=
  map_toNat_lt_iff.trans String.lt_iff.symm

end CodePoints

namespace Bindings

/-- Each key has its value in the first source that binds it. -/
def Merges (m : Bindings) (sources : List Source) : Prop :=
  ∀ key value, m.get? key = some value ↔ ∃ front source back, sources = front ++ source :: back ∧
    source.get? key = some value ∧ ∀ earlier ∈ front, earlier.get? key = none

theorem merges_iff {m : Bindings} {sources : List Source} :
    m.Merges sources ↔ ∀ key, m.get? key = sources.findSome? (·.get? key) := by
  constructor
  · intro h key
    apply Option.ext
    intro value
    rw [h key value, List.findSome?_eq_some_iff]
  · intro h key value
    rw [h key, List.findSome?_eq_some_iff]

/-- The bindings of all sources, written from the last source to the first. -/
def merged : List Source → Bindings
  | [] => empty
  | source :: sources => (merged sources).insertMany source.bindings.entries

theorem Merges.merged (sources : List Source) : (merged sources).Merges sources := by
  rw [merges_iff]
  intro key
  induction sources with
  | nil => rfl
  | cons source sources ih =>
    rw [Bindings.merged, get?_insertMany_entries, ih, List.findSome?_cons, ← Source.get?]
    cases source.get? key <;> rfl

theorem Merges.unique {m m' : Bindings} {sources : List Source} (h : m.Merges sources)
    (h' : m'.Merges sources) : m = m' :=
  eq_of_get? fun key => (merges_iff.1 h key).trans (merges_iff.1 h' key).symm

end Bindings

namespace Stack

section History

inductive Change
  | push (source : Source)
  | pushFront (source : Source)
  | collect (sources : List Source)

namespace Change

def apply (stack : Stack) : Change → Stack
  | push source => stack.push source
  | pushFront source => stack.pushFront source
  | collect sources => ⟨sources⟩

def pushed? : Change → Option Source
  | push source => some source
  | _ => none

def pushedFront? : Change → Option Source
  | pushFront source => some source
  | _ => none

def collected? : Change → Option (List Source)
  | collect sources => some sources
  | _ => none

end Change

def ofHistory (history : List Change) : Stack := history.foldl Change.apply empty

/-- The sources that a history lists. What was collected last stands between the sources that were
pushed to the front since then, the latest first, and those that were pushed to the back. -/
def listing (history : List Change) : List Source :=
  let recent := history.reverse.takeWhile (·.collected?.isNone)
  recent.filterMap Change.pushedFront? ++
    (history.reverse.findSome? Change.collected?).getD [] ++
    (recent.filterMap Change.pushed?).reverse

section Listing

variable (history : List Change) (source : Source) (sources : List Source)

theorem listing_push : listing (history ++ [.push source]) = listing history ++ [source] := by
  rw [listing, listing, List.reverse_concat, List.takeWhile_cons_of_pos rfl,
    List.filterMap_cons_none rfl, List.filterMap_cons_some (f := Change.pushed?) rfl,
    List.findSome?_cons_of_isNone rfl, List.reverse_cons, ← List.append_assoc]

theorem listing_pushFront :
    listing (history ++ [.pushFront source]) = source :: listing history := by
  rw [listing, listing, List.reverse_concat, List.takeWhile_cons_of_pos rfl,
    List.filterMap_cons_some (f := Change.pushedFront?) rfl, List.filterMap_cons_none rfl,
    List.findSome?_cons_of_isNone rfl]
  rfl

theorem listing_collect : listing (history ++ [.collect sources]) = sources := by
  rw [listing, List.reverse_concat, List.takeWhile_cons_of_neg Bool.false_ne_true,
    List.findSome?_cons_of_isSome rfl]
  exact List.append_nil _

end Listing

theorem sources_ofHistory (history : List Change) :
    (ofHistory history).sources = listing history := by
  induction history using List.reverseRecOn with
  | nil => rfl
  | append_singleton history change ih =>
    rw [ofHistory, List.foldl_append, ← ofHistory, List.foldl_cons, List.foldl_nil]
    cases change with
    | push source => rw [listing_push, ← ih]; rfl
    | pushFront source => rw [listing_pushFront, ← ih]; rfl
    | collect sources => rw [listing_collect]; rfl

end History

section Keys

variable (s : Stack)

theorem mem_keys_iff {key : String} : key ∈ s.keys ↔ ∃ value, s.get? key = some value := by
  rw [← Option.isSome_iff_exists, get?, List.findSome?_isSome_iff]
  simp only [keys, mem_eraseReps, List.mem_mergeSort, List.mem_flatMap, Bindings.mem_keys_iff,
    Source.get?, Option.isSome_iff_exists]

theorem keys_increasing : s.keys.Pairwise (· < ·) := by
  apply eraseReps_increasing
  exact List.pairwise_mergeSort' (· ≤ ·) _

end Keys

/-- Whatever its history, a stack answers as the one map does that its sources merge to, and so do a
policy read from it and a text resolved against it. -/
theorem exists_merged_map (history : List Change) :
    ∃ m : Bindings, m.Merges (listing history) ∧
      (∀ m' : Bindings, m'.Merges (listing history) → m' = m) ∧
      (∀ key, (ofHistory history).store.get? key = m.get? key) ∧
      (∀ key fallback value, (ofHistory history).store.getD key fallback = value ↔
        m.get? key = some value ∨ m.get? key = none ∧ value = fallback) ∧
      (∀ key fallback,
        (ofHistory history).store.getD key fallback = m.store.getD key fallback) ∧
      (∀ key, (ofHistory history).store.contains key = m.store.contains key) ∧
      (∀ key, (ofHistory history).store.contains key = true ↔ ∃ value, m.get? key = some value) ∧
      (∀ key, key ∈ (ofHistory history).keys ↔ ∃ value, m.get? key = some value) ∧
      (ofHistory history).keys.Pairwise (fun a b => codePoints a < codePoints b) ∧
      Policy.read (some (ofHistory history).store) = Policy.read (some m.store) ∧
      ∀ text : String, (Resolver.ofStore (some (ofHistory history).store)).value.resolve text =
        (Resolver.ofStore (some m.store)).value.resolve text := by
  obtain ⟨m, hmerges⟩ : ∃ m : Bindings, m.Merges (listing history) := ⟨_, .merged _⟩
  have hget : ∀ key, (ofHistory history).get? key = m.get? key := by
    intro key
    rw [get?, sources_ofHistory, Bindings.merges_iff.1 hmerges]
  have hstore : (ofHistory history).store = m.store := congrArg Store.mk (funext hget)
  have hkeys : ∀ key, key ∈ (ofHistory history).keys ↔ ∃ value, m.get? key = some value := by
    intro key
    rw [mem_keys_iff, hget]
  refine ⟨m, hmerges, fun m' h' => h'.unique hmerges, ?_⟩
  rw [hstore]
  refine ⟨fun _ => rfl, fun _ _ _ => Store.getD_eq_iff, fun _ _ => rfl, fun _ => rfl,
    fun _ => Option.isSome_iff_exists, hkeys, ?_, rfl, fun _ => rfl⟩
  exact (ofHistory history).keys_increasing.imp codePoints_lt_iff.2

end Stack

end PropertyTemplate
