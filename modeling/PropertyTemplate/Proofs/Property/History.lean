import Mathlib.Data.List.Dedup
import Mathlib.Data.List.Induction
import PropertyTemplate.Proofs.Property.Bindings
import PropertyTemplate.Property.Source

/-! # The history of a source

A source is what was written to it since it was made anew for the last time: each key has the value
that was written to it last, each key that was written counts once, and the name is the one it was
made with. In what order different keys were written, and what was written over, leaves no trace.
-/

namespace PropertyTemplate

namespace Bindings

/-- Of the writes, this one is the last to its key. -/
def LastWrite (writes : List (String × String)) (key value : String) : Prop :=
  ∃ before after, writes = before ++ (key, value) :: after ∧ ∀ later ∈ after, later.1 ≠ key

def writtenKeys (writes : List (String × String)) : List String := (writes.map (·.1)).dedup

theorem ofList_entries (b : Bindings) : ofList b.entries = b := by
  apply eq_of_get?
  intro key
  rw [ofList, get?_insertMany_entries, get?_empty, Option.or_none]

theorem nodup_keys (b : Bindings) : b.keys.Nodup := by
  apply List.Pairwise.imp _ b.keys_increasing
  rintro key _ hlt rfl
  exact String.lt_irrefl key hlt

theorem keys_ofList_perm (writes : List (String × String)) :
    (ofList writes).keys.Perm (writtenKeys writes) := by
  rw [writtenKeys, List.perm_ext_iff_of_nodup (nodup_keys _) (List.nodup_dedup _)]
  intro key
  rw [mem_keys_iff, exists_get?_ofList_iff, List.mem_dedup, List.mem_map]

theorem get?_ofList_eq_none_iff {writes : List (String × String)} {key : String} :
    (ofList writes).get? key = none ↔ ∀ write ∈ writes, write.1 ≠ key := by
  rw [get?_ofList, List.lookup_eq_none_iff]
  simp only [List.mem_reverse, bne_iff_ne, ne_comm (a := key)]

theorem size_ofList (writes : List (String × String)) :
    (ofList writes).size = (writtenKeys writes).length := by
  rw [← (keys_ofList_perm writes).length_eq, keys, List.length_map, size]

end Bindings

namespace Source

open Bindings

inductive Change
  | new (name : String) (properties : Bindings)
  | empty (name : String)
  | collect (pairs : List (String × String))
  | extend (pairs : List (String × String))
  | set (key value : String)

namespace Change

def apply (source : Source) : Change → Source
  | new name properties => ⟨name, properties⟩
  | empty name => .empty name
  | collect pairs => .ofPairs pairs
  | extend pairs => source.extend pairs
  | set key value => (source.set key value).2

def name? : Change → Option String
  | new name _ | empty name => some name
  | collect _ => some ""
  | extend _ | set _ _ => none

def writes : Change → List (String × String)
  | new _ properties => properties.entries
  | empty _ => []
  | collect pairs | extend pairs => pairs
  | set key value => [(key, value)]

variable {change : Change} {name : String}

theorem apply_of_name?_eq_some (h : change.name? = some name) (source : Source) :
    change.apply source = ⟨name, .ofList change.writes⟩ := by
  cases change with
  | new made properties =>
    obtain rfl := Option.some.inj h
    rw [apply, writes, ofList_entries]
  | empty made =>
    obtain rfl := Option.some.inj h
    rfl
  | collect pairs =>
    obtain rfl := Option.some.inj h
    rfl
  | extend pairs => cases h
  | set key value => cases h

theorem apply_of_name?_eq_none (h : change.name? = none) (source : Source) :
    change.apply source =
      ⟨source.name, source.bindings.insertMany change.writes⟩ := by
  cases change with
  | new made properties => cases h
  | empty made => cases h
  | collect pairs => cases h
  | extend pairs => rfl
  | set key value => rfl

end Change

def ofHistory (history : List Change) : Source := history.foldl Change.apply (.empty "")

/-- The name that a history leaves, and what it wrote since the source was made anew for the last
time. A source that was never made anew is the empty one it started from, with what was written. -/
inductive Account : List Change → String → List (String × String) → Prop
  | started {recent : List Change} : (∀ change ∈ recent, change.name? = none) →
      Account recent "" (recent.flatMap Change.writes)
  | made {earlier recent : List Change} {last : Change} {name : String} :
      last.name? = some name → (∀ change ∈ recent, change.name? = none) →
      Account (earlier ++ last :: recent) name (last.writes ++ recent.flatMap Change.writes)

variable {history recent : List Change} {change : Change} {name : String}
  {writes : List (String × String)} {key value : String}

theorem foldl_apply (h : ∀ change ∈ recent, change.name? = none) (source : Source) :
    recent.foldl Change.apply source =
      ⟨source.name, source.bindings.insertMany (recent.flatMap Change.writes)⟩ := by
  induction recent generalizing source with
  | nil => rfl
  | cons change recent ih =>
    obtain ⟨hchange, hrecent⟩ := List.forall_mem_cons.1 h
    rw [List.foldl_cons, ih hrecent, Change.apply_of_name?_eq_none hchange, List.flatMap_cons,
      insertMany_append]

theorem Account.ofHistory_eq (h : Account history name writes) :
    ofHistory history = ⟨name, .ofList writes⟩ := by
  cases h with
  | started hrecent => exact foldl_apply hrecent _
  | made hlast hrecent =>
    rw [ofHistory, List.foldl_append, List.foldl_cons, foldl_apply hrecent,
      Change.apply_of_name?_eq_some hlast, ofList, ofList, insertMany_append]

theorem Account.concat (h : Account history name writes) (change : Change) :
    ∃ name writes, Account (history ++ [change]) name writes := by
  cases hname : change.name? with
  | some made =>
    exact ⟨made, _, .made hname (List.forall_mem_nil _)⟩
  | none =>
    have hsingle : ∀ c ∈ [change], c.name? = none := by simpa using hname
    cases h with
    | started hrecent =>
      exact ⟨_, _, .started (List.forall_mem_append.2 ⟨hrecent, hsingle⟩)⟩
    | made hlast hrecent =>
      rw [List.append_assoc, List.cons_append]
      exact ⟨_, _, .made hlast (List.forall_mem_append.2 ⟨hrecent, hsingle⟩)⟩

theorem exists_account (history : List Change) : ∃ name writes, Account history name writes := by
  induction history using List.reverseRecOn with
  | nil => exact ⟨_, _, .started (List.forall_mem_nil _)⟩
  | append_singleton history change ih =>
    obtain ⟨name, writes, h⟩ := ih
    exact h.concat change

theorem eq_iff_get? {source other : Source} :
    source = other ↔ source.name = other.name ∧ ∀ key, source.get? key = other.get? key := by
  constructor
  · rintro rfl
    exact ⟨rfl, fun key => rfl⟩
  · rintro ⟨hname, hget⟩
    have hbindings : source.bindings = other.bindings := eq_of_get? hget
    cases source
    cases other
    simp only at hname hbindings
    rw [hname, hbindings]

/-- Every history has an account, and its account says all of the source: the name, the values and
the size. -/
theorem ofHistory_holds_last_writes (history : List Change) :
    (∃ name writes, Account history name writes) ∧
    (∀ name writes, Account history name writes →
      (ofHistory history).name = name ∧
      (∀ key value,
        (ofHistory history).store.get? key = some value ↔ LastWrite writes key value) ∧
      (∀ key, (ofHistory history).store.get? key = none ↔ ∀ write ∈ writes, write.1 ≠ key) ∧
      (ofHistory history).size = (writtenKeys writes).length ∧
      ((ofHistory history).isEmpty = true ↔ (writtenKeys writes).length = 0) ∧
      ∀ key value, ∃ previous,
        (ofHistory history).set key value =
          (previous, ofHistory (history ++ [.set key value])) ∧
        ∀ old, previous = some old ↔ LastWrite writes key old) ∧
    ∀ other, ofHistory history = ofHistory other ↔
      (ofHistory history).name = (ofHistory other).name ∧
      ∀ key, (ofHistory history).store.get? key = (ofHistory other).store.get? key := by
  refine ⟨exists_account history, ?_, fun other => eq_iff_get?⟩
  intro name writes h
  have hsource := h.ofHistory_eq
  have hget : ∀ key value,
      (ofHistory history).get? key = some value ↔ LastWrite writes key value := by
    intro key value
    rw [hsource]
    exact get?_ofList_eq_some_iff
  have hsize : (ofHistory history).size = (writtenKeys writes).length := by
    rw [hsource]
    exact size_ofList writes
  refine ⟨by rw [hsource], hget, ?_, hsize, ?_, ?_⟩
  · intro key
    rw [hsource]
    exact get?_ofList_eq_none_iff
  · rw [← hsize, Source.isEmpty, Bindings.isEmpty, List.isEmpty_iff_length_eq_zero]
    rfl
  · intro key value
    refine ⟨(ofHistory history).get? key, ?_, hget key⟩
    rw [ofHistory, ofHistory, List.foldl_append]
    rfl

/-- The order in which two keys are written, and a value that is written over, leave no trace. -/
example : ofHistory [.collect [("a", "1"), ("b", "2")]] =
    ofHistory [.set "b" "0", .extend [("a", "1"), ("b", "2")]] := by decide

end Source

end PropertyTemplate
