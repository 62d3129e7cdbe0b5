/-! # Bindings

A finite map from keys to values. The entries are kept in strictly increasing order of their keys,
by code point, so that bindings are equal as soon as they bind the same keys to the same values,
however they were written.
-/

namespace PropertyTemplate

def Ordered (entries : List (String × String)) : Prop :=
  entries.Pairwise fun a b => a.1 < b.1

/-- The entries with `key` bound to `value`, at the place where the key belongs. -/
def insertEntry (key value : String) : List (String × String) → List (String × String)
  | [] => [(key, value)]
  | (k, v) :: rest =>
    if key < k then (key, value) :: (k, v) :: rest
    else if key = k then (key, value) :: rest
    else (k, v) :: insertEntry key value rest

theorem mem_insertEntry {key value : String} {e : String × String} :
    ∀ {entries}, e ∈ insertEntry key value entries → e = (key, value) ∨ e ∈ entries
  | [], h => by simpa [insertEntry] using h
  | (k, v) :: rest, h => by
      unfold insertEntry at h
      split at h
      · exact List.mem_cons.1 h
      · split at h
        · exact (List.mem_cons.1 h).imp_right (List.mem_cons_of_mem _)
        · rcases List.mem_cons.1 h with rfl | h
          · exact .inr List.mem_cons_self
          · exact (mem_insertEntry h).imp_right (List.mem_cons_of_mem _)

theorem Ordered.insertEntry {key value : String} : ∀ {entries}, Ordered entries →
    Ordered (insertEntry key value entries)
  | [], _ => by simp [Ordered, PropertyTemplate.insertEntry]
  | (k, v) :: rest, h => by
      obtain ⟨hk, hrest⟩ := List.pairwise_cons.1 h
      unfold PropertyTemplate.insertEntry
      split
      · rename_i hlt
        refine List.pairwise_cons.2 ⟨?_, h⟩
        rintro e he
        rcases List.mem_cons.1 he with rfl | he
        · exact hlt
        · exact String.lt_trans hlt (hk e he)
      · split
        · rename_i heq
          subst heq
          exact List.pairwise_cons.2 ⟨hk, hrest⟩
        · rename_i hlt hne
          refine List.pairwise_cons.2 ⟨?_, Ordered.insertEntry hrest⟩
          rintro e he
          rcases mem_insertEntry he with rfl | he
          · exact Std.lt_of_le_of_ne (String.not_lt.1 hlt) (Ne.symm hne)
          · exact hk e he

structure Bindings where
  entries : List (String × String)
  ordered : Ordered entries
  deriving DecidableEq

namespace Bindings

def empty : Bindings := ⟨[], .nil⟩

instance : Inhabited Bindings := ⟨empty⟩
instance : EmptyCollection Bindings := ⟨empty⟩

def get? (b : Bindings) (key : String) : Option String := b.entries.lookup key

def insert (b : Bindings) (key value : String) : Bindings :=
  ⟨insertEntry key value b.entries, b.ordered.insertEntry⟩

/-- The bindings after a sequence of writes, of which a later one wins. -/
def insertMany (b : Bindings) (writes : List (String × String)) : Bindings :=
  writes.foldl (fun b w => b.insert w.1 w.2) b

def ofList (writes : List (String × String)) : Bindings := empty.insertMany writes

def keys (b : Bindings) : List String := b.entries.map (·.1)

def size (b : Bindings) : Nat := b.entries.length

def isEmpty (b : Bindings) : Bool := b.entries.isEmpty

@[simp] theorem get?_empty (key : String) : empty.get? key = none := rfl

theorem lookup_cons_eq_ite (k key value : String) (entries : List (String × String)) :
    List.lookup k ((key, value) :: entries) =
      if k = key then some value else entries.lookup k := by
  by_cases h : k = key
  · simp [h]
  · have hb : (k == key) = false := by simpa using h
    simp [List.lookup_cons, h, hb]

theorem lookup_insertEntry (key value k : String) : ∀ entries : List (String × String),
    (insertEntry key value entries).lookup k =
      if k = key then some value else entries.lookup k
  | [] => by simp [insertEntry]
  | (k', v') :: rest => by
      have ih := lookup_insertEntry key value k rest
      unfold insertEntry
      split
      · simp [lookup_cons_eq_ite]
      · split
        · rename_i heq
          subst heq
          simp only [lookup_cons_eq_ite]
          split <;> rfl
        · rename_i hne
          simp only [lookup_cons_eq_ite, ih]
          split
          · rename_i h
            simp [h, Ne.symm hne]
          · rfl

@[simp] theorem get?_insert (b : Bindings) (key value k : String) :
    (b.insert key value).get? k = if k = key then some value else b.get? k :=
  lookup_insertEntry key value k b.entries

@[simp] theorem insertMany_nil (b : Bindings) : b.insertMany [] = b := rfl

@[simp] theorem insertMany_cons (b : Bindings) (w : String × String) (writes) :
    b.insertMany (w :: writes) = (b.insert w.1 w.2).insertMany writes := rfl

end Bindings

end PropertyTemplate
