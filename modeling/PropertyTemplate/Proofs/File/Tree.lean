import Mathlib.Data.List.Infix
import PropertyTemplate.File.Tree
import PropertyTemplate.Proofs.Outcome

/-! # Writing into a file tree

A path leads to one place. Writing to the path puts the content at that place, where the path finds
it again, and leaves what lies at any other place as it was, directories included.
-/

namespace PropertyTemplate.FileTree

variable {t t' : FileTree} {path : String} {content : ByteArray} {location location' : Location}
  {names other place : List (List Char)} {name : List Char}

/-- The place that a path leads to. The last part of the path need not exist. -/
def place? (t : FileTree) (path : String) : Option (List (List Char)) :=
  match start path >>= fun (location, parts) => t.walk location parts with
  | .ok (.place names) => some names
  | _ => none

theorem requireDirectory_eq_ok_iff :
    t.requireDirectory location = .ok () ↔ location.entry? t = some .directory := by
  unfold requireDirectory
  split <;> rename_i hentry <;> simp [hentry]

theorem walk_append (t : FileTree) (location : Location) (front back : List (List Char)) :
    t.walk location (front ++ back) = t.walk location front >>= fun next => t.walk next back := by
  induction front generalizing location with
  | nil => rfl
  | cons part front ih =>
    rw [List.cons_append, walk, walk, bind_assoc]
    congr 1
    funext _
    split
    · exact ih location
    · split
      · exact ih location.parent
      · split
        · rfl
        · cases location.child part with
          | none => rfl
          | some next => exact ih next

/-- Walking needs no more of a tree than the directories on the way. -/
theorem walk_of_directories
    (h : ∀ location : Location, location.entry? t = some .directory →
      location.entry? t' = some .directory) {parts : List (List Char)}
    (hwalk : t.walk location parts = .ok location') : t'.walk location parts = .ok location' := by
  induction parts generalizing location with
  | nil => exact hwalk
  | cons part parts ih =>
    obtain ⟨_, hdirectory, hwalk⟩ := bind_eq_ok.1 hwalk
    refine bind_eq_ok.2 ⟨(), ?_, ?_⟩
    · exact requireDirectory_eq_ok_iff.2 (h _ (requireDirectory_eq_ok_iff.1 hdirectory))
    · revert hwalk
      split
      · exact ih
      · split
        · exact ih
        · split
          · exact id
          · split
            · exact id
            · exact ih

section Put

def put (t : FileTree) (place : List (List Char)) (content : ByteArray) : FileTree :=
  ⟨(place, .file content) :: t.entries.filter (·.1 != place)⟩

theorem entry?_put_self : entry? (t.put place content) place = some (.file content) := by
  simp [put, entry?]

theorem lookup_filter_ne (hne : other ≠ place) (entries : List (List (List Char) × FileEntry)) :
    (entries.filter (·.1 != place)).lookup other = entries.lookup other := by
  induction entries with
  | nil => rfl
  | cons e entries ih =>
    by_cases he : e.1 = place
    · have hother : (other == e.1) = false := by simpa [he] using hne
      rw [List.filter_cons_of_neg (by simp [he]), ih, List.lookup_cons, hother]
    · rw [List.filter_cons_of_pos (by simp [he]), List.lookup_cons, List.lookup_cons, ih]

/-- Something lies below a directory, or it stands in the tree by itself. -/
theorem isPrefix_of_directory (h : t.entry? names = some .directory) (hp : other <+: names) :
    other = [] ∨ ∃ e ∈ t.entries, other <+: e.1 := by
  unfold entry? at h
  split at h
  · rename_i entry hlookup
    obtain ⟨front, back, heq, -⟩ := List.lookup_eq_some_iff.1 hlookup
    exact .inr ⟨(names, entry), heq ▸ by simp, hp⟩
  · split at h
    · rename_i hbelow
      rcases Bool.or_eq_true_iff.1 hbelow with hempty | hany
      · rw [List.isEmpty_iff.1 hempty] at hp
        exact .inl (List.prefix_nil.1 hp)
      · obtain ⟨e, he, hprefix⟩ := List.any_eq_true.1 hany
        exact .inr ⟨e, he, hp.trans (List.isPrefixOf_iff_prefix.1 hprefix)⟩
    · cases h

theorem entry?_put_of_ne (hdirectory : t.entry? names = some .directory)
    (hne : other ≠ names ++ [name]) :
    entry? (t.put (names ++ [name]) content) other = t.entry? other := by
  have hlookup : ((t.put (names ++ [name]) content).entries).lookup other =
      t.entries.lookup other := by
    have hother : (other == names ++ [name]) = false := by simpa using hne
    rw [put, List.lookup_cons, hother]
    exact lookup_filter_ne hne t.entries
  have hbelow : (other.isEmpty || (t.put (names ++ [name]) content).entries.any
      fun e => other.isPrefixOf e.1) =
        (other.isEmpty || t.entries.any fun e => other.isPrefixOf e.1) := by
    rw [Bool.eq_iff_iff]
    simp only [Bool.or_eq_true, List.isEmpty_iff, List.any_eq_true, List.isPrefixOf_iff_prefix]
    constructor
    · rintro (hempty | ⟨e, he, hp⟩)
      · exact .inl hempty
      · rcases List.mem_cons.1 he with rfl | he
        · rcases List.prefix_concat_iff.1 hp with heq | hp
          · exact absurd heq hne
          · exact isPrefix_of_directory hdirectory hp
        · exact .inr ⟨e, List.mem_of_mem_filter he, hp⟩
    · rintro (hempty | ⟨e, he, hp⟩)
      · exact .inl hempty
      · by_cases heq : e.1 = names ++ [name]
        · exact .inr ⟨_, List.mem_cons_self, heq ▸ hp⟩
        · exact .inr ⟨e, List.mem_cons_of_mem _ (List.mem_filter.2 ⟨he, by simpa using heq⟩), hp⟩
  unfold entry?
  rw [hlookup, hbelow]

end Put

section Write

/-- What it takes to write a file: a directory to write it in, and a name for it there that stands
for no directory. -/
theorem exists_of_write (h : t.write path content = .ok t') :
    ∃ location front names name, start path = .ok (location, front ++ [name]) ∧
      t.walk location front = .ok (.place names) ∧ t.entry? names = some .directory ∧
      name ≠ ['.'] ∧ name ≠ ['.', '.'] ∧ isTooLong name = false ∧
      Path.endsInSlash path = false ∧ t.entry? (names ++ [name]) ≠ some .directory ∧
      t' = t.put (names ++ [name]) content := by
  simp only [write, bind_eq_ok] at h
  obtain ⟨⟨location, parts⟩, hstart, parent, hwalk, _, hdirectory, h⟩ := h
  rw [requireDirectory_eq_ok_iff] at hdirectory
  split at h
  · cases h
  · rename_i name hlast
    obtain ⟨front, rfl⟩ := List.getLast?_eq_some_iff.1 hlast
    rw [List.dropLast_concat] at hwalk
    split at h
    · cases h
    · rename_i hname
      simp only [Bool.or_eq_true, beq_iff_eq, not_or, Bool.not_eq_true] at hname
      split at h
      · cases h
      · rename_i hlong
        cases parent with
        | outside => cases h
        | place names =>
          simp only [Location.child] at h
          split at h
          · cases h
          · rename_i hentry
            exact ⟨location, front, names, name, hstart, hwalk, hdirectory, hname.1.1, hname.1.2,
              by simpa using hlong, hname.2, hentry, (Except.ok.inj h).symm⟩

theorem walk_name (hdirectory : t.entry? names = some .directory) (hdot : name ≠ ['.'])
    (hdots : name ≠ ['.', '.']) (hlong : isTooLong name = false) :
    t.walk (.place names) [name] = .ok (.place (names ++ [name])) := by
  have hrequire : t.requireDirectory (.place names) = .ok () :=
    requireDirectory_eq_ok_iff.2 hdirectory
  rw [walk, hrequire]
  simp [hdot, hdots, hlong, walk, Location.child, bind, Except.bind]

/-- Writing changes what lies at the place that the path leads to, and nothing else. -/
theorem entry?_write (h : t.write path content = .ok t') :
    ∃ place, t.place? path = some place ∧ t'.entry? place = some (.file content) ∧
      ∀ other, other ≠ place → t'.entry? other = t.entry? other := by
  obtain ⟨location, front, names, name, hstart, hwalk, hdirectory, hdot, hdots, hlong, -, -, rfl⟩ :=
    exists_of_write h
  refine ⟨names ++ [name], ?_, entry?_put_self, fun other => entry?_put_of_ne hdirectory⟩
  have hplace : t.walk location (front ++ [name]) = .ok (.place (names ++ [name])) := by
    rw [walk_append, hwalk]
    exact walk_name hdirectory hdot hdots hlong
  rw [place?, hstart]
  simp only [bind, Except.bind, hplace]

theorem read_write (h : t.write path content = .ok t') : t'.read path = .ok content := by
  obtain ⟨location, front, names, name, hstart, hwalk, hdirectory, hdot, hdots, hlong, hslash,
    hentry, rfl⟩ := exists_of_write h
  have hdirectories : ∀ location : Location, location.entry? t = some .directory →
      location.entry? (t.put (names ++ [name]) content) = some .directory := by
    intro location hlocation
    cases location with
    | outside => rfl
    | place other =>
      have hne : other ≠ names ++ [name] := fun heq => hentry (heq ▸ hlocation)
      refine Eq.trans ?_ hlocation
      exact entry?_put_of_ne hdirectory hne
  have hplace : (t.put (names ++ [name]) content).walk location (front ++ [name]) =
      .ok (.place (names ++ [name])) := by
    rw [walk_append, walk_of_directories hdirectories hwalk]
    exact walk_name (hdirectories (.place names) hdirectory) hdot hdots hlong
  rw [read, hstart]
  simp [bind, Except.bind, hplace, Location.entry?, entry?_put_self, hslash, pure, Except.pure]

end Write

end PropertyTemplate.FileTree
