import Mathlib.Data.List.Basic
import Mathlib.Data.List.TakeWhile
import PropertyTemplate.File.Path

/-! # The last component of a path

Slashes at the end of a path do not count, and neither do single dots that are components of their
own. What stands before them, up to the slash before it, is the last component. It names a file
unless it leads upwards, and its extension stands behind its last dot.
-/

namespace PropertyTemplate.Path

inductive Trailing : List Char → Prop
  | nil : Trailing []
  | slash {rest : List Char} : Trailing rest → Trailing ('/' :: rest)
  | dot {rest : List Char} : Trailing rest → Trailing ('/' :: '.' :: rest)

/-- A component that counts, and behind which no other one does. -/
structure LastComponent (path : String) (name : List Char) : Prop where
  stands : ∃ front tail, path.toList = front ++ (name ++ tail) ∧
    (front = [] ∨ front.getLast? = some '/') ∧ Trailing tail
  no_slash : '/' ∉ name
  ne_nil : name ≠ []
  ne_dot : name ≠ ['.']

/-- A name that is a stem, a dot, and an extension without dots. -/
structure Splits (name stem extension : List Char) : Prop where
  eq_append : name = stem ++ '.' :: extension
  stem_ne_nil : stem ≠ []
  no_dot : '.' ∉ extension

variable {path : String} {name name' stem extension front tail part : List Char}
  {before after : List (List Char)}

theorem isIgnored_iff : isIgnored part = true ↔ part = [] ∨ part = ['.'] := by
  simp [isIgnored]

section Components

theorem not_mem_of_mem_splitOn {text : List Char} (h : part ∈ text.splitOn '/') : '/' ∉ part := by
  induction text generalizing part with
  | nil =>
    rw [List.splitOn_nil, List.mem_singleton] at h
    rw [h]
    exact List.not_mem_nil
  | cons c text ih =>
    rw [List.splitOn_cons_eq_if_modifyHead] at h
    split at h
    · rcases List.mem_cons.1 h with rfl | h
      · exact List.not_mem_nil
      · exact ih h
    · rename_i hc
      obtain ⟨first, others, hsplit⟩ := List.exists_cons_of_ne_nil (List.splitOn_ne_nil '/' text)
      rw [hsplit] at ih h
      rcases List.mem_cons.1 h with rfl | h
      · have hfirst := ih List.mem_cons_self
        rw [List.mem_cons, not_or]
        exact ⟨fun heq => hc (beq_iff_eq.2 heq.symm), hfirst⟩
      · exact ih (List.mem_cons_of_mem _ h)

theorem intercalate_cons_eq (part : List Char) (after : List (List Char)) :
    ['/'].intercalate (part :: after) = part ++ after.flatMap ('/' :: ·) := by
  induction after generalizing part with
  | nil => simp
  | cons next after ih => simp [List.intercalate_cons_cons, ih]

theorem intercalate_append_cons_eq (before : List (List Char)) (part : List Char)
    (after : List (List Char)) : ['/'].intercalate (before ++ part :: after) =
      before.flatMap (· ++ ['/']) ++ (part ++ after.flatMap ('/' :: ·)) := by
  induction before with
  | nil => exact intercalate_cons_eq part after
  | cons first before ih =>
    rw [List.cons_append, List.intercalate_cons_of_ne_nil (by simp), ih]
    simp

theorem toList_eq_of_parts (h : parts path = before ++ part :: after) :
    path.toList = before.flatMap (· ++ ['/']) ++ (part ++ after.flatMap ('/' :: ·)) := by
  rw [← intercalate_append_cons_eq, ← h, parts, List.intercalate_splitOn]

theorem getLast?_flatMap_slash (before : List (List Char)) :
    before.flatMap (· ++ ['/']) = [] ∨ (before.flatMap (· ++ ['/'])).getLast? = some '/' := by
  rcases List.eq_nil_or_concat' before with rfl | ⟨init, last, rfl⟩
  · exact .inl rfl
  · right
    rw [List.flatMap_append, List.flatMap_singleton, ← List.append_assoc, List.getLast?_concat]

theorem trailing_flatMap (h : ∀ part ∈ after, isIgnored part = true) :
    Trailing (after.flatMap ('/' :: ·)) := by
  induction after with
  | nil => exact .nil
  | cons part after ih =>
    obtain ⟨hpart, hafter⟩ := List.forall_mem_cons.1 h
    rcases isIgnored_iff.1 hpart with rfl | rfl
    · exact .slash (ih hafter)
    · exact .dot (ih hafter)

theorem Trailing.exists_splitOn (h : Trailing tail) (hname : '/' ∉ name) :
    ∃ after, (name ++ tail).splitOn '/' = name :: after ∧
      ∀ part ∈ after, isIgnored part = true := by
  induction h generalizing name with
  | nil =>
    rw [List.append_nil, List.splitOn_eq_singleton hname]
    exact ⟨[], rfl, List.forall_mem_nil _⟩
  | slash _ ih =>
    obtain ⟨after, hsplit, hafter⟩ := ih List.not_mem_nil
    refine ⟨[] :: after, ?_, List.forall_mem_cons.2 ⟨rfl, hafter⟩⟩
    rw [List.splitOn_append_cons_self_of_not_mem hname, ← hsplit, List.nil_append]
  | dot _ ih =>
    obtain ⟨after, hsplit, hafter⟩ := ih (show '/' ∉ ['.'] by decide)
    refine ⟨['.'] :: after, ?_, List.forall_mem_cons.2 ⟨rfl, hafter⟩⟩
    rw [List.splitOn_append_cons_self_of_not_mem hname, ← hsplit, List.singleton_append]

theorem exists_splitOn_of_front (hfront : front = [] ∨ front.getLast? = some '/')
    (rest : List Char) :
    ∃ before, (front ++ rest).splitOn '/' = before ++ rest.splitOn '/' := by
  rcases hfront with rfl | hlast
  · exact ⟨[], rfl⟩
  · obtain ⟨init, rfl⟩ := List.getLast?_eq_some_iff.1 hlast
    refine ⟨init.splitOn '/', ?_⟩
    rw [List.append_assoc, List.singleton_append, List.splitOn_append_cons_self]

theorem lastComponent_iff :
    LastComponent path name ↔ ((parts path).filter (!isIgnored ·)).getLast? = some name := by
  rw [List.getLast?_filter, List.find?_eq_some_iff_append]
  constructor
  · rintro ⟨⟨front, tail, hpath, hfront, htail⟩, hslash, hnil, hdot⟩
    obtain ⟨after, hsplit, hafter⟩ := htail.exists_splitOn hslash
    obtain ⟨before, hparts⟩ := exists_splitOn_of_front hfront (name ++ tail)
    rw [← hpath, hsplit] at hparts
    have hcounts : ¬ isIgnored name = true := by
      rw [isIgnored_iff]
      rintro (rfl | rfl)
      · exact hnil rfl
      · exact hdot rfl
    refine ⟨by simpa using hcounts, after.reverse, before.reverse, ?_, ?_⟩
    · rw [parts, hparts]
      simp
    · intro part hpart
      simpa using hafter part (List.mem_reverse.1 hpart)
  · rintro ⟨hcounts, after, before, hparts, hafter⟩
    have hparts : parts path = before.reverse ++ name :: after.reverse := by
      simpa using List.reverse_eq_iff.1 hparts
    have hignored : ∀ part ∈ after.reverse, isIgnored part = true := by
      intro part hpart
      simpa using hafter part (List.mem_reverse.1 hpart)
    have hname : name ∈ path.toList.splitOn '/' := by
      rw [← parts, hparts]
      simp
    refine ⟨⟨_, _, toList_eq_of_parts hparts, getLast?_flatMap_slash _,
      trailing_flatMap hignored⟩, not_mem_of_mem_splitOn hname, ?_, ?_⟩
    · rintro rfl
      cases hcounts
    · rintro rfl
      cases hcounts

theorem LastComponent.unique (h : LastComponent path name) (h' : LastComponent path name') :
    name = name' :=
  Option.some.inj ((lastComponent_iff.1 h).symm.trans (lastComponent_iff.1 h'))

theorem fileName?_eq_some_iff :
    fileName? path = some name ↔ LastComponent path name ∧ name ≠ ['.', '.'] := by
  rw [fileName?, Option.filter_eq_some_iff, ← lastComponent_iff, bne_iff_ne]

end Components

section Extension

theorem extensionOf?_eq_some_iff :
    extensionOf? name = some extension ↔ ∃ stem, Splits name stem extension := by
  unfold extensionOf?
  constructor
  · intro h
    have hname : name.reverse.takeWhile (· != '.') ++ name.reverse.dropWhile (· != '.') =
        name.reverse := List.takeWhile_append_dropWhile
    cases hdrop : name.reverse.dropWhile (· != '.') with
    | nil => simp [hdrop] at h
    | cons c stem =>
      obtain rfl : c = '.' := by
        have hhead := List.head?_dropWhile_not (· != '.') name.reverse
        simpa [hdrop] using hhead
      rw [hdrop] at h hname
      simp only [List.drop_succ_cons, List.drop_zero, List.isEmpty_iff,
        Option.ite_none_left_eq_some, Option.some.injEq] at h
      obtain ⟨hstem, rfl⟩ := h
      refine ⟨stem.reverse, ?_, by simpa using hstem, ?_⟩
      · simpa using (congrArg List.reverse hname).symm
      · intro hmem
        simpa using List.mem_takeWhile_imp (List.mem_reverse.1 hmem)
  · rintro ⟨stem, rfl, hstem, hdot⟩
    have hne : ∀ c ∈ extension.reverse, (c != '.') = true := by
      intro c hc
      rw [bne_iff_ne]
      rintro rfl
      exact hdot (List.mem_reverse.1 hc)
    have hreverse : (stem ++ '.' :: extension).reverse =
        extension.reverse ++ '.' :: stem.reverse := by simp
    simp only [hreverse, List.takeWhile_append_of_pos hne, List.dropWhile_append_of_pos hne]
    simp [hstem]

theorem extension?_eq_some_iff : extension? path = some extension ↔
    ∃ name stem, LastComponent path name ∧ name ≠ ['.', '.'] ∧ Splits name stem extension := by
  simp only [extension?, Option.bind_eq_some_iff, fileName?_eq_some_iff, extensionOf?_eq_some_iff,
    and_assoc, exists_and_left]

end Extension

end PropertyTemplate.Path
