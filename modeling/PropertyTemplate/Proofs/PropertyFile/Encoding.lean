import PropertyTemplate.Proofs.Property.Bindings
import PropertyTemplate.Proofs.PropertyFile.Lines
import PropertyTemplate.Proofs.Text.Windows1252

/-! # The encoding of property files

A property file is in UTF-8 but read as Windows-1252, unless a byte order mark starts it. What a
file of plain lines binds is therefore what its text says only if all that it binds is of ASCII, or
if the mark is part of a key that does not count.
-/

namespace PropertyTemplate

open Text.Windows1252

namespace Bindings

variable {f : String → String} {pairs rest : List (String × String)}

theorem lookup_map_of_injective (hf : Function.Injective f) (key : String) :
    (pairs.map (Prod.map f f)).lookup (f key) = (pairs.lookup key).map f := by
  induction pairs with
  | nil => rfl
  | cons pair pairs ih =>
    obtain ⟨k, v⟩ := pair
    simp only [List.map_cons, Prod.map_apply, lookup_cons_eq_ite, ih, hf.eq_iff]
    split <;> rfl

theorem get?_ofList_map (hf : Function.Injective f) (pairs : List (String × String))
    (key : String) :
    (ofList (pairs.map (Prod.map f f))).get? (f key) = ((ofList pairs).get? key).map f := by
  rw [get?_ofList, get?_ofList, ← List.map_reverse, lookup_map_of_injective hf]

theorem exists_of_get?_ofList_map {key value : String}
    (h : (ofList (pairs.map (Prod.map f f))).get? key = some value) :
    ∃ original, f original = key ∧ ∃ value, (ofList pairs).get? original = some value := by
  obtain ⟨_, hmem, rfl⟩ := exists_get?_ofList_iff.1 ⟨value, h⟩
  obtain ⟨pair, hpair, rfl⟩ := List.mem_map.1 hmem
  exact ⟨pair.1, rfl, exists_get?_ofList_iff.2 ⟨pair, hpair, rfl⟩⟩

theorem ofList_cons_eq_iff {key other value : String} (hne : key ≠ other) :
    ofList ((key, value) :: rest) = ofList ((other, value) :: rest) ↔
      key ∈ rest.map (·.1) ∧ other ∈ rest.map (·.1) := by
  have hget : ∀ first k, (ofList ((first, value) :: rest)).get? k =
      (rest.reverse.lookup k).or (if k = first then some value else none) := by
    intro first k
    rw [get?_ofList, List.reverse_cons, List.lookup_append, lookup_cons_eq_ite, List.lookup_nil]
  have hmem : ∀ k, k ∈ rest.map (·.1) ↔ ∃ v, rest.reverse.lookup k = some v := by
    intro k
    rw [← get?_ofList, exists_get?_ofList_iff, List.mem_map]
  simp only [hmem, ← Option.isSome_iff_exists]
  constructor
  · intro heq
    have hkey := congrArg (·.get? key) heq
    have hother := congrArg (·.get? other) heq
    simp only [hget, if_true, if_neg hne, if_neg hne.symm, Option.or_none] at hkey hother
    rw [← hkey, hother]
    simp
  · rintro ⟨hkey, hother⟩
    apply eq_of_get?
    intro k
    rw [hget, hget]
    cases hk : rest.reverse.lookup k with
    | some v => rfl
    | none =>
      have hkey' : k ≠ key := by
        rintro rfl
        simp [hk] at hkey
      have hother' : k ≠ other := by
        rintro rfl
        simp [hk] at hother
      rw [if_neg hkey', if_neg hother']

end Bindings

namespace PropertyFile

/-- What a text that is written to a property file is read as. -/
def garbled (text : String) : String := String.ofList (misread text.toList)

theorem garbled_injective : Function.Injective garbled := by
  intro text other heq
  exact String.toList_inj.1 (misread_injective (String.ofList_injective heq))

theorem garbled_eq_self_iff {text : String} : garbled text = text ↔ IsAscii text.toList := by
  rw [← misread_eq_self_iff, ← String.toList_inj, garbled, String.toList_ofList]

section Plain

variable {text key value : List Char}

structure IsPlainKey (key : List Char) : Prop where
  keyChars : ∀ c ∈ key, IsKeyChar c
  notComment : ∀ c ∈ key, isCommentMark c = false

structure IsPlainValue (value : List Char) : Prop where
  notEscape : ∀ c ∈ value, c ≠ '\\'
  unbroken : Unbroken value
  start : ∀ c ∈ value.head?, isSpace c = false

instance : DecidablePred IsPlainKey := fun key =>
  decidable_of_iff (key.all (fun c => IsKeyChar c ∧ isCommentMark c = false) = true) <| by
    simp only [List.all_eq_true, decide_eq_true_eq]
    exact ⟨fun h => ⟨fun c hc => (h c hc).1, fun c hc => (h c hc).2⟩,
      fun h c hc => ⟨h.1 c hc, h.2 c hc⟩⟩

instance : DecidablePred IsPlainValue := fun value =>
  decidable_of_iff ('\\' ∉ value ∧ Unbroken value ∧ value.head?.all (!isSpace ·) = true) <| by
    constructor
    · rintro ⟨hescape, hunbroken, hstart⟩
      exact ⟨fun c hc heq => hescape (heq ▸ hc), hunbroken,
        by simpa [Option.all_eq_true] using hstart⟩
    · rintro ⟨hescape, hunbroken, hstart⟩
      exact ⟨fun hmem => hescape _ hmem rfl, hunbroken, by simpa [Option.all_eq_true] using hstart⟩

theorem ne_of_le_toNat {c d : Char} (hc : 128 ≤ c.toNat) (hd : d.toNat < 128) : c ≠ d := by
  rintro rfl
  exact Nat.not_lt.2 hc hd

theorem isKeyChar_of_le {c : Char} (h : 128 ≤ c.toNat) : IsKeyChar c where
  notSpace := by simp [isSpace, ne_of_le_toNat h]
  notEscape := ne_of_le_toNat h (by decide)
  notSeparator := ⟨ne_of_le_toNat h (by decide), ne_of_le_toNat h (by decide)⟩

theorem isCommentMark_of_le {c : Char} (h : 128 ≤ c.toNat) : isCommentMark c = false := by
  simp [isCommentMark, ne_of_le_toNat h]

theorem IsPlainKey.misread (h : IsPlainKey key) : IsPlainKey (misread key) where
  keyChars := forall_mem_misread (fun _ => isKeyChar_of_le) h.keyChars
  notComment := forall_mem_misread (fun _ => isCommentMark_of_le) h.notComment

theorem IsPlainValue.misread (h : IsPlainValue value) : IsPlainValue (misread value) where
  notEscape := forall_mem_misread (fun _ hle => (isKeyChar_of_le hle).notEscape) h.notEscape
  unbroken := forall_mem_misread
    (fun _ hle => ⟨ne_of_le_toNat hle (by decide), ne_of_le_toNat hle (by decide)⟩) h.unbroken
  start := forall_head?_misread (fun _ hle => (isKeyChar_of_le hle).notSpace) h.start

theorem IsPlainKey.unbroken (h : IsPlainKey key) : Unbroken key := by
  intro c hc
  have hspace := (h.keyChars c hc).notSpace
  constructor <;> rintro rfl <;> simp [isSpace] at hspace

theorem says_append (hkey : IsPlainKey key) (hvalue : IsPlainValue value) :
    Says (key ++ '=' :: value) (some (String.ofList key, String.ofList value)) := by
  have hkeyEscape : '\\' ∉ key := fun hmem => (hkey.keyChars _ hmem).notEscape rfl
  have hvalueEscape : '\\' ∉ value := fun hmem => hvalue.notEscape _ hmem rfl
  have hescape : '\\' ∉ key ++ '=' :: value := by simp [hkeyEscape, hvalueEscape]
  refine says_of_parts (continues_of_not_mem hescape) (spanKey_append hkey.keyChars value) ?_
    hvalue.start (unescape_of_not_mem hkeyEscape) (unescape_of_not_mem hvalueEscape)
  intro c hc
  have hmem := List.mem_of_mem_head? hc
  exact ⟨(hkey.keyChars c hmem).notSpace, hkey.notComment c hmem⟩

end Plain

def document (pairs : List (String × String)) : String :=
  String.join (pairs.map fun pair => pair.1 ++ "=" ++ pair.2 ++ "\n")

def ArePlain (pairs : List (String × String)) : Prop :=
  ∀ pair ∈ pairs, IsPlainKey pair.1.toList ∧ IsPlainValue pair.2.toList

instance : DecidablePred ArePlain :=
  List.decidableBAll fun pair : String × String =>
    IsPlainKey pair.1.toList ∧ IsPlainValue pair.2.toList

/-- What the pairs of a document are read as. A byte order mark in front is dropped, and what it
stands in front of is read as it is. -/
def asRead (pairs : List (String × String)) : List (String × String) :=
  match pairs with
  | [] => []
  | (key, value) :: rest =>
    match key.toList with
    | '\ufeff' :: bare => (String.ofList bare, value) :: rest
    | _ => pairs.map (Prod.map garbled garbled)

/-- The documents that are read as they are written: all that counts is of ASCII, or the mark in
front of the first key can be dropped, since this key is bound again with the mark and without. -/
inductive Survives : List (String × String) → Prop
  | ascii {pairs} (h : ∀ key value, (Bindings.ofList pairs).get? key = some value →
      IsAscii key.toList ∧ IsAscii value.toList) : Survives pairs
  | marked {key value bare rest} (hmark : key.toList = '\ufeff' :: bare)
      (hkey : key ∈ rest.map (·.1)) (hbare : String.ofList bare ∈ rest.map (·.1)) :
      Survives ((key, value) :: rest)

section Document

variable {pairs rest : List (String × String)} {key value : String} {bare : List Char}

theorem ArePlain.garbled (h : ArePlain pairs) :
    ArePlain (pairs.map (Prod.map garbled garbled)) := by
  intro pair hpair
  obtain ⟨original, hmem, rfl⟩ := List.mem_map.1 hpair
  obtain ⟨hkey, hvalue⟩ := h original hmem
  simp only [Prod.map_fst, Prod.map_snd, PropertyFile.garbled, String.toList_ofList]
  exact ⟨hkey.misread, hvalue.misread⟩

theorem toList_document (pairs : List (String × String)) : (document pairs).toList =
    (pairs.map fun pair => pair.1.toList ++ '=' :: pair.2.toList).flatMap (· ++ ['\n']) := by
  simp [document, String.toList_join, List.flatMap_map]

theorem misread_document (pairs : List (String × String)) :
    misread (document pairs).toList =
      (document (pairs.map (Prod.map garbled garbled))).toList := by
  rw [toList_document, toList_document]
  induction pairs with
  | nil => rfl
  | cons pair pairs ih =>
    have hequals (text : List Char) := misread_cons_of_ascii (c := '=') (by decide) text
    have hbreak : misread ['\n'] = ['\n'] := misread_cons_of_ascii (by decide) []
    simp only [List.map_cons, List.flatMap_cons, misread_append, hequals, hbreak, ih]
    simp [garbled]

theorem characters_of_mark {text : String} {rest : List Char}
    (h : text.toList = '\ufeff' :: rest) : characters text = rest := by
  simp [characters, h]

theorem characters_of_not_mark {text : String} (h : text.toList.head? ≠ some '\ufeff') :
    characters text = misread text.toList := by
  unfold characters
  split
  · rename_i heq
    exact absurd (congrArg List.head? heq) h
  · exact decode_toUTF8 text

theorem properties_of_characters {text : String} (hplain : ArePlain pairs)
    (htext : characters text = (document pairs).toList) :
    properties text = .ok (.ofList pairs) := by
  rw [toList_document] at htext
  refine properties_of_says htext ?_ ?_
  · intro line hline
    obtain ⟨pair, hpair, rfl⟩ := List.mem_map.1 hline
    obtain ⟨hkey, hvalue⟩ := hplain pair hpair
    intro c hc
    rcases List.mem_append.1 hc with hc | hc
    · exact hkey.unbroken c hc
    · rcases List.mem_cons.1 hc with rfl | hc
      · decide
      · exact hvalue.unbroken c hc
  · rw [List.forall₂_map_left_iff, List.forall₂_same]
    intro pair hpair
    obtain ⟨hkey, hvalue⟩ := hplain pair hpair
    simpa using says_append hkey hvalue

theorem asRead_of_mark (h : key.toList = '\ufeff' :: bare) :
    asRead ((key, value) :: rest) = (String.ofList bare, value) :: rest := by
  simp [asRead, h]

theorem asRead_of_not_mark (h : key.toList.head? ≠ some '\ufeff') :
    asRead ((key, value) :: rest) = ((key, value) :: rest).map (Prod.map garbled garbled) := by
  simp only [asRead]
  split
  · rename_i heq
    exact absurd (congrArg List.head? heq) h
  · rfl

theorem characters_document_of_mark (h : key.toList = '\ufeff' :: bare) :
    characters (document ((key, value) :: rest)) =
      (document ((String.ofList bare, value) :: rest)).toList :=
  characters_of_mark (by simp [toList_document, h])

theorem characters_document_of_not_mark (h : key.toList.head? ≠ some '\ufeff') :
    characters (document ((key, value) :: rest)) =
      (document (((key, value) :: rest).map (Prod.map garbled garbled))).toList := by
  rw [← misread_document]
  apply characters_of_not_mark
  rw [toList_document, List.map_cons, List.flatMap_cons]
  cases hkey : key.toList with
  | nil => simp
  | cons c text => simpa [hkey] using h

/-- A document is always read, and binds what its pairs are read as. -/
theorem properties_document (hplain : ArePlain pairs) :
    properties (document pairs) = .ok (.ofList (asRead pairs)) := by
  match pairs with
  | [] => exact properties_of_characters nofun (characters_of_not_mark (by simp [toList_document]))
  | (key, value) :: rest =>
    by_cases hmark : key.toList.head? = some '\ufeff'
    · obtain ⟨bare, hkey⟩ := List.head?_eq_some_iff.1 hmark
      obtain ⟨⟨hfirst, hvalue⟩, hrest⟩ := List.forall_mem_cons.1 hplain
      rw [hkey] at hfirst
      have hbare : IsPlainKey (String.ofList bare).toList := by
        rw [String.toList_ofList]
        exact ⟨fun c hc => hfirst.keyChars c (List.mem_cons_of_mem _ hc),
          fun c hc => hfirst.notComment c (List.mem_cons_of_mem _ hc)⟩
      rw [asRead_of_mark hkey]
      exact properties_of_characters (List.forall_mem_cons.2 ⟨⟨hbare, hvalue⟩, hrest⟩)
        (characters_document_of_mark hkey)
    · rw [asRead_of_not_mark hmark]
      exact properties_of_characters hplain.garbled (characters_document_of_not_mark hmark)

/-- What a key bound to a text was garbled from is shorter, unless it is the key itself. So no chain
of such keys ends, and none starts. -/
theorem isAscii_of_get?_ofList (heq : Bindings.ofList (pairs.map (Prod.map garbled garbled)) =
    Bindings.ofList pairs) (h : (Bindings.ofList pairs).get? key = some value) :
    IsAscii key.toList := by
  induction hlength : key.toList.length using Nat.strongRecOn generalizing key value with
  | ind n ih =>
    rw [← heq] at h
    obtain ⟨original, rfl, _, horiginal⟩ := Bindings.exists_of_get?_ofList_map h
    by_cases hascii : IsAscii original.toList
    · rwa [garbled_eq_self_iff.2 hascii]
    · have hlt := length_lt_length_misread hascii
      rw [← hlength, garbled, String.toList_ofList] at ih
      exact absurd (ih _ hlt horiginal rfl) hascii

theorem ofList_garbled_eq_iff :
    Bindings.ofList (pairs.map (Prod.map garbled garbled)) = Bindings.ofList pairs ↔
      ∀ key value, (Bindings.ofList pairs).get? key = some value →
        IsAscii key.toList ∧ IsAscii value.toList := by
  constructor
  · intro heq key value h
    have hkey := isAscii_of_get?_ofList heq h
    have hgarbled := Bindings.get?_ofList_map garbled_injective pairs key
    rw [garbled_eq_self_iff.2 hkey, heq, h, Option.map_some, Option.some_inj] at hgarbled
    exact ⟨hkey, garbled_eq_self_iff.1 hgarbled.symm⟩
  · intro hascii
    apply Bindings.eq_of_get?
    intro key
    cases h : (Bindings.ofList pairs).get? key with
    | some value =>
      obtain ⟨hkey, hvalue⟩ := hascii key value h
      have hgarbled := Bindings.get?_ofList_map garbled_injective pairs key
      rwa [h, Option.map_some, garbled_eq_self_iff.2 hkey, garbled_eq_self_iff.2 hvalue] at hgarbled
    | none =>
      rw [Option.eq_none_iff_forall_ne_some]
      intro value hvalue
      obtain ⟨original, rfl, other, horiginal⟩ := Bindings.exists_of_get?_ofList_map hvalue
      rw [garbled_eq_self_iff.2 (hascii original other horiginal).1, horiginal] at h
      cases h

theorem survives_cons_of_mark (hmark : key.toList = '\ufeff' :: bare) :
    Survives ((key, value) :: rest) ↔
      key ∈ rest.map (·.1) ∧ String.ofList bare ∈ rest.map (·.1) := by
  constructor
  · rintro (hascii | ⟨hmark', hkey, hbare⟩)
    · have hbound : ∃ bound, (Bindings.ofList ((key, value) :: rest)).get? key = some bound :=
        Bindings.exists_get?_ofList_iff.2 ⟨(key, value), List.mem_cons_self, rfl⟩
      obtain ⟨bound, hbound⟩ := hbound
      have hlt := (hascii key bound hbound).1 '\ufeff' (by simp [hmark])
      exact absurd hlt (by decide)
    · obtain ⟨-, rfl⟩ := List.cons.inj (hmark.symm.trans hmark')
      exact ⟨hkey, hbare⟩
  · rintro ⟨hkey, hbare⟩
    exact .marked hmark hkey hbare

theorem survives_cons_of_not_mark (hmark : key.toList.head? ≠ some '\ufeff') :
    Survives ((key, value) :: rest) ↔
      ∀ key' value', (Bindings.ofList ((key, value) :: rest)).get? key' = some value' →
        IsAscii key'.toList ∧ IsAscii value'.toList := by
  constructor
  · rintro (hascii | ⟨hmark', -, -⟩)
    · exact hascii
    · exact absurd (congrArg List.head? hmark') hmark
  · exact .ascii

theorem ofList_asRead_eq_iff (pairs : List (String × String)) :
    Bindings.ofList (asRead pairs) = .ofList pairs ↔ Survives pairs := by
  match pairs with
  | [] => exact ⟨fun _ => .ascii nofun, fun _ => rfl⟩
  | (key, value) :: rest =>
    by_cases hmark : key.toList.head? = some '\ufeff'
    · obtain ⟨bare, hkey⟩ := List.head?_eq_some_iff.1 hmark
      have hne : String.ofList bare ≠ key := by
        rintro rfl
        simp at hkey
      rw [asRead_of_mark hkey, survives_cons_of_mark hkey, Bindings.ofList_cons_eq_iff hne,
        and_comm]
    · rw [asRead_of_not_mark hmark, survives_cons_of_not_mark hmark, ofList_garbled_eq_iff]

/-- A document of plain pairs is always read, and binds each key to its last value if and only if
it survives the change of encoding. -/
theorem properties_document_iff_survives (hplain : ArePlain pairs) :
    properties (document pairs) = .ok (.ofList (asRead pairs)) ∧
      (properties (document pairs) = .ok (.ofList pairs) ↔ Survives pairs) := by
  have hread := properties_document hplain
  refine ⟨hread, ?_⟩
  rw [hread, Except.ok.injEq, ofList_asRead_eq_iff]

theorem properties_document_of_marked_keys :
    properties (document [("\ufeffk", "a"), ("k", "ä"), ("\ufeffk", "b")]) =
      .ok (.ofList [("k", "ä"), ("\ufeffk", "b")]) :=
  (properties_document_iff_survives (by decide)).2.2 (.marked rfl (by decide) (by decide))

theorem properties_document_garbles :
    properties (document [("k", "é")]) = .ok (.ofList [("k", "Ã©")]) ∧
      properties (document [("k", "é")]) ≠ .ok (.ofList [("k", "é")]) := by
  have hread : properties (document [("k", "é")]) = .ok (.ofList [("k", "Ã©")]) :=
    properties_document (by decide)
  rw [hread]
  exact ⟨rfl, by decide⟩

end Document

end PropertyFile

end PropertyTemplate
