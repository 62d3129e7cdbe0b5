import PropertyTemplate.Proofs.Outcome
import PropertyTemplate.PropertyFile.Document

/-! # Lines that hold one property each

Lines without line breaks are read back from the text that they make up. If none of them goes on in
the next one and each says one property, these are the properties of the file.
-/

namespace PropertyTemplate.PropertyFile

variable {line text key value : List Char} {lines : List (List Char)}

def Unbroken (text : List Char) : Prop := ∀ c ∈ text, c ≠ '\r' ∧ c ≠ '\n'

instance : DecidablePred Unbroken := List.decidableBAll fun c => c ≠ '\r' ∧ c ≠ '\n'

theorem naturalLines_append (h : Unbroken line) (rest : List Char) :
    naturalLines (line ++ '\n' :: rest) = line :: naturalLines rest := by
  induction line with
  | nil => simp [naturalLines]
  | cons c line ih =>
    obtain ⟨⟨hcr, hlf⟩, hline⟩ := List.forall_mem_cons.1 h
    rw [List.cons_append, naturalLines.eq_3]
    · simp [hcr, hlf, ih hline]
    · rintro rest rfl
      exact absurd rfl hcr

theorem naturalLines_flatMap (h : ∀ line ∈ lines, Unbroken line) :
    naturalLines (lines.flatMap (· ++ ['\n'])) = lines ++ [[]] := by
  induction lines with
  | nil => rfl
  | cons line lines ih =>
    obtain ⟨hline, hlines⟩ := List.forall_mem_cons.1 h
    rw [List.flatMap_cons, List.append_assoc, List.singleton_append, naturalLines_append hline,
      ih hlines, List.cons_append]

/-- The line is a logical line of its own, and says `found`, whatever its number. -/
structure Says (line : List Char) (found : Option (String × String)) : Prop where
  complete : continues line = false
  property : ∀ number, property? ⟨number, line⟩ = .ok found

theorem mapM_property? {found : List (Option (String × String))}
    (h : List.Forall₂ Says lines found) (number : Nat) :
    (logicalLinesFrom none number lines).mapM property? = .ok found := by
  induction h generalizing number with
  | nil => rfl
  | @cons line _ lines _ hline _ ih =>
    have hfrom : logicalLinesFrom none number (line :: lines) =
        ⟨number, line⟩ :: logicalLinesFrom none (number + 1) lines := by
      simp [logicalLinesFrom, hline.complete]
    rw [hfrom, List.mapM_cons, hline.property number, ih (number + 1)]
    rfl

theorem says_nil : Says [] none := ⟨rfl, fun _ => rfl⟩

theorem properties_of_says {text : String} {pairs : List (String × String)}
    (htext : characters text = lines.flatMap (· ++ ['\n']))
    (hunbroken : ∀ line ∈ lines, Unbroken line)
    (h : List.Forall₂ (fun line pair => Says line (some pair)) lines pairs) :
    properties text = .ok (.ofList pairs) := by
  have hsays : List.Forall₂ Says (lines ++ [[]]) (pairs.map some ++ [none]) :=
    List.rel_append (List.forall₂_map_right_iff.2 h) (.cons says_nil .nil)
  rw [properties, htext, logicalLines, naturalLines_flatMap hunbroken, mapM_property? hsays]
  simp [pure, Except.pure, bind, Except.bind]

section Statement

theorem continues_snoc {c : Char} (h : c ≠ '\\') (front : List Char) :
    continues (front ++ [c]) = false := by
  simp [continues, h]

theorem continues_append_escaped (front : List Char) :
    continues (front ++ ['\\', '\\']) = continues front := by
  simp [continues, Nat.add_assoc]

theorem continues_of_not_mem (h : '\\' ∉ line) : continues line = false := by
  rcases List.eq_nil_or_concat line with rfl | ⟨front, last, rfl⟩
  · rfl
  · rw [List.concat_eq_append]
    apply continues_snoc
    rintro rfl
    simp at h

theorem unescape_cons {c : Char} (h : c ≠ '\\') (text : List Char) :
    unescape (c :: text) = (unescape text).map (c :: ·) := by
  rw [unescape.eq_6] <;> simp [h]

theorem unescape_of_not_mem (h : '\\' ∉ text) : unescape text = .ok text := by
  induction text with
  | nil => rfl
  | cons c text ih =>
    rw [List.mem_cons, not_or] at h
    rw [unescape_cons (Ne.symm h.1), ih h.2]
    rfl

structure IsKeyChar (c : Char) : Prop where
  notSpace : isSpace c = false
  notEscape : c ≠ '\\'
  notSeparator : c ≠ ':' ∧ c ≠ '='

instance : DecidablePred IsKeyChar := fun c =>
  decidable_of_iff (isSpace c = false ∧ c ≠ '\\' ∧ c ≠ ':' ∧ c ≠ '=')
    ⟨fun h => ⟨h.1, h.2.1, h.2.2⟩, fun h => ⟨h.1, h.2, h.3⟩⟩

theorem spanKey_cons {c : Char} (h : IsKeyChar c) (text : List Char) :
    spanKey (c :: text) = (c :: (spanKey text).1, (spanKey text).2) := by
  obtain ⟨hspace, hescape, hcolon, hequals⟩ := h
  rw [spanKey.eq_2]
  · simp [hspace, hescape, hcolon, hequals]
  · simp [hescape]

theorem spanKey_append (h : ∀ c ∈ key, IsKeyChar c) (rest : List Char) :
    spanKey (key ++ '=' :: rest) = (key, '=' :: rest) := by
  induction key with
  | nil => simp [spanKey]
  | cons c key ih =>
    obtain ⟨hc, hkey⟩ := List.forall_mem_cons.1 h
    rw [List.cons_append, spanKey_cons hc, ih hkey]

theorem dropWhile_of_head? {P : Char → Bool} (h : ∀ c ∈ text.head?, P c = false) :
    text.dropWhile P = text := by
  cases text with
  | nil => rfl
  | cons c text => simp [h c rfl]

/-- What stands before the first equals sign that separates is the key, and all else the value. -/
theorem ofLine_eq_property (hstart : ∀ c ∈ line.head?, isSpace c = false ∧ isCommentMark c = false)
    (hspan : spanKey line = (key, '=' :: value)) (hvalue : ∀ c ∈ value.head?, isSpace c = false) :
    Statement.ofLine line = .property key value := by
  cases line with
  | nil => simp [spanKey] at hspan
  | cons c line =>
    obtain ⟨hspace, hmark⟩ := hstart c rfl
    have hbehind : valueBehind? ('=' :: value) = some value := by
      simp [valueBehind?, isSpace, dropWhile_of_head? hvalue]
    simp [Statement.ofLine, hspace, hmark, hspan, hbehind]

theorem says_of_parts {keyText valueText : List Char}
    (hcomplete : continues (key ++ '=' :: value) = false)
    (hspan : spanKey (key ++ '=' :: value) = (key, '=' :: value))
    (hkeyStart : ∀ c ∈ key.head?, isSpace c = false ∧ isCommentMark c = false)
    (hvalueStart : ∀ c ∈ value.head?, isSpace c = false)
    (hkey : unescape key = .ok keyText) (hvalue : unescape value = .ok valueText) :
    Says (key ++ '=' :: value) (some (String.ofList keyText, String.ofList valueText)) := by
  refine ⟨hcomplete, fun number => ?_⟩
  have hstart : ∀ c ∈ (key ++ '=' :: value).head?, isSpace c = false ∧ isCommentMark c = false := by
    cases key with
    | nil => simp [isSpace, isCommentMark]
    | cons c key => exact hkeyStart
  have hline := ofLine_eq_property hstart hspan hvalueStart
  simp [property?, hline, read, hkey, hvalue, bind, Except.bind, pure, Except.pure]

end Statement

end PropertyTemplate.PropertyFile
