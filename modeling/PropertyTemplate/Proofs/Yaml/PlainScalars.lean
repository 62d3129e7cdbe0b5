import PropertyTemplate.Proofs.Outcome
import PropertyTemplate.Proofs.Property.Bindings
import PropertyTemplate.Proofs.Yaml.Entry
import PropertyTemplate.Proofs.Yaml.Numerals

/-! # Words that come back as they were written

A plain scalar is read as a value of some type and written again. A word comes back as it was
written unless it has the form of a boolean or a number that is written otherwise, or of an integer
that is refused.
-/

namespace PropertyTemplate.Yaml

open Decimal

namespace Scalar

/-- What becomes of the words that do not come back as they were written. A boolean is written in
lower case, an integer in decimal, and a floating point number in its shortest form; an integer of
65 to 128 bits is refused. -/
inductive Retyped : List Char → Except Error String → Prop
  | boolean {s b} (h : (String.ofList s, b) ∈
      [("True", true), ("TRUE", true), ("False", false), ("FALSE", false)]) :
    Retyped s (.ok (toString b))
  | integer {s n} (h : IntegerForm s n) (hlt : n < Nat.pow 2 64) (hne : Nat.toDigits 10 n ≠ s) :
    Retyped s (.ok (toString n))
  | refused {s n} (h : IntegerForm s n) (hle : Nat.pow 2 64 ≤ n) (hlt : n < Nat.pow 2 128) :
    Retyped s (.error .integerOutOfRange)
  | float {s x} (h : FloatForm s x) (hfinite : x.isFinite = true)
      (hne : Number.format.floatText x ≠ s) :
    Retyped s (.ok (String.ofList (Number.format.floatText x)))

section Readings

variable {c : Char} {s rest : List Char} {n : Nat} {x : Binary64} {b : Bool}

theorem beq_of_head? {p : Char → Bool} {t : String} (hc : p c = true)
    (ht : t.toList.head?.all (!p ·) = true) : (String.ofList (c :: rest) == t) = false := by
  rw [beq_eq_false_iff_ne]
  rintro rfl
  simp [hc] at ht

theorem isNull_of_isDigit (hc : c.isDigit = true) :
    isNull (String.ofList (c :: rest)) = false := by
  simp (disch := decide) only [isNull, beq_of_head? hc, Bool.or_self]

theorem boolean?_of_isDigit (hc : c.isDigit = true) :
    boolean? (String.ofList (c :: rest)) = none := by
  simp (disch := decide) only [boolean?, beq_of_head? hc, Bool.or_self, Bool.false_eq_true,
    if_false]

theorem integer?_of_isAlphanum (hc : c.isAlphanum = true) :
    integer? (c :: rest) = if hasLeadingZero (c :: rest) then none
      else (magnitude? (c :: rest)).map (.ofMagnitude false) := by
  unfold integer?
  split
  · rfl
  split <;> rename_i heq
  · exact absurd heq (cons_ne_cons_of_isAlphanum hc rfl)
  · exact absurd heq (cons_ne_cons_of_isAlphanum hc rfl)
  · rfl

theorem float?_of_isAlphanum (hc : c.isAlphanum = true) :
    float? (c :: rest) = (decimal? false (c :: rest)).filter Binary64.isFinite := by
  simp (disch := decide) only [float?, List.contains, List.elem, beq_of_head? hc]
  split
  · rename_i hfalse
    cases hfalse
  split <;> rename_i heq
  · exact absurd heq (cons_ne_cons_of_isAlphanum hc rfl)
  · exact absurd heq (cons_ne_cons_of_isAlphanum hc rfl)
  · simp (disch := decide) only [beq_of_head? hc]
    rfl

theorem ofMagnitude_of_lt (h : n < Nat.pow 2 128) : IntegerReading.ofMagnitude false n =
    if n < Nat.pow 2 64 then .value n else .outOfRange := by
  rw [IntegerReading.ofMagnitude, if_pos h]
  rfl

theorem ofMagnitude_of_le (h : Nat.pow 2 128 ≤ n) :
    IntegerReading.ofMagnitude false n = .tooLong := by
  have hlarge : ¬ n < Nat.pow 2 128 := Nat.not_lt.2 h
  have hlarge' : ¬ n < Nat.pow 2 64 := fun hlt => hlarge (Nat.lt_trans hlt (by decide))
  rw [IntegerReading.ofMagnitude, if_neg hlarge, if_neg hlarge']
  rfl

theorem ofPlain_of_boolean?_eq_none (hne : s ≠ []) (hnull : isNull (String.ofList s) = false)
    (hboolean : boolean? (String.ofList s) = none) : ofPlain s =
      match integer? s with
      | some (.value n) => .ok (.number (.integer n))
      | some .outOfRange => .error .integerOutOfRange
      | _ =>
        if hasLeadingZero s then .ok (.string (String.ofList s))
        else .ok (((float? s).map fun x => Value.number (.float x)).getD
          (.string (String.ofList s))) := by
  rw [ofPlain, hnull, hboolean, List.isEmpty_eq_false_iff.2 hne]
  rfl

theorem ofPlain_of_integerForm (h : IntegerForm s n) (hlt : n < Nat.pow 2 128) :
    ofPlain s =
      if n < Nat.pow 2 64 then .ok (.number (.integer n)) else .error .integerOutOfRange := by
  obtain ⟨c, rest, rfl, hc⟩ := h.start
  rw [ofPlain_of_boolean?_eq_none (List.cons_ne_nil c rest) (isNull_of_isDigit hc)
    (boolean?_of_isDigit hc), integer?_of_isAlphanum (isAlphanum_of_isDigit hc),
    h.hasLeadingZero_eq, h.magnitude?_eq, Option.map_some, ofMagnitude_of_lt hlt]
  by_cases hsmall : n < Nat.pow 2 64
  · simp only [if_pos hsmall]
    rfl
  · simp only [if_neg hsmall]
    rfl

theorem start_of_floatForm (hword : IsPlainWord s) (h : FloatForm s x) :
    ∃ c rest, s = c :: rest ∧ c.isDigit = true := by
  have happend {digits rest : List Char} (hdigits : ∀ c ∈ digits, c.isDigit = true)
      (hne : digits ≠ []) : ∃ c rest', digits ++ rest = c :: rest' ∧ c.isDigit = true := by
    obtain ⟨c, digits, rfl⟩ := List.exists_cons_of_ne_nil hne
    exact ⟨c, digits ++ rest, rfl, hdigits c List.mem_cons_self⟩
  cases h with
  | pointed h hexponent =>
    have hdigits := isDigit_of_natural? h
    rw [List.forall_mem_append] at hdigits
    refine happend hdigits.1 ?_
    rintro rfl
    obtain ⟨c, rest, heq, hc⟩ := hword.start
    exact cons_ne_cons_of_isAlphanum hc rfl heq.symm
  | scaled h hmark hexponent => exact happend (isDigit_of_natural? h) (natural?_eq_some_iff.1 h).1
  | large h => exact (IntegerForm.decimal _).start

theorem ofPlain_of_floatForm (hword : IsPlainWord s) (h : FloatForm s x)
    (hfinite : x.isFinite = true) : ofPlain s = .ok (.number (.float x)) := by
  obtain ⟨c, rest, rfl, hc⟩ := start_of_floatForm hword h
  have hc' := isAlphanum_of_isDigit hc
  have hfloat : float? (c :: rest) = some x := by
    rw [float?_of_isAlphanum hc', h.decimal?_eq, Option.filter_some, if_pos hfinite]
  rw [ofPlain_of_boolean?_eq_none (List.cons_ne_nil c rest) (isNull_of_isDigit hc)
    (boolean?_of_isDigit hc), integer?_of_isAlphanum hc', h.hasLeadingZero_eq hc, hfloat]
  cases hmagnitude : magnitude? (c :: rest) with
  | none => rfl
  | some n =>
    have hform := IntegerForm.of_magnitude? hmagnitude (h.hasLeadingZero_eq hc)
    simp [ofMagnitude_of_le (h.le_of_integerForm hform)]

theorem ofPlain_eq_string (hword : IsPlainWord s) (hnull : isNull (String.ofList s) = false)
    (hboolean : boolean? (String.ofList s) = none)
    (hinteger : ∀ n < Nat.pow 2 128, ¬ IntegerForm s n)
    (hfloat : ∀ x, FloatForm s x → x.isFinite = false) :
    ofPlain s = .ok (.string (String.ofList s)) := by
  have hsign {sign : Char} (hsign : isWordChar sign = false) : sign ∉ s := by
    intro hmem
    rw [hword.chars sign hmem] at hsign
    cases hsign
  obtain ⟨c, rest, rfl, hc⟩ := hword.start
  have hreading : ∀ reading, integer? (c :: rest) = some reading → reading = .tooLong := by
    intro reading hreading
    rw [integer?_of_isAlphanum hc] at hreading
    split at hreading
    · cases hreading
    · rename_i hzero
      obtain ⟨n, hn, rfl⟩ := Option.map_eq_some_iff.1 hreading
      have hform := IntegerForm.of_magnitude? hn (Bool.eq_false_iff.2 hzero)
      exact ofMagnitude_of_le (Nat.not_lt.1 fun hlt => hinteger n hlt hform)
  have hnone (hzero : hasLeadingZero (c :: rest) = false) : float? (c :: rest) = none := by
    rw [float?_of_isAlphanum hc, Option.filter_eq_none_iff]
    intro x hx
    obtain hform | ⟨n, hlt, hform⟩ := FloatForm.of_decimal? (hsign rfl) (hsign rfl) hzero hx
    · simp [hfloat x hform]
    · exact absurd hform (hinteger n hlt)
  rw [ofPlain_of_boolean?_eq_none (List.cons_ne_nil c rest) hnull hboolean]
  split
  · rename_i heq
    cases hreading _ heq
  · rename_i heq
    cases hreading _ heq
  · split
    · rfl
    · rename_i hzero
      rw [hnone (Bool.eq_false_iff.2 hzero)]
      rfl

theorem boolean?_eq_some (h : boolean? (String.ofList s) = some b) :
    String.ofList s = toString b ∨ (String.ofList s, b) ∈
      [("True", true), ("TRUE", true), ("False", false), ("FALSE", false)] := by
  simp only [boolean?, Bool.or_eq_true, beq_iff_eq] at h
  split at h
  · rename_i htrue
    cases h
    rcases htrue with (htext | htext) | htext <;> rw [htext] <;> decide
  split at h
  · rename_i hfalse
    cases h
    rcases hfalse with (htext | htext) | htext <;> rw [htext] <;> decide
  · cases h

end Readings

section Texts

variable {s : List Char}

theorem eq_toList {t : String} (h : String.ofList s = t) : s = t.toList := by
  rw [← h, String.toList_ofList]

theorem propertyText_eq_of_retyped (hword : IsPlainWord s) {result : Except Error String}
    (h : Retyped s result) : (ofPlain s).map Value.propertyText = result := by
  cases h with
  | boolean h =>
    simp only [List.mem_cons, Prod.mk.injEq, List.not_mem_nil, or_false] at h
    obtain ⟨h, rfl⟩ | ⟨h, rfl⟩ | ⟨h, rfl⟩ | ⟨h, rfl⟩ := h <;> rw [eq_toList h] <;> decide
  | integer h hlt hne =>
    rw [ofPlain_of_integerForm h (Nat.lt_trans hlt (by decide)), if_pos hlt]
    rfl
  | refused h hle hlt =>
    rw [ofPlain_of_integerForm h hlt, if_neg (Nat.not_lt.2 hle)]
    rfl
  | float h hfinite hne =>
    rw [ofPlain_of_floatForm hword h hfinite]
    rfl

theorem Retyped.ne {result : Except Error String} (h : Retyped s result) :
    result ≠ .ok (String.ofList s) := by
  cases h with
  | boolean h =>
    simp only [List.mem_cons, Prod.mk.injEq, List.not_mem_nil, or_false] at h
    obtain ⟨h, rfl⟩ | ⟨h, rfl⟩ | ⟨h, rfl⟩ | ⟨h, rfl⟩ := h <;> rw [h] <;> decide
  | integer h hlt hne =>
    rw [Nat.toString_eq_ofList_toDigits]
    intro htext
    exact hne (String.ofList_injective (Except.ok.inj htext))
  | refused h hle hlt => nofun
  | float h hfinite hne =>
    intro htext
    exact hne (String.ofList_injective (Except.ok.inj htext))

theorem propertyText_eq_of_not_retyped (hword : IsPlainWord s)
    (hnull : isNull (String.ofList s) = false) (h : ∀ result, ¬ Retyped s result) :
    (ofPlain s).map Value.propertyText = .ok (String.ofList s) := by
  cases hboolean : boolean? (String.ofList s) with
  | some b =>
    obtain htext | htext := boolean?_eq_some hboolean
    · rw [htext, eq_toList htext]
      cases b <;> rfl
    · exact absurd (.boolean htext) (h _)
  | none =>
    -- The forms are looked for in the order in which they are read.
    by_cases hinteger : ∃ n < Nat.pow 2 128, IntegerForm s n
    · obtain ⟨n, hlt, hform⟩ := hinteger
      rcases Nat.lt_or_ge n (Nat.pow 2 64) with hsmall | hlarge
      · have htext : Nat.toDigits 10 n = s :=
          Decidable.byContradiction fun hne => h _ (.integer hform hsmall hne)
        rw [ofPlain_of_integerForm hform hlt, if_pos hsmall]
        exact congrArg Except.ok (Nat.toString_eq_ofList_toDigits.trans (by rw [htext]))
      · exact absurd (.refused hform hlarge hlt) (h _)
    by_cases hfloat : ∃ x, FloatForm s x ∧ x.isFinite = true
    · obtain ⟨x, hform, hfinite⟩ := hfloat
      have htext : Number.format.floatText x = s :=
        Decidable.byContradiction fun hne => h _ (.float hform hfinite hne)
      rw [ofPlain_of_floatForm hword hform hfinite]
      exact congrArg (Except.ok ∘ String.ofList) htext
    · simp only [not_exists, not_and, Bool.not_eq_true] at hinteger hfloat
      rw [ofPlain_eq_string hword hnull hboolean hinteger hfloat]
      rfl

theorem propertyText_eq_iff (hword : IsPlainWord s) (hnull : isNull (String.ofList s) = false) :
    (ofPlain s).map Value.propertyText = .ok (String.ofList s) ↔
      ∀ result, ¬ Retyped s result := by
  constructor
  · intro htext result h
    exact h.ne ((propertyText_eq_of_retyped hword h).symm.trans htext)
  · exact propertyText_eq_of_not_retyped hword hnull

end Texts

end Scalar

section Entry

variable {word : String}

theorem isNull_of_word (hword : IsPlainWord word.toList) (h : word ∉ ["null", "Null", "NULL"]) :
    Scalar.isNull word = false := by
  have htilde : word ≠ "~" := by
    rintro rfl
    exact absurd (hword.chars '~' (by decide)) (by decide)
  simpa [Scalar.isNull, htilde, and_assoc] using h

/-- A word other than null is read and comes back as it was written if and only if it is not in the
form of a value that is written otherwise or refused. -/
theorem properties_entry_iff (hword : IsPlainWord word.toList)
    (hnull : word ∉ ["null", "Null", "NULL"]) :
    (properties (entry word) = .ok (.ofList [("k", word)]) ↔
      ∀ result, ¬ Scalar.Retyped word.toList result) ∧
    ∀ result, Scalar.Retyped word.toList result →
      properties (entry word) = result.map fun text => .ofList [("k", text)] := by
  have hinj {text : String} : Bindings.ofList [("k", text)] = .ofList [("k", word)] ↔
      text = word := by
    constructor
    · intro heq
      have hget := congrArg (·.get? "k") heq
      simpa [Bindings.get?_ofList] using hget
    · rintro rfl
      rfl
  have hvalue : Scalar.isNull (String.ofList word.toList) = false := by
    rw [String.ofList_toList]
    exact isNull_of_word hword hnull
  rw [properties_entry hword]
  constructor
  · rw [← Scalar.propertyText_eq_iff hword hvalue, String.ofList_toList]
    cases Scalar.ofPlain word.toList with
    | error e => simp [Except.map]
    | ok v => simp [Except.map, hinj]
  · intro result h
    rw [Scalar.propertyText_eq_of_retyped hword h]

theorem properties_entry_hexadecimal :
    properties (entry "0x1F") = .ok (.ofList [("k", "31")]) := by
  have hform : Scalar.IntegerForm "0x1F".toList 31 := .hexadecimal (by decide)
  exact (properties_entry_iff (by decide) (by decide)).2 _ (.integer hform (by decide) (by decide))

theorem properties_entry_drops_zero :
    properties (entry "1.10") = .ok (.ofList [("k", "1.1")]) ∧
      properties (entry "1.10") ≠ .ok (.ofList [("k", "1.10")]) := by
  have hread : properties (entry "1.10") = .ok (.ofList [("k", "1.1")]) := by
    rw [properties_entry (by decide)]
    decide
  rw [hread]
  exact ⟨rfl, by decide⟩

end Entry

end PropertyTemplate.Yaml
