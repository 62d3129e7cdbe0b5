import PropertyTemplate.Yaml.Scalar

/-! # Numerals

The forms in which numbers are written without a sign, and what they are read as. A number in
decimal that does not start with a superfluous zero is written in one way only.
-/

namespace PropertyTemplate.Yaml.Scalar

open Decimal

/-- An integer without a sign, in decimal or in the base that it names. -/
inductive IntegerForm : List Char → Nat → Prop
  | decimal (n : Nat) : IntegerForm (Nat.toDigits 10 n) n
  | hexadecimal {digits n} (h : natural? 16 digits = some n) : IntegerForm ('0' :: 'x' :: digits) n
  | octal {digits n} (h : natural? 8 digits = some n) : IntegerForm ('0' :: 'o' :: digits) n
  | binary {digits n} (h : natural? 2 digits = some n) : IntegerForm ('0' :: 'b' :: digits) n

inductive Exponent : List Char → Nat → Prop
  | missing : Exponent [] 0
  | written {mark digits e} (hmark : mark = 'e' ∨ mark = 'E') (h : natural? 10 digits = some e) :
    Exponent (mark :: digits) e

/-- A number without a sign that is no integer: it has a point or an exponent, or takes more than
128 bits. The floating point number is the nearest one. -/
inductive FloatForm : List Char → Binary64 → Prop
  | pointed {whole fraction exponent n e} (h : natural? 10 (whole ++ fraction) = some n)
      (hexponent : Exponent exponent e) :
    FloatForm (whole ++ '.' :: (fraction ++ exponent)) (.ofDecimal false n (e - fraction.length))
  | scaled {whole mark digits n e} (h : natural? 10 whole = some n)
      (hmark : mark = 'e' ∨ mark = 'E') (hexponent : natural? 10 digits = some e) :
    FloatForm (whole ++ mark :: digits) (.ofDecimal false n e)
  | large {n} (h : Nat.pow 2 128 ≤ n) : FloatForm (Nat.toDigits 10 n) (.ofDecimal false n 0)

section Naturals

variable {c : Char} {digits more rest : List Char} {base value n d : Nat}

/-- The value of digits behind others that have the value `value`. -/
def naturalFrom? (base value : Nat) (digits : List Char) : Option Nat :=
  digits.foldlM (fun value c => (digit? base c).map (base * value + ·)) value

theorem naturalFrom?_cons (base value : Nat) (c : Char) (digits : List Char) :
    naturalFrom? base value (c :: digits) =
      (digit? base c).bind fun d => naturalFrom? base (base * value + d) digits := by
  rw [naturalFrom?, List.foldlM_cons]
  cases digit? base c <;> rfl

theorem naturalFrom?_append (base value : Nat) (digits more : List Char) :
    naturalFrom? base value (digits ++ more) =
      (naturalFrom? base value digits).bind fun n => naturalFrom? base n more :=
  List.foldlM_append

theorem natural?_eq_some_iff :
    natural? base digits = some n ↔ digits ≠ [] ∧ naturalFrom? base 0 digits = some n := by
  cases digits <;> simp [natural?, naturalFrom?]

theorem digit?_ten_eq_some_iff : digit? 10 c = some d ↔ d < 10 ∧ c = d.digitChar := by
  constructor
  · intro h
    have hrange : d < 10 ∧ c.toNat = 48 + d := by
      have hval : c.val.toNat = c.toNat := rfl
      simp only [digit?, Char.le_def, UInt32.le_iff_toNat_le, hval] at h
      grind
    refine ⟨hrange.1, Char.toNat_inj.1 ?_⟩
    rw [hrange.2, Nat.toNat_digitChar_of_lt_ten hrange.1]
  · rintro ⟨hd, rfl⟩
    have hall : ∀ d < 10, digit? 10 d.digitChar = some d := by decide
    exact hall d hd

theorem isDigit_of_naturalFrom? (h : naturalFrom? 10 value digits = some n) :
    ∀ c ∈ digits, c.isDigit = true := by
  induction digits generalizing value with
  | nil => nofun
  | cons c digits ih =>
    rw [naturalFrom?_cons, Option.bind_eq_some_iff] at h
    obtain ⟨d, hd, h⟩ := h
    obtain ⟨hlt, rfl⟩ := digit?_ten_eq_some_iff.1 hd
    exact List.forall_mem_cons.2 ⟨by rw [Nat.isDigit_digitChar, decide_eq_true hlt], ih h⟩

theorem isDigit_of_natural? (h : natural? 10 digits = some n) : ∀ c ∈ digits, c.isDigit = true :=
  isDigit_of_naturalFrom? (natural?_eq_some_iff.1 h).2

theorem naturalFrom?_toDigits (n : Nat) : naturalFrom? 10 0 (Nat.toDigits 10 n) = some n := by
  induction n using Nat.strongRecOn with
  | ind n ih =>
    have hdigit : digit? 10 (n % 10).digitChar = some (n % 10) :=
      digit?_ten_eq_some_iff.2 ⟨Nat.mod_lt n (by decide), rfl⟩
    rw [Nat.toDigits_eq_if (by decide)]
    split
    · rename_i hlt
      rw [Nat.mod_eq_of_lt hlt] at hdigit
      simp [naturalFrom?, hdigit]
    · rename_i hle
      rw [naturalFrom?_append, ih (n / 10) (by omega), Option.bind_some, naturalFrom?_cons, hdigit,
        Option.bind_some, naturalFrom?, List.foldlM_nil, Nat.div_add_mod]
      rfl

theorem natural?_toDigits (n : Nat) : natural? 10 (Nat.toDigits 10 n) = some n :=
  natural?_eq_some_iff.2 ⟨Nat.toDigits_ne_nil, naturalFrom?_toDigits n⟩

/-- Digits behind a number that is not zero are the digits of what they make of it. -/
theorem toDigits_append_of_naturalFrom? (hvalue : 0 < value)
    (h : naturalFrom? 10 value digits = some n) :
    Nat.toDigits 10 value ++ digits = Nat.toDigits 10 n := by
  induction digits generalizing value with
  | nil =>
    cases h
    exact List.append_nil _
  | cons c digits ih =>
    rw [naturalFrom?_cons, Option.bind_eq_some_iff] at h
    obtain ⟨d, hd, h⟩ := h
    obtain ⟨hlt, rfl⟩ := digit?_ten_eq_some_iff.1 hd
    rw [← ih (by omega) h, ← Nat.toDigits_append_toDigits (by decide) hvalue hlt,
      Nat.toDigits_of_lt_base hlt, List.append_assoc, List.singleton_append]

theorem cons_ne_cons_of_isAlphanum {mark : Char} (hc : c.isAlphanum = true)
    (hmark : mark.isAlphanum = false) : c :: rest ≠ mark :: more := by
  intro heq
  obtain ⟨rfl, -⟩ := List.cons.inj heq
  simp [hc] at hmark

theorem unsigned_of_isAlphanum (hc : c.isAlphanum = true) (rest : List Char) :
    unsigned (c :: rest) = c :: rest := by
  unfold unsigned
  split <;> rename_i heq
  · exact absurd heq (cons_ne_cons_of_isAlphanum hc rfl)
  · exact absurd heq (cons_ne_cons_of_isAlphanum hc rfl)
  · rfl

theorem isAlphanum_of_isDigit (hc : c.isDigit = true) : c.isAlphanum = true := by
  simp [Char.isAlphanum, hc]

theorem hasLeadingZero_cons (hc : c.isAlphanum = true) :
    hasLeadingZero (c :: rest) = (c == '0' && !rest.isEmpty && rest.all Char.isDigit) := by
  rw [hasLeadingZero, unsigned_of_isAlphanum hc]
  cases rest with
  | nil => simp
  | cons c' rest =>
    by_cases hc' : c = '0'
    · subst hc'
      simp
    · simp [hc']

theorem toDigits_of_natural? (h : natural? 10 digits = some n)
    (hzero : hasLeadingZero digits = false) : Nat.toDigits 10 n = digits := by
  obtain ⟨hne, hfrom⟩ := natural?_eq_some_iff.1 h
  obtain ⟨c, rest, rfl⟩ := List.exists_cons_of_ne_nil hne
  obtain ⟨hc, hrest⟩ := List.forall_mem_cons.1 (isDigit_of_natural? h)
  rw [naturalFrom?_cons, Option.bind_eq_some_iff] at hfrom
  obtain ⟨d, hd, hfrom⟩ := hfrom
  obtain ⟨hlt, rfl⟩ := digit?_ten_eq_some_iff.1 hd
  rw [Nat.mul_zero, Nat.zero_add] at hfrom
  rcases Nat.eq_zero_or_pos d with rfl | hpos
  · have hall : rest.all Char.isDigit = true := List.all_eq_true.2 hrest
    rw [hasLeadingZero_cons (isAlphanum_of_isDigit hc), hall] at hzero
    have hnil : rest = [] := by simpa using hzero
    subst hnil
    cases hfrom
    rfl
  · rw [← toDigits_append_of_naturalFrom? hpos hfrom, Nat.toDigits_of_lt_base hlt,
      List.singleton_append]

theorem exists_toDigits_eq_cons (h : 0 < n) :
    ∃ d rest, Nat.toDigits 10 n = d.digitChar :: rest ∧ 0 < d ∧ d < 10 := by
  induction n using Nat.strongRecOn with
  | ind n ih =>
    rcases Nat.lt_or_ge n 10 with hlt | hge
    · exact ⟨n, [], Nat.toDigits_of_lt_base hlt, h, hlt⟩
    · obtain ⟨d, rest, heq, hd⟩ := ih (n / 10) (by omega) (by omega)
      refine ⟨d, rest ++ [(n % 10).digitChar], ?_, hd⟩
      rw [Nat.toDigits_of_base_le (by decide) hge, heq, List.cons_append]

theorem hasLeadingZero_toDigits (n : Nat) : hasLeadingZero (Nat.toDigits 10 n) = false := by
  rcases Nat.eq_zero_or_pos n with rfl | hpos
  · rfl
  · obtain ⟨d, rest, heq, hd, hlt⟩ := exists_toDigits_eq_cons hpos
    have hdigit : d.digitChar.isDigit = true := by
      rw [Nat.isDigit_digitChar, decide_eq_true hlt]
    have hne : d ≠ 0 := by omega
    simp [heq, hasLeadingZero_cons (isAlphanum_of_isDigit hdigit), hne]

theorem isDigit_of_mem_toDigits : ∀ c ∈ Nat.toDigits 10 n, c.isDigit = true :=
  fun _ => Nat.isDigit_of_mem_toDigits (by decide) (by decide)

end Naturals

section Integers

variable {s digits : List Char} {n : Nat}

theorem magnitude?_of_isDigit (h : ∀ c ∈ s, c.isDigit = true) : magnitude? s = natural? 10 s := by
  unfold magnitude?
  split
  · exact absurd (h 'x' (by simp)) (by decide)
  · exact absurd (h 'o' (by simp)) (by decide)
  · exact absurd (h 'b' (by simp)) (by decide)
  · rfl

theorem IntegerForm.magnitude?_eq (h : IntegerForm s n) : magnitude? s = some n := by
  cases h with
  | decimal n => rw [magnitude?_of_isDigit isDigit_of_mem_toDigits, natural?_toDigits]
  | hexadecimal h => exact h
  | octal h => exact h
  | binary h => exact h

theorem IntegerForm.hasLeadingZero_eq (h : IntegerForm s n) : hasLeadingZero s = false := by
  cases h with
  | decimal n => exact hasLeadingZero_toDigits n
  | hexadecimal h => rfl
  | octal h => rfl
  | binary h => rfl

theorem IntegerForm.start (h : IntegerForm s n) : ∃ c rest, s = c :: rest ∧ c.isDigit = true := by
  cases h with
  | decimal n =>
    obtain ⟨c, rest, heq⟩ := List.exists_cons_of_ne_nil (Nat.toDigits_ne_nil (n := n) (b := 10))
    exact ⟨c, rest, heq, isDigit_of_mem_toDigits c (heq ▸ List.mem_cons_self)⟩
  | hexadecimal h => exact ⟨'0', _, rfl, rfl⟩
  | octal h => exact ⟨'0', _, rfl, rfl⟩
  | binary h => exact ⟨'0', _, rfl, rfl⟩

theorem IntegerForm.of_magnitude? (h : magnitude? s = some n) (hzero : hasLeadingZero s = false) :
    IntegerForm s n := by
  unfold magnitude? at h
  split at h
  · exact .hexadecimal h
  · exact .octal h
  · exact .binary h
  · rw [← toDigits_of_natural? h hzero]
    exact .decimal n

end Integers

section Decimals

variable {s digits rest whole fraction exponent : List Char} {n e : Nat} {x : Binary64}

theorem takeWhile_isDigit_append (h : ∀ c ∈ digits, c.isDigit = true)
    (hrest : ∀ c ∈ rest.head?, c.isDigit = false) :
    (digits ++ rest).takeWhile Char.isDigit = digits ∧
      (digits ++ rest).dropWhile Char.isDigit = rest := by
  rw [List.takeWhile_append_of_pos h, List.dropWhile_append_of_pos h]
  cases rest with
  | nil => simp
  | cons c rest => simp [hrest c rfl]

theorem Exponent.head? (h : Exponent s e) : ∀ c ∈ s.head?, c.isDigit = false := by
  cases h with
  | missing => nofun
  | written hmark h =>
    rintro c ⟨⟩
    obtain rfl | rfl := hmark <;> rfl

theorem exponent?_cons {mark : Char} (hminus : digits.head? ≠ some '-')
    (hplus : digits.head? ≠ some '+') : exponent? (mark :: digits) =
      if mark = 'e' ∨ mark = 'E' then (natural? 10 digits).map Int.ofNat else none := by
  rw [exponent?]
  · simp only [Bool.or_eq_true, beq_iff_eq]
    cases natural? 10 digits <;> rfl
  · rintro rest rfl
    simp at hminus
  · rintro rest rfl
    simp at hplus

theorem Exponent.exponent?_eq (h : Exponent s e) : exponent? s = some (e : Int) := by
  cases h with
  | missing => rfl
  | @written mark digits e hmark h =>
    have hsign {sign : Char} (hsign : sign.isDigit = false) : digits.head? ≠ some sign := by
      intro hhead
      have hdigit := isDigit_of_natural? h sign (List.mem_of_mem_head? hhead)
      rw [hsign] at hdigit
      cases hdigit
    rw [exponent?_cons (hsign rfl) (hsign rfl), if_pos hmark, h]
    rfl

/-- Without signs, all that is read as an exponent is one. -/
theorem Exponent.of_exponent? {i : Int} (hminus : '-' ∉ s) (hplus : '+' ∉ s)
    (h : exponent? s = some i) : ∃ e : Nat, i = e ∧ Exponent s e := by
  cases s with
  | nil =>
    cases h
    exact ⟨0, rfl, .missing⟩
  | cons mark digits =>
    have hminus' : digits.head? ≠ some '-' :=
      fun hhead => hminus (List.mem_cons_of_mem _ (List.mem_of_mem_head? hhead))
    have hplus' : digits.head? ≠ some '+' :=
      fun hhead => hplus (List.mem_cons_of_mem _ (List.mem_of_mem_head? hhead))
    rw [exponent?_cons hminus' hplus'] at h
    split at h
    · rename_i hmark
      obtain ⟨e, he, rfl⟩ := Option.map_eq_some_iff.1 h
      exact ⟨e, rfl, .written hmark he⟩
    · cases h

theorem exists_digits_append (s : List Char) : ∃ digits rest, s = digits ++ rest ∧
    (∀ c ∈ digits, c.isDigit = true) ∧ ∀ c ∈ rest.head?, c.isDigit = false := by
  refine ⟨s.takeWhile Char.isDigit, s.dropWhile Char.isDigit,
    List.takeWhile_append_dropWhile.symm, ?_, ?_⟩
  · exact List.all_eq_true.1 List.all_takeWhile
  · intro c hc
    have hne := List.head?_dropWhile_not Char.isDigit s
    rw [hc] at hne
    simpa using hne

theorem decimal?_pointed (hwhole : ∀ c ∈ whole, c.isDigit = true)
    (hfraction : ∀ c ∈ fraction, c.isDigit = true) (hrest : ∀ c ∈ rest.head?, c.isDigit = false) :
    decimal? false (whole ++ '.' :: (fraction ++ rest)) =
      (natural? 10 (whole ++ fraction)).bind fun n =>
        (exponent? rest).map fun e => .ofDecimal false n (e - fraction.length) := by
  have hpoint : ∀ c ∈ ('.' :: (fraction ++ rest)).head?, c.isDigit = false := by simp
  obtain ⟨htake, hdrop⟩ := takeWhile_isDigit_append hwhole hpoint
  obtain ⟨htake', hdrop'⟩ := takeWhile_isDigit_append hfraction hrest
  simp only [decimal?, htake, hdrop, htake', hdrop']
  cases natural? 10 (whole ++ fraction) <;> cases exponent? rest <;> rfl

theorem decimal?_of_not_point (hwhole : ∀ c ∈ whole, c.isDigit = true)
    (hrest : ∀ c ∈ rest.head?, c.isDigit = false) (hpoint : rest.head? ≠ some '.') :
    decimal? false (whole ++ rest) =
      (natural? 10 whole).bind fun n => (exponent? rest).map fun e => .ofDecimal false n e := by
  obtain ⟨htake, hdrop⟩ := takeWhile_isDigit_append hwhole hrest
  simp only [decimal?, htake, hdrop]
  split
  · simp at hpoint
  · rw [List.append_nil]
    cases natural? 10 whole <;> cases exponent? rest <;> simp

theorem FloatForm.decimal?_eq (h : FloatForm s x) : decimal? false s = some x := by
  cases h with
  | pointed h hexponent =>
    have hdigits := isDigit_of_natural? h
    rw [List.forall_mem_append] at hdigits
    rw [decimal?_pointed hdigits.1 hdigits.2 hexponent.head?, h, hexponent.exponent?_eq]
    rfl
  | scaled h hmark hexponent =>
    have hexponent := Exponent.written hmark hexponent
    rw [decimal?_of_not_point (isDigit_of_natural? h) hexponent.head? (by rintro ⟨⟩; simp at hmark),
      h, hexponent.exponent?_eq]
    rfl
  | @large n h =>
    rw [← List.append_nil (Nat.toDigits 10 n),
      decimal?_of_not_point isDigit_of_mem_toDigits (by simp) (by simp), natural?_toDigits]
    rfl

/-- Without signs, all that is read as a decimal is one or is an integer. -/
theorem FloatForm.of_decimal? (hminus : '-' ∉ s) (hplus : '+' ∉ s)
    (hzero : hasLeadingZero s = false) (h : decimal? false s = some x) :
    FloatForm s x ∨ ∃ n < Nat.pow 2 128, IntegerForm s n := by
  obtain ⟨whole, rest, rfl, hwhole, hrest⟩ := exists_digits_append s
  simp only [List.mem_append, not_or] at hminus hplus
  by_cases hpoint : rest.head? = some '.'
  -- With a point the digits behind it count too, and then there may be an exponent.
  · obtain ⟨behind, rfl⟩ := List.head?_eq_some_iff.1 hpoint
    obtain ⟨fraction, exponent, rfl, hfraction, hexponent⟩ := exists_digits_append behind
    simp only [List.mem_cons, List.mem_append, not_or] at hminus hplus
    rw [decimal?_pointed hwhole hfraction hexponent] at h
    simp only [Option.bind_eq_some_iff, Option.map_eq_some_iff] at h
    obtain ⟨n, hn, i, hi, rfl⟩ := h
    obtain ⟨e, rfl, he⟩ := Exponent.of_exponent? hminus.2.2.2 hplus.2.2.2 hi
    exact .inl (.pointed hn he)
  · rw [decimal?_of_not_point hwhole hrest hpoint] at h
    simp only [Option.bind_eq_some_iff, Option.map_eq_some_iff] at h
    obtain ⟨n, hn, i, hi, rfl⟩ := h
    obtain ⟨e, rfl, he⟩ := Exponent.of_exponent? hminus.2 hplus.2 hi
    cases he with
    | written hmark he => exact .inl (.scaled hn hmark he)
    -- Digits alone are an integer, of whatever size.
    | missing =>
      rw [List.append_nil] at hzero ⊢
      rw [← toDigits_of_natural? hn hzero]
      rcases Nat.lt_or_ge n (Nat.pow 2 128) with hlt | hge
      · exact .inr ⟨n, hlt, .decimal n⟩
      · exact .inl (.large hge)

/-- A number that is no integer has a mark behind its first digits, unless it is a large one. -/
theorem FloatForm.exists_mark (h : FloatForm s x) :
    (∃ digits mark rest, s = digits ++ mark :: rest ∧ (∀ c ∈ digits, c.isDigit = true) ∧
      (mark = '.' ∨ mark = 'e' ∨ mark = 'E')) ∨
    ∃ n, s = Nat.toDigits 10 n ∧ Nat.pow 2 128 ≤ n := by
  cases h with
  | pointed h hexponent =>
    have hdigits := isDigit_of_natural? h
    rw [List.forall_mem_append] at hdigits
    exact .inl ⟨_, '.', _, rfl, hdigits.1, .inl rfl⟩
  | @scaled whole mark digits n e h hmark hexponent =>
    exact .inl ⟨whole, mark, digits, rfl, isDigit_of_natural? h, .inr hmark⟩
  | @large n h => exact .inr ⟨n, rfl, h⟩

theorem IntegerForm.head?_dropWhile (h : IntegerForm s n) :
    (s.dropWhile Char.isDigit).head? ∈ [none, some 'x', some 'o', some 'b'] := by
  cases h with
  | decimal n =>
    rw [← List.append_nil (Nat.toDigits 10 n),
      (takeWhile_isDigit_append isDigit_of_mem_toDigits (by simp)).2]
    simp
  | hexadecimal h => simp
  | octal h => simp
  | binary h => simp

theorem FloatForm.le_of_integerForm (h : FloatForm s x) (hinteger : IntegerForm s n) :
    Nat.pow 2 128 ≤ n := by
  obtain ⟨digits, mark, rest, rfl, hdigits, hmark⟩ | ⟨m, rfl, hle⟩ := h.exists_mark
  · have hhead := hinteger.head?_dropWhile
    have hnot : ∀ c ∈ (mark :: rest).head?, c.isDigit = false := by
      rintro c ⟨⟩
      obtain rfl | rfl | rfl := hmark <;> rfl
    rw [(takeWhile_isDigit_append hdigits hnot).2] at hhead
    obtain rfl | rfl | rfl := hmark <;> simp at hhead
  · have hmagnitude := hinteger.magnitude?_eq
    rw [(IntegerForm.decimal m).magnitude?_eq, Option.some_inj] at hmagnitude
    exact hmagnitude ▸ hle

theorem FloatForm.hasLeadingZero_eq {c : Char} (h : FloatForm (c :: rest) x)
    (hc : c.isDigit = true) : hasLeadingZero (c :: rest) = false := by
  obtain ⟨digits, mark, behind, heq, -, hmark⟩ | ⟨n, heq, -⟩ := h.exists_mark
  · have hdigit : mark.isDigit = false := by obtain rfl | rfl | rfl := hmark <;> rfl
    have hmem : mark ∈ c :: rest := by simp [heq]
    have hrest : mark ∈ rest := by
      obtain rfl | hrest := List.mem_cons.1 hmem
      · simp [hc] at hdigit
      · exact hrest
    have hall : rest.all Char.isDigit = false := List.all_eq_false.2 ⟨mark, hrest, by simp [hdigit]⟩
    rw [hasLeadingZero_cons (isAlphanum_of_isDigit hc), hall, Bool.and_false]
  · rw [heq]
    exact hasLeadingZero_toDigits n

end Decimals

end PropertyTemplate.Yaml.Scalar
