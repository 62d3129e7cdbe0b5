import PropertyTemplate.Proofs.PropertyFile.Encoding
import PropertyTemplate.Proofs.Text.Case

/-! # Escaped property files

Any text whose characters have codes of four digits can be a key or a value. Escape sequences keep
its characters from ending a line, a key or the white space in front of a value, and keep all of the
file in ASCII. What is proved of a text is proved of each character as it is written, with any text
behind it or in front of it.
-/

namespace PropertyTemplate.PropertyFile

open Text Text.Windows1252

def IsPrintable (c : Char) : Prop := 0x20 ≤ c.toNat ∧ c.toNat ≤ 0x7e

instance : DecidablePred IsPrintable :=
  fun c => inferInstanceAs (Decidable (0x20 ≤ c.toNat ∧ c.toNat ≤ 0x7e))

/-- Every character has a code of four hexadecimal digits. -/
def HasShortCodes (text : String) : Prop := ∀ c ∈ text.toList, c.toNat < 0x10000

instance : DecidablePred HasShortCodes := fun text =>
  List.decidableBAll (fun c : Char => c.toNat < 0x10000) text.toList

def fourDigits (code : Nat) : List Char :=
  [code / 4096, code / 256 % 16, code / 16 % 16, code % 16].map Nat.digitChar

def escapeChar (digits : Nat → List Char) (c : Char) : List Char :=
  match c with
  | '\\' => ['\\', '\\']
  | '\t' => ['\\', 't']
  | '\n' => ['\\', 'n']
  | '\x0c' => ['\\', 'f']
  | '\r' => ['\\', 'r']
  | ' ' => ['\\', ' ']
  | '=' => ['\\', '=']
  | ':' => ['\\', ':']
  | '#' => ['\\', '#']
  | '!' => ['\\', '!']
  | c => if IsPrintable c then [c] else '\\' :: 'u' :: digits c.toNat

def escape (digits : Nat → List Char) (text : String) : String :=
  String.ofList (text.toList.flatMap (escapeChar digits))

/-- The character means itself wherever it stands in a key or a value. -/
structure IsPlainChar (c : Char) : Prop where
  keyChar : IsKeyChar c
  notComment : isCommentMark c = false
  printable : IsPrintable c

instance : DecidablePred IsPlainChar := fun c =>
  decidable_of_iff (IsKeyChar c ∧ isCommentMark c = false ∧ IsPrintable c)
    ⟨fun h => ⟨h.1, h.2.1, h.2.2⟩, fun h => ⟨h.1, h.2, h.3⟩⟩

/-- The ways to write a character in printable ASCII. -/
inductive Writes (c : Char) : List Char → Prop
  | sequence {mark : Char} : mark ≠ 'u' → IsPrintable mark → meaning mark = c →
      Writes c ['\\', mark]
  | code {first second third fourth : Char} :
      (∀ digit ∈ [first, second, third, fourth], IsPlainChar digit) →
      codePoint [first, second, third, fourth] = .ok c →
      Writes c ['\\', 'u', first, second, third, fourth]
  | plain : IsPlainChar c → Writes c [c]

variable {c d : Char} {n : Nat} {text key value written rest front : List Char}
  {digits : Nat → List Char} {write : Char → List Char}

section Digits

theorem lt_of_hexDigit? (h : hexDigit? d = some n) : d.toNat < 128 := by
  unfold hexDigit? at h
  split at h
  · next hd => exact Nat.lt_of_le_of_lt hd.2 (by decide)
  split at h
  · next hd => exact Nat.lt_of_le_of_lt hd.2 (by decide)
  split at h
  · next hd => exact Nat.lt_of_le_of_lt hd.2 (by decide)
  · cases h

theorem hexDigit?_lowerAscii (d : Char) : hexDigit? (lowerAscii d) = hexDigit? d := by
  by_cases hd : d.toNat < 128
  · exact forall_char_of_lt (P := fun d => hexDigit? (lowerAscii d) = hexDigit? d) (by decide) d hd
  · have hcapital : ¬ ('A' ≤ d ∧ d ≤ 'Z') :=
      fun h => hd (Nat.lt_of_le_of_lt h.2 (by decide))
    rw [lowerAscii, if_neg hcapital]

theorem hexDigit?_digitChar : ∀ n < 16, hexDigit? n.digitChar = some n := by decide

theorem hexDigit?_of_lowerAscii (h : lowerAscii d = n.digitChar) (hn : n < 16) :
    hexDigit? d = some n := by
  rw [← hexDigit?_lowerAscii, h, hexDigit?_digitChar n hn]

theorem map_lowerAscii_toUpper_fourDigits {code : Nat} (hcode : code < 0x10000) :
    ((fourDigits code).map Char.toUpper).map lowerAscii = fourDigits code := by
  have hdigit : ∀ n < 16, lowerAscii n.digitChar.toUpper = n.digitChar := by decide
  simp only [fourDigits, List.map_cons, List.map_nil]
  rw [hdigit _ (by omega), hdigit _ (Nat.mod_lt _ (by decide)),
    hdigit _ (Nat.mod_lt _ (by decide)), hdigit _ (Nat.mod_lt _ (by decide))]

theorem isPlainChar_of_hexDigit? (h : hexDigit? d = some n) : IsPlainChar d := by
  have hall : ∀ d : Char, d.toNat < 128 → hexDigit? d ≠ none → IsPlainChar d :=
    forall_char_of_lt (by decide)
  exact hall d (lt_of_hexDigit? h) (by simp [h])

theorem codePoint_of_hexDigit? {first second third fourth : Char} {m k l n : Nat}
    (hfirst : hexDigit? first = some m) (hsecond : hexDigit? second = some k)
    (hthird : hexDigit? third = some l) (hfourth : hexDigit? fourth = some n)
    (hcode : 16 * (16 * (16 * m + k) + l) + n = c.toNat) :
    codePoint [first, second, third, fourth] = .ok c := by
  have hplus : first ≠ '+' := by
    rintro rfl
    cases hfirst
  have hvalue : hexadecimal? [first, second, third, fourth] = some c.toNat := by
    simp [hexadecimal?, hplus, hfirst, hsecond, hthird, hfourth, hcode]
  have hvalid : c.toNat.isValidChar := c.valid
  simp [codePoint, hvalue, hvalid]

theorem writes_digits (hdigits : (digits c.toNat).map lowerAscii = fourDigits c.toNat)
    (hcode : c.toNat < 0x10000) : Writes c ('\\' :: 'u' :: digits c.toNat) := by
  simp only [fourDigits, List.map_eq_cons_iff, List.map_cons, List.map_nil, List.map_eq_nil_iff]
    at hdigits
  obtain ⟨first, _, heq, hfirst, second, _, rfl, hsecond, third, _, rfl, hthird, fourth, _, rfl,
    hfourth, rfl⟩ := hdigits
  have hfirst := hexDigit?_of_lowerAscii hfirst (by omega)
  have hsecond := hexDigit?_of_lowerAscii hsecond (Nat.mod_lt _ (by decide))
  have hthird := hexDigit?_of_lowerAscii hthird (Nat.mod_lt _ (by decide))
  have hfourth := hexDigit?_of_lowerAscii hfourth (Nat.mod_lt _ (by decide))
  rw [heq]
  constructor
  · simp only [List.forall_mem_cons]
    exact ⟨isPlainChar_of_hexDigit? hfirst, isPlainChar_of_hexDigit? hsecond,
      isPlainChar_of_hexDigit? hthird, isPlainChar_of_hexDigit? hfourth, nofun⟩
  · exact codePoint_of_hexDigit? hfirst hsecond hthird hfourth (by omega)

end Digits

theorem isPlainChar_of_isPrintable (h : IsPrintable c)
    (hc : c ∉ ['\\', ' ', '=', ':', '#', '!']) : IsPlainChar c := by
  have hall : ∀ c : Char, c.toNat < 128 → IsPrintable c →
      c ∉ ['\\', ' ', '=', ':', '#', '!'] → IsPlainChar c := forall_char_of_lt (by decide)
  exact hall c (Nat.lt_of_le_of_lt h.2 (by decide)) h hc

theorem writes_escapeChar
    (hdigits : ∀ code < 0x10000, (digits code).map lowerAscii = fourDigits code)
    (hc : c.toNat < 0x10000) : Writes c (escapeChar digits c) := by
  unfold escapeChar
  split
  iterate 10 exact .sequence (by decide) (by decide) rfl
  split
  · refine .plain (isPlainChar_of_isPrintable ‹_› ?_)
    simp only [List.mem_cons, List.not_mem_nil, or_false, not_or]
    exact ⟨‹_›, ‹_›, ‹_›, ‹_›, ‹_›, ‹_›⟩
  · exact writes_digits (hdigits _ hc) hc

namespace Writes

theorem isPrintable (h : Writes c written) : ∀ d ∈ written, IsPrintable d := by
  cases h with
  | sequence _ hmark _ =>
    simp only [List.forall_mem_cons]
    exact ⟨by decide, hmark, nofun⟩
  | code hdigits _ =>
    intro d hd
    rcases List.mem_cons.1 hd with rfl | hd
    · decide
    rcases List.mem_cons.1 hd with rfl | hd
    · decide
    · exact (hdigits d hd).printable
  | plain hc => simpa using hc.printable

theorem exists_cons (h : Writes c written) :
    ∃ first more, written = first :: more ∧ isSpace first = false ∧
      isCommentMark first = false := by
  cases h with
  | sequence => exact ⟨_, _, rfl, by decide, by decide⟩
  | code => exact ⟨_, _, rfl, by decide, by decide⟩
  | plain hc => exact ⟨_, _, rfl, hc.keyChar.notSpace, hc.notComment⟩

theorem unescape_append (h : Writes c written) (rest : List Char) :
    unescape (written ++ rest) = (unescape rest).map (c :: ·) := by
  cases h with
  | sequence hmark _ hmeaning => simp [unescape, hmark, hmeaning]
  | code _ hcode =>
    simp only [List.cons_append, List.nil_append, unescape, hcode]
    cases unescape rest <;> rfl
  | plain hc => exact unescape_cons hc.keyChar.notEscape rest

theorem spanKey_append (h : Writes c written) (rest : List Char) :
    spanKey (written ++ rest) = (written ++ (spanKey rest).1, (spanKey rest).2) := by
  cases h with
  | sequence => rfl
  | @code first second third fourth hdigits _ =>
    simp only [List.forall_mem_cons] at hdigits
    obtain ⟨hfirst, hsecond, hthird, hfourth, -⟩ := hdigits
    simp only [List.cons_append, List.nil_append, spanKey]
    rw [spanKey_cons hfirst.keyChar, spanKey_cons hsecond.keyChar, spanKey_cons hthird.keyChar,
      spanKey_cons hfourth.keyChar]
  | plain hc => exact spanKey_cons hc.keyChar rest

/-- An escaped backslash leaves the number of backslashes at the end as odd or even as it was. All
else ends in no backslash. -/
theorem continues_append (h : Writes c written) (hfront : continues front = false) :
    continues (front ++ written) = false := by
  cases h with
  | @sequence mark =>
    by_cases hmark : mark = '\\'
    · rw [hmark, continues_append_escaped, hfront]
    · rw [List.append_cons]
      exact continues_snoc hmark _
  | @code first second third fourth hdigits _ =>
    have hlast := (hdigits fourth (by simp)).keyChar.notEscape
    have heq : front ++ ['\\', 'u', first, second, third, fourth] =
        front ++ ['\\', 'u', first, second, third] ++ [fourth] := by simp
    rw [heq]
    exact continues_snoc hlast _
  | plain hc => exact continues_snoc hc.keyChar.notEscape front

end Writes

section Texts

theorem isPrintable_flatMap (h : ∀ c ∈ text, Writes c (write c)) :
    ∀ d ∈ text.flatMap write, IsPrintable d := by
  intro d hd
  obtain ⟨c, hc, hd⟩ := List.mem_flatMap.1 hd
  exact (h c hc).isPrintable d hd

theorem head?_flatMap (h : ∀ c ∈ text, Writes c (write c)) :
    ∀ d ∈ (text.flatMap write).head?, isSpace d = false ∧ isCommentMark d = false := by
  cases text with
  | nil => nofun
  | cons c text =>
    obtain ⟨first, more, heq, hfirst⟩ := (h c List.mem_cons_self).exists_cons
    simpa [heq] using hfirst

theorem unescape_flatMap (h : ∀ c ∈ text, Writes c (write c)) :
    unescape (text.flatMap write) = .ok text := by
  induction text with
  | nil => rfl
  | cons c text ih =>
    obtain ⟨hc, htext⟩ := List.forall_mem_cons.1 h
    rw [List.flatMap_cons, hc.unescape_append, ih htext]
    rfl

theorem spanKey_flatMap (h : ∀ c ∈ key, Writes c (write c)) (rest : List Char) :
    spanKey (key.flatMap write ++ '=' :: rest) = (key.flatMap write, '=' :: rest) := by
  induction key with
  | nil => simp [spanKey]
  | cons c key ih =>
    obtain ⟨hc, hkey⟩ := List.forall_mem_cons.1 h
    rw [List.flatMap_cons, List.append_assoc, hc.spanKey_append, ih hkey]

theorem continues_append_flatMap (h : ∀ c ∈ text, Writes c (write c))
    (hfront : continues front = false) : continues (front ++ text.flatMap write) = false := by
  induction text generalizing front with
  | nil => simpa using hfront
  | cons c text ih =>
    obtain ⟨hc, htext⟩ := List.forall_mem_cons.1 h
    rw [List.flatMap_cons, ← List.append_assoc]
    exact ih htext (hc.continues_append hfront)

theorem says_flatMap (hkey : ∀ c ∈ key, Writes c (write c))
    (hvalue : ∀ c ∈ value, Writes c (write c)) :
    Says (key.flatMap write ++ '=' :: value.flatMap write)
      (some (String.ofList key, String.ofList value)) := by
  refine says_of_parts ?_ (spanKey_flatMap hkey _) (head?_flatMap hkey)
    (fun c hc => (head?_flatMap hvalue c hc).1) (unescape_flatMap hkey) (unescape_flatMap hvalue)
  rw [List.append_cons]
  exact continues_append_flatMap hvalue (continues_snoc (by decide) _)

end Texts

section Document

variable {pair : String × String} {pairs : List (String × String)}

def escapedLine (digits : Nat → List Char) (pair : String × String) : List Char :=
  pair.1.toList.flatMap (escapeChar digits) ++ '=' :: pair.2.toList.flatMap (escapeChar digits)

theorem toList_document_escape (digits : Nat → List Char) (pairs : List (String × String)) :
    (document (pairs.map (Prod.map (escape digits) (escape digits)))).toList =
      (pairs.map (escapedLine digits)).flatMap (· ++ ['\n']) := by
  rw [toList_document, List.map_map]
  simp only [Function.comp_def, Prod.map_fst, Prod.map_snd, escape, String.toList_ofList]
  rfl

theorem isPrintable_escapedLine (hkey : ∀ c ∈ pair.1.toList, Writes c (escapeChar digits c))
    (hvalue : ∀ c ∈ pair.2.toList, Writes c (escapeChar digits c)) :
    ∀ c ∈ escapedLine digits pair, IsPrintable c := by
  intro c hc
  rcases List.mem_append.1 hc with hc | hc
  · exact isPrintable_flatMap hkey c hc
  · rcases List.mem_cons.1 hc with rfl | hc
    · decide
    · exact isPrintable_flatMap hvalue c hc

theorem unbroken_of_isPrintable (h : ∀ c ∈ text, IsPrintable c) : Unbroken text := by
  intro c hc
  have hc := h c hc
  constructor <;> rintro rfl <;> exact absurd hc (by decide)

theorem isAscii_flatMap {lines : List (List Char)} (h : ∀ line ∈ lines, ∀ c ∈ line, IsPrintable c) :
    IsAscii (lines.flatMap (· ++ ['\n'])) := by
  intro c hc
  obtain ⟨line, hline, hc⟩ := List.mem_flatMap.1 hc
  rcases List.mem_append.1 hc with hc | hc
  · exact Nat.lt_of_le_of_lt (h line hline c hc).2 (by decide)
  · rw [List.mem_singleton.1 hc]
    decide

theorem characters_of_isAscii {text : String} (h : IsAscii text.toList) :
    characters text = text.toList := by
  rw [characters_of_not_mark, misread_of_isAscii h]
  intro hmark
  exact absurd (h _ (List.mem_of_mem_head? hmark)) (by decide)

/-- Pairs of any texts are read back from the lines in which they are written with escape
sequences, and each key is bound to its last value. -/
theorem properties_document_escape
    (hdigits : ∀ code < 0x10000, (digits code).map lowerAscii = fourDigits code)
    (hcodes : ∀ pair ∈ pairs, HasShortCodes pair.1 ∧ HasShortCodes pair.2) :
    ∃ bindings, properties (document (pairs.map (Prod.map (escape digits) (escape digits)))) =
        .ok bindings ∧ ∀ key, bindings.get? key = pairs.reverse.lookup key := by
  have hkey : ∀ pair ∈ pairs, ∀ c ∈ pair.1.toList, Writes c (escapeChar digits c) :=
    fun pair hpair c hc => writes_escapeChar hdigits ((hcodes pair hpair).1 c hc)
  have hvalue : ∀ pair ∈ pairs, ∀ c ∈ pair.2.toList, Writes c (escapeChar digits c) :=
    fun pair hpair c hc => writes_escapeChar hdigits ((hcodes pair hpair).2 c hc)
  have hprintable : ∀ line ∈ pairs.map (escapedLine digits), ∀ c ∈ line, IsPrintable c := by
    rw [List.forall_mem_map]
    exact fun pair hpair => isPrintable_escapedLine (hkey pair hpair) (hvalue pair hpair)
  have hascii := isAscii_flatMap hprintable
  rw [← toList_document_escape] at hascii
  have hlines : characters (document (pairs.map (Prod.map (escape digits) (escape digits)))) =
      (pairs.map (escapedLine digits)).flatMap (· ++ ['\n']) := by
    rw [characters_of_isAscii hascii, toList_document_escape]
  have hsays : List.Forall₂ (fun line pair => Says line (some pair))
      (pairs.map (escapedLine digits)) pairs := by
    rw [List.forall₂_map_left_iff, List.forall₂_same]
    intro pair hpair
    have hpair := says_flatMap (hkey pair hpair) (hvalue pair hpair)
    rwa [String.ofList_toList, String.ofList_toList] at hpair
  have hunbroken : ∀ line ∈ pairs.map (escapedLine digits), Unbroken line :=
    fun line hline => unbroken_of_isPrintable (hprintable line hline)
  exact ⟨.ofList pairs, properties_of_says hlines hunbroken hsays, Bindings.get?_ofList pairs⟩

theorem properties_document_escape_capitals :
    let digits code := (fourDigits code).map Char.toUpper
    let pairs := [("", ""), ("#a b", "v\\\\"), ("\\k\\", " \t\n\x0c\r=:!x"),
      ("é€", "\ufeff\u0000\u007f"), ("", "last")]
    ∃ bindings, properties (document (pairs.map (Prod.map (escape digits) (escape digits)))) =
        .ok bindings ∧ ∀ key, bindings.get? key = pairs.reverse.lookup key :=
  properties_document_escape (fun _ => map_lowerAscii_toUpper_fourDigits) (by decide)

end Document

end PropertyTemplate.PropertyFile
