import PropertyTemplate.Yaml.Document

/-! # Documents of one entry

A document of one line that binds the key `k` to a word. Its tokens, and so its nodes, are the same
whatever the word is: what the document holds depends only on what the word is read as.
-/

namespace PropertyTemplate.Yaml

open Reader

variable {c d : Char} {word rest : List Char}

section Characters

def isWordChar (c : Char) : Bool := c.isAlphanum || c == '.' || c == '_'

/-- A text of such characters that starts with a letter or a digit. -/
structure IsPlainWord (word : List Char) : Prop where
  start : ∃ c rest, word = c :: rest ∧ c.isAlphanum = true
  chars : ∀ c ∈ word, isWordChar c = true

instance : DecidablePred IsPlainWord := fun word =>
  decidable_of_iff (word.head?.any Char.isAlphanum = true ∧ word.all isWordChar = true) <| by
    rw [List.all_eq_true]
    constructor
    · rintro ⟨hstart, hchars⟩
      obtain ⟨c, hhead, hc⟩ := (Option.any_eq_true _ _).1 hstart
      obtain ⟨rest, rfl⟩ := List.head?_eq_some_iff.1 hhead
      exact ⟨⟨c, rest, rfl, hc⟩, hchars⟩
    · rintro ⟨⟨c, rest, rfl, hc⟩, hchars⟩
      exact ⟨hc, hchars⟩

theorem beq_of_isWordChar (hc : isWordChar c = true) (hd : isWordChar d = false) :
    (c == d) = false := by
  rw [beq_eq_false_iff_ne]
  rintro rfl
  simp [hc] at hd

theorem isBlankOrBreak_of_isWordChar (hc : isWordChar c = true) : isBlankOrBreak c = false := by
  simp (disch := decide) [isBlankOrBreak, isBlank, isBreak, beq_of_isWordChar hc]

theorem isIndicator_of_isWordChar (hc : isWordChar c = true) : isIndicator c = false := by
  simp (disch := decide) [isIndicator, beq_of_isWordChar hc]

theorem isAllowed_of_isWordChar (hc : isWordChar c = true) : isAllowed c = true := by
  have hrange : ' ' ≤ c ∧ c ≤ '~' := by
    simp only [isWordChar, Bool.or_eq_true, beq_iff_eq] at hc
    obtain (hc | rfl) | rfl := hc
    · change (decide (c.val ≥ 'A'.val ∧ c.val ≤ 'Z'.val) || (c.val ≥ 'a'.val && c.val ≤ 'z'.val) ||
        (c.val ≥ '0'.val && c.val ≤ '9'.val)) = true at hc
      simp only [Char.le_def]
      grind
    · decide
    · decide
  simp [isAllowed, hrange]

end Characters

section Scalars

/-- A document mark stands at the start of a line. -/
theorem atMark_of_column {c : Cursor} (mark : Char) (h : c.column ≠ 0) : c.atMark mark = false := by
  unfold Cursor.atMark
  split
  · simp [h]
  · rfl

theorem advance_length (word rest : List Char) (index line column : Nat) :
    Cursor.advance word.length ⟨word ++ rest, index, line, column⟩ =
      ⟨rest, index + octets word, line, column + word.length⟩ := by
  simp [Cursor.advance]

theorem plainRun_append (h : ∀ c ∈ word, isWordChar c = true) (rest : List Char) :
    plainRun false (word ++ '\n' :: rest) = .ok word := by
  induction word with
  | nil => rfl
  | cons c word ih =>
    obtain ⟨hc, hword⟩ := List.forall_mem_cons.1 h
    simp (disch := decide) [plainRun, ih hword, isBlankOrBreak_of_isWordChar hc,
      beq_of_isWordChar hc, Except.map]

/-- The line feed behind a word is read with it, to see whether the scalar goes on. -/
theorem readPlain_word (h : IsPlainWord word) {index line column : Nat} (hcolumn : column ≠ 0) :
    readPlain false 1 ⟨word ++ ['\n'], index, line, column⟩ =
      .ok ⟨word, ⟨[], index + octets word + 1, line + 1, 0⟩, true⟩ := by
  obtain ⟨c, rest, rfl, -⟩ := h.start
  have hhash := beq_of_isWordChar (d := '#') (h.chars c List.mem_cons_self) (by decide)
  have hnext : Cursor.next (· == '#') ⟨c :: rest ++ ['\n'], index, line, column⟩ = false := hhash
  have hmark (mark : Char) := atMark_of_column
    (c := ⟨c :: rest ++ ['\n'], index, line, column⟩) mark hcolumn
  rw [readPlain, readPlainFrom]
  simp only [Cursor.atDocumentMark, hmark, hnext, Bool.or_self, Bool.false_eq_true, if_false,
    plainRun_append h.chars, bind, Except.bind, List.isEmpty_cons, advance_length,
    List.length_append, List.length_singleton]
  rfl

end Scalars

section Tokens

def behindKey (text : List Char) : Reader where
  cursor := ⟨':' :: ' ' :: text, 1, 0, 1⟩
  tokens := [.scalar true ['k']]
  count := 1
  keyStart := some ⟨0, false, 0, 0, 0⟩
  keyAllowed := false

def behindColon (text : List Char) : Reader where
  cursor := ⟨' ' :: text, 2, 0, 2⟩
  tokens := [.value, .scalar true ['k'], .key, .blockMappingStart]
  count := 4
  indent := 0
  outerIndents := [-1]
  keyAllowed := false

def beforeWord (word : List Char) : Reader :=
  { behindColon (word ++ ['\n']) with cursor := ⟨word ++ ['\n'], 3, 0, 3⟩ }

def behindWord (word : List Char) : Reader where
  cursor := ⟨[], 3 + octets word + 1, 1, 0⟩
  tokens := [.scalar true word, .value, .scalar true ['k'], .key, .blockMappingStart]
  count := 5
  indent := 0
  outerIndents := [-1]

theorem readTokenAt_colon {r : Reader} (rest : List Char) (h : r.cursor.column ≠ 0) :
    readTokenAt ':' (' ' :: rest) r = readValue r := by
  simp [readTokenAt, atMark_of_column _ h, startsBlank, firstIs, isBlankOrBreak, isBlank]

theorem readTokenAt_of_isWordChar {r : Reader} (hc : isWordChar c = true)
    (h : r.cursor.column ≠ 0) : readTokenAt c rest r = readPlainScalar r := by
  simp (disch := decide) [readTokenAt, atMark_of_column _ h, beq_of_isWordChar hc,
    isBlankOrBreak_of_isWordChar hc, isIndicator_of_isWordChar hc]

theorem readTokens_key (n : Nat) (text : List Char) :
    readTokens (n + 1) { cursor := { rest := 'k' :: ':' :: ' ' :: text } } =
      readTokens n (behindKey text) := rfl

theorem readTokens_colon (n : Nat) (text : List Char) :
    readTokens (n + 1) (behindKey text) = readTokens n (behindColon text) := by
  -- A document mark has three characters, and here only two of them are known.
  have hcolon : readTokenAt ':' (' ' :: text) (behindKey text) = .ok (behindColon text) := by
    rw [readTokenAt_colon text (Nat.succ_ne_zero 0)]
    rfl
  change (readTokenAt ':' (' ' :: text) (behindKey text) >>= readTokens n) = _
  rw [hcolon]
  rfl

theorem skipToToken_behindColon (h : IsPlainWord word) (n : Nat) :
    skipToToken (n + 1) (behindColon (word ++ ['\n'])) = beforeWord word := by
  obtain ⟨c, rest, rfl, -⟩ := h.start
  have hc := h.chars c List.mem_cons_self
  have hblank := isBlankOrBreak_of_isWordChar hc
  simp only [isBlankOrBreak, Bool.or_eq_false_iff] at hblank
  simp (disch := decide) [skipToToken, behindColon, beforeWord, Cursor.next, firstIs,
    Cursor.skipWhile, Cursor.takeWhile, List.takeWhile_cons, Cursor.advance, octets,
    beq_of_isWordChar hc, hblank.2]
  rfl

theorem readTokens_word (h : IsPlainWord word) (n : Nat) :
    readTokens (n + 1) (behindColon (word ++ ['\n'])) = readTokens n (behindWord word) := by
  obtain ⟨c, rest, rfl, -⟩ := h.start
  have hword : readTokenAt c (rest ++ ['\n']) (beforeWord (c :: rest)) =
      .ok (behindWord (c :: rest)) := by
    rw [readTokenAt_of_isWordChar (h.chars c List.mem_cons_self) (Nat.succ_ne_zero 2),
      readPlainScalar]
    change (readPlain false 1 ⟨(c :: rest) ++ ['\n'], 3, 0, 3⟩ >>= _) = _
    rw [readPlain_word h (by decide)]
    rfl
  rw [readTokens, skipToToken_behindColon h]
  change (readTokenAt c (rest ++ ['\n']) (beforeWord (c :: rest)) >>= readTokens n) = _
  rw [hword]
  rfl

def entry (word : String) : String := "k: " ++ word ++ "\n"

def entryTokens (word : List Char) : List Token :=
  [.blockMappingStart, .key, .scalar true ['k'], .value, .scalar true word, .blockEnd]

theorem toList_entry (word : String) :
    (entry word).toList = 'k' :: ':' :: ' ' :: (word.toList ++ ['\n']) := by
  simp [entry]

theorem ofText_entry {word : String} (h : IsPlainWord word.toList) :
    Token.ofText (entry word).toList = .ok (entryTokens word.toList) := by
  rw [toList_entry]
  have hallowed : ('k' :: ':' :: ' ' :: (word.toList ++ ['\n'])).all isAllowed = true := by
    rw [List.all_eq_true]
    intro c hc
    simp only [List.mem_cons, List.mem_append, List.not_mem_nil, or_false] at hc
    obtain rfl | rfl | rfl | hc | rfl := hc
    · decide
    · decide
    · decide
    · exact isAllowed_of_isWordChar (h.chars c hc)
    · decide
  have hlength : ('k' :: ':' :: ' ' :: (word.toList ++ ['\n'])).length =
      word.toList.length + 1 + 1 + 1 + 1 := by
    simp only [List.length_cons, List.length_append, List.length_nil, Nat.zero_add]
  rw [Token.ofText, hallowed, hlength, readTokens_key, readTokens_colon, readTokens_word h]
  rfl

end Tokens

section Nodes

variable {v : Value}

def entryNode (word : List Char) : Node :=
  .mapping none none [(.scalar none none true ['k'], .scalar none none true word)]

theorem ofTokens_entryTokens (word : List Char) :
    Node.ofTokens (entryTokens word) = .ok (entryNode word) := rfl

theorem ofPlain_key : Scalar.ofPlain ['k'] = .ok (.string "k") := rfl

theorem ofScalar_plain (text : List Char) :
    Value.ofScalar none true text = Scalar.ofPlain text := by
  simp only [Value.ofScalar, if_true]
  cases Scalar.ofPlain text <;> rfl

theorem ofNode_scalar (anchors : List (Nat × Node)) (depth : Nat) (text : List Char) :
    Value.ofNode anchors depth (.scalar none none true text) =
      StateT.lift (Scalar.ofPlain text) := by
  rw [Value.ofNode.eq_def, ← ofScalar_plain]
  rfl

theorem ofDocument_entryNode (word : List Char) : Value.ofDocument (entryNode word) =
    (Scalar.ofPlain word).map fun v => .mapping [(.string "k", v)] := by
  rw [Value.ofDocument, entryNode, Value.ofNode.eq_def]
  cases h : Scalar.ofPlain word <;>
    simp only [Value.greatestDepth, Value.resolve, pure_bind, List.foldlM_cons, List.foldlM_nil,
      ofNode_scalar, ofPlain_key, h] <;>
    rfl

theorem flatten_of_ofPlain (h : Scalar.ofPlain word = .ok v) (key : String) (b : Bindings) :
    v.flatten (some key) b = b.insert key v.propertyText := by
  simp only [Scalar.ofPlain] at h
  split at h
  · cases h
    rfl
  split at h
  · cases h
    rfl
  split at h
  · cases h
    rfl
  · cases h
  split at h
  · cases h
    rfl
  · cases hfloat : Scalar.float? word <;> rw [hfloat] at h <;> cases h <;> rfl

theorem properties_entry {word : String} (h : IsPlainWord word.toList) :
    properties (entry word) = ((Scalar.ofPlain word.toList).map Value.propertyText).map
      fun text => .ofList [("k", text)] := by
  rw [properties, Value.ofText, ofText_entry h]
  simp only [bind, Except.bind, ofTokens_entryTokens, ofDocument_entryNode]
  cases hv : Scalar.ofPlain word.toList with
  | error e => rfl
  | ok v =>
    simp only [Except.map, pure, Except.pure, Value.flatten, Value.flattenEntries,
      Value.memberPath, flatten_of_ofPlain hv]
    rfl

end Nodes

end PropertyTemplate.Yaml
