import Mathlib.Logic.Relation
import PropertyTemplate.Proofs.Text.Utf8
import PropertyTemplate.Template.Delimiters

/-! # The rounds of a scan in octets

A scan can go through a text by the offsets of its octets. In each round it looks for the octets of
a delimiter, and for the octet of the escape mark before them, and takes the text between two
offsets, which is there only if both are boundaries. From the beginning of the text on, no round
asks for text that is not there, and each one comes nearer to the end.
-/

namespace PropertyTemplate.OctetScan

open Text

/-- Where the octets of a needle start first at or after an offset, if that is a boundary. -/
def findOffset? (needle : List Char) (text : String) (offset : Nat) : Option Nat :=
  if IsBoundary text offset then findFrom (encodeUtf8 needle) (encodeUtf8 text.toList) offset
  else none

/-- The octet of an escape mark lies directly before an index, and not before the floor. There is no
answer if the text has no octet there. -/
def isEscaped? (text : String) (index floor : Nat) : Option Bool :=
  if floor < index then ((encodeUtf8 text.toList)[index - 1]?).map (· == 0x5C) else some false

/-- Where a scan stands: between two tokens, or in the content of the token that is opened at
`start`. The offset is the end of what is consumed. -/
inductive State
  | outside (offset : Nat) (output : String)
  | inside (start offset : Nat) (content output : String)

/-- What a scan does next: it goes on, or asks its handler about a content, or is done. -/
inductive Action
  | go (state : State)
  | ask (content : String) (resume : String → State)
  | finish (output : String)

variable (d : Delimiters Char) (text : String)

/-- One round of the search for a delimiter, if all the text that it asks for is there. -/
def next : State → Option Action
  | .outside offset output =>
    match findOffset? d.opening text offset with
    | none => do
      let rest ← slice? text offset text.utf8ByteSize
      return .finish (output ++ rest)
    | some start => do
      if ← isEscaped? text start offset then
        let before ← slice? text offset (start - 1)
        return .go (.outside (start + (encodeUtf8 d.opening).length)
          (output ++ before ++ String.ofList d.opening))
      else
        let before ← slice? text offset start
        return .go (.inside start (start + (encodeUtf8 d.opening).length) "" (output ++ before))
  | .inside start offset content output =>
    match findOffset? d.closing text offset with
    | none => do
      let rest ← slice? text start text.utf8ByteSize
      return .go (.outside text.utf8ByteSize (output ++ rest))
    | some stop => do
      if ← isEscaped? text stop offset then
        let before ← slice? text offset (stop - 1)
        return .go (.inside start (stop + (encodeUtf8 d.closing).length)
          (content ++ before ++ String.ofList d.closing) output)
      else
        let before ← slice? text offset stop
        return .ask (content ++ before) fun value =>
          .outside (stop + (encodeUtf8 d.closing).length) (output ++ value)

inductive Action.Leads : Action → State → Prop
  | go (state : State) : Leads (.go state) state
  | answer (content : String) (resume : String → State) (value : String) :
      Leads (.ask content resume) (resume value)

def Step (state state' : State) : Prop :=
  ∃ action, next d text state = some action ∧ action.Leads state'

/-- How the offsets change in a step. -/
inductive Advance : State → State → Prop
  | escapedOpening {offset start : Nat} {output output' : String} :
      findOffset? d.opening text offset = some start →
      Advance (.outside offset output)
        (.outside (start + (encodeUtf8 d.opening).length) output')
  | opening {offset start : Nat} {output output' : String} :
      findOffset? d.opening text offset = some start →
      Advance (.outside offset output)
        (.inside start (start + (encodeUtf8 d.opening).length) "" output')
  | escapedClosing {start offset stop : Nat} {content content' output : String} :
      findOffset? d.closing text offset = some stop →
      Advance (.inside start offset content output)
        (.inside start (stop + (encodeUtf8 d.closing).length) content' output)
  | closing {start offset stop : Nat} {content output output' : String} :
      findOffset? d.closing text offset = some stop →
      Advance (.inside start offset content output)
        (.outside (stop + (encodeUtf8 d.closing).length) output')
  | unterminated {start offset : Nat} {content output output' : String} :
      Advance (.inside start offset content output) (.outside text.utf8ByteSize output')

variable {d text} {state state' : State} {needle : List Char} {offset index : Nat}

theorem bounds_of_findOffset? (h : findOffset? needle text offset = some index) :
    offset ≤ index ∧ index + (encodeUtf8 needle).length ≤ text.utf8ByteSize := by
  unfold findOffset? at h
  split at h
  · rw [utf8ByteSize_eq]
    exact bounds_of_findFrom h
  · cases h

/-- The one place that looks into the branches of a round. -/
theorem Step.advance (h : Step d text state state') : Advance d text state state' := by
  obtain ⟨action, hnext, hleads⟩ := h
  revert hnext
  fun_cases next d text state with
  | case1 offset output hfind =>
    simp only [Option.pure_def, Option.bind_eq_bind, Option.bind_eq_some_iff, Option.some.injEq]
    rintro ⟨rest, -, rfl⟩
    cases hleads
  | case2 offset output start hfind =>
    simp only [Option.pure_def, Option.bind_eq_bind, Option.bind_eq_some_iff, Option.some.injEq,
      Bool.exists_bool, Bool.false_eq_true, if_true, if_false]
    rintro (⟨-, before, -, rfl⟩ | ⟨-, before, -, rfl⟩) <;> cases hleads
    · exact .opening hfind
    · exact .escapedOpening hfind
  | case3 start offset content output hfind =>
    simp only [Option.pure_def, Option.bind_eq_bind, Option.bind_eq_some_iff, Option.some.injEq]
    rintro ⟨rest, -, rfl⟩
    cases hleads
    exact .unterminated
  | case4 start offset content output stop hfind =>
    simp only [Option.pure_def, Option.bind_eq_bind, Option.bind_eq_some_iff, Option.some.injEq,
      Bool.exists_bool, Bool.false_eq_true, if_true, if_false]
    rintro (⟨-, before, -, rfl⟩ | ⟨-, before, -, rfl⟩) <;> cases hleads
    · exact .closing hfind
    · exact .escapedClosing hfind

section Progress

/-- Twice what is left, and one more round if a token is open. -/
def State.due (size : Nat) : State → Nat
  | .outside offset _ => 2 * (size - offset)
  | .inside _ offset _ _ => 2 * (size - offset) + 1

theorem Advance.due_lt (h : Advance d text state state') :
    state'.due text.utf8ByteSize < state.due text.utf8ByteSize := by
  have hopening := length_encodeUtf8_pos d.opening_ne_nil
  have hclosing := length_encodeUtf8_pos d.closing_ne_nil
  cases h with
  | escapedOpening hfind | opening hfind | escapedClosing hfind | closing hfind =>
    have hbounds := bounds_of_findOffset? hfind
    simp only [State.due]
    omega
  | unterminated =>
    simp only [State.due]
    omega

def State.Behind (d : Delimiters Char) (text : String) (offset : Nat) : State → Prop
  | .outside offset' _ => offset + (encodeUtf8 d.opening).length ≤ offset'
  | .inside _ offset' _ _ =>
    offset + (encodeUtf8 d.opening).length ≤ offset' ∧ offset' ≤ text.utf8ByteSize

theorem Advance.behind_of_outside {output : String}
    (h : Advance d text (.outside offset output) state) : state.Behind d text offset := by
  cases h with
  | escapedOpening hfind =>
    exact Nat.add_le_add_right (bounds_of_findOffset? hfind).1 _
  | opening hfind =>
    obtain ⟨hle, hsize⟩ := bounds_of_findOffset? hfind
    exact ⟨Nat.add_le_add_right hle _, hsize⟩

theorem Advance.behind (h : Advance d text state state') (hbehind : state.Behind d text offset) :
    state'.Behind d text offset := by
  cases h with
  | escapedOpening hfind | opening hfind | escapedClosing hfind | closing hfind =>
    have hbounds := bounds_of_findOffset? hfind
    simp only [State.Behind] at hbehind ⊢
    omega
  | unterminated => exact Nat.le_trans hbehind.1 hbehind.2

theorem behind_of_transGen {output : String}
    (h : Relation.TransGen (Step d text) (.outside offset output) state) :
    state.Behind d text offset := by
  induction h with
  | single hstep => exact hstep.advance.behind_of_outside
  | tail _ hstep ih => exact hstep.advance.behind ih

end Progress

section Boundaries

/-- A search from an offset stays between the offset and the end of the text, on boundaries, and
misses no occurrence. The escape mark that it drops is a character behind the offset. -/
structure SafeSearch (needle : List Char) (text : String) (offset : Nat) : Prop where
  boundary : IsBoundary text offset
  missing : findOffset? needle text offset = none →
    ¬ encodeUtf8 needle <:+: (encodeUtf8 text.toList).drop offset
  found : ∀ index, findOffset? needle text offset = some index →
    offset ≤ index ∧ index + (encodeUtf8 needle).length ≤ text.utf8ByteSize ∧
      IsBoundary text index ∧ IsBoundary text (index + (encodeUtf8 needle).length)
  escaped : ∀ index, findOffset? needle text offset = some index →
    isEscaped? text index offset = some true → offset ≤ index - 1 ∧ IsBoundary text (index - 1)

theorem findOffset?_offsetOf {position : Nat} (hne : needle ≠ [])
    (hle : position ≤ text.toList.length) :
    findOffset? needle text (offsetOf text.toList position) =
      (findFrom needle text.toList position).map (offsetOf text.toList) := by
  rw [findOffset?, if_pos (isBoundary_offsetOf text position), findFrom_encodeUtf8 hne hle]

theorem isEscaped?_offsetOf {floor index : Nat} (hfloor : floor ≤ index)
    (hindex : index ≤ text.toList.length) :
    isEscaped? text (offsetOf text.toList index) (offsetOf text.toList floor) =
      some (decide (floor < index) && decide (text.toList[index - 1]? = some '\\')) := by
  rcases Nat.eq_or_lt_of_le hfloor with rfl | hlt
  · simp [isEscaped?]
  · obtain ⟨last, rfl⟩ : ∃ last, index = last + 1 := Nat.exists_eq_add_one.2 (by omega)
    have hoffsets := offsetOf_strictMono hlt hindex
    have hsize := offsetOf_length text.toList ▸ offsetOf_mono hindex
    obtain ⟨octet, hoctet⟩ : ∃ octet,
        (encodeUtf8 text.toList)[offsetOf text.toList (last + 1) - 1]? = some octet := by
      apply Option.isSome_iff_exists.1
      rw [isSome_getElem?]
      omega
    have hiff := octet_eq_escape_iff hindex
    rw [hoctet, Option.some.injEq] at hiff
    rw [isEscaped?, if_pos hoffsets, hoctet, Option.map_some, decide_eq_true hlt, Bool.true_and,
      Nat.add_sub_cancel]
    congr 1
    rw [Bool.eq_iff_iff, beq_iff_eq, decide_eq_true_iff]
    exact hiff

theorem exists_position_of_findOffset? {position : Nat} (hne : needle ≠ [])
    (hle : position ≤ text.toList.length)
    (h : findOffset? needle text (offsetOf text.toList position) = some index) :
    ∃ found, findFrom needle text.toList position = some found ∧
      index = offsetOf text.toList found := by
  rw [findOffset?_offsetOf hne hle] at h
  obtain ⟨found, hfound, rfl⟩ := Option.map_eq_some_iff.1 h
  exact ⟨found, hfound, rfl⟩

theorem SafeSearch.of_isBoundary (hne : needle ≠ []) (h : IsBoundary text offset) :
    SafeSearch needle text offset := by
  obtain ⟨position, hle, rfl⟩ := isBoundary_iff.1 h
  refine ⟨h, ?_, ?_, ?_⟩
  · intro hnone
    rw [findOffset?, if_pos h] at hnone
    apply not_isInfix_of_findFrom _ hnone
    rw [← offsetOf_length]
    exact offsetOf_mono hle
  · intro index hindex
    obtain ⟨found, hfound, rfl⟩ := exists_position_of_findOffset? hne hle hindex
    obtain ⟨hge, hend⟩ := bounds_of_findOffset? hindex
    refine ⟨hge, hend, isBoundary_offsetOf text found, ?_⟩
    rw [← offsetOf_add_of_findFrom hfound]
    exact isBoundary_offsetOf text _
  · intro index hindex hescaped
    obtain ⟨found, hfound, rfl⟩ := exists_position_of_findOffset? hne hle hindex
    obtain ⟨hge, hend⟩ := bounds_of_findFrom hfound
    rw [isEscaped?_offsetOf hge (by omega), Option.some.injEq, Bool.and_eq_true,
      decide_eq_true_iff, decide_eq_true_iff] at hescaped
    obtain ⟨hlt, hmark⟩ := hescaped
    rw [offsetOf_sub_one_of_escape (Nat.zero_lt_of_lt hlt) hmark]
    exact ⟨offsetOf_mono (Nat.le_sub_one_of_lt hlt), isBoundary_offsetOf text _⟩

def State.Safe (d : Delimiters Char) (text : String) : State → Prop
  | .outside offset _ => SafeSearch d.opening text offset
  | .inside start offset _ _ =>
    IsBoundary text start ∧ start + (encodeUtf8 d.opening).length ≤ offset ∧
      SafeSearch d.closing text offset

theorem Advance.safe (h : Advance d text state state') (hsafe : state.Safe d text) :
    state'.Safe d text := by
  cases h with
  | escapedOpening hfind =>
    obtain ⟨-, -, -, hend⟩ := SafeSearch.found hsafe _ hfind
    exact .of_isBoundary d.opening_ne_nil hend
  | opening hfind =>
    obtain ⟨-, -, hstart, hend⟩ := SafeSearch.found hsafe _ hfind
    exact ⟨hstart, Nat.le_refl _, .of_isBoundary d.closing_ne_nil hend⟩
  | escapedClosing hfind =>
    obtain ⟨hstart, hopening, hsearch⟩ := hsafe
    obtain ⟨hge, -, -, hend⟩ := hsearch.found _ hfind
    exact ⟨hstart, by omega, .of_isBoundary d.closing_ne_nil hend⟩
  | closing hfind =>
    obtain ⟨-, -, hsearch⟩ := hsafe
    obtain ⟨-, -, -, hend⟩ := hsearch.found _ hfind
    exact .of_isBoundary d.opening_ne_nil hend
  | unterminated =>
    exact .of_isBoundary d.opening_ne_nil (isBoundary_utf8ByteSize text)

theorem safe_of_reachable (h : Relation.ReflTransGen (Step d text) (.outside 0 "") state) :
    state.Safe d text := by
  induction h with
  | refl => exact .of_isBoundary d.opening_ne_nil (isBoundary_offsetOf text 0)
  | tail _ hstep ih => exact hstep.advance.safe ih

/-- What is found is judged, and the text before it is there without the escape mark or with it. -/
theorem SafeSearch.exists_parts (h : SafeSearch needle text offset)
    (hfind : findOffset? needle text offset = some index) :
    (isEscaped? text index offset = some true ∧
      ∃ before, slice? text offset (index - 1) = some before) ∨
    (isEscaped? text index offset = some false ∧
      ∃ before, slice? text offset index = some before) := by
  obtain ⟨hle, hend, hindex, -⟩ := h.found index hfind
  obtain ⟨escaped, hescaped⟩ : ∃ escaped, isEscaped? text index offset = some escaped := by
    apply Option.isSome_iff_exists.1
    unfold isEscaped?
    split
    · rw [Option.isSome_map, isSome_getElem?, ← utf8ByteSize_eq]
      omega
    · rfl
  cases escaped with
  | true =>
    obtain ⟨hfloor, hmark⟩ := h.escaped index hfind hescaped
    exact .inl ⟨hescaped, exists_slice? h.boundary hmark hfloor⟩
  | false => exact .inr ⟨hescaped, exists_slice? h.boundary hindex hle⟩

theorem State.Safe.isSome_next (h : state.Safe d text) : (next d text state).isSome := by
  have hsize := isBoundary_utf8ByteSize text
  fun_cases next d text state with
  | case1 offset output hfind =>
    obtain ⟨rest, hrest⟩ := exists_slice? h.boundary hsize (le_utf8ByteSize h.boundary)
    rw [hrest]
    rfl
  | case2 offset output start hfind =>
    rcases SafeSearch.exists_parts h hfind with ⟨hescaped, _, hbefore⟩ | ⟨hescaped, _, hbefore⟩
    · rw [hescaped, hbefore]
      rfl
    · rw [hescaped, hbefore]
      rfl
  | case3 start offset content output hfind =>
    obtain ⟨hstart, -, -⟩ := h
    obtain ⟨rest, hrest⟩ := exists_slice? hstart hsize (le_utf8ByteSize hstart)
    rw [hrest]
    rfl
  | case4 start offset content output stop hfind =>
    obtain ⟨-, -, hsearch⟩ := h
    rcases hsearch.exists_parts hfind with ⟨hescaped, _, hbefore⟩ | ⟨hescaped, _, hbefore⟩
    · rw [hescaped, hbefore]
      rfl
    · rw [hescaped, hbefore]
      rfl

end Boundaries

end PropertyTemplate.OctetScan
