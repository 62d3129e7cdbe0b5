import Mathlib.Data.List.ReduceOption
import PropertyTemplate.Proofs.Placeholder.Passes

/-! # Writing tokens out again

A scan that writes every token out again removes escape marks and does nothing else. It removes the
mark before an escaped opening delimiter, and the marks before the escaped closing delimiters of a
token that ends; a token that does not end keeps its marks. A resolver without a store scans in this
way.
-/

namespace PropertyTemplate

namespace Segment

variable {α : Type}

def marks : Segment α → Nat
  | .literal _ => 0
  | .escapedOpening _ => 1
  | .token fragments => fragments.length - 1

def totalMarks : List (Segment α) → Nat
  | [] => 0
  | segment :: segments => segment.marks + totalMarks segments

end Segment

namespace Delimiters

open Text

variable {α : Type}

/-- A content as it is written, where `none` is an escape mark. -/
def markedContent (d : Delimiters α) (fragments : List (List α)) : List (Option α) :=
  (none :: d.closing.map some).intercalate (fragments.map (·.map some))

/-- A segment as it is written, where `none` is the mark of an escaped delimiter. -/
def marked (d : Delimiters α) : Segment α → List (Option α)
  | .literal text => text.map some
  | .escapedOpening before => before.map some ++ none :: d.opening.map some
  | .token fragments =>
    d.opening.map some ++ (d.markedContent fragments ++ d.closing.map some)

/-- A delimiter stands behind every mark. -/
def MarksDelimiters (d : Delimiters α) (marked : List (Option α)) : Prop :=
  ∀ front back, marked = front ++ none :: back →
    d.opening.map some <+: back ∨ d.closing.map some <+: back

variable {d : Delimiters α} {text rest : List α} {fragments : List (List α)}
  {segments : List (Segment α)} {first second : List (Option α)}

@[simp] theorem markedContent_singleton (fragment : List α) :
    d.markedContent [fragment] = fragment.map some := by
  simp [markedContent, List.intercalate]

theorem markedContent_cons {fragment : List α} (h : fragments ≠ []) :
    d.markedContent (fragment :: fragments) =
      fragment.map some ++ none :: (d.closing.map some ++ d.markedContent fragments) := by
  obtain ⟨next, others, rfl⟩ := List.exists_cons_of_ne_nil h
  simp [markedContent, List.intercalate_cons_cons]

section Written

/-- What is written of a content stands before the closing delimiter that ends it. -/
theorem Content.eq_markedContent (h : d.Content text fragments rest) :
    text = (d.markedContent fragments).map (·.getD d.escape) ++ (d.closing ++ rest) := by
  induction h with
  | last hcut _ =>
    rw [hcut.eq_append]
    simp
  | escaped hcut hcontent ih =>
    rw [hcut.eq_append, markedContent_cons hcontent.fragments_ne_nil]
    simp [← ih]

theorem Segmentation.eq_flatMap_marked (h : d.Segmentation text segments) :
    text = (segments.flatMap d.marked).map (·.getD d.escape) := by
  induction h with
  | literal _ => simp [marked]
  | escapedOpening hcut _ ih =>
    rw [hcut.eq_append]
    simp [marked, ← ih]
  | token hcut _ hcontent _ ih =>
    rw [hcut.eq_append, hcontent.eq_markedContent]
    simp [marked, ← ih]
  | unterminated hcut _ _ =>
    rw [hcut.eq_append]
    simp [marked]

end Written

section Unmarked

@[simp] theorem reduceOption_map_some (text : List α) : (text.map some).reduceOption = text := by
  simp [List.reduceOption, List.filterMap_map]

@[simp] theorem countP_isNone_comp_some (text : List α) :
    text.countP (Option.isNone ∘ some) = 0 := by
  simp [List.countP_eq_zero]

theorem reduceOption_markedContent (d : Delimiters α) (fragments : List (List α)) :
    (d.markedContent fragments).reduceOption = d.contentOf fragments := by
  induction fragments with
  | nil => rfl
  | cons fragment fragments ih =>
    by_cases h : fragments = []
    · simp [h]
    · rw [markedContent_cons h, d.contentOf_cons h]
      simp [List.reduceOption_append, ih]

theorem countP_isNone_markedContent (d : Delimiters α) (fragments : List (List α)) :
    (d.markedContent fragments).countP Option.isNone = fragments.length - 1 := by
  induction fragments with
  | nil => rfl
  | cons fragment fragments ih =>
    by_cases h : fragments = []
    · simp [h]
    · have hpos := List.length_pos_iff.2 h
      rw [markedContent_cons h]
      simp [ih]
      omega

/-- Without its marks a segment is what it is rendered as when its token is written out again. -/
theorem reduceOption_marked (segment : Segment α) :
    (d.marked segment).reduceOption = d.renderSegment d.echo segment := by
  cases segment with
  | literal text => simp [marked, renderSegment]
  | escapedOpening before => simp [marked, renderSegment, List.reduceOption_append]
  | token fragments =>
    simp [marked, renderSegment, echo, List.reduceOption_append, reduceOption_markedContent]

theorem countP_isNone_marked (segment : Segment α) :
    (d.marked segment).countP Option.isNone = segment.marks := by
  cases segment with
  | literal text => simp [marked, Segment.marks]
  | escapedOpening before => simp [marked, Segment.marks]
  | token fragments => simp [marked, Segment.marks, countP_isNone_markedContent]

end Unmarked

section Marks

theorem marksDelimiters_map_some (text : List α) : d.MarksDelimiters (text.map some) := by
  intro front back heq
  have hmem : none ∈ text.map some := heq ▸ List.mem_append_right front List.mem_cons_self
  simp at hmem

theorem MarksDelimiters.append (hfirst : d.MarksDelimiters first)
    (hsecond : d.MarksDelimiters second) : d.MarksDelimiters (first ++ second) := by
  intro front back heq
  rcases List.append_eq_append_iff.1 heq with ⟨middle, rfl, hmiddle⟩ | ⟨middle, rfl, hmiddle⟩
  · exact hsecond middle back hmiddle
  · rcases List.cons_eq_append_iff.1 hmiddle with ⟨rfl, hnil⟩ | ⟨tail, rfl, rfl⟩
    · exact hsecond [] back (by simpa using hnil)
    · exact (hfirst front tail rfl).imp (·.trans (List.prefix_append _ _))
        (·.trans (List.prefix_append _ _))

theorem MarksDelimiters.cons (hsecond : d.MarksDelimiters second)
    (hbehind : d.opening.map some <+: second ∨ d.closing.map some <+: second) :
    d.MarksDelimiters (none :: second) := by
  rintro (_ | ⟨c, front⟩) back heq
  · obtain ⟨-, rfl⟩ := List.cons.inj heq
    exact hbehind
  · exact hsecond front back (List.cons.inj heq).2

theorem marksDelimiters_markedContent (d : Delimiters α) (fragments : List (List α)) :
    d.MarksDelimiters (d.markedContent fragments) := by
  induction fragments with
  | nil => exact marksDelimiters_map_some []
  | cons fragment fragments ih =>
    by_cases h : fragments = []
    · rw [h, markedContent_singleton]
      exact marksDelimiters_map_some fragment
    · rw [markedContent_cons h]
      refine (marksDelimiters_map_some fragment).append (.cons ?_ (.inr (List.prefix_append _ _)))
      exact (marksDelimiters_map_some d.closing).append ih

theorem marksDelimiters_marked (segment : Segment α) : d.MarksDelimiters (d.marked segment) := by
  cases segment with
  | literal text => exact marksDelimiters_map_some text
  | escapedOpening before =>
    exact (marksDelimiters_map_some before).append
      ((marksDelimiters_map_some d.opening).cons (.inl List.prefix_rfl))
  | token fragments =>
    exact (marksDelimiters_map_some d.opening).append
      ((marksDelimiters_markedContent d fragments).append (marksDelimiters_map_some d.closing))

theorem marksDelimiters_flatMap (segments : List (Segment α)) :
    d.MarksDelimiters (segments.flatMap d.marked) := by
  induction segments with
  | nil => exact marksDelimiters_map_some []
  | cons segment segments ih =>
    rw [List.flatMap_cons]
    exact (marksDelimiters_marked segment).append ih

theorem reduceOption_flatMap_marked (segments : List (Segment α)) :
    (segments.flatMap d.marked).reduceOption = segments.flatMap (d.renderSegment d.echo) := by
  induction segments with
  | nil => rfl
  | cons segment segments ih =>
    rw [List.flatMap_cons, List.flatMap_cons, List.reduceOption_append, reduceOption_marked, ih]

theorem countP_isNone_flatMap_marked (segments : List (Segment α)) :
    (segments.flatMap d.marked).countP Option.isNone = Segment.totalMarks segments := by
  induction segments with
  | nil => rfl
  | cons segment segments ih =>
    rw [List.flatMap_cons, List.countP_append, countP_isNone_marked, ih, Segment.totalMarks]

/-- No escape mark of a text stands directly before a delimiter. -/
def EscapesNothing (d : Delimiters α) (text : List α) : Prop :=
  ∀ i < text.length, text[i]? = some d.escape →
    ¬ d.opening <+: text.drop (i + 1) ∧ ¬ d.closing <+: text.drop (i + 1)

instance [DecidableEq α] : Decidable (d.EscapesNothing text) :=
  inferInstanceAs (Decidable (∀ i < text.length, text[i]? = some d.escape →
    ¬ d.opening <+: text.drop (i + 1) ∧ ¬ d.closing <+: text.drop (i + 1)))

theorem isPrefix_of_map_some {needle : List α} {back : List (Option α)}
    (h : needle.map some <+: back) : needle <+: back.map (·.getD d.escape) := by
  have hmap := h.map (·.getD d.escape)
  simpa using hmap

theorem reduceOption_of_not_mem (h : none ∉ first) (mark : α) :
    first.reduceOption = first.map (·.getD mark) := by
  induction first with
  | nil => rfl
  | cons c first ih =>
    rw [List.mem_cons, not_or] at h
    cases c with
    | none => exact absurd rfl h.1
    | some c => rw [List.reduceOption_cons_of_some, ih h.2, List.map_cons, Option.getD_some]

theorem none_not_mem_of_escapesNothing (hmarks : d.MarksDelimiters first)
    (h : d.EscapesNothing (first.map (·.getD d.escape))) : none ∉ first := by
  intro hmem
  obtain ⟨front, back, rfl⟩ := List.append_of_mem hmem
  have hdrop : ((front ++ none :: back).map (·.getD d.escape)).drop (front.length + 1) =
      back.map (·.getD d.escape) := by
    rw [List.append_cons, List.map_append]
    exact List.drop_left' (by simp)
  have hbehind := h front.length (by simp) (by simp)
  rw [hdrop] at hbehind
  rcases hmarks front back rfl with hopening | hclosing
  · exact hbehind.1 (isPrefix_of_map_some hopening)
  · exact hbehind.2 (isPrefix_of_map_some hclosing)

end Marks

section Scan

variable [DecidableEq α]

theorem Segmentation.scan_eq (h : d.Segmentation text segments) (handle : List α → List α) :
    d.scan handle text = segments.flatMap (d.renderSegment handle) := by
  rw [scan, scanM_eq_fill h, ← fill_pieces_eq_flatMap]
  simp

theorem resolve_without_store (policy : Policy) (text : String) :
    (Resolver.mk none policy).resolve text =
      ⟨String.ofList (placeholder.scan placeholder.echo text.toList), []⟩ := by
  obtain ⟨segments, h⟩ := placeholder.exists_segmentation text.toList
  have hvalue : ∀ content : List Char, String.toList <$>
      (Resolver.mk none policy).value (String.ofList content) =
        ⟨placeholder.echo content, []⟩ := by
    intro content
    simp [Resolver.value, Resolver.unresolved, echo, placeholder, pure, Functor.map]
  rw [Resolver.resolve_eq_fill h, Recorded.mapM_eq, h.scan_eq, ← fill_pieces_eq_flatMap]
  simp [hvalue, bind, pure]

/-- A scan that writes every token out again removes from a text the marks of its escaped
delimiters, and nothing else. -/
theorem scan_echo_removes_marks :
    (∀ (d : Delimiters α) (text : List α), ∃ segments, d.Segmentation text segments ∧
      (∀ other, d.Segmentation text other → other = segments) ∧
      d.MarksDelimiters (segments.flatMap d.marked) ∧
      text = (segments.flatMap d.marked).map (·.getD d.escape) ∧
      d.scan d.echo text = (segments.flatMap d.marked).reduceOption ∧
      (segments.flatMap d.marked).countP Option.isNone = Segment.totalMarks segments ∧
      (d.scan d.echo text).length + Segment.totalMarks segments = text.length ∧
      (d.EscapesNothing text → d.scan d.echo text = text)) ∧
    ∀ (policy : Policy) (text : String), (Resolver.mk none policy).resolve text =
      ⟨String.ofList (placeholder.scan placeholder.echo text.toList), []⟩ := by
  refine ⟨fun d text => ?_, resolve_without_store⟩
  obtain ⟨segments, h⟩ := d.exists_segmentation text
  have hmarks : d.MarksDelimiters (segments.flatMap d.marked) := marksDelimiters_flatMap segments
  have htext := h.eq_flatMap_marked
  have hscan : d.scan d.echo text = (segments.flatMap d.marked).reduceOption := by
    rw [h.scan_eq, reduceOption_flatMap_marked]
  have hcount := d.countP_isNone_flatMap_marked segments
  refine ⟨segments, h, fun other hother => hother.unique h, hmarks, htext, hscan, hcount, ?_, ?_⟩
  · have hlength := congrArg List.length htext
    rw [List.length_map, List.length_eq_reduceOption_length_add_filter_none,
      ← List.countP_eq_length_filter, hcount, ← hscan] at hlength
    exact hlength.symm
  · intro hnothing
    rw [htext] at hnothing
    rw [hscan, reduceOption_of_not_mem (none_not_mem_of_escapesNothing hmarks hnothing) d.escape,
      ← htext]

/-- Four escaped delimiters, and one in a token that does not end. -/
theorem scan_echo_four_marks :
    let text := "\\\\$\x7b$\x7bk\\\x7d\\\x7d\\\x7d\x7d$\x7ba\\\x7d".toList
    let plain := "\\$\\x$\x7bk\\n\x7d\\".toList
    (∃ segments, placeholder.Segmentation text segments ∧
      Segment.totalMarks segments = 4 ∧ placeholder.scan placeholder.echo text =
        "\\$\x7b$\x7bk\x7d\x7d\x7d\x7d$\x7ba\\\x7d".toList) ∧
    placeholder.EscapesNothing plain ∧ placeholder.scan placeholder.echo plain = plain := by
  intro text plain
  have hscan : placeholder.scan placeholder.echo text =
      "\\$\x7b$\x7bk\x7d\x7d\x7d\x7d$\x7ba\\\x7d".toList := by decide +kernel
  have hplain : placeholder.EscapesNothing plain := by decide +kernel
  obtain ⟨segments, h, -, -, -, -, -, hlength, -⟩ := scan_echo_removes_marks.1 placeholder text
  obtain ⟨_, -, -, -, -, -, -, -, hkept⟩ := scan_echo_removes_marks.1 placeholder plain
  rw [hscan] at hlength
  refine ⟨⟨segments, h, ?_, hscan⟩, hplain, hkept hplain⟩
  exact Nat.add_left_cancel hlength

end Scan

end Delimiters

end PropertyTemplate
