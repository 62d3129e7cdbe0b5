import Mathlib.Data.List.Basic
import PropertyTemplate.Proofs.Template.Segmentation
import PropertyTemplate.Template.Scan

/-! # What a scan makes of a segmentation

The positions of a scan and the rest of the text that a segmentation reads keep step: from any
position on, the scan adds to its output what the segmentation of the rest renders, and calls its
handler on the contents of the tokens there.
-/

namespace PropertyTemplate

/-- Literal text with gaps for the answers of a handler: the text before the first gap, and for each
gap the content that is answered there with the text behind it. -/
structure Pieces (α : Type) where
  first : List α
  gaps : List (List α × List α)

namespace Pieces

variable {α : Type}

def contents (p : Pieces α) : List (List α) := p.gaps.map (·.1)

def fill (p : Pieces α) (values : List (List α)) : List α :=
  p.first ++ (List.zipWith (fun value gap => value ++ gap.2) values p.gaps).flatten

def prepend (text : List α) (p : Pieces α) : Pieces α := { p with first := text ++ p.first }

def addGap (content : List α) (p : Pieces α) : Pieces α := ⟨[], (content, p.first) :: p.gaps⟩

@[simp] theorem contents_mk_nil (text : List α) : (mk text []).contents = [] := rfl
@[simp] theorem contents_prepend (text : List α) (p : Pieces α) :
    (p.prepend text).contents = p.contents := rfl
@[simp] theorem contents_addGap (content : List α) (p : Pieces α) :
    (p.addGap content).contents = content :: p.contents := rfl

@[simp] theorem fill_mk_nil (text : List α) : (mk text []).fill [] = text := by simp [fill]

@[simp] theorem fill_prepend (text : List α) (p : Pieces α) (values : List (List α)) :
    (p.prepend text).fill values = text ++ p.fill values := by
  simp [fill, prepend]

@[simp] theorem fill_addGap (content value : List α) (p : Pieces α) (values : List (List α)) :
    (p.addGap content).fill (value :: values) = value ++ p.fill values := by
  simp [fill, addGap]

end Pieces

namespace Delimiters

open Text

variable {α : Type} (d : Delimiters α)

/-- A content is its fragments, with a closing delimiter between any two. -/
def contentOf (fragments : List (List α)) : List α := d.closing.intercalate fragments

@[simp] theorem contentOf_singleton (fragment : List α) : d.contentOf [fragment] = fragment := by
  simp [contentOf, List.intercalate]

theorem contentOf_cons {fragment : List α} {fragments : List (List α)} (h : fragments ≠ []) :
    d.contentOf (fragment :: fragments) = fragment ++ d.closing ++ d.contentOf fragments := by
  obtain ⟨next, others, rfl⟩ := List.exists_cons_of_ne_nil h
  simp [contentOf, List.intercalate, List.intersperse]

/-- The text of a segment, whose token if it is one is replaced by the handler's answer. -/
def renderSegment (handle : List α → List α) : Segment α → List α
  | .literal text => text
  | .escapedOpening before => before ++ d.opening
  | .token fragments => handle (d.contentOf fragments)

def pieces : List (Segment α) → Pieces α
  | [] => ⟨[], []⟩
  | .literal text :: segments => (pieces segments).prepend text
  | .escapedOpening before :: segments => (pieces segments).prepend (before ++ d.opening)
  | .token fragments :: segments => (pieces segments).addGap (d.contentOf fragments)

theorem fill_pieces_eq_flatMap (handle : List α → List α) (segments : List (Segment α)) :
    (d.pieces segments).fill ((d.pieces segments).contents.map handle) =
      segments.flatMap (d.renderSegment handle) := by
  induction segments with
  | nil => rfl
  | cons segment segments ih =>
    cases segment <;> simp [pieces, renderSegment, ih]

variable [DecidableEq α] {d} {text rest after before tail read : List α} {position : Nat}
  {fragments : List (List α)} {segments : List (Segment α)}

theorem readContent_step (d : Delimiters α) (text : List α) (position : Nat) (read : List α) :
    d.readContent text position read =
      match findFrom d.closing text position with
      | none => none
      | some stop =>
        if d.isEscaped text stop position then
          d.readContent text (stop + d.closing.length)
            (read ++ text.extract position (stop - 1) ++ d.closing)
        else some (read ++ text.extract position stop, stop) := by
  rw [readContent]
  split <;> rename_i hfound <;> simp only [hfound]

theorem scanFrom_step {m : Type → Type} [Monad m] (d : Delimiters α)
    (handle : List α → m (List α)) (text : List α) (position : Nat) (output : List α) :
    d.scanFrom handle text position output =
      match findFrom d.opening text position with
      | none => return output ++ text.drop position
      | some start =>
        if d.isEscaped text start position then
          d.scanFrom handle text (start + d.opening.length)
            (output ++ text.extract position (start - 1) ++ d.opening)
        else
          match d.readContent text (start + d.opening.length) [] with
          | none => return output ++ text.extract position start ++ text.drop start
          | some (content, stop) => handle content >>= fun value =>
            d.scanFrom handle text (stop + d.closing.length)
              (output ++ text.extract position start ++ value) := by
  rw [scanFrom]
  split <;> rename_i hfound <;> simp only [hfound]
  split
  · rfl
  · split <;> rename_i hcontent <;> simp only [hcontent]

theorem isEscaped_iff (h : text.drop position = before ++ tail) :
    d.isEscaped text (position + before.length) position = true ↔
      before.getLast? = some d.escape := by
  rcases List.eq_nil_or_concat' before with rfl | ⟨init, last, rfl⟩
  · simp [isEscaped]
  · have hget : text[position + init.length]? = some last := by
      rw [← List.getElem?_drop, h]
      simp
    have hlt : position < position + init.length + 1 := by omega
    simp only [isEscaped, List.length_append, List.length_singleton, ← Nat.add_assoc,
      Nat.add_sub_cancel, hget, hlt, List.getLast?_concat, Bool.and_eq_true, decide_eq_true_eq,
      true_and]

omit [DecidableEq α] in
theorem extract_of_escaped (h : text.drop position = before ++ [d.escape] ++ tail) :
    text.extract position (position + (before ++ [d.escape]).length - 1) = before := by
  rw [List.append_assoc] at h
  simpa using extract_of_drop_eq h

theorem readContent_eq_some (read : List α) (h : d.Content rest fragments after)
    (hle : position ≤ text.length) (hdrop : text.drop position = rest) :
    ∃ stop, d.readContent text position read = some (read ++ d.contentOf fragments, stop) ∧
      stop + d.closing.length ≤ text.length ∧ text.drop (stop + d.closing.length) = after := by
  induction h generalizing position read with
  | last hcut hlast =>
    subst hdrop
    obtain ⟨hfound, hbehind, hafter⟩ := findFrom_eq_some hle hcut
    have happend := hcut.eq_append
    refine ⟨_, ?_, hbehind, hafter⟩
    rw [readContent_step, hfound]
    simp only [isEscaped_iff happend, hlast, if_false, extract_of_drop_eq happend,
      contentOf_singleton]
  | @escaped _ fragment _ _ _ hcut hcontent ih =>
    subst hdrop
    obtain ⟨hfound, hbehind, hafter⟩ := findFrom_eq_some hle hcut
    have happend := hcut.eq_append
    obtain ⟨stop, hread, hstop, hrest⟩ := ih (read ++ fragment ++ d.closing) hbehind hafter
    refine ⟨stop, ?_, hstop, hrest⟩
    rw [readContent_step, hfound]
    have hescaped := (isEscaped_iff happend).2 List.getLast?_concat
    have hextract := extract_of_escaped happend
    simp only [hescaped, if_true, hextract, hread]
    simp only [d.contentOf_cons hcontent.fragments_ne_nil, List.append_assoc]

theorem exists_content_of_readContent {content : List α} {stop : Nat}
    (h : d.readContent text position read = some (content, stop)) :
    ∃ fragments after, d.Content (text.drop position) fragments after := by
  fun_induction readContent d text position read with
  | case1 => simp at h
  | case2 position read found hfound hescaped ih =>
    obtain ⟨before, after, hcut, rfl⟩ := leftmostCut_of_findFrom hfound
    have happend := hcut.eq_append
    obtain ⟨init, rfl⟩ := List.getLast?_eq_some_iff.1 ((isEscaped_iff happend).1 hescaped)
    obtain ⟨fragments, rest, hcontent⟩ := ih h
    rw [hcut.drop_behind] at hcontent
    exact ⟨_, _, .escaped hcut hcontent⟩
  | case3 position read found hfound hescaped =>
    obtain ⟨before, after, hcut, rfl⟩ := leftmostCut_of_findFrom hfound
    have happend := hcut.eq_append
    exact ⟨_, _, .last hcut fun hlast => hescaped ((isEscaped_iff happend).2 hlast)⟩

theorem readContent_eq_none
    (h : ¬ ∃ fragments after, d.Content (text.drop position) fragments after) :
    d.readContent text position read = none := by
  cases hread : d.readContent text position read with
  | none => rfl
  | some result => exact absurd (exists_content_of_readContent hread) h

/-- From a position on, a scan fills the pieces of the rest of the text. -/
theorem scanFrom_eq_fill {m : Type → Type} [Monad m] [LawfulMonad m]
    {handle : List α → m (List α)} {output : List α} (h : d.Segmentation rest segments)
    (hle : position ≤ text.length) (hdrop : text.drop position = rest) :
    d.scanFrom handle text position output = do
      let values ← (d.pieces segments).contents.mapM handle
      return output ++ (d.pieces segments).fill values := by
  induction h generalizing position output with
  | literal hno =>
    subst hdrop
    rw [scanFrom_step, findFrom_eq_none hno]
    simp [pieces]
  | escapedOpening hcut hrest ih =>
    subst hdrop
    obtain ⟨hfound, hbehind, hafter⟩ := findFrom_eq_some hle hcut
    have happend := hcut.eq_append
    have hescaped := (isEscaped_iff happend).2 List.getLast?_concat
    have hextract := extract_of_escaped happend
    rw [scanFrom_step, hfound]
    simp only [hescaped, if_true, hextract, ih hbehind hafter]
    simp [pieces]
  | token hcut hlast hcontent hrest ih =>
    subst hdrop
    obtain ⟨hfound, hbehind, hafter⟩ := findFrom_eq_some hle hcut
    have happend := hcut.eq_append
    obtain ⟨stop, hread, hstop, hrest⟩ := readContent_eq_some [] hcontent hbehind hafter
    rw [scanFrom_step, hfound]
    simp only [isEscaped_iff happend, hlast, if_false, hread, extract_of_drop_eq happend,
      ih hstop hrest]
    simp [pieces]
  | unterminated hcut hlast hnone =>
    subst hdrop
    obtain ⟨hfound, -, hafter⟩ := findFrom_eq_some hle hcut
    have happend := hcut.eq_append
    rw [← hafter] at hnone
    rw [scanFrom_step, hfound]
    simp only [isEscaped_iff happend, hlast, if_false, readContent_eq_none hnone,
      extract_of_drop_eq happend, drop_of_drop_eq happend]
    simp [pieces]

/-- A scan fills the pieces of its text, with one call of its handler for each gap. -/
theorem scanM_eq_fill {m : Type → Type} [Monad m] [LawfulMonad m] {handle : List α → m (List α)}
    (h : d.Segmentation text segments) :
    d.scanM handle text = do
      let values ← (d.pieces segments).contents.mapM handle
      return (d.pieces segments).fill values := by
  rw [scanM, scanFrom_eq_fill h (Nat.zero_le _) rfl]
  simp only [List.nil_append]

/-- A scan renders the segments of its text. -/
theorem scan_eq_flatMap (d : Delimiters α) (handle : List α → List α) (text : List α) :
    ∃ segments, d.Segmentation text segments ∧
      (∀ other, d.Segmentation text other → other = segments) ∧
      d.scan handle text = segments.flatMap (d.renderSegment handle) := by
  obtain ⟨segments, h⟩ := d.exists_segmentation text
  refine ⟨segments, h, fun other h' => h'.unique h, ?_⟩
  rw [scan, scanM_eq_fill h, ← fill_pieces_eq_flatMap]
  simp

end Delimiters

end PropertyTemplate
