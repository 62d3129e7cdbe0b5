import PropertyTemplate.Proofs.Template.Rendering
import PropertyTemplate.Recorded

/-! # Scans of texts one after another

What a scan makes of a beginning of its text does not depend on what follows, so two texts one after
another are scanned as each is by itself. Three things can reach over the seam: a token that the
first text does not close, an opening delimiter that starts in the one text and ends in the other,
and an escape mark before an opening delimiter. A closing delimiter cannot, since its leftmost
occurrence in the first text stays the leftmost.
-/

namespace PropertyTemplate

namespace Pieces

variable {α : Type} {m : Type → Type} [Monad m]

def fillM (p : Pieces α) (handle : List α → m (List α)) : m (List α) := do
  let values ← p.contents.mapM handle
  return p.fill values

variable [LawfulMonad m] (p : Pieces α) (handle : List α → m (List α))

@[simp] theorem fillM_mk_nil (text : List α) : (mk text []).fillM handle = pure text := by
  simp [fillM]

@[simp] theorem fillM_prepend (text : List α) :
    (p.prepend text).fillM handle = do return text ++ (← p.fillM handle) := by
  simp [fillM]

@[simp] theorem fillM_addGap (content : List α) :
    (p.addGap content).fillM handle = do
      let value ← handle content
      return value ++ (← p.fillM handle) := by
  simp [fillM]

end Pieces

namespace Delimiters

open Text

variable {α : Type}

/-- All tokens of a text have their closing delimiters. -/
inductive Terminated (d : Delimiters α) : List α → Prop
  | literal {text : List α} : ¬ d.opening <:+: text → Terminated d text
  | escapedOpening {text before after : List α} :
      LeftmostCut d.opening text (before ++ [d.escape]) after → Terminated d after →
      Terminated d text
  | token {text before after rest : List α} {fragments : List (List α)} :
      LeftmostCut d.opening text before after → before.getLast? ≠ some d.escape →
      Content d after fragments rest → Terminated d rest → Terminated d text

/-- No opening delimiter reaches over the seam of two texts, and none right behind the seam is
escaped by a mark right before it. -/
structure Seam (d : Delimiters α) (first second : List α) : Prop where
  not_astride : ∀ i < first.length, d.opening <+: (first ++ second).drop i →
    i + d.opening.length ≤ first.length
  not_escaped : ¬ (first.getLast? = some d.escape ∧ d.opening <+: second)

variable {d : Delimiters α} {text first second before after rest : List α}
  {fragments : List (List α)} {segments : List (Segment α)}

theorem Seam.of_append {front : List α} (h : d.Seam (front ++ first) second) :
    d.Seam first second where
  not_astride i hi hp := by
    have hat := h.not_astride (front.length + i) (by simpa using hi)
    rw [List.append_assoc, List.drop_length_add_append, List.length_append] at hat
    have := hat hp
    omega
  not_escaped := by
    rintro ⟨hlast, hopening⟩
    refine h.not_escaped ⟨?_, hopening⟩
    rw [List.getLast?_append, hlast, Option.some_or]

theorem Seam.behind {needle : List α} (h : d.Seam first second)
    (heq : first = before ++ (needle ++ after)) : d.Seam after second := by
  rw [← List.append_assoc] at heq
  exact (heq ▸ h).of_append

/-- A content is read no further than to its closing delimiter. -/
theorem Content.append (h : d.Content text fragments rest) (more : List α) :
    d.Content (text ++ more) fragments (rest ++ more) := by
  induction h with
  | last hcut hlast => exact .last (hcut.append_right more) hlast
  | escaped hcut _ ih => exact .escaped (hcut.append_right more) ih

theorem Content.seam (h : d.Content text fragments rest) (hseam : d.Seam text second) :
    d.Seam rest second := by
  induction h with
  | last hcut _ => exact hseam.behind hcut.eq_append
  | escaped hcut _ ih => exact ih (hseam.behind hcut.eq_append)

theorem Seam.not_isPrefix (h : d.Seam first second) (hno : ¬ d.opening <:+: first) :
    ∀ i < first.length, ¬ d.opening <+: (first ++ second).drop i := by
  intro i hi hp
  exact hno (isInfix_of_prefix_drop (prefix_drop_of_append hp (h.not_astride i hi hp)))

theorem getLast?_append_ne (h : d.Seam first second)
    (hcut : LeftmostCut d.opening second before after) (hlast : before.getLast? ≠ some d.escape) :
    (first ++ before).getLast? ≠ some d.escape := by
  rcases List.eq_nil_or_concat' before with rfl | ⟨init, last, rfl⟩
  · rw [List.append_nil]
    intro hfirst
    exact h.not_escaped ⟨hfirst, after, hcut.eq_append.symm⟩
  · rwa [← List.append_assoc, List.getLast?_concat, ← List.getLast?_concat]

theorem exists_segmentation_of_literal (h : d.Seam first second)
    (hno : ¬ d.opening <:+: first) (hsecond : d.Segmentation second segments) :
    ∃ joined, d.Segmentation (first ++ second) joined ∧
      d.pieces joined = (d.pieces segments).prepend first := by
  have hfront := h.not_isPrefix hno
  cases hsecond with
  | literal hnone =>
    refine ⟨[.literal (first ++ second)], .literal ?_, by simp [pieces, Pieces.prepend]⟩
    exact fun hin => hnone (isInfix_of_append hfront hin)
  | @escapedOpening _ before _ _ hcut hrest =>
    have hcut := hcut.append_left hfront
    rw [← List.append_assoc] at hcut
    exact ⟨_, .escapedOpening hcut hrest, by simp [pieces, Pieces.prepend]⟩
  | token hcut hlast hcontent hrest =>
    exact ⟨_, .token (hcut.append_left hfront) (getLast?_append_ne h hcut hlast) hcontent hrest,
      by simp [pieces, Pieces.prepend]⟩
  | unterminated hcut hlast hnone =>
    exact ⟨_, .unterminated (hcut.append_left hfront) (getLast?_append_ne h hcut hlast) hnone,
      by simp [pieces, Pieces.prepend]⟩

/-- Two texts have the segments of each, but for the literal text at the seam. -/
theorem exists_segmentation_append (hfirst : d.Terminated first) (hseam : d.Seam first second)
    (hsecond : d.Segmentation second segments) :
    ∃ front joined, d.Segmentation first front ∧ d.Segmentation (first ++ second) joined ∧
      ∀ {m : Type → Type} [Monad m] [LawfulMonad m] (handle : List α → m (List α)),
        (d.pieces joined).fillM handle = do
          return (← (d.pieces front).fillM handle) ++ (← (d.pieces segments).fillM handle) := by
  induction hfirst with
  | literal hno =>
    obtain ⟨joined, hjoined, hpieces⟩ := exists_segmentation_of_literal hseam hno hsecond
    refine ⟨_, joined, .literal hno, hjoined, fun handle => ?_⟩
    simp [hpieces, pieces]
  | escapedOpening hcut _ ih =>
    obtain ⟨front, joined, hfront, hjoined, hfill⟩ := ih (hseam.behind hcut.eq_append)
    refine ⟨_, _, .escapedOpening hcut hfront, .escapedOpening (hcut.append_right _) hjoined,
      fun handle => ?_⟩
    simp only [pieces, hfill, Pieces.fillM_prepend, bind_assoc, pure_bind, List.append_assoc]
  | token hcut hlast hcontent _ ih =>
    have hrest := hcontent.seam (hseam.behind hcut.eq_append)
    obtain ⟨front, joined, hfront, hjoined, hfill⟩ := ih hrest
    refine ⟨_, _, .token hcut hlast hcontent hfront,
      .token (hcut.append_right _) hlast (hcontent.append _) hjoined, fun handle => ?_⟩
    simp only [pieces, hfill, Pieces.fillM_prepend, Pieces.fillM_addGap, bind_assoc, pure_bind,
      List.append_assoc]

/-- A scan of two texts is a scan of the first and then one of the second. -/
theorem scanM_append [DecidableEq α] (hfirst : d.Terminated first)
    (hseam : d.Seam first second) :
    (∀ {m : Type → Type} [Monad m] [LawfulMonad m] (handle : List α → m (List α)),
      d.scanM handle (first ++ second) = do
        let front ← d.scanM handle first
        let back ← d.scanM handle second
        return front ++ back) ∧
    ∀ handle : List α → List α,
      d.scan handle (first ++ second) = d.scan handle first ++ d.scan handle second ∧
      (d.scanM (fun content => Recorded.request content (handle content))
          (first ++ second)).requests =
        (d.scanM (fun content => Recorded.request content (handle content)) first).requests ++
        (d.scanM (fun content => Recorded.request content (handle content)) second).requests := by
  have hscan : ∀ {m : Type → Type} [Monad m] [LawfulMonad m] (handle : List α → m (List α)),
      d.scanM handle (first ++ second) = do
        let front ← d.scanM handle first
        let back ← d.scanM handle second
        return front ++ back := by
    intro m _ _ handle
    obtain ⟨segments, hsecond⟩ := d.exists_segmentation second
    obtain ⟨front, joined, hfront, hjoined, hfill⟩ :=
      exists_segmentation_append hfirst hseam hsecond
    rw [scanM_eq_fill hjoined, scanM_eq_fill hfront, scanM_eq_fill hsecond]
    exact hfill handle
  refine ⟨hscan, fun handle => ⟨?_, ?_⟩⟩
  · simp [scan, hscan]
  · simp [hscan]

/-- The first text ends in a backslash, and the second one inside a token. -/
theorem scan_append_at_backslash :
    let first := ['a', '\\', '$', '{', '$', '{', 'k', '\\', '}', 'q', '}', '\\']
    let second := ['$', 'x', '$', '{', 'c']
    placeholder.Terminated first ∧ placeholder.Seam first second ∧
      placeholder.scan (fun content => '<' :: content ++ ['>']) (first ++ second) =
        ['a', '$', '{', '<', 'k', '}', 'q', '>', '\\', '$', 'x', '$', '{', 'c'] := by
  intro first second
  have hfirst : placeholder.Terminated first := by
    refine @Terminated.escapedOpening _ _ _ ['a'] _ (cut_eq_some_iff.1 rfl) ?_
    refine @Terminated.token _ _ _ [] _ ['\\'] [['k'], ['q']] (cut_eq_some_iff.1 rfl)
      (by decide) ?_ (.literal (by decide))
    exact .escaped (cut_eq_some_iff.1 rfl) (.last (cut_eq_some_iff.1 rfl) (by decide))
  have hseam : placeholder.Seam first second := ⟨by decide, by decide⟩
  refine ⟨hfirst, hseam, ?_⟩
  rw [((scanM_append hfirst hseam).2 _).1]
  decide +kernel

end Delimiters

end PropertyTemplate
