import PropertyTemplate.Proofs.Text.Occurrence
import PropertyTemplate.Template.Delimiters

/-! # The segmentation of a text

What delimiters make of a text, without positions: literal text, escaped opening delimiters and
tokens, each read off what the earlier ones leave of the text. Every text has exactly one
segmentation.
-/

namespace PropertyTemplate

/-- A part of a text. The fragments of a token are its content between escaped closing
delimiters. -/
inductive Segment (α : Type)
  | literal (text : List α)
  | escapedOpening (before : List α)
  | token (fragments : List (List α))
  deriving DecidableEq, Repr

namespace Delimiters

open Text

variable {α : Type}

/-- What follows an opening delimiter is read as fragments, up to the first closing delimiter that
is not escaped; what follows that one is the rest. -/
inductive Content (d : Delimiters α) : List α → List (List α) → List α → Prop
  | last {text fragment rest : List α} :
      LeftmostCut d.closing text fragment rest → fragment.getLast? ≠ some d.escape →
      Content d text [fragment] rest
  | escaped {text fragment after rest : List α} {fragments : List (List α)} :
      LeftmostCut d.closing text (fragment ++ [d.escape]) after → Content d after fragments rest →
      Content d text (fragment :: fragments) rest

/-- A text is read as segments. Each constructor looks at the leftmost opening delimiter, and says
what stands before it and what is read from it on. -/
inductive Segmentation (d : Delimiters α) : List α → List (Segment α) → Prop
  | literal {text : List α} : ¬ d.opening <:+: text → Segmentation d text [.literal text]
  | escapedOpening {text before after : List α} {segments : List (Segment α)} :
      LeftmostCut d.opening text (before ++ [d.escape]) after → Segmentation d after segments →
      Segmentation d text (.escapedOpening before :: segments)
  | token {text before after rest : List α} {fragments : List (List α)}
      {segments : List (Segment α)} :
      LeftmostCut d.opening text before after → before.getLast? ≠ some d.escape →
      Content d after fragments rest → Segmentation d rest segments →
      Segmentation d text (.literal before :: .token fragments :: segments)
  | unterminated {text before after : List α} :
      LeftmostCut d.opening text before after → before.getLast? ≠ some d.escape →
      (¬ ∃ fragments rest, Content d after fragments rest) →
      Segmentation d text [.literal before, .literal (d.opening ++ after)]

variable {d : Delimiters α} {text rest rest' : List α} {fragments fragments' : List (List α)}
  {segments segments' : List (Segment α)}

theorem not_getLast?_of_append {before init : List α} {mark : α} (h : before = init ++ [mark]) :
    ¬ before.getLast? ≠ some mark := by
  rw [h]
  simp

theorem Content.length_lt (h : d.Content text fragments rest) : rest.length < text.length := by
  have hpos := List.length_pos_iff.2 d.closing_ne_nil
  induction h with
  | last hcut _ =>
    have := hcut.length_eq
    omega
  | escaped hcut _ ih =>
    have := hcut.length_eq
    omega

theorem Content.fragments_ne_nil (h : d.Content text fragments rest) : fragments ≠ [] := by
  cases h <;> exact List.cons_ne_nil _ _

theorem Content.unique (h : d.Content text fragments rest)
    (h' : d.Content text fragments' rest') : fragments = fragments' ∧ rest = rest' := by
  induction h generalizing fragments' with
  | last hcut hlast =>
    cases h' with
    | last hcut' _ =>
      obtain ⟨rfl, rfl⟩ := hcut.unique hcut'
      exact ⟨rfl, rfl⟩
    | escaped hcut' _ => exact absurd hlast (not_getLast?_of_append (hcut.unique hcut').1)
  | escaped hcut _ ih =>
    cases h' with
    | last hcut' hlast => exact absurd hlast (not_getLast?_of_append (hcut'.unique hcut).1)
    | escaped hcut' hcontent =>
      obtain ⟨hfragment, rfl⟩ := hcut.unique hcut'
      obtain rfl := List.append_cancel_right hfragment
      obtain ⟨rfl, rfl⟩ := ih hcontent
      exact ⟨rfl, rfl⟩

theorem Segmentation.unique (h : d.Segmentation text segments)
    (h' : d.Segmentation text segments') : segments = segments' := by
  induction h generalizing segments' with
  | literal hno =>
    cases h' with
    | literal _ => rfl
    | escapedOpening hcut' _ => exact absurd hcut'.isInfix hno
    | token hcut' _ _ _ => exact absurd hcut'.isInfix hno
    | unterminated hcut' _ _ => exact absurd hcut'.isInfix hno
  | escapedOpening hcut _ ih =>
    cases h' with
    | literal hno => exact absurd hcut.isInfix hno
    | escapedOpening hcut' hrest' =>
      obtain ⟨hbefore, rfl⟩ := hcut.unique hcut'
      obtain rfl := List.append_cancel_right hbefore
      rw [ih hrest']
    | token hcut' hlast _ _ => exact absurd hlast (not_getLast?_of_append (hcut'.unique hcut).1)
    | unterminated hcut' hlast _ =>
      exact absurd hlast (not_getLast?_of_append (hcut'.unique hcut).1)
  | token hcut hlast hcontent _ ih =>
    cases h' with
    | literal hno => exact absurd hcut.isInfix hno
    | escapedOpening hcut' _ => exact absurd hlast (not_getLast?_of_append (hcut.unique hcut').1)
    | token hcut' _ hcontent' hrest' =>
      obtain ⟨rfl, rfl⟩ := hcut.unique hcut'
      obtain ⟨rfl, rfl⟩ := hcontent.unique hcontent'
      rw [ih hrest']
    | unterminated hcut' _ hnone =>
      obtain ⟨rfl, rfl⟩ := hcut.unique hcut'
      exact absurd ⟨_, _, hcontent⟩ hnone
  | unterminated hcut hlast hnone =>
    cases h' with
    | literal hno => exact absurd hcut.isInfix hno
    | escapedOpening hcut' _ => exact absurd hlast (not_getLast?_of_append (hcut.unique hcut').1)
    | token hcut' _ hcontent' _ =>
      obtain ⟨rfl, rfl⟩ := hcut.unique hcut'
      exact absurd ⟨_, _, hcontent'⟩ hnone
    | unterminated hcut' _ _ =>
      obtain ⟨rfl, rfl⟩ := hcut.unique hcut'
      rfl

theorem exists_segmentation (d : Delimiters α) (text : List α) :
    ∃ segments, d.Segmentation text segments := by
  have hpos := List.length_pos_iff.2 d.opening_ne_nil
  induction hn : text.length using Nat.strongRecOn generalizing text with
  | ind n ih =>
    subst hn
    by_cases hin : d.opening <:+: text
    · obtain ⟨before, after, hcut⟩ := exists_leftmostCut hin
      have hlen := hcut.length_eq
      by_cases hlast : before.getLast? = some d.escape
      · obtain ⟨init, rfl⟩ := List.getLast?_eq_some_iff.1 hlast
        obtain ⟨segments, hsegments⟩ := ih after.length (by omega) after rfl
        exact ⟨_, .escapedOpening hcut hsegments⟩
      · by_cases hcontent : ∃ fragments rest, d.Content after fragments rest
        · obtain ⟨fragments, rest, hcontent⟩ := hcontent
          have hlt := hcontent.length_lt
          obtain ⟨segments, hsegments⟩ := ih rest.length (by omega) rest rfl
          exact ⟨_, .token hcut hlast hcontent hsegments⟩
        · exact ⟨_, .unterminated hcut hlast hcontent⟩
    · exact ⟨_, .literal hin⟩

end Delimiters

end PropertyTemplate
