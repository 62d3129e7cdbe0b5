import PropertyTemplate.Proofs.Placeholder.Tokens
import PropertyTemplate.Proofs.Text.Overlap

/-! # Writing literal text and contents

With an escape mark before each opening delimiter a text is scanned to itself. With one before each
closing delimiter a content can be written inside a token, and the contents that can be written in
this way are all that a handler is ever given: those that do not end in an escape mark.
-/

namespace PropertyTemplate

namespace Delimiters

open Text

variable {α : Type} [DecidableEq α] {d : Delimiters α} {text before after rest content : List α}
  {fragments : List (List α)} {segments : List (Segment α)}

section Literal

/-- The text with an escape mark before each opening delimiter, taken leftmost first and without
overlap. -/
def quote (d : Delimiters α) (text : List α) : List α :=
  match _h : cut d.opening text with
  | none => text
  | some (before, after) => before ++ d.escape :: (d.opening ++ d.quote after)
termination_by text.length
decreasing_by
  have := length_of_cut _h
  have := List.length_pos_iff.2 d.opening_ne_nil
  omega

theorem quote_step (d : Delimiters α) (text : List α) : d.quote text =
    match cut d.opening text with
    | none => text
    | some (before, after) => before ++ d.escape :: (d.opening ++ d.quote after) := by
  rw [quote]
  split <;> rename_i hcut <;> simp only [hcut]

theorem quote_of_leftmostCut (h : LeftmostCut d.opening text before after) :
    d.quote text = before ++ d.escape :: (d.opening ++ d.quote after) := by
  rw [quote_step, cut_eq_some_iff.2 h]

theorem quote_of_not_isInfix (h : ¬ d.opening <:+: text) : d.quote text = text := by
  rw [quote_step, cut_eq_none_iff.2 h]

theorem exists_segmentation_quote (hmark : d.escape ∉ d.opening) (text : List α) :
    ∃ segments, d.Segmentation (d.quote text) segments ∧ d.pieces segments = ⟨text, []⟩ := by
  have hpos := List.length_pos_iff.2 d.opening_ne_nil
  induction hn : text.length using Nat.strongRecOn generalizing text with
  | ind n ih =>
    subst hn
    by_cases hin : d.opening <:+: text
    · obtain ⟨before, after, hcut⟩ := exists_leftmostCut hin
      have hlen := hcut.length_eq
      obtain ⟨segments, hsegments, hpieces⟩ := ih after.length (by omega) after rfl
      refine ⟨.escapedOpening before :: segments, ?_, ?_⟩
      · rw [quote_of_leftmostCut hcut]
        exact .escapedOpening (hcut.insert_mark d.opening_ne_nil hmark _) hsegments
      · rw [hcut.eq_append, pieces, hpieces, Pieces.prepend, List.append_assoc]
    · refine ⟨[.literal text], ?_, ?_⟩
      · rw [quote_of_not_isInfix hin]
        exact .literal hin
      · rw [pieces, pieces, Pieces.prepend, List.append_nil]

/-- A quoted text is scanned to the text, and a resolver looks nothing up in it. -/
theorem scanM_quote (hmark : d.escape ∉ d.opening) (text : List α) :
    (∀ {m : Type → Type} [Monad m] [LawfulMonad m] (handle : List α → m (List α)),
      d.scanM handle (d.quote text) = pure text) ∧
    (∀ handle : List α → List α,
      d.scanM (fun content => Recorded.request content (handle content)) (d.quote text) =
        ⟨text, []⟩) ∧
    ∀ (resolver : Resolver) (text : String),
      resolver.resolve (String.ofList (placeholder.quote text.toList)) = ⟨text, []⟩ := by
  have hscan : ∀ {m : Type → Type} [Monad m] [LawfulMonad m] (handle : List α → m (List α)),
      d.scanM handle (d.quote text) = pure text := by
    intro m _ _ handle
    obtain ⟨segments, hsegments, hpieces⟩ := exists_segmentation_quote hmark text
    rw [scanM_eq_fill hsegments, hpieces, Pieces.contents_mk_nil, List.mapM_nil, pure_bind,
      Pieces.fill_mk_nil]
  refine ⟨hscan, fun handle => hscan _, fun resolver text => ?_⟩
  obtain ⟨segments, hsegments, hpieces⟩ :=
    exists_segmentation_quote (d := placeholder) (by decide) text.toList
  rw [← String.toList_ofList (l := placeholder.quote text.toList)] at hsegments
  rw [Resolver.resolve_eq_fill hsegments, hpieces, Pieces.contents_mk_nil, List.mapM_nil,
    pure_bind, Pieces.fill_mk_nil, String.ofList_toList]
  rfl

/-- Opening delimiters that overlap, behind backslashes of their own. -/
theorem scanM_quote_overlap :
    let d : Delimiters Char := ⟨['a', 'a'], ['a'], '\\', by decide, by decide⟩
    d.escape ∉ d.opening ∧
      d.quote ['\\', 'a', 'a', 'a', 'a', 'a'] =
        ['\\', '\\', 'a', 'a', '\\', 'a', 'a', 'a'] ∧
      d.scanM (fun content => Recorded.request content content)
        ['\\', '\\', 'a', 'a', '\\', 'a', 'a', 'a'] = ⟨['\\', 'a', 'a', 'a', 'a', 'a'], []⟩ := by
  intro d
  have hmark : d.escape ∉ d.opening := by decide
  have hquote : d.quote ['\\', 'a', 'a', 'a', 'a', 'a'] =
      ['\\', '\\', 'a', 'a', '\\', 'a', 'a', 'a'] := by decide +kernel
  refine ⟨hmark, hquote, ?_⟩
  rw [← hquote]
  exact (scanM_quote hmark _).2.1 _

end Literal

section Contents

def escapeContent (d : Delimiters α) : List α → List α
  | [] => []
  | c :: content =>
    if d.closing.isPrefixOf (c :: content) then d.escape :: c :: d.escapeContent content
    else c :: d.escapeContent content

theorem escapeContent_append {front : List α}
    (hfront : ∀ i < front.length, ¬ d.closing <+: (front ++ rest).drop i) :
    d.escapeContent (front ++ rest) = front ++ d.escapeContent rest := by
  induction front with
  | nil => rfl
  | cons c front ih =>
    have hno : ¬ d.closing.isPrefixOf (c :: (front ++ rest)) = true := fun hp =>
      hfront 0 (Nat.succ_pos _) (List.isPrefixOf_iff_prefix.1 hp)
    rw [List.cons_append, escapeContent, if_neg hno, ih, List.cons_append]
    intro i hi
    exact hfront (i + 1) (Nat.succ_lt_succ hi)

theorem escapeContent_of_not_isInfix (h : ¬ d.closing <:+: content) :
    d.escapeContent content = content := by
  have hfront : ∀ i < content.length, ¬ d.closing <+: (content ++ []).drop i := by
    intro i _ hp
    rw [List.append_nil] at hp
    exact h (isInfix_of_prefix_drop hp)
  have happend := escapeContent_append hfront
  rwa [escapeContent, List.append_nil] at happend

theorem escapeContent_of_leftmostCut (hborder : Borderless d.closing)
    (h : LeftmostCut d.closing content before after) :
    d.escapeContent content = before ++ d.escape :: (d.closing ++ d.escapeContent after) := by
  obtain ⟨c, closing, hclosing⟩ := List.exists_cons_of_ne_nil d.closing_ne_nil
  have hinside : ∀ i < closing.length, ¬ d.closing <+: (closing ++ after).drop i := by
    intro i hi
    have hno := hborder.not_isPrefix_drop (i := i + 1) (Nat.succ_pos i) (by simp [hclosing, hi])
      after
    rwa [hclosing, List.cons_append, List.drop_succ_cons, ← hclosing] at hno
  have hfirst : d.closing.isPrefixOf (c :: (closing ++ after)) = true := by
    rw [List.isPrefixOf_iff_prefix, ← List.cons_append, ← hclosing]
    exact List.prefix_append _ _
  rw [h.eq_append, escapeContent_append (h.eq_append ▸ h.leftmost)]
  rw [hclosing, List.cons_append, escapeContent, if_pos hfirst, escapeContent_append hinside,
    List.cons_append]

theorem exists_content_escapeContent (hmark : d.escape ∉ d.closing)
    (hborder : Borderless d.closing) (content rest : List α)
    (hlast : content.getLast? ≠ some d.escape) :
    ∃ fragments, d.Content (d.escapeContent content ++ (d.closing ++ rest)) fragments rest ∧
      d.contentOf fragments = content := by
  have hpos := List.length_pos_iff.2 d.closing_ne_nil
  induction hn : content.length using Nat.strongRecOn generalizing content with
  | ind n ih =>
    subst hn
    by_cases hin : d.closing <:+: content
    · obtain ⟨before, after, hcut⟩ := exists_leftmostCut hin
      have hlen := hcut.length_eq
      have hafter : after.getLast? ≠ some d.escape := by
        intro hescape
        apply hlast
        rw [hcut.eq_append, List.getLast?_append, List.getLast?_append, hescape]
        rfl
      obtain ⟨fragments, hcontent, hfragments⟩ := ih after.length (by omega) after hafter rfl
      refine ⟨before :: fragments, ?_, ?_⟩
      · have hmarked := hcut.insert_mark d.closing_ne_nil hmark
          (d.escapeContent after ++ (d.closing ++ rest))
        rw [escapeContent_of_leftmostCut hborder hcut]
        refine .escaped ?_ hcontent
        simpa only [List.append_assoc, List.cons_append] using hmarked
      · rw [d.contentOf_cons hcontent.fragments_ne_nil, hfragments, hcut.eq_append,
          List.append_assoc]
    · refine ⟨[content], ?_, d.contentOf_singleton content⟩
      rw [escapeContent_of_not_isInfix hin]
      exact .last (hborder.leftmostCut_append hin rest) hlast

omit [DecidableEq α] in
theorem Content.getLast?_contentOf_ne (hmark : d.escape ∉ d.closing)
    (h : d.Content text fragments rest) : (d.contentOf fragments).getLast? ≠ some d.escape := by
  induction h with
  | last _ hlast => rwa [contentOf_singleton]
  | escaped _ hcontent ih =>
    rw [d.contentOf_cons hcontent.fragments_ne_nil, List.getLast?_append]
    intro heq
    rcases Option.or_eq_some_iff.1 heq with hcontent | ⟨-, hclosing⟩
    · exact ih hcontent
    · rw [List.getLast?_append_of_ne_nil _ d.closing_ne_nil] at hclosing
      exact hmark (List.mem_of_getLast? hclosing)

omit [DecidableEq α] in
theorem Segmentation.getLast?_ne (hmark : d.escape ∉ d.closing)
    (h : d.Segmentation text segments) :
    ∀ content ∈ (d.pieces segments).contents, content.getLast? ≠ some d.escape := by
  induction h with
  | literal _ => simp [pieces]
  | escapedOpening _ _ ih => exact ih
  | token _ _ hcontent _ ih =>
    intro content hmem
    rcases List.mem_cons.1 hmem with rfl | hmem
    · exact hcontent.getLast?_contentOf_ne hmark
    · exact ih content hmem
  | unterminated _ _ _ => simp [pieces]

/-- One token with an escaped content is replaced by the handler's answer to the content. -/
theorem scanM_token (hmark : d.escape ∉ d.closing) (hborder : Borderless d.closing)
    (hlast : content.getLast? ≠ some d.escape) {m : Type → Type} [Monad m] [LawfulMonad m]
    (handle : List α → m (List α)) :
    d.scanM handle (d.opening ++ d.escapeContent content ++ d.closing) = handle content := by
  obtain ⟨fragments, hcontent, hfragments⟩ :=
    exists_content_escapeContent hmark hborder content [] hlast
  have hnone : ¬ d.opening <:+: [] := fun hin => d.opening_ne_nil (List.infix_nil.1 hin)
  have hcut : LeftmostCut d.opening (d.opening ++ d.escapeContent content ++ d.closing) []
      (d.escapeContent content ++ (d.closing ++ [])) :=
    ⟨by simp, fun i hi => absurd hi (Nat.not_lt_zero i)⟩
  rw [scanM_eq_fill (.token hcut (by simp) hcontent (.literal hnone))]
  simp [pieces, hfragments, Pieces.prepend, Pieces.addGap, Pieces.contents, Pieces.fill]

/-- The contents that a handler is given are those that do not end in the escape mark. Each of them
can be written in a token. -/
theorem mem_requests_scanM_iff (hmark : d.escape ∉ d.closing) (hborder : Borderless d.closing) :
    (∀ (handle : List α → List α) (content : List α),
      (∃ text, content ∈
        (d.scanM (fun content => Recorded.request content (handle content)) text).requests) ↔
          content.getLast? ≠ some d.escape) ∧
    ∀ content : List α, content.getLast? ≠ some d.escape →
      (∀ {m : Type → Type} [Monad m] [LawfulMonad m] (handle : List α → m (List α)),
        d.scanM handle (d.opening ++ d.escapeContent content ++ d.closing) = handle content) ∧
      ∀ handle : List α → List α,
        d.scanM (fun content => Recorded.request content (handle content))
          (d.opening ++ d.escapeContent content ++ d.closing) = ⟨handle content, [content]⟩ := by
  refine ⟨fun handle content => ⟨?_, fun hlast => ?_⟩, fun content hlast => ⟨?_, fun handle => ?_⟩⟩
  · rintro ⟨text, hmem⟩
    obtain ⟨segments, hsegments⟩ := d.exists_segmentation text
    rw [scanM_eq_fill hsegments, Recorded.mapM_eq] at hmem
    exact hsegments.getLast?_ne hmark content (by simpa using hmem)
  · refine ⟨d.opening ++ d.escapeContent content ++ d.closing, ?_⟩
    rw [scanM_token hmark hborder hlast]
    exact List.mem_singleton_self content
  · exact fun handle => scanM_token hmark hborder hlast handle
  · exact scanM_token hmark hborder hlast _

/-- A content with closing delimiters, one of them behind a backslash of its own. -/
theorem mem_requests_scanM_backslash :
    let d : Delimiters Char := ⟨['<', '%'], ['%', '>'], '\\', by decide, by decide⟩
    let content := ['a', '\\', '%', '>', '%', '<', '%', '>']
    d.escape ∉ d.closing ∧ Borderless d.closing ∧ content.getLast? ≠ some d.escape ∧
      d.escapeContent content = ['a', '\\', '\\', '%', '>', '%', '<', '\\', '%', '>'] ∧
      d.scanM (fun content => Recorded.request content ('!' :: content))
        (['<', '%'] ++ ['a', '\\', '\\', '%', '>', '%', '<', '\\', '%', '>'] ++ ['%', '>']) =
          ⟨['!', 'a', '\\', '%', '>', '%', '<', '%', '>'], [content]⟩ := by
  intro d content
  have hmark : d.escape ∉ d.closing := by decide
  have hborder : Borderless d.closing := by decide
  have hlast : content.getLast? ≠ some d.escape := by decide
  refine ⟨hmark, hborder, hlast, rfl, ?_⟩
  exact ((mem_requests_scanM_iff hmark hborder).2 content hlast).2 _

end Contents

end Delimiters

end PropertyTemplate
