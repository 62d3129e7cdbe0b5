import PropertyTemplate.Proofs.Placeholder.Readings
import PropertyTemplate.Proofs.Property.Bindings
import PropertyTemplate.Proofs.Template.Concatenation
import PropertyTemplate.Proofs.Text.Overlap
import PropertyTemplate.Property.Stack

/-! # Resolving in passes

A text is resolved against one store, and what comes of it against another. Placeholders that the
first store does not bind are written out again, and its values are such that neither they nor the
seams around them make up a delimiter. So the second pass finds the placeholders that the first one
left, and both passes together resolve the text against the first store above the second.
-/

namespace PropertyTemplate

namespace Delimiters

open Text

variable {α : Type} {d : Delimiters α}

/-- A token as it is written, if its content holds no closing delimiter. -/
def echo (d : Delimiters α) (content : List α) : List α := d.opening ++ (content ++ d.closing)

/-- A value that is neither empty nor can be part of an opening delimiter or escape one. -/
structure Inert (d : Delimiters α) (value : List α) : Prop where
  ne_nil : value ≠ []
  not_mem_opening : ∀ c ∈ value, c ∉ d.opening
  escape_not_mem : d.escape ∉ value

variable {text first second after before rest value : List α} {segments : List (Segment α)}

theorem Seam.of_front (hfront : ∀ i < first.length, ¬ d.opening <+: (first ++ second).drop i)
    (hlast : first.getLast? ≠ some d.escape) : d.Seam first second where
  not_astride i hi hp := absurd hp (hfront i hi)
  not_escaped h := hlast h.1

theorem exists_segmentation_of_inert (hcut : LeftmostCut d.opening text before after)
    (hvalue : d.Inert value) (h : d.Segmentation rest segments) :
    ∃ joined, d.Segmentation (before ++ value ++ rest) joined ∧
      d.pieces joined = (d.pieces segments).prepend (before ++ value) := by
  have hfront := hcut.not_isPrefix_drop_value d.opening_ne_nil hvalue.ne_nil
    hvalue.not_mem_opening rest
  have hlast : (before ++ value).getLast? ≠ some d.escape := by
    rw [List.getLast?_append_of_ne_nil _ hvalue.ne_nil]
    exact fun heq => hvalue.escape_not_mem (List.mem_of_getLast? heq)
  exact exists_segmentation_of_literal (.of_front hfront hlast)
    (not_isInfix_of_front d.opening_ne_nil hfront) h

/-- A scan that puts inert values in place of some tokens and writes the others out leaves a text
whose tokens are those others. -/
theorem exists_segmentation_pass (values : List α → Option (List α))
    (hvalues : ∀ content value, values content = some value → d.Inert value)
    (h : d.Segmentation text segments) (htext : d.escape ∉ text) :
    ∃ next,
      d.Segmentation
        (segments.flatMap (d.renderSegment fun content => (values content).getD (d.echo content)))
        next ∧
      ∀ handle : List α → List α, next.flatMap (d.renderSegment handle) =
        segments.flatMap
          (d.renderSegment fun content => (values content).getD (handle content)) := by
  induction h with
  | @literal text hno =>
    refine ⟨[.literal text], ?_, fun _ => rfl⟩
    simpa [renderSegment] using Segmentation.literal hno
  | escapedOpening hcut _ _ =>
    rw [hcut.eq_append] at htext
    exact absurd (by simp) htext
  | @token text before after rest fragments segments hcut hlast hcontent _ ih =>
    rw [hcut.eq_append] at htext
    cases hcontent with
    | escaped hclosing _ =>
      rw [hclosing.eq_append] at htext
      exact absurd (by simp) htext
    | @last _ fragment _ hclosing hfragment =>
      have hrest : d.escape ∉ rest := by
        rw [hclosing.eq_append] at htext
        simp only [List.mem_append, not_or] at htext
        exact htext.2.2.2.2
      obtain ⟨next, hnext, hrender⟩ := ih hrest
      cases hvalue : values fragment with
      | none =>
        refine ⟨.literal before :: .token [fragment] :: next, ?_, fun handle => ?_⟩
        · have htoken := Segmentation.token (hcut.replace_after _) hlast
            (.last (hclosing.replace_after _) hfragment) hnext
          simpa [renderSegment, hvalue, echo] using htoken
        · simp [renderSegment, hvalue, hrender]
      | some value =>
        obtain ⟨joined, hjoined, hpieces⟩ :=
          exists_segmentation_of_inert hcut (hvalues fragment value hvalue) hnext
        refine ⟨joined, ?_, fun handle => ?_⟩
        · simpa [renderSegment, hvalue] using hjoined
        · rw [← fill_pieces_eq_flatMap, hpieces, Pieces.contents_prepend, Pieces.fill_prepend,
            fill_pieces_eq_flatMap, hrender]
          simp [renderSegment, hvalue]
  | @unterminated text before after hcut hlast hnone =>
    refine ⟨[.literal before, .literal (d.opening ++ after)], ?_, fun _ => rfl⟩
    have hsame := Segmentation.unterminated (hcut.replace_after after) hlast hnone
    simpa [renderSegment] using hsame

end Delimiters

open Delimiters

namespace Store

def EnablesDefaults (store : Store) : Prop :=
  ∃ value, store.get? Policy.enableKey = some value ∧ Text.eqIgnoringCase value "true" = true

def above (first second : Store) : Store := ⟨fun key => (first.get? key).or (second.get? key)⟩

variable {store first second : Store}

theorem defaultsEnabled_eq_false (h : ¬ store.EnablesDefaults) :
    (Policy.read (some store)).value.defaultsEnabled = false := by
  rw [Policy.value_read, Store.boundIn, Option.bind_some]
  cases hvalue : store.get? Policy.enableKey with
  | none => rfl
  | some value =>
    rw [Option.getD_some, ← Bool.not_eq_true]
    exact fun htrue => h ⟨value, hvalue, htrue⟩

theorem not_enablesDefaults_above (hfirst : ¬ first.EnablesDefaults)
    (hsecond : ¬ second.EnablesDefaults) : ¬ (first.above second).EnablesDefaults := by
  rintro ⟨value, hvalue, htrue⟩
  rcases Option.or_eq_some_iff.1 hvalue with hvalue | ⟨-, hvalue⟩
  · exact hfirst ⟨value, hvalue, htrue⟩
  · exact hsecond ⟨value, hvalue, htrue⟩

theorem above_self (store : Store) : store.above store = store := by
  unfold above
  congr 1
  funext key
  exact Option.or_self

theorem above_eq_stack (upper lower : Source) :
    upper.store.above lower.store = (Stack.mk [upper, lower]).store := by
  unfold above Stack.store
  congr 1
  funext key
  rw [Stack.get?, List.findSome?_cons, List.findSome?_singleton]
  cases hupper : upper.get? key <;> simp [Source.store, hupper]

def valueOf (store : Store) (content : List Char) : Option (List Char) :=
  (store.get? (String.ofList content)).map String.toList

theorem valueOf_above (content : List Char) :
    (first.above second).valueOf content =
      (first.valueOf content).or (second.valueOf content) :=
  Option.map_or

/-- Without defaults a token is replaced by the value of its content, or written out again. -/
theorem resolveText_eq_flatMap {text : String} {segments : List (Segment Char)}
    (hstore : ¬ store.EnablesDefaults) (h : placeholder.Segmentation text.toList segments) :
    resolveText (some store) text = String.ofList (segments.flatMap
      (placeholder.renderSegment fun content =>
        (store.valueOf content).getD (placeholder.echo content))) := by
  have hsplit : ∀ content, (Policy.read (some store)).value.split content = none := by
    intro content
    rw [Policy.split, defaultsEnabled_eq_false hstore]
    rfl
  have hvalue : ∀ content : List Char,
      ((Resolver.ofStore (some store)).value.value (String.ofList content)).value.toList =
        (store.valueOf content).getD (placeholder.echo content) := by
    intro content
    simp only [Resolver.value, Resolver.ofStore, Recorded.value_bind, Recorded.value_pure, hsplit,
      consult, Recorded.value_request, valueOf]
    cases store.get? (String.ofList content) with
    | none => simp [Resolver.unresolved, echo, placeholder]
    | some value => rfl
  rw [resolveText, Resolver.resolve_eq_fill h, Recorded.mapM_eq, ← fill_pieces_eq_flatMap]
  simp only [Recorded.value_bind, Recorded.value_pure, Recorded.value_map, hvalue]

theorem inert_of_valueOf
    (hvalues : ∀ key value, store.get? key = some value →
      value ≠ "" ∧ '$' ∉ value.toList ∧ '{' ∉ value.toList ∧ '\\' ∉ value.toList)
    {content value : List Char} (h : store.valueOf content = some value) :
    placeholder.Inert value := by
  obtain ⟨text, htext, rfl⟩ := Option.map_eq_some_iff.1 h
  obtain ⟨hne, hdollar, hbrace, hescape⟩ := hvalues _ _ htext
  refine ⟨fun hnil => hne (String.toList_eq_nil_iff.1 hnil), ?_, hescape⟩
  intro c hc hopening
  rcases List.mem_cons.1 hopening with rfl | hopening
  · exact hdollar hc
  · obtain rfl := List.mem_singleton.1 hopening
    exact hbrace hc

theorem resolveText_above (hfirst : ¬ first.EnablesDefaults) (hsecond : ¬ second.EnablesDefaults)
    (hinert : ∀ content value, first.valueOf content = some value → placeholder.Inert value)
    {text : String} (htext : '\\' ∉ text.toList) :
    resolveText (some (first.above second)) text =
      resolveText (some second) (resolveText (some first) text) := by
  obtain ⟨segments, hsegments⟩ := placeholder.exists_segmentation text.toList
  obtain ⟨next, hnext, hrender⟩ := exists_segmentation_pass first.valueOf hinert hsegments htext
  rw [resolveText_eq_flatMap (not_enablesDefaults_above hfirst hsecond) hsegments,
    resolveText_eq_flatMap hfirst hsegments]
  rw [← String.toList_ofList (l := segments.flatMap _)] at hnext
  rw [resolveText_eq_flatMap hsecond hnext, hrender]
  simp only [valueOf_above, Option.getD_or]

end Store

/-- Two passes over a text resolve it as one pass does, against the first store above the second. -/
theorem resolveText_resolveText {first second : Store} (hfirst : ¬ first.EnablesDefaults)
    (hsecond : ¬ second.EnablesDefaults)
    (hvalues : ∀ key value, first.get? key = some value →
      value ≠ "" ∧ '$' ∉ value.toList ∧ '{' ∉ value.toList ∧ '\\' ∉ value.toList)
    {text : String} (htext : '\\' ∉ text.toList) :
    resolveText (some second) (resolveText (some first) text) =
      resolveText (some (first.above second)) text ∧
    (∀ upper lower : Source, first = upper.store → second = lower.store →
      resolveText (some second) (resolveText (some first) text) =
        resolveText (some (Stack.mk [upper, lower]).store) text) ∧
    resolveText (some first) (resolveText (some first) text) = resolveText (some first) text := by
  have hinert : ∀ content value, first.valueOf content = some value → placeholder.Inert value :=
    fun _ _ => Store.inert_of_valueOf hvalues
  have habove := Store.resolveText_above hfirst hsecond hinert htext
  refine ⟨habove.symm, ?_, ?_⟩
  · rintro upper lower rfl rfl
    rw [← Store.above_eq_stack, habove]
  · rw [← Store.resolveText_above hfirst hfirst hinert htext, Store.above_self]

/-- A dollar sign stands before a value, a value of the second store looks like a placeholder, and
the last token does not end. -/
theorem resolveText_resolveText_seams :
    let upper : Source := ⟨"upper", .ofList [("x", "1\x7d"), (Policy.enableKey, "no")]⟩
    let lower : Source := ⟨"lower", .ofList [("x", "2"), ("y", "$\x7bx\x7d")]⟩
    let text := "$$\x7bx\x7d\x7b$\x7by\x7d$\x7bz\x7d\x7d$\x7bx"
    ¬ upper.store.EnablesDefaults ∧ ¬ lower.store.EnablesDefaults ∧
      (∀ key value, upper.store.get? key = some value →
        value ≠ "" ∧ '$' ∉ value.toList ∧ '{' ∉ value.toList ∧ '\\' ∉ value.toList) ∧
      '\\' ∉ text.toList ∧
      resolveText (some upper.store) text = "$1\x7d\x7b$\x7by\x7d$\x7bz\x7d\x7d$\x7bx" ∧
      resolveText (some (Stack.mk [upper, lower]).store) text =
        "$1\x7d\x7b$\x7bx\x7d$\x7bz\x7d\x7d$\x7bx" ∧
      resolveText (some lower.store) (resolveText (some upper.store) text) =
        "$1\x7d\x7b$\x7bx\x7d$\x7bz\x7d\x7d$\x7bx" := by
  intro upper lower text
  have hupper : ¬ upper.store.EnablesDefaults := by
    rintro ⟨value, hvalue, htrue⟩
    obtain rfl : "no" = value := Option.some.inj hvalue
    exact absurd htrue (by decide)
  have hlower : ¬ lower.store.EnablesDefaults := by
    rintro ⟨value, hvalue, -⟩
    cases hvalue
  have hvalues : ∀ key value, upper.store.get? key = some value →
      value ≠ "" ∧ '$' ∉ value.toList ∧ '{' ∉ value.toList ∧ '\\' ∉ value.toList := by
    have hentries : ∀ e ∈ upper.bindings.entries, e.2 ≠ "" ∧ '$' ∉ e.2.toList ∧
        '{' ∉ e.2.toList ∧ '\\' ∉ e.2.toList := by decide
    intro key value hvalue
    exact hentries (key, value) (Bindings.mem_entries_iff.2 hvalue)
  have htext : '\\' ∉ text.toList := by decide
  have hstack : resolveText (some (Stack.mk [upper, lower]).store) text =
      "$1\x7d\x7b$\x7bx\x7d$\x7bz\x7d\x7d$\x7bx" := by decide +kernel
  refine ⟨hupper, hlower, hvalues, htext, by decide +kernel, hstack, ?_⟩
  rw [(resolveText_resolveText hupper hlower hvalues htext).2.1 upper lower rfl rfl, hstack]

end PropertyTemplate
