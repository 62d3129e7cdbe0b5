import PropertyTemplate.Placeholder.Resolver
import PropertyTemplate.Proofs.Template.Rendering
import PropertyTemplate.Proofs.Text.Case

/-! # The tokens that a resolver sees

A resolver made from a store has the policy that the store holds, for which it asks two keys. The
pieces of a text do not depend on what its tokens are replaced by. A resolver asks its store
for one key for each token, which is the token's content or the part of it before the first
separator.
-/

namespace PropertyTemplate

open Delimiters Text

namespace Policy

variable {p : Policy} {store : Store} {content key fallback : String}

/-- The policy that a store holds. Defaults are enabled by `true` in letters of either case, and the
separator is a colon if the store binds none. -/
structure HeldBy (p : Policy) (store : Store) : Prop where
  defaultsEnabled_iff : p.defaultsEnabled = true ↔
    ∃ value, store.get? enableKey = some value ∧ Spells value "true"
  separator : store.get? separatorKey = some p.separator ∨
    store.get? separatorKey = none ∧ p.separator = ":"

theorem heldBy_value_read (store : Store) : (read (some store)).value.HeldBy store where
  defaultsEnabled_iff := by
    have hword : ∀ letter ∈ "true".toList, 'a' ≤ letter ∧ letter ≤ 'z' := by simp
    change eqIgnoringCase (store.getD enableKey "false") "true" = true ↔ _
    rw [eqIgnoringCase_iff hword]
    constructor
    · intro hspells
      rcases Store.getD_eq_iff.1 (Eq.refl (store.getD enableKey "false")) with hvalue | ⟨-, hfalse⟩
      · exact ⟨_, hvalue, hspells⟩
      · rw [hfalse, ← eqIgnoringCase_iff hword] at hspells
        cases hspells
    · rintro ⟨value, hvalue, hspells⟩
      rwa [Store.getD_eq_iff.2 (.inl hvalue)]
  separator := Store.getD_eq_iff.1 rfl

/-- How a content is read under a policy: the key it asks for, and what replaces its token if that
key is not bound. -/
inductive Reading (p : Policy) (content : String) : String → String → Prop
  | split {key fallback : String} : p.defaultsEnabled = true →
      LeftmostCut p.separator.toList content.toList key.toList fallback.toList →
      Reading p content key fallback
  | whole : ¬ (p.defaultsEnabled = true ∧ p.separator.toList <:+: content.toList) →
      Reading p content content ("$\x7b" ++ content ++ "\x7d")

theorem Reading.of_separator_eq_empty (h : p.Reading content key fallback)
    (henabled : p.defaultsEnabled = true) (hempty : p.separator = "") :
    key = "" ∧ fallback = content := by
  cases h with
  | split _ hcut =>
    rw [hempty] at hcut
    obtain ⟨hkey, hfallback⟩ := hcut.unique (.of_isPrefix List.nil_prefix)
    exact ⟨String.toList_inj.1 hkey, String.toList_inj.1 hfallback⟩
  | whole hno =>
    rw [hempty] at hno
    exact absurd ⟨henabled, List.nil_infix⟩ hno

theorem reading_of_split_eq_some (h : p.split content = some (key, fallback)) :
    p.Reading content key fallback := by
  unfold split at h
  split at h
  · rename_i henabled
    obtain ⟨⟨before, after⟩, hcut, heq⟩ := Option.map_eq_some_iff.1 h
    obtain ⟨rfl, rfl⟩ := Prod.mk.injEq .. ▸ heq
    exact .split henabled (by simpa using leftmostCut_of_cut hcut)
  · simp at h

theorem reading_of_split_eq_none (h : p.split content = none) :
    p.Reading content content ("$\x7b" ++ content ++ "\x7d") := by
  apply Reading.whole
  rintro ⟨henabled, hin⟩
  simp [split, henabled, cut_eq_none_iff, hin] at h

end Policy

namespace Resolver

theorem ofStore_none : ofStore none = ⟨⟨none, ⟨false, ":"⟩⟩, []⟩ := rfl

theorem exists_ofStore_some (store : Store) : ∃ policy : Policy, policy.HeldBy store ∧
    ofStore (some store) = ⟨⟨some store, policy⟩, [Policy.enableKey, Policy.separatorKey]⟩ :=
  ⟨_, Policy.heldBy_value_read store, rfl⟩

theorem exists_reading_value (store : Store) (policy : Policy) (content : String) :
    ∃ key fallback, policy.Reading content key fallback ∧
      (mk (some store) policy).value content = ⟨(store.get? key).getD fallback, [key]⟩ := by
  cases hsplit : policy.split content with
  | none =>
    refine ⟨_, _, Policy.reading_of_split_eq_none hsplit, ?_⟩
    simp [value, hsplit, Store.consult, Recorded.request, unresolved, bind, pure]
  | some parts =>
    refine ⟨_, _, Policy.reading_of_split_eq_some hsplit, ?_⟩
    simp [value, hsplit, Store.consult, Recorded.request, bind, pure]

theorem exists_readings (store : Store) (policy : Policy) (contents : List (List Char)) :
    ∃ readings : List (String × String),
      List.Forall₂ (fun content reading =>
        policy.Reading (String.ofList content) reading.1 reading.2) contents readings ∧
      contents.mapM (fun content =>
        String.toList <$> (mk (some store) policy).value (String.ofList content)) =
          ⟨readings.map fun reading => ((store.get? reading.1).getD reading.2).toList,
            readings.map (·.1)⟩ := by
  induction contents with
  | nil => exact ⟨[], .nil, rfl⟩
  | cons content contents ih =>
    obtain ⟨readings, hreadings, hmap⟩ := ih
    obtain ⟨key, fallback, hreading, hvalue⟩ :=
      exists_reading_value store policy (String.ofList content)
    refine ⟨(key, fallback) :: readings, .cons hreading hreadings, ?_⟩
    rw [List.mapM_cons, hmap, hvalue]
    simp [bind, pure]

theorem resolve_eq_fill {text : String} {segments : List (Segment Char)}
    (h : placeholder.Segmentation text.toList segments) (r : Resolver) :
    r.resolve text = do
      let values ← (placeholder.pieces segments).contents.mapM fun content =>
        String.toList <$> r.value (String.ofList content)
      return String.ofList ((placeholder.pieces segments).fill values) := by
  rw [resolve, scanM_eq_fill h]
  simp only [map_bind, map_pure]

end Resolver

/-- Whatever a handler is, a scan calls it on the same contents in the same order, and puts its
answers as they are between the same literal texts; resolvers are such handlers. -/
theorem scanM_fills_fixed_pieces :
    (∀ {α : Type} [DecidableEq α] (d : Delimiters α) (text : List α), ∃ pieces : Pieces α,
      (∀ {m : Type → Type} [Monad m] [LawfulMonad m] (handle : List α → m (List α)),
        d.scanM handle text = do
          let values ← pieces.contents.mapM handle
          return pieces.fill values) ∧
      ∀ handle : List α → List α,
        d.scanM (fun content => Recorded.request content (handle content)) text =
          ⟨pieces.fill (pieces.contents.map handle), pieces.contents⟩) ∧
    ∀ text : String, ∃ pieces : Pieces Char, ∀ r : Resolver,
      r.resolve text = do
        let values ← pieces.contents.mapM fun content =>
          String.toList <$> r.value (String.ofList content)
        return String.ofList (pieces.fill values) := by
  constructor
  · intro α _ d text
    obtain ⟨segments, h⟩ := d.exists_segmentation text
    refine ⟨d.pieces segments, fun handle => scanM_eq_fill h, fun handle => ?_⟩
    rw [scanM_eq_fill h, Recorded.mapM_eq]
    simp [bind, pure, Recorded.request]
  · intro text
    obtain ⟨segments, h⟩ := placeholder.exists_segmentation text.toList
    exact ⟨placeholder.pieces segments, fun r => Resolver.resolve_eq_fill h r⟩

/-- What building a resolver looks up and makes of its store, what resolving a text looks up, and
what replaces the tokens. -/
theorem resolver_lookups :
    Resolver.ofStore none = ⟨⟨none, ⟨false, ":"⟩⟩, []⟩ ∧
    (∀ store : Store, ∃ policy : Policy, policy.HeldBy store ∧
      Resolver.ofStore (some store) =
        ⟨⟨some store, policy⟩, [Policy.enableKey, Policy.separatorKey]⟩) ∧
    (∀ (store : Option Store) (policy : Policy),
      Resolver.withPolicy store policy = ⟨⟨store, policy⟩, []⟩) ∧
    (∀ (policy : Policy) (content key fallback : String), policy.defaultsEnabled = true →
      policy.separator = "" → policy.Reading content key fallback →
      key = "" ∧ fallback = content) ∧
    ∀ text : String, ∃ segments, placeholder.Segmentation text.toList segments ∧
      (∀ policy : Policy, (Resolver.mk none policy).resolve text =
        ⟨String.ofList (segments.flatMap (placeholder.renderSegment fun content =>
          ['$', '\x7b'] ++ content ++ ['\x7d'])), []⟩) ∧
      ∀ (store : Store) (policy : Policy), ∃ readings : List (String × String),
        List.Forall₂ (fun content reading =>
          policy.Reading (String.ofList content) reading.1 reading.2)
          (placeholder.pieces segments).contents readings ∧
        (Resolver.mk (some store) policy).resolve text =
          ⟨String.ofList ((placeholder.pieces segments).fill (readings.map fun reading =>
            ((store.get? reading.1).getD reading.2).toList)), readings.map (·.1)⟩ := by
  refine ⟨Resolver.ofStore_none, Resolver.exists_ofStore_some, fun _ _ => rfl,
    fun _ _ _ _ henabled hempty hreading => hreading.of_separator_eq_empty henabled hempty, ?_⟩
  intro text
  obtain ⟨segments, h⟩ := placeholder.exists_segmentation text.toList
  refine ⟨segments, h, fun policy => ?_, fun store policy => ?_⟩
  · rw [Resolver.resolve_eq_fill h, Recorded.mapM_eq, ← fill_pieces_eq_flatMap]
    simp [Resolver.value, Resolver.unresolved, bind, pure]
  · obtain ⟨readings, hreadings, hmap⟩ :=
      Resolver.exists_readings store policy (placeholder.pieces segments).contents
    refine ⟨readings, hreadings, ?_⟩
    rw [Resolver.resolve_eq_fill h, hmap]
    simp [bind, pure]

end PropertyTemplate
