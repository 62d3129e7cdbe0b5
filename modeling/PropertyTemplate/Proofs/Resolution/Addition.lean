import PropertyTemplate.Proofs.Resolution.Layers

/-! # Adding a layer

A source that is added to a stack and leaves its policy alone leaves a text cut as it was, with the
same keys looked up. It replaces the tokens whose keys it binds and no source above it does. So a
request with a fallback or with one more file is answered as before wherever an earlier source binds
the key.
-/

namespace PropertyTemplate

/-- What a source binds of the keys that hold the policy is bound above it. -/
def Source.KeepsPolicy (source : Source) (above : Stack) : Prop :=
  ∀ key ∈ [Policy.enableKey, Policy.separatorKey],
    (source.get? key).isSome → (above.get? key).isSome

namespace Stack

/-- A text is read alike before and after `source` is added below the sources `above`, and only the
tokens whose keys `source` is the first to bind are replaced anew, by its values. -/
structure LayerEffect (text : String) (above : Stack) (source : Source) (before after : Stack)
    (pieces : Pieces Char) (readings : List (String × String)) : Prop where
  policy_eq : (Policy.read (some after.store)).value = (Policy.read (some before.store)).value
  reads : (Policy.read (some before.store)).value.Reads text pieces readings
  resolve_before : (Resolver.ofStore (some before.store)).value.resolve text =
    ⟨pieces.resolved readings before.get?, readings.map (·.1)⟩
  resolve_after : (Resolver.ofStore (some after.store)).value.resolve text =
    ⟨pieces.resolved readings after.get?, readings.map (·.1)⟩
  kept_of_bound : ∀ reading ∈ readings, (above.get? reading.1).isSome →
    replacement after.get? reading = replacement before.get? reading
  kept_of_unbound : ∀ reading ∈ readings, source.get? reading.1 = none →
    replacement after.get? reading = replacement before.get? reading
  replaced : ∀ reading ∈ readings, ∀ value, above.get? reading.1 = none →
    source.get? reading.1 = some value → replacement after.get? reading = value

section Layer

variable {above below : List Source} {source : Source} {key value text : String}

theorem get?_append (above below : List Source) (key : String) :
    (mk (above ++ below)).get? key = ((mk above).get? key).or ((mk below).get? key) :=
  List.findSome?_append

theorem get?_cons (source : Source) (below : List Source) (key : String) :
    (mk (source :: below)).get? key = (source.get? key).or ((mk below).get? key) := by
  rw [get?, List.findSome?_cons]
  cases source.get? key <;> rfl

theorem get?_layer_of_covered (below : List Source)
    (h : (source.get? key).isSome → ((mk above).get? key).isSome) :
    (mk (above ++ source :: below)).get? key = (mk (above ++ below)).get? key := by
  rw [get?_append, get?_append, get?_cons]
  cases habove : (mk above).get? key with
  | some value => rfl
  | none =>
    have hsource : source.get? key = none := by simpa [habove] using h
    rw [hsource, Option.none_or]

theorem get?_layer_of_unbound (below : List Source) (habove : (mk above).get? key = none)
    (hsource : source.get? key = some value) :
    (mk (above ++ source :: below)).get? key = some value := by
  rw [get?_append, get?_cons, habove, hsource, Option.none_or, Option.some_or]

theorem exists_layerEffect (above below : List Source) (h : source.KeepsPolicy ⟨above⟩)
    (text : String) :
    ∃ pieces readings, LayerEffect text ⟨above⟩ source ⟨above ++ below⟩
      ⟨above ++ source :: below⟩ pieces readings := by
  have hpolicy : (Policy.read (some (mk (above ++ source :: below)).store)).value =
      (Policy.read (some (mk (above ++ below)).store)).value := by
    have henable := get?_layer_of_covered below (h Policy.enableKey (by simp))
    have hseparator := get?_layer_of_covered below (h Policy.separatorKey (by simp))
    rw [Policy.value_read, Policy.value_read]
    simp only [Store.boundIn, store, Option.bind_some, henable, hseparator]
  obtain ⟨pieces, readings, hreads⟩ :=
    (Policy.read (some (mk (above ++ below)).store)).value.exists_reads text
  refine ⟨pieces, readings, hpolicy, hreads, hreads.resolve_eq _, ?_, ?_, ?_, ?_⟩
  · exact (hpolicy ▸ hreads).resolve_eq _
  · intro reading _ hbound
    rw [replacement, replacement, get?_layer_of_covered below fun _ => hbound]
  · intro reading _ hunbound
    rw [replacement, replacement, get?_layer_of_covered below fun hbound => ?_]
    rw [hunbound] at hbound
    cases hbound
  · intro reading _ value habove hsource
    rw [replacement, get?_layer_of_unbound below habove hsource, Option.getD_some]

end Layer

end Stack

namespace Request

def earlier (request : Request) (files : List Source) : List Source :=
  (if request.overrides.isEmpty then [] else [request.overrides]) ++ files

/-- Two requests for one template have answers, and these differ by the effect of `source` as a new
layer below `above`. -/
def DifferByLayer {σ : Type} (repository : Repository (StateM σ)) (state : σ) (above : Stack)
    (source : Source) (request request' : Request) (before after : Stack) : Prop :=
  ∃ resolution resolution' pieces readings,
    (request.resolve repository).run state = (.ok resolution, state) ∧
    (request'.resolve repository).run state = (.ok resolution', state) ∧
    Stack.LayerEffect request.template above source before after pieces readings ∧
    resolution.text = pieces.resolved readings before.get? ∧
    resolution'.text = pieces.resolved readings after.get?

section Layer

variable {σ : Type} {repository : Repository (StateM σ)} {state : σ}
  {loaded : String → Except LoadError Source} {request request' : Request}
  {files files' above below : List Source} {source : Source}

theorem stack_eq (request : Request) (files : List Source) :
    request.stack ⟨files⟩ = ⟨request.earlier files ++ request.fallback.toList⟩ :=
  congrArg Stack.mk (request.stack_sources ⟨files⟩)

theorem stack_append (request : Request) (files : List Source) (source : Source) :
    request.stack ⟨files ++ [source]⟩ =
      ⟨request.earlier files ++ source :: request.fallback.toList⟩ := by
  rw [stack_eq, earlier, earlier, ← List.append_assoc, List.append_assoc, List.singleton_append]

theorem run_resolve_of_loaded
    (hload : ∀ path, (repository.load path).run state = (loaded path, state))
    (hfiles : List.Forall₂ (fun path source => loaded path = .ok source)
      request.propertyFiles files) :
    (request.resolve repository).run state = (.ok (request.answer ⟨files⟩), state) := by
  rw [run_resolve _ hload, mapM_eq_ok.2 hfiles]

theorem differByLayer (below : List Source)
    (hload : ∀ path, (repository.load path).run state = (loaded path, state))
    (hfiles : List.Forall₂ (fun path source => loaded path = .ok source)
      request.propertyFiles files)
    (hfiles' : List.Forall₂ (fun path source => loaded path = .ok source)
      request'.propertyFiles files')
    (htemplate : request'.template = request.template)
    (hbefore : request.stack ⟨files⟩ = ⟨above ++ below⟩)
    (hafter : request'.stack ⟨files'⟩ = ⟨above ++ source :: below⟩)
    (hpolicy : source.KeepsPolicy ⟨above⟩) :
    DifferByLayer repository state ⟨above⟩ source request request' (request.stack ⟨files⟩)
      (request'.stack ⟨files'⟩) := by
  obtain ⟨pieces, readings, heffect⟩ :=
    Stack.exists_layerEffect above below hpolicy request.template
  refine ⟨_, _, pieces, readings, run_resolve_of_loaded hload hfiles,
    run_resolve_of_loaded hload hfiles', ?_, ?_, ?_⟩
  · rwa [hbefore, hafter]
  · rw [text_answer, hbefore]
    exact congrArg Recorded.value heffect.resolve_before
  · rw [text_answer, hafter, htemplate]
    exact congrArg Recorded.value heffect.resolve_after

end Layer

end Request

/-- A new layer that leaves the policy alone replaces only the tokens whose keys it is the first to
bind, on a stack as in a request. -/
theorem layer_replaces_only_unbound :
    (∀ (stack : Stack) (source : Source) (text : String), source.KeepsPolicy stack →
      ∃ pieces readings,
        Stack.LayerEffect text stack source stack (stack.push source) pieces readings) ∧
    (∀ (stack : Stack) (source : Source) (text : String),
      (∀ key ∈ [Policy.enableKey, Policy.separatorKey], source.get? key = none) →
      ∃ pieces readings,
        Stack.LayerEffect text .empty source stack (stack.pushFront source) pieces readings) ∧
    ∀ {σ : Type} (repository : Repository (StateM σ)) (state : σ)
      (loaded : String → Except LoadError Source),
      (∀ path, (repository.load path).run state = (loaded path, state)) →
      ∀ (request : Request) (files : List Source),
        List.Forall₂ (fun path source => loaded path = .ok source) request.propertyFiles files →
        (∀ fallback : Source, request.fallback = none →
          fallback.KeepsPolicy ⟨request.earlier files⟩ →
          let request' := { request with fallback := some fallback }
          Request.DifferByLayer repository state ⟨request.earlier files⟩ fallback request request'
            (request.stack ⟨files⟩) (request'.stack ⟨files⟩)) ∧
        ∀ (path : String) (source : Source), loaded path = .ok source →
          source.KeepsPolicy ⟨request.earlier files⟩ →
          let request' := { request with propertyFiles := request.propertyFiles ++ [path] }
          Request.DifferByLayer repository state ⟨request.earlier files⟩ source request request'
            (request.stack ⟨files⟩) (request'.stack ⟨files ++ [source]⟩) := by
  refine ⟨?_, ?_, ?_⟩
  · intro stack source text h
    have heffect := Stack.exists_layerEffect stack.sources [] h text
    rwa [List.append_nil] at heffect
  · intro stack source text h
    refine Stack.exists_layerEffect [] stack.sources ?_ text
    intro key hkey hbound
    rw [h key hkey] at hbound
    cases hbound
  · intro σ repository state loaded hload request files hfiles
    constructor
    · intro fallback hnone hpolicy request'
      refine Request.differByLayer [] hload hfiles hfiles rfl ?_ ?_ hpolicy
      · rw [Request.stack_eq, hnone, Option.toList_none]
      · exact Request.stack_eq request' files
    · intro path source hsource hpolicy request'
      have hfiles' : List.Forall₂ (fun path source => loaded path = .ok source)
          request'.propertyFiles (files ++ [source]) :=
        List.rel_append hfiles (.cons hsource .nil)
      refine Request.differByLayer request.fallback.toList hload hfiles hfiles' rfl ?_ ?_ hpolicy
      · exact Request.stack_eq request files
      · exact Request.stack_append request files source

/-- A default gives way to a value from a lower layer, but a value from an upper layer does not; and
a request gets its first source. -/
theorem layer_replaces_default :
    let text := "$\x7ba:x\x7d$\x7bb:y\x7d"
    let stack : Stack := ⟨[⟨"file", .ofList [("a", "1"), (Policy.enableKey, "true")]⟩]⟩
    let lower : Source := ⟨"lower", .ofList [("a", "2"), ("b", "3"), (Policy.enableKey, "no")]⟩
    let upper : Source := ⟨"upper", .ofList [("b", "")]⟩
    let repository : Repository (StateM Unit) := ⟨fun _ => return .ok upper⟩
    let request : Request := { template := text }
    (lower.KeepsPolicy stack ∧ ∃ pieces readings,
      Stack.LayerEffect text stack lower stack (stack.push lower) pieces readings) ∧
    resolveText (some stack.store) text = "1y" ∧
    resolveText (some (stack.push lower).store) text = "13" ∧
    ((∀ key ∈ [Policy.enableKey, Policy.separatorKey], upper.get? key = none) ∧
      ∃ pieces readings,
        Stack.LayerEffect text .empty upper stack (stack.pushFront upper) pieces readings) ∧
    upper.KeepsPolicy ⟨request.earlier []⟩ ∧
    Request.DifferByLayer repository () ⟨request.earlier []⟩ upper request
      { request with fallback := some upper } (request.stack ⟨[]⟩)
      (Request.stack { request with fallback := some upper } ⟨[]⟩) ∧
    Request.DifferByLayer repository () ⟨request.earlier []⟩ upper request
      { request with propertyFiles := ["p"] } (request.stack ⟨[]⟩)
      (Request.stack { request with propertyFiles := ["p"] } ⟨[upper]⟩) := by
  intro text stack lower upper repository request
  have hlower : lower.KeepsPolicy stack := by
    unfold Source.KeepsPolicy
    decide
  have hnone : ∀ key ∈ [Policy.enableKey, Policy.separatorKey], upper.get? key = none := by decide
  have hupper : upper.KeepsPolicy ⟨request.earlier []⟩ := by
    unfold Source.KeepsPolicy
    decide
  have hrequests := layer_replaces_only_unbound.2.2 repository () (fun _ => .ok upper)
    (fun _ => rfl) request [] .nil
  refine ⟨⟨hlower, layer_replaces_only_unbound.1 stack lower text hlower⟩, ?_, ?_,
    ⟨hnone, layer_replaces_only_unbound.2.1 stack upper text hnone⟩, hupper,
    hrequests.1 upper rfl hupper, hrequests.2 "p" upper rfl hupper⟩
  · decide +kernel
  · decide +kernel

end PropertyTemplate
