import PropertyTemplate.Proofs.Outcome
import PropertyTemplate.Resolution

/-! # Loading up to the first failure

Property sources are loaded one after another, each in the state that the load before it left. The
first load that fails is the last one to be made, and its error is that of the whole request,
whatever the request asks for besides its files.
-/

namespace PropertyTemplate

variable {σ : Type}

namespace Repository

/-- Sources are loaded from several paths, each in the state in which the load before it ended. -/
inductive Loads (r : Repository (StateM σ)) : σ → List String → List Source → σ → Prop
  | nil {s : σ} : Loads r s [] [] s
  | cons {s next last : σ} {path : String} {paths : List String} {source : Source}
      {sources : List Source} : (r.load path).run s = (.ok source, next) →
      Loads r next paths sources last → Loads r s (path :: paths) (source :: sources) last

/-- A repository that also keeps a list of the paths that it was asked for. -/
def recording (r : Repository (StateM σ)) : Repository (StateM (σ × List String)) where
  load path := fun (s, asked) =>
    let (result, next) := (r.load path).run s
    (result, next, asked ++ [path])

variable {r : Repository (StateM σ)} {s next last : σ} {path : String}
  {paths front asked : List String} {result : Except LoadError Source} {e : LoadError}
  {source : Source} {sources : List Source}

theorem run_load_recording (h : (r.load path).run s = (result, next)) (asked : List String) :
    (r.recording.load path).run (s, asked) = (result, next, asked ++ [path]) := by
  change (let (result, next) := (r.load path).run s; (result, next, asked ++ [path])) = _
  rw [h]

/-- The loads are the same with a record, to which each of them adds its path. -/
theorem Loads.recording (h : r.Loads s paths sources last) (asked : List String) :
    r.recording.Loads (s, asked) paths sources (last, asked ++ paths) := by
  induction h generalizing asked with
  | nil =>
    rw [List.append_nil]
    exact .nil
  | @cons _ _ _ path _ _ _ hload _ ih =>
    have hrest := ih (asked ++ [path])
    rw [← List.append_cons] at hrest
    exact .cons (run_load_recording hload asked) hrest

theorem exists_loads (r : Repository (StateM σ)) (s : σ) (paths : List String) :
    (∃ sources last, r.Loads s paths sources last) ∨
      ∃ front path back sources next e last, paths = front ++ path :: back ∧
        r.Loads s front sources next ∧ (r.load path).run next = (.error e, last) := by
  induction paths generalizing s with
  | nil => exact .inl ⟨[], s, .nil⟩
  | cons path paths ih =>
    rcases hload : (r.load path).run s with ⟨e | source, next⟩
    · exact .inr ⟨[], path, paths, [], s, e, next, rfl, .nil, hload⟩
    · rcases ih next with ⟨sources, last, hloads⟩ |
        ⟨front, failed, back, sources, mid, e, last, rfl, hloads, herror⟩
      · exact .inl ⟨source :: sources, last, .cons hload hloads⟩
      · exact .inr ⟨path :: front, failed, back, source :: sources, mid, e, last, rfl,
          .cons hload hloads, herror⟩

theorem run_loadSources_cons (h : (r.load path).run s = (.ok source, next)) :
    (r.loadSources (path :: paths)).run s =
      (((r.loadSources paths).run next).1.map (source :: ·),
        ((r.loadSources paths).run next).2) := by
  refine (run_bind_of_run_eq h).trans ((StateT.run_bind ..).trans ?_)
  obtain ⟨_ | _, _⟩ := (r.loadSources paths).run next <;> rfl

theorem Loads.run_loadSources_append (h : r.Loads s front sources next) (paths : List String) :
    (r.loadSources (front ++ paths)).run s =
      (((r.loadSources paths).run next).1.map (sources ++ ·),
        ((r.loadSources paths).run next).2) := by
  induction h with
  | @nil s =>
    rw [List.nil_append]
    rcases (r.loadSources paths).run s with ⟨_ | _, _⟩ <;> rfl
  | cons hload _ ih =>
    rw [List.cons_append, run_loadSources_cons hload, ih]
    cases ((r.loadSources paths).run _).1 <;> rfl

theorem run_loadAll (r : Repository (StateM σ)) (paths : List String) (s : σ) :
    (r.loadAll paths).run s =
      (((r.loadSources paths).run s).1.map Stack.mk, ((r.loadSources paths).run s).2) :=
  StateT.run_bind ..

theorem Loads.run_loadAll (h : r.Loads s paths sources last) :
    (r.loadAll paths).run s = (.ok ⟨sources⟩, last) := by
  have hnothing : (r.loadSources []).run last = (.ok [], last) := rfl
  have hsources := h.run_loadSources_append []
  rw [List.append_nil, hnothing] at hsources
  rw [Repository.run_loadAll, hsources]
  simp [Except.map]

theorem Loads.run_loadAll_of_error (h : r.Loads s front sources next)
    (herror : (r.load path).run next = (.error e, last)) (back : List String) :
    (r.loadAll (front ++ path :: back)).run s = (.error e, last) := by
  have hfailed : (r.loadSources (path :: back)).run next = (.error e, last) :=
    run_bind_of_run_eq herror
  rw [Repository.run_loadAll, h.run_loadSources_append, hfailed]
  rfl

end Repository

namespace ResolutionError

/-- What the failure to load a property file is reported as. -/
inductive Reports : LoadError → ResolutionError → Prop
  | notFound (path : String) : Reports (.notFound path) (.notFound path)
  | io (cause : FileError) : Reports (.io cause) (.io cause.message)
  | parse (path message : String) :
      Reports (.parse path message) (.parse ("Failed to parse " ++ path ++ ": " ++ message))
  | unsupportedFormat (path : String) :
      Reports (.unsupportedFormat path) (.parse ("Unsupported property file format: " ++ path))

theorem reports_ofLoad (e : LoadError) : Reports e (.ofLoad e) := by
  cases e with
  | notFound path => exact .notFound path
  | io cause => exact .io cause
  | parse path message => exact .parse path message
  | unsupportedFormat path => exact .unsupportedFormat path

end ResolutionError

namespace Request

open Repository

variable {r : Repository (StateM σ)} {s last : σ} {request : Request} {e : LoadError}
  {stack : Stack}

theorem run_resolve_of_ok (h : (r.loadAll request.propertyFiles).run s = (.ok stack, last)) :
    (request.resolve r).run s = (.ok (request.answer stack), last) :=
  run_bind_of_run_eq h

theorem run_resolve_of_error (h : (r.loadAll request.propertyFiles).run s = (.error e, last)) :
    (request.resolve r).run s = (.error (.ofLoad e), last) :=
  run_bind_of_run_eq h

end Request

/-- All paths are asked for in order and all their sources loaded, or only those up to the first
that fails, whose error is the result. -/
theorem loadAll_until_failure (r : Repository (StateM σ)) (s : σ) (asked paths : List String) :
    (∃ sources last, r.Loads s paths sources last ∧
      (r.loadAll paths).run s = (.ok ⟨sources⟩, last) ∧
      (r.recording.loadAll paths).run (s, asked) = (.ok ⟨sources⟩, last, asked ++ paths) ∧
      ∀ (template : String) (overrides : Source) (fallback : Option Source),
        let request : Request := ⟨template, paths, overrides, fallback⟩
        (request.resolve r).run s = (.ok (request.answer ⟨sources⟩), last) ∧
        (request.resolve r.recording).run (s, asked) =
          (.ok (request.answer ⟨sources⟩), last, asked ++ paths)) ∨
    ∃ front path back sources next e last, paths = front ++ path :: back ∧
      r.Loads s front sources next ∧ (r.load path).run next = (.error e, last) ∧
      (r.loadAll paths).run s = (.error e, last) ∧
      (r.recording.loadAll paths).run (s, asked) =
        (.error e, last, asked ++ (front ++ [path])) ∧
      ∃ error, ResolutionError.Reports e error ∧
        ∀ (template : String) (overrides : Source) (fallback : Option Source),
          let request : Request := ⟨template, paths, overrides, fallback⟩
          (request.resolve r).run s = (.error error, last) ∧
          (request.resolve r.recording).run (s, asked) =
            (.error error, last, asked ++ (front ++ [path])) := by
  rcases r.exists_loads s paths with ⟨sources, last, hloads⟩ |
    ⟨front, path, back, sources, next, e, last, rfl, hloads, herror⟩
  · have hall := hloads.run_loadAll
    have hrecorded := (hloads.recording asked).run_loadAll
    refine .inl ⟨sources, last, hloads, hall, hrecorded, fun template overrides fallback => ?_⟩
    exact ⟨Request.run_resolve_of_ok hall, Request.run_resolve_of_ok hrecorded⟩
  · have hall := hloads.run_loadAll_of_error herror back
    have hrecorded := (hloads.recording asked).run_loadAll_of_error
      (Repository.run_load_recording herror _) back
    rw [List.append_assoc] at hrecorded
    refine .inr ⟨front, path, back, sources, next, e, last, rfl, hloads, herror, hall, hrecorded,
      _, ResolutionError.reports_ofLoad e, fun template overrides fallback => ?_⟩
    exact ⟨Request.run_resolve_of_error hall, Request.run_resolve_of_error hrecorded⟩

end PropertyTemplate
