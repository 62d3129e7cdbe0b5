import PropertyTemplate.Proofs.Placeholder.Readings
import PropertyTemplate.Proofs.Repository.Files
import PropertyTemplate.Resolution

/-! # Layers of a request

The overrides of a request lie above its files and its fallback lies below them. A text is resolved
against the values found in this order, and a request without any source is answered as if it had
one that binds nothing.
-/

namespace PropertyTemplate

theorem Source.get?_of_isEmpty {s : Source} (h : s.isEmpty = true) (key : String) :
    s.get? key = none := by
  have hentries : s.bindings.entries = [] := List.isEmpty_iff.1 h
  rw [Source.get?, Bindings.get?, hentries, List.lookup_nil]

namespace Request

variable (r : Request) (files : Stack)

theorem stack_sources : (r.stack files).sources =
    (if r.overrides.isEmpty then [] else [r.overrides]) ++ files.sources ++ r.fallback.toList := by
  unfold stack
  cases r.fallback with
  | none => split <;> simp [Stack.pushFront]
  | some source => split <;> simp [Stack.pushFront, Stack.push]

theorem get?_stack (key : String) : (r.stack files).get? key =
    (r.overrides.get? key).or
      ((files.get? key).or (r.fallback.bind fun source => source.get? key)) := by
  have hfallback : r.fallback.toList.findSome? (·.get? key) =
      r.fallback.bind fun source => source.get? key := by
    cases r.fallback with
    | none => rfl
    | some source => simp
  rw [Stack.get?, stack_sources, List.findSome?_append, List.findSome?_append, hfallback,
    Option.or_assoc]
  split
  · rename_i hempty
    rw [Source.get?_of_isEmpty hempty]
    rfl
  · simp [Stack.get?]

theorem text_answer :
    (r.answer files).text = resolveText (some (r.stack files).store) r.template := by
  unfold answer
  dsimp only
  split
  · rename_i hempty
    have hsources : (r.stack files).sources = [] := List.isEmpty_iff.1 hempty
    rw [resolveText_none, Stack.store]
    congr 3
    funext key
    rw [Stack.get?, hsources, List.findSome?_nil]
  · rfl

theorem text_answer_of_sources_eq_nil (h : (r.answer files).sources = []) :
    (r.answer files).text = resolveText none r.template := by
  have hsources : (r.stack files).sources = [] := List.map_eq_nil_iff.1 h
  simp [answer, Stack.isEmpty, hsources]

section Load

variable {σ : Type} {read : String → StateM σ (Except FileError ByteArray)} {s : σ}
  {fileContent : String → Except FileError ByteArray} {repository : Repository (StateM σ)}
  {loaded : String → Except LoadError Source}

theorem run_resolve (hload : ∀ path, (repository.load path).run s = (loaded path, s)) :
    (r.resolve repository).run s =
      (match r.propertyFiles.mapM loaded with
        | .error e => .error (.ofLoad e)
        | .ok sources => .ok (r.answer ⟨sources⟩), s) := by
  rw [resolve, Repository.loadAll, bind_assoc, StateT.run_bind, run_loadSources hload]
  cases r.propertyFiles.mapM loaded with
  | error e => rfl
  | ok sources => rfl

theorem exists_sources_of_resolve {resolution : Resolution}
    (hread : ∀ path, (read path).run s = (fileContent path, s))
    (h : ((r.resolve (.ofFiles read)).run s).1 = .ok resolution) :
    ∃ sources, List.Forall₂ (HoldsSource fileContent) r.propertyFiles sources ∧
      resolution = r.answer ⟨sources⟩ := by
  rw [r.run_resolve fun path => run_load (hread path)] at h
  cases hsources : r.propertyFiles.mapM (fileSource fileContent) with
  | error e =>
    rw [hsources] at h
    cases h
  | ok sources =>
    rw [hsources] at h
    exact ⟨sources, mapM_fileSource_eq_ok_iff.1 hsources, (Except.ok.inj h).symm⟩

end Load

end Request

end PropertyTemplate
