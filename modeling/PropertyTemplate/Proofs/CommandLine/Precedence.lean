import PropertyTemplate.CommandLine.Machine
import PropertyTemplate.Proofs.CommandLine.Spelling
import PropertyTemplate.Proofs.Property.Bindings
import PropertyTemplate.Proofs.Repository.Files
import PropertyTemplate.Proofs.Resolution.Layers

/-! # Precedence among the sources of a command line

The last definition of a key has precedence over the property files, the first file that binds the
key over the files behind it, and all of them over the environment. A template is resolved against
the one map of these values.
-/

namespace PropertyTemplate

structure Host.Shows {σ : Type} (host : Host (StateM σ)) (state : σ)
    (files : String → Except FileError ByteArray) (environment : Environment) : Prop where
  fileContent : ∀ path, (host.fileContent path).run state = (files path, state)
  environment : host.environment.run state = (environment, state)

theorem Machine.shows (machine : Machine) :
    Machine.host.Shows machine machine.files.read machine.environment := ⟨fun _ => rfl, rfl⟩

namespace Environment

def value? (e : Environment) (key : String) : Option String :=
  e.entries.reverse.findSome? fun (name, value) =>
    if String.fromUTF8? name = some key then String.fromUTF8? value else none

theorem bind_property?_eq_ite (name value : ByteArray) (key : String) :
    ((property? name value).bind fun p => if key == p.1 then some p.2 else none) =
      if String.fromUTF8? name = some key then String.fromUTF8? value else none := by
  unfold property?
  cases String.fromUTF8? name with
  | none => rfl
  | some text =>
    cases String.fromUTF8? value with
    | none => simp
    | some value =>
      by_cases heq : text = key
      · simp [heq]
      · simp [heq, Ne.symm heq]

theorem get?_source (e : Environment) (key : String) : e.source.get? key = e.value? key := by
  rw [source, Source.get?, Bindings.get?_ofList, ← List.filterMap_reverse,
    List.lookup_eq_findSome?, ← List.head?_filterMap, List.filterMap_filterMap,
    List.head?_filterMap]
  simp only [bind_property?_eq_ite]
  rfl

end Environment

namespace CommandLine

/-- The value of a key under all that is said: that of its last definition, else that in the first
file that binds it, else that of a variable if the environment counts. -/
def binding (items : List Item) (sources : List Source) (environment : Environment)
    (key : String) : Option String :=
  ((items.filterMap Item.definition?).reverse.lookup key).or
    ((sources.findSome? (·.get? key)).or
      (if .environment ∈ items then environment.value? key else none))

variable {line : CommandLine} {items : List Item} {environment : Environment} {template : String}

theorem get?_stack_request (h : Says items line) (sources : List Source) (key : String) :
    ((line.request environment template).stack ⟨sources⟩).get? key =
      binding items sources environment key := by
  have hdefinitions : line.overrides.get? key =
      (items.filterMap Item.definition?).reverse.lookup key := by
    rw [overrides, Source.get?, Bindings.get?_ofList, h.definitions]
  have henvironment : ((line.request environment template).fallback.bind fun s => s.get? key) =
      if .environment ∈ items then environment.value? key else none := by
    rw [request, h.useEnvironment]
    by_cases hmem : Item.environment ∈ items
    · simp [hmem, Environment.get?_source]
    · simp [hmem]
  rw [Request.get?_stack, henvironment, binding, ← hdefinitions]
  rfl

theorem names_stack_request (h : Says items line) (sources : List Source) :
    ((line.request environment template).stack ⟨sources⟩).names =
      (if items.filterMap Item.definition? = [] then [] else [overridesName]) ++
        sources.map (·.name) ++
        (if .environment ∈ items then [Environment.sourceName] else []) := by
  have hempty : (line.request environment template).overrides.isEmpty =
      (items.filterMap Item.definition?).isEmpty := by
    rw [← h.definitions]
    exact Bindings.isEmpty_ofList _
  have henvironment : (line.request environment template).fallback.toList.map (·.name) =
      if .environment ∈ items then [Environment.sourceName] else [] := by
    rw [request, h.useEnvironment]
    by_cases hmem : Item.environment ∈ items
    · simp [hmem, Environment.source]
    · simp [hmem]
  rw [Stack.names, Request.stack_sources, List.map_append, List.map_append, henvironment, hempty]
  cases items.filterMap Item.definition? with
  | nil => rfl
  | cons definition definitions => rfl

theorem run_resolve {σ : Type} {host : Host (StateM σ)} {state : σ}
    {files : String → Except FileError ByteArray} (h : host.Shows state files environment)
    (line : CommandLine) (template : String) :
    (line.resolve host template).run state =
      ((line.request environment template).resolve (.ofFiles host.fileContent)).run state := by
  cases henvironment : line.useEnvironment with
  | true =>
    rw [resolve, henvironment, if_pos rfl, StateT.run_bind, h.environment]
    rfl
  | false =>
    have hrequest : line.request ⟨[]⟩ template = line.request environment template := by
      simp [request, henvironment]
    rw [resolve, henvironment, ← hrequest]
    rfl

/-- The one map that a resolved template is resolved against, and the sources of its values. -/
theorem resolve_precedence {σ : Type} {host : Host (StateM σ)} {state : σ}
    {files : String → Except FileError ByteArray} {arguments : List String}
    {resolution : Resolution} (hhost : host.Shows state files environment)
    (harguments : ofArguments arguments = .ok line)
    (hresolve : ((line.resolve host template).run state).1 = .ok resolution) :
    ∃ items sources,
      (∃ only, Spelled only arguments items) ∧
      (∀ only items', Spelled only arguments items' → items' = items) ∧
      (∀ text, .value .definition text ∈ items → '=' ∈ text.toList) ∧
      List.Forall₂ (HoldsSource files) (items.filterMap Item.propertyFile?) sources ∧
      resolution.text = resolveText (some ⟨binding items sources environment⟩) template ∧
      (Resolver.ofStore (some ⟨binding items sources environment⟩)).value.policy =
        ⟨Text.eqIgnoringCase
            ((binding items sources environment Policy.enableKey).getD "false") "true",
          (binding items sources environment Policy.separatorKey).getD ":"⟩ ∧
      resolution.sources =
        (if items.filterMap Item.definition? = [] then [] else ["command-line"]) ++
          sources.map (·.name) ++
          (if .environment ∈ items then ["environment"] else []) ∧
      (resolution.sources = [] → resolution.text = resolveText none template ∧
        resolution.text = resolveText (some ⟨fun _ => none⟩) template) := by
  obtain ⟨only, items, hspelled, hsays⟩ := exists_spelled_of_ofArguments harguments
  rw [run_resolve hhost] at hresolve
  obtain ⟨sources, hsources, rfl⟩ :=
    Request.exists_sources_of_resolve _ hhost.fileContent hresolve
  have hstore : ((line.request environment template).stack ⟨sources⟩).store =
      ⟨binding items sources environment⟩ := by
    rw [Stack.store]
    congr 1
    exact funext (get?_stack_request hsays sources)
  have htext := Request.text_answer (line.request environment template) ⟨sources⟩
  rw [hstore] at htext
  refine ⟨items, sources, ⟨only, hspelled⟩, fun _ _ h => h.unique hspelled, hsays.separated,
    hsays.propertyFiles ▸ hsources, htext, rfl, names_stack_request hsays sources, ?_⟩
  intro hnone
  have htext := Request.text_answer_of_sources_eq_nil _ _ hnone
  exact ⟨htext, htext.trans (resolveText_none template)⟩

def layered : Machine where
  files := .ofList [("a.properties", .file "x=1\n".toUTF8),
    ("b.properties", .file "x=2\ny=3\npropsub.parser.default-value-separator=?\n".toUTF8)]
  environment := ⟨[("y".toUTF8, "4".toUTF8), ("z".toUTF8, "5".toUTF8)]⟩

def layeredLine : CommandLine where
  propertyFiles := ["a.properties", "b.properties"]
  definitions := [("k", "a"), ("k", "b=c"), ("propsub.parser.enable-default-value", "True")]
  useEnvironment := true

theorem layered_precedence : ∃ items sources,
    (∃ only, Spelled only ["-D", "k=a", "-pa.properties", "--properties=b.properties", "-Dk=b=c",
      "--env", "--define=propsub.parser.enable-default-value=True"] items) ∧
    List.Forall₂ (HoldsSource layered.files.read) (items.filterMap Item.propertyFile?) sources ∧
    ["command-line", "a.properties", "b.properties", "environment"] =
      (if items.filterMap Item.definition? = [] then [] else ["command-line"]) ++
        sources.map (·.name) ++ (if .environment ∈ items then ["environment"] else []) ∧
    resolveText (some ⟨binding items sources layered.environment⟩)
      "$\x7bk\x7d$\x7bx\x7d$\x7by\x7d$\x7bz\x7d$\x7bn?d\x7d" = "b=c135d" := by
  have harguments : ofArguments ["-D", "k=a", "-pa.properties", "--properties=b.properties",
      "-Dk=b=c", "--env", "--define=propsub.parser.enable-default-value=True"] =
        .ok layeredLine := rfl
  have hresolve : ((layeredLine.resolve Machine.host
      "$\x7bk\x7d$\x7bx\x7d$\x7by\x7d$\x7bz\x7d$\x7bn?d\x7d").run layered).1 =
        .ok ⟨"b=c135d", ["command-line", "a.properties", "b.properties", "environment"]⟩ := by
    decide +kernel
  obtain ⟨items, sources, hspelled, -, -, hsources, htext, -, hnames, -⟩ :=
    resolve_precedence layered.shows harguments hresolve
  exact ⟨items, sources, hspelled, hsources, hnames, htext.symm⟩

end CommandLine

end PropertyTemplate
