import PropertyTemplate.Proofs.CommandLine.Effects

/-! # Stages of a run

A run reads its arguments, its template and its property files, in this order, before it writes
anything. When each of these stages fails is said here of what there was before the run, and of each
stage by itself; the first stage that fails is the one to be reported.
-/

namespace PropertyTemplate

open CommandLine

namespace Inputs

inductive HasTemplate (inputs : Inputs) (line : CommandLine) : String → Prop
  | file {path text : String} : line.template = some path →
      inputs.files path = .ok text.toUTF8 → HasTemplate inputs line text
  | input {text : String} : line.template = none → inputs.input = .ok text.toUTF8 →
      HasTemplate inputs line text

inductive LacksTemplate (inputs : Inputs) (line : CommandLine) : RunError → Prop
  | unreadable {path : String} {cause : FileError} : line.template = some path →
      inputs.files path = .error cause → LacksTemplate inputs line (.template path cause)
  | notUtf8 {path : String} {content : ByteArray} : line.template = some path →
      inputs.files path = .ok content → (∀ text : String, content ≠ text.toUTF8) →
      LacksTemplate inputs line (.template path .notUtf8)
  | unreadableInput {cause : FileError} : line.template = none →
      inputs.input = .error cause → LacksTemplate inputs line (.input (.unreadable cause))
  | inputNotUtf8 {content : ByteArray} {cause : Text.Utf8Error} : line.template = none →
      inputs.input = .ok content → Text.decodeUtf8 content = .error cause →
      LacksTemplate inputs line (.input (.notUtf8 cause))

inductive Resolves (inputs : Inputs) (line : CommandLine) : String → Prop
  | intro {template : String} {sources : List Source} : inputs.HasTemplate line template →
      List.Forall₂ (HoldsSource inputs.files) line.propertyFiles sources →
      Resolves inputs line ((line.request inputs.environment template).answer ⟨sources⟩).text

variable {inputs : Inputs} {line : CommandLine} {template template' text text' : String}
  {e : RunError}

theorem HasTemplate.unique (h : inputs.HasTemplate line template)
    (h' : inputs.HasTemplate line template') : template = template' := by
  cases h with
  | file hpath hfile =>
    cases h' with
    | file hpath' hfile' =>
      obtain rfl := Option.some.inj (hpath.symm.trans hpath')
      exact String.toByteArray_inj.1 (Except.ok.inj (hfile.symm.trans hfile'))
    | input hnone _ => cases hpath.symm.trans hnone
  | input hnone hinput =>
    cases h' with
    | file hpath' _ => cases hnone.symm.trans hpath'
    | input _ hinput' =>
      exact String.toByteArray_inj.1 (Except.ok.inj (hinput.symm.trans hinput'))

theorem HasTemplate.not_lacksTemplate (h : inputs.HasTemplate line template) :
    ¬ inputs.LacksTemplate line e := by
  intro hlacks
  cases h with
  | file hpath hfile =>
    cases hlacks with
    | unreadable hpath' hfile' =>
      obtain rfl := Option.some.inj (hpath.symm.trans hpath')
      cases hfile.symm.trans hfile'
    | notUtf8 hpath' hfile' htext =>
      obtain rfl := Option.some.inj (hpath.symm.trans hpath')
      exact htext template (Except.ok.inj (hfile'.symm.trans hfile))
    | unreadableInput hnone _ => cases hpath.symm.trans hnone
    | inputNotUtf8 hnone _ _ => cases hpath.symm.trans hnone
  | input hnone hinput =>
    cases hlacks with
    | unreadable hpath' _ => cases hnone.symm.trans hpath'
    | notUtf8 hpath' _ _ => cases hnone.symm.trans hpath'
    | unreadableInput _ hinput' => cases hinput.symm.trans hinput'
    | inputNotUtf8 _ hinput' hcause =>
      exact decodeUtf8_eq_error hcause template (Except.ok.inj (hinput'.symm.trans hinput))

theorem Resolves.unique (h : inputs.Resolves line text) (h' : inputs.Resolves line text') :
    text = text' := by
  obtain ⟨htemplate, hsources⟩ := h
  obtain ⟨htemplate', hsources'⟩ := h'
  obtain rfl := htemplate.unique htemplate'
  rw [← mapM_fileSource_eq_ok_iff] at hsources hsources'
  obtain rfl := Except.ok.inj (hsources.symm.trans hsources')
  rfl

end Inputs

/-- What can fail in a run. Property files are counted as the command line lists them. -/
inductive Stage
  | arguments
  | template
  | propertyFile (position : Nat)
  | output
  deriving DecidableEq, Repr

inductive Stage.Before : Stage → Stage → Prop
  | arguments {stage : Stage} : stage ≠ .arguments → Before .arguments stage
  | templateFile {position : Nat} : Before .template (.propertyFile position)
  | templateOutput : Before .template .output
  | propertyFiles {i j : Nat} : i < j → Before (.propertyFile i) (.propertyFile j)
  | fileOutput {position : Nat} : Before (.propertyFile position) .output

variable {σ ι : Type}

/-- The command line has its result written to standard output: it names no output, or an output
that is a name of standard output. -/
def CommandLine.Prints (line : CommandLine) (view : View σ ι) : Prop :=
  ∀ path, line.output = some path → view.IsOutput path

namespace Host

/-- The output of a command line has the text, and all else is as before. -/
inductive Delivered (host : Host (StateM σ)) (view : View σ ι) (state : σ) (line : CommandLine)
    (text : String) (after : σ) : Prop
  | file {path : String} : line.output = some path → ¬ view.IsOutput path →
      host.Replaced view state path text.toUTF8 after → Delivered host view state line text after
  | standardOutput : line.Prints view → Printed view state text.toUTF8 after →
      Delivered host view state line text after

inductive Undelivered (host : Host (StateM σ)) (state : σ) (line : CommandLine) (text : String) :
    RunError → Prop
  | file {path : String} {cause : FileError} : line.output = some path →
      ((host.replaceFile path text).run state).1 = .error cause →
      Undelivered host state line text (.output path cause)
  | standardOutput {cause : FileError} : line.output = none →
      ((host.writeOutput text).run state).1 = .error cause →
      Undelivered host state line text (.standardOutput cause)

/-- A stage fails, whatever other stages do, and how the process ends for that. There is something
to write only if the template resolves to a text. -/
inductive Fails (host : Host (StateM σ)) (state : σ) (arguments : List String) :
    Stage → Exit → Prop
  | arguments {e : UsageError} : ofArguments arguments = .error e → e ≠ .help → e ≠ .version →
      Fails host state arguments .arguments (.ofUsage (host.page e))
  | template {line : CommandLine} {e : RunError} : ofArguments arguments = .ok line →
      (host.inputs state).LacksTemplate line e →
      Fails host state arguments .template (.ofRun (.error e))
  | propertyFile {line : CommandLine} {position : Nat} {path : String} {e : LoadError} :
      ofArguments arguments = .ok line → line.propertyFiles[position]? = some path →
      Unloadable (host.inputs state).files path e →
      Fails host state arguments (.propertyFile position)
        (.ofRun (.error (.resolution (.ofLoad e))))
  | output {line : CommandLine} {text : String} {e : RunError} : ofArguments arguments = .ok line →
      (host.inputs state).Resolves line text → host.Undelivered state line text e →
      Fails host state arguments .output (.ofRun (.error e))

/-- What a failure leaves: all as before, unless the result was to be written to standard output,
and this failed after a beginning of the text. -/
inductive Leaves (host : Host (StateM σ)) (view : View σ ι) (state : σ) (arguments : List String)
    (exit : Exit) : σ → Prop
  | unchanged : Leaves host view state arguments exit state
  | brokenOff {line : CommandLine} {text : String} {e : RunError} {after : σ} :
      ofArguments arguments = .ok line → line.Prints view →
      (host.inputs state).Resolves line text → host.Undelivered state line text e →
      exit = .ofRun (.error e) → BrokenOff view state text after →
      Leaves host view state arguments exit after

/-- The process ends as the first stage that fails says. -/
def FailsFirst (host : Host (StateM σ)) (state : σ) (arguments : List String) (exit : Exit) :
    Prop :=
  ∃ stage, host.Fails state arguments stage exit ∧
    ∀ earlier other, earlier.Before stage → ¬ host.Fails state arguments earlier other

section Passes

variable {host : Host (StateM σ)} {state : σ} {arguments : List String} {line : CommandLine}
  {template text : String} {exit : Exit} {position : Nat}

theorem not_fails_arguments (h : ofArguments arguments = .ok line) :
    ¬ host.Fails state arguments .arguments exit := by
  intro hfails
  cases hfails with
  | arguments herror => cases h.symm.trans herror

theorem not_fails_template (h : ofArguments arguments = .ok line)
    (htemplate : (host.inputs state).HasTemplate line template) :
    ¬ host.Fails state arguments .template exit := by
  intro hfails
  cases hfails with
  | template hline hlacks =>
    obtain rfl := Except.ok.inj (h.symm.trans hline)
    exact htemplate.not_lacksTemplate hlacks

theorem not_fails_propertyFile (h : ofArguments arguments = .ok line)
    (hfile : ∀ path, line.propertyFiles[position]? = some path →
      ∃ source, HoldsSource (host.inputs state).files path source) :
    ¬ host.Fails state arguments (.propertyFile position) exit := by
  intro hfails
  cases hfails with
  | propertyFile hline hpath hunloadable =>
    obtain rfl := Except.ok.inj (h.symm.trans hline)
    obtain ⟨source, hsource⟩ := hfile _ hpath
    exact hsource.not_unloadable hunloadable

theorem not_fails_output (h : ofArguments arguments = .ok line)
    (hresolves : (host.inputs state).Resolves line text)
    (hdelivered : ∀ e, ¬ host.Undelivered state line text e) :
    ¬ host.Fails state arguments .output exit := by
  intro hfails
  cases hfails with
  | output hline hresolves' hundelivered =>
    obtain rfl := Except.ok.inj (h.symm.trans hline)
    obtain rfl := hresolves.unique hresolves'
    exact hdelivered _ hundelivered

end Passes

end Host

end PropertyTemplate
