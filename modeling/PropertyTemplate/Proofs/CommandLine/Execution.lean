import PropertyTemplate.Proofs.CommandLine.Stages

/-! # Runs that change all or nothing

A run ends with the first stage that fails, and then it changes no file, or with its output. The
template is resolved against what there was before the run, even if the output replaces a file that
was read. A process ends before the run if its arguments say nothing to do. Only standard output can
be left with a part of the result, if the result goes there and cannot be written to its end.
-/

namespace PropertyTemplate

open CommandLine

namespace CommandLine

variable {σ ι : Type} {host : Host (StateM σ)} {view : View σ ι} {state after : σ}
  {line : CommandLine} {arguments : List String} {text : String} {e : RunError}

theorem run_readTemplate (h : host.Atomic view) (line : CommandLine) (state : σ) :
    (∃ template, (line.readTemplate host).run state = (.ok template, state) ∧
      (host.inputs state).HasTemplate line template) ∨
    ∃ e, (line.readTemplate host).run state = (.error e, state) ∧
      (host.inputs state).LacksTemplate line e := by
  unfold readTemplate
  cases htemplate : line.template with
  | some path =>
    rw [run_bind_of_run_eq (h.run_fileContent path state)]
    cases hfile : (host.inputs state).files path with
    | error cause => exact .inr ⟨_, rfl, .unreadable htemplate hfile⟩
    | ok content =>
      cases hcontent : Text.decodeUtf8 content with
      | error cause =>
        refine .inr ⟨_, ?_, .notUtf8 htemplate hfile (decodeUtf8_eq_error hcontent)⟩
        simp only [hcontent]
        rfl
      | ok text =>
        obtain rfl := decodeUtf8_eq_ok_iff.1 hcontent
        refine .inl ⟨text, ?_, .file htemplate hfile⟩
        simp only [hcontent]
        rfl
  | none =>
    rw [run_bind_of_run_eq (h.run_readInput state)]
    cases hinput : (host.inputs state).input with
    | error cause => exact .inr ⟨_, rfl, .unreadableInput htemplate hinput⟩
    | ok content =>
      cases hcontent : Text.decodeUtf8 content with
      | error cause =>
        refine .inr ⟨_, ?_, .inputNotUtf8 htemplate hinput hcontent⟩
        simp only [hcontent]
        rfl
      | ok text =>
        obtain rfl := decodeUtf8_eq_ok_iff.1 hcontent
        refine .inl ⟨text, ?_, .input htemplate hinput⟩
        simp only [hcontent]
        rfl

theorem run_resolve_sources (h : host.Atomic view) (line : CommandLine) (template : String)
    (state : σ) :
    (line.resolve host template).run state =
      (match line.propertyFiles.mapM (fileSource (host.inputs state).files) with
        | .error e => .error (.ofLoad e)
        | .ok sources =>
          .ok ((line.request (host.inputs state).environment template).answer ⟨sources⟩), state) := by
  rw [run_resolve (h.shows state),
    Request.run_resolve _ fun path => run_load ((h.shows state).fileContent path)]
  rfl

/-- Behind its template a run loads the property files, computes, and writes. -/
theorem run_of_readTemplate {template : String} (h : host.Atomic view)
    (hread : (line.readTemplate host).run state = (.ok template, state)) :
    (line.run host).run state =
      match line.propertyFiles.mapM (fileSource (host.inputs state).files) with
      | .error e => (.error (.resolution (.ofLoad e)), state)
      | .ok sources => (line.writeResult host
          ((line.request (host.inputs state).environment template).answer ⟨sources⟩).text).run
            state := by
  rw [run, run_bind_of_run_eq hread, run_bind_of_run_eq (run_resolve_sources h line template state)]
  cases line.propertyFiles.mapM (fileSource (host.inputs state).files) with
  | error e => rfl
  | ok sources => rfl

theorem run_writeResult (h : host.Atomic view) (line : CommandLine) (text : String) (state : σ) :
    (∃ after, (line.writeResult host text).run state = (.ok (), after) ∧
      host.Delivered view state line text after) ∨
    ∃ e after, (line.writeResult host text).run state = (.error e, after) ∧
      host.Undelivered state line text e ∧
      (after = state ∨ line.Prints view ∧ Host.BrokenOff view state text after) := by
  unfold writeResult
  cases houtput : line.output with
  | some path =>
    cases hwrite : (host.replaceFile path text).run state with
    | mk result after =>
      have hprints : view.IsOutput path → line.Prints view := by
        rintro hpath other hother
        rwa [← Option.some.inj (houtput.symm.trans hother)]
      cases result with
      | error cause =>
        refine .inr ⟨_, after, run_bind_of_run_eq hwrite, .file houtput (by rw [hwrite]), ?_⟩
        by_cases hpath : view.IsOutput path
        · exact .inr ⟨hprints hpath, h.replaceOutput_error hpath hwrite⟩
        · exact .inl (h.replaceFile_error hpath hwrite)
      | ok _ =>
        refine .inl ⟨after, run_bind_of_run_eq hwrite, ?_⟩
        by_cases hpath : view.IsOutput path
        · exact .standardOutput (hprints hpath) (h.replaceOutput_ok hpath hwrite)
        · exact .file houtput hpath (h.replaceFile_ok hpath hwrite)
  | none =>
    have hprints : line.Prints view := fun path hpath => by cases houtput.symm.trans hpath
    cases hwrite : (host.writeOutput text).run state with
    | mk result after =>
      cases result with
      | error cause =>
        exact .inr ⟨_, after, run_bind_of_run_eq hwrite, .standardOutput houtput (by rw [hwrite]),
          .inr ⟨hprints, h.writeOutput_error hwrite⟩⟩
      | ok _ =>
        exact .inl ⟨after, run_bind_of_run_eq hwrite,
          .standardOutput hprints (h.writeOutput_ok hwrite)⟩

theorem run_writeResult_of_undelivered (h : host.Undelivered state line text e) :
    ((line.writeResult host text).run state).1 = .error e := by
  unfold writeResult
  cases h with
  | file houtput hcause =>
    rw [houtput, run_bind_of_run_eq (Prod.ext hcause rfl)]
    rfl
  | standardOutput houtput hcause =>
    rw [houtput, run_bind_of_run_eq (Prod.ext hcause rfl)]
    rfl

/-- What a run comes to: the first stage behind the arguments that fails, or the output. -/
inductive Outcome (host : Host (StateM σ)) (view : View σ ι) (state : σ) (line : CommandLine) :
    Except RunError Unit → σ → Prop
  | template {e : RunError} : (host.inputs state).LacksTemplate line e →
      Outcome host view state line (.error e) state
  | propertyFile {template path : String} {front back : List String} {e : LoadError} :
      (host.inputs state).HasTemplate line template →
      line.propertyFiles = front ++ path :: back →
      (∀ earlier ∈ front, ∃ source, HoldsSource (host.inputs state).files earlier source) →
      Unloadable (host.inputs state).files path e →
      Outcome host view state line (.error (.resolution (.ofLoad e))) state
  | undelivered {text : String} {e : RunError} {after : σ} :
      (host.inputs state).Resolves line text → host.Undelivered state line text e →
      (after = state ∨ line.Prints view ∧ Host.BrokenOff view state text after) →
      Outcome host view state line (.error e) after
  | delivered {text : String} {after : σ} : (host.inputs state).Resolves line text →
      (∀ e, ¬ host.Undelivered state line text e) →
      host.Delivered view state line text after → Outcome host view state line (.ok ()) after

theorem outcome_run (h : host.Atomic view) (line : CommandLine) (state : σ) :
    ∃ result after, (line.run host).run state = (result, after) ∧
      Outcome host view state line result after := by
  rcases run_readTemplate h line state with ⟨template, hread, htemplate⟩ | ⟨e, hread, hlacks⟩
  · rw [run_of_readTemplate h hread]
    cases hsources : line.propertyFiles.mapM (fileSource (host.inputs state).files) with
    | error e =>
      obtain ⟨front, path, back, heq, hfront, hpath⟩ := mapM_fileSource_eq_error_iff.1 hsources
      exact ⟨_, state, rfl, .propertyFile htemplate heq hfront hpath⟩
    | ok sources =>
      have hresolves := Inputs.Resolves.intro htemplate (mapM_fileSource_eq_ok_iff.1 hsources)
      rcases run_writeResult h line _ state with ⟨after, hwrite, hdelivered⟩ |
        ⟨e, after, hwrite, hundelivered, hafter⟩
      · refine ⟨_, after, hwrite, .delivered hresolves ?_ hdelivered⟩
        intro e hundelivered
        have herror := run_writeResult_of_undelivered hundelivered
        rw [hwrite] at herror
        cases herror
      · exact ⟨_, after, hwrite, .undelivered hresolves hundelivered hafter⟩
  · refine ⟨_, state, ?_, .template hlacks⟩
    rw [run, run_bind_of_run_eq hread]
    rfl

theorem Outcome.failsFirst (h : Outcome host view state line (.error e) after)
    (hline : ofArguments arguments = .ok line) :
    host.FailsFirst state arguments (.ofRun (.error e)) := by
  cases h with
  | template hlacks =>
    refine ⟨.template, .template hline hlacks, ?_⟩
    intro earlier exit hbefore
    cases hbefore with
    | arguments => exact Host.not_fails_arguments hline
  | @propertyFile template path front back e htemplate heq hfront hpath =>
    have hposition : line.propertyFiles[front.length]? = some path := by simp [heq]
    refine ⟨.propertyFile front.length, .propertyFile hline hposition hpath, ?_⟩
    intro earlier exit hbefore
    cases hbefore with
    | arguments => exact Host.not_fails_arguments hline
    | templateFile => exact Host.not_fails_template hline htemplate
    | propertyFiles hlt =>
      refine Host.not_fails_propertyFile hline ?_
      intro path hpath
      rw [heq, List.getElem?_append_left hlt] at hpath
      exact hfront path (List.mem_of_getElem? hpath)
  | undelivered hresolves hundelivered _ =>
    refine ⟨.output, .output hline hresolves hundelivered, ?_⟩
    obtain ⟨htemplate, hsources⟩ := hresolves
    intro earlier exit hbefore
    cases hbefore with
    | arguments => exact Host.not_fails_arguments hline
    | templateOutput => exact Host.not_fails_template hline htemplate
    | fileOutput =>
      exact Host.not_fails_propertyFile hline fun path hpath =>
        exists_holdsSource hsources (List.mem_of_getElem? hpath)

theorem Outcome.leaves (h : Outcome host view state line (.error e) after)
    (hline : ofArguments arguments = .ok line) :
    host.Leaves view state arguments (.ofRun (.error e)) after := by
  cases h with
  | template _ => exact .unchanged
  | propertyFile _ _ _ _ => exact .unchanged
  | undelivered hresolves hundelivered hafter =>
    rcases hafter with rfl | ⟨hprints, hbroken⟩
    · exact .unchanged
    · exact .brokenOff hline hprints hresolves hundelivered rfl hbroken

theorem Outcome.not_fails (h : Outcome host view state line (.ok ()) after)
    (hline : ofArguments arguments = .ok line) :
    (∃ text, (host.inputs state).Resolves line text ∧
      host.Delivered view state line text after) ∧
      ∀ stage exit, ¬ host.Fails state arguments stage exit := by
  cases h with
  | delivered hresolves hall hdelivered =>
    refine ⟨⟨_, hresolves, hdelivered⟩, ?_⟩
    have houtput : ∀ exit, ¬ host.Fails state arguments .output exit := fun exit =>
      Host.not_fails_output hline hresolves hall
    obtain ⟨htemplate, hsources⟩ := hresolves
    intro stage exit
    cases stage with
    | arguments => exact Host.not_fails_arguments hline
    | template => exact Host.not_fails_template hline htemplate
    | propertyFile position =>
      exact Host.not_fails_propertyFile hline fun path hpath =>
        exists_holdsSource hsources (List.mem_of_getElem? hpath)
    | output => exact houtput exit

end CommandLine

variable {σ ι : Type} {host : Host (StateM σ)} {view : View σ ι} {state : σ}
  {arguments : List String}

section Usage

variable {e : UsageError}

theorem run_execute_of_error (h : ofArguments arguments = .error e) (hhelp : e ≠ .help)
    (hversion : e ≠ .version) :
    (execute host arguments).run state = (.ofUsage (host.page e), state) := by
  unfold execute
  rw [h]
  cases e with
  | help => exact absurd rfl hhelp
  | version => exact absurd rfl hversion
  | _ => rfl

theorem exists_run_execute_of_request (h : ofArguments arguments = .error e)
    (he : e = .help ∨ e = .version) : ∃ after, (execute host arguments).run state = ({}, after) := by
  unfold execute
  rw [h]
  rcases he with rfl | rfl
  · exact ⟨_, run_bind_of_run_eq rfl⟩
  · exact ⟨_, run_bind_of_run_eq rfl⟩

theorem Host.failsFirst_of_error (h : ofArguments arguments = .error e) (hhelp : e ≠ .help)
    (hversion : e ≠ .version) : host.FailsFirst state arguments (.ofUsage (host.page e)) := by
  refine ⟨.arguments, .arguments h hhelp hversion, ?_⟩
  intro earlier exit hbefore
  cases hbefore with
  | arguments hne => exact absurd rfl hne

theorem Host.not_fails_of_request {stage : Stage} {exit : Exit}
    (h : ofArguments arguments = .error e) (he : e = .help ∨ e = .version) :
    ¬ host.Fails state arguments stage exit := by
  intro hfails
  cases hfails with
  | arguments herror hhelp hversion =>
    obtain rfl := Except.error.inj (h.symm.trans herror)
    exact he.elim hhelp hversion
  | template hline => cases h.symm.trans hline
  | propertyFile hline => cases h.symm.trans hline
  | output hline => cases h.symm.trans hline

end Usage

theorem Host.Leaves.entry?_eq {exit : Exit} {after : σ}
    (h : host.Leaves view state arguments exit after) : view.entry? after = view.entry? state := by
  cases h with
  | unchanged => rfl
  | brokenOff _ _ _ _ _ hbroken =>
    obtain ⟨_, _, -, hprinted⟩ := hbroken
    exact hprinted.entry?

/-- A process that fails changes no file and reports the first stage that fails; it has written a
beginning of the result to standard output if that was the stage. A process that succeeds writes
what the template resolves to, unless it was asked for something else. -/
theorem execute_all_or_nothing (h : host.Atomic view) (arguments : List String) (state : σ) :
    ∃ exit after, (execute host arguments).run state = (exit, after) ∧
      (exit.code ≠ 0 → host.FailsFirst state arguments exit ∧
        view.entry? after = view.entry? state ∧ host.Leaves view state arguments exit after) ∧
      (exit.code = 0 → exit.report = "" ∧
        (∀ stage other, ¬ host.Fails state arguments stage other) ∧
        (ofArguments arguments = .error .help ∨ ofArguments arguments = .error .version ∨
          ∃ line text, ofArguments arguments = .ok line ∧
            (host.inputs state).Resolves line text ∧
            host.Delivered view state line text after)) := by
  cases hline : ofArguments arguments with
  | ok line =>
    obtain ⟨result, after, hrun, houtcome⟩ := outcome_run h line state
    refine ⟨.ofRun result, after, ?_, ?_, ?_⟩
    · rw [execute, hline]
      exact run_bind_of_run_eq hrun
    · intro hcode
      cases result with
      | ok _ => exact absurd rfl hcode
      | error e =>
        have hleaves := houtcome.leaves hline
        exact ⟨houtcome.failsFirst hline, hleaves.entry?_eq, hleaves⟩
    · intro hcode
      cases result with
      | ok _ =>
        obtain ⟨⟨text, hresolves, hdelivered⟩, hnone⟩ := houtcome.not_fails hline
        exact ⟨rfl, hnone, .inr (.inr ⟨line, text, rfl, hresolves, hdelivered⟩)⟩
      | error e => cases hcode
  | error e =>
    by_cases he : e = .help ∨ e = .version
    · obtain ⟨after, hrun⟩ := exists_run_execute_of_request hline he
      refine ⟨{}, after, hrun, fun hcode => absurd rfl hcode, fun _ => ⟨rfl, ?_, ?_⟩⟩
      · exact fun _ _ => Host.not_fails_of_request hline he
      · rcases he with rfl | rfl
        · exact .inl rfl
        · exact .inr (.inl rfl)
    · obtain ⟨hhelp, hversion⟩ := not_or.1 he
      refine ⟨.ofUsage (host.page e), state, run_execute_of_error hline hhelp hversion,
        fun _ => ⟨?_, rfl, .unchanged⟩, ?_⟩
      · exact Host.failsFirst_of_error hline hhelp hversion
      · intro hcode
        cases hcode

def selfReferring : Machine where
  files := .ofList [("a.properties", .file "x=1\ny=$\x7bx\x7d\n".toUTF8)]

def nearlyFull : Machine where
  files := .ofList [("t.txt", .file "hi\n".toUTF8)]
  room := some 2

theorem execute_breaks_off : Machine.host.Atomic Machine.view ∧
    (∃ after, (execute Machine.host ["t.txt"]).run nearlyFull =
      (⟨1, "Error: No space left on device (os error 28)\n"⟩, after) ∧
      nearlyFull.output = "" ∧ after.output = "hi") ∧
    ∃ after, (execute Machine.host ["t.txt", "-o", "/dev/stdout"]).run
        { nearlyFull with room := none } = ({}, after) ∧ after.output = "hi\n" := by
  refine ⟨Machine.atomic, ⟨_, Prod.ext ?_ rfl, rfl, ?_⟩, ⟨_, Prod.ext ?_ rfl, ?_⟩⟩ <;>
    decide +kernel

def inPlace : List String := ["a.properties", "-pa.properties", "-o", "a.properties"]

theorem execute_inPlace :
    (∃ after, (execute Machine.host inPlace).run selfReferring = ({}, after) ∧
      Machine.host.Replaced Machine.view selfReferring "a.properties" "x=1\ny=1\n".toUTF8 after) ∧
    ((execute Machine.host (inPlace ++ ["-pb.yml"])).run selfReferring =
      (⟨1, "Error: Property file not found: b.yml\n"⟩, selfReferring) ∧
    Machine.host.FailsFirst selfReferring (inPlace ++ ["-pb.yml"])
      ⟨1, "Error: Property file not found: b.yml\n"⟩) ∧
    ∃ exit after, (execute Machine.host ["t.txt"]).run nearlyFull = (exit, after) ∧
      exit.code = 1 ∧ after.output = "hi" ∧ Machine.host.FailsFirst nearlyFull ["t.txt"] exit ∧
      Machine.host.Leaves Machine.view nearlyFull ["t.txt"] exit after := by
  have hfile : "a.properties" ∉ Machine.outputPaths := by decide
  refine ⟨?_, ?_, ?_⟩
  · obtain ⟨exit, after, hrun, -, hsucceeds⟩ :=
      execute_all_or_nothing Machine.atomic inPlace selfReferring
    have hexit : ((execute Machine.host inPlace).run selfReferring).1 = {} := by decide +kernel
    have hread : ((execute Machine.host inPlace).run selfReferring).2.files.read "a.properties" =
        .ok "x=1\ny=1\n".toUTF8 := by
      decide +kernel
    have hinPlace : ofArguments inPlace =
        .ok ⟨"a.properties", ["a.properties"], [], false, "a.properties"⟩ := by
      decide +kernel
    rw [hrun] at hexit hread
    obtain rfl : exit = {} := hexit
    obtain ⟨-, -, hhelp | hversion | ⟨line, text, hline, -, hdelivered⟩⟩ := hsucceeds rfl
    · cases hhelp
    · cases hversion
    · obtain rfl := Except.ok.inj (hinPlace.symm.trans hline)
      refine ⟨after, hrun, ?_⟩
      cases hdelivered with
      | file houtput _ hreplaced =>
        obtain rfl := Option.some.inj houtput
        have htext := Except.ok.inj (hreplaced.files.symm.trans hread)
        rwa [htext] at hreplaced
      | standardOutput hprints _ => exact absurd (hprints _ rfl) hfile
  · obtain ⟨exit, after, hrun, hfails, -⟩ :=
      execute_all_or_nothing Machine.atomic (inPlace ++ ["-pb.yml"]) selfReferring
    have hexit : ((execute Machine.host (inPlace ++ ["-pb.yml"])).run selfReferring).1 =
        ⟨1, "Error: Property file not found: b.yml\n"⟩ := by
      decide +kernel
    have hinPlace : ofArguments (inPlace ++ ["-pb.yml"]) =
        .ok ⟨"a.properties", ["a.properties", "b.yml"], [], false, "a.properties"⟩ := by
      decide +kernel
    rw [hrun] at hexit
    obtain rfl : exit = ⟨1, "Error: Property file not found: b.yml\n"⟩ := hexit
    obtain ⟨hfirst, -, hleaves⟩ := hfails (by decide)
    cases hleaves with
    | unchanged => exact ⟨hrun, hfirst⟩
    | brokenOff hline hprints _ _ _ _ =>
      obtain rfl := Except.ok.inj (hinPlace.symm.trans hline)
      exact absurd (hprints _ rfl) hfile
  · obtain ⟨exit, after, hrun, hfails, -⟩ :=
      execute_all_or_nothing Machine.atomic ["t.txt"] nearlyFull
    have hcode : ((execute Machine.host ["t.txt"]).run nearlyFull).1.code = 1 := by decide +kernel
    have houtput : ((execute Machine.host ["t.txt"]).run nearlyFull).2.output = "hi" := by
      decide +kernel
    rw [hrun] at hcode houtput
    obtain ⟨hfirst, -, hleaves⟩ := hfails (by rw [hcode]; decide)
    exact ⟨exit, after, hrun, hcode, houtput, hfirst, hleaves⟩

end PropertyTemplate
