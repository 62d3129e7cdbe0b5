import PropertyTemplate.Proofs.CommandLine.Spelling

/-! # Reading chunks of arguments

Chunks are read one by one. If what they say can be added to a command line, reading them gives the
line with all of it, once the value that was met last is settled. If a value can never be settled,
no further argument helps.
-/

namespace PropertyTemplate.CommandLine

variable {line line' : CommandLine} {p q : Progress} {field : Field}
  {argument text value : String} {attached : Option String} {arguments chunk : List String}
  {chunks : List (List String)} {item : Item} {items : List Item}

theorem ne_template_of_option? (h : option? argument = some (field, attached)) :
    field ≠ .template := by
  unfold option? at h
  rintro rfl
  split at h
  · dsimp only at h
    split at h <;> cases h
  · dsimp only at h
    split at h <;> cases h
  · cases h

namespace Progress

section Read

theorem read_of_option? (honly : p.operandsOnly = false)
    (h : option? argument = some (field, attached)) :
    p.read argument = p.readField field attached := by
  unfold option? at h
  split at h
  · rename_i option hargument
    dsimp only at h
    cases option with
    | nil => simp at h
    | cons c option =>
      simp only [read, honly, hargument, readLong]
      split at h <;> cases h <;> simp [*]
  · rename_i hargument
    split at h <;> cases h <;> simp [read, honly, hargument, readShort]
  · cases h

theorem read_env (honly : p.operandsOnly = false) : p.read "--env" = p.readEnv := by
  simp [read, honly, readLong]

theorem read_of_isOperand (honly : p.operandsOnly = false) (h : IsOperand argument) :
    p.read argument = p.readValue argument := by
  simp only [read, honly]
  split
  · cases ‹false = true›
  split
  · exact absurd ‹_› (h _ _)
  · exact absurd ‹_› (h _ _)
  · exact absurd ‹_› (h _ _)
  · rfl

end Read

/-- Once the pending value is settled, all that was read is in the line. -/
def Settles (p : Progress) (line : CommandLine) : Prop :=
  p.settle = .ok ⟨line, none, line.template.isSome, false⟩

theorem eq_of_settle (h : p.settle = .ok q) :
    q.templateSeen = p.templateSeen ∧ q.operandsOnly = p.operandsOnly := by
  unfold settle at h
  split at h
  · obtain rfl := Except.ok.inj h
    exact ⟨rfl, rfl⟩
  · cases h
  · obtain ⟨_, -, heq⟩ := bind_eq_ok.1 h
    obtain rfl := Except.ok.inj heq
    exact ⟨rfl, rfl⟩

/-- A value is missing only if nothing can be settled. -/
theorem readValue_of_settle (h : p.settle = .ok q) (argument : String) :
    p.readValue argument = p.readOperand argument := by
  unfold readValue
  split
  · rename_i hpending
    simp [settle, hpending, throw, throwThe, MonadExceptOf.throw] at h
  · rfl

theorem settles_of_line (line : CommandLine) :
    Settles ⟨line, none, line.template.isSome, false⟩ line := rfl

theorem settles_start : Settles {} {} := rfl

theorem settles_of_store (hfield : field ≠ .template) (h : line.store field text = .ok line') :
    Settles ⟨line, some (field, some text), line.template.isSome, false⟩ line' := by
  rw [Settles, template_of_store hfield h]
  exact bind_eq_ok.2 ⟨line', h, rfl⟩

namespace Settles

theorem operandsOnly (h : Settles p line) : p.operandsOnly = false := (eq_of_settle h).2.symm

theorem templateSeen (h : Settles p line) : p.templateSeen = line.template.isSome :=
  (eq_of_settle h).1.symm

theorem readField_none (h : Settles p line) (field : Field) : p.readField field none =
    .ok ⟨line, some (field, none), line.template.isSome, false⟩ :=
  bind_eq_ok.2 ⟨_, h, rfl⟩

theorem readField_some (h : Settles p line) (hfield : field ≠ .template)
    (hstore : line.store field value = .ok line') :
    p.readField field (some value) = .ok ⟨line', none, line'.template.isSome, false⟩ := by
  rw [template_of_store hfield hstore]
  exact bind_eq_ok.2 ⟨_, h, bind_eq_ok.2 ⟨line', hstore, rfl⟩⟩

theorem foldlM_attached (h : Settles p line)
    (hargument : option? argument = some (field, some value))
    (hadd : line.add (.value field value) = .ok line') :
    ∃ q, [argument].foldlM read p = .ok q ∧ Settles q line' := by
  have hfield := ne_template_of_option? hargument
  rw [add_value_of_ne hfield] at hadd
  refine ⟨_, ?_, settles_of_line line'⟩
  rw [List.foldlM_cons, read_of_option? h.operandsOnly hargument, h.readField_some hfield hadd]
  rfl

theorem foldlM_separate (h : Settles p line) (hname : option? argument = some (field, none))
    (hvalue : IsOperand value) (hadd : line.add (.value field value) = .ok line') :
    ∃ q, [argument, value].foldlM read p = .ok q ∧ Settles q line' := by
  have hfield := ne_template_of_option? hname
  rw [add_value_of_ne hfield] at hadd
  refine ⟨_, ?_, settles_of_store hfield hadd⟩
  rw [List.foldlM_cons, read_of_option? h.operandsOnly hname, h.readField_none]
  simp only [bind, Except.bind, List.foldlM_cons, read_of_isOperand _ hvalue]
  rfl

theorem foldlM_environment (h : Settles p line) (hadd : line.add .environment = .ok line') :
    ∃ q, ["--env"].foldlM read p = .ok q ∧ Settles q line' := by
  obtain ⟨henv, rfl⟩ := add_environment_iff.1 hadd
  refine ⟨_, ?_, settles_of_line _⟩
  rw [List.foldlM_cons, read_env h.operandsOnly, bind_eq_ok]
  refine ⟨_, bind_eq_ok.2 ⟨_, h, ?_⟩, rfl⟩
  simp [henv]
  rfl

theorem foldlM_template (h : Settles p line) (hvalue : IsOperand value)
    (hadd : line.add (.value .template value) = .ok line') :
    ∃ q, [value].foldlM read p = .ok q ∧ Settles q line' := by
  obtain ⟨hnone, hstore⟩ := add_template_iff.1 hadd
  obtain ⟨-, rfl⟩ := store_template_iff.1 hstore
  have hseen : p.templateSeen = false := by simp [h.templateSeen, hnone]
  refine ⟨⟨line, some (.template, some value), true, false⟩, ?_, bind_eq_ok.2 ⟨_, hstore, rfl⟩⟩
  rw [List.foldlM_cons, read_of_isOperand h.operandsOnly hvalue, readValue_of_settle h, bind_eq_ok]
  refine ⟨_, ?_, rfl⟩
  rw [readOperand, hseen]
  exact bind_eq_ok.2 ⟨_, h, rfl⟩

/-- Reading a chunk adds what it says. -/
theorem foldlM_chunk (h : Settles p line) (hchunk : Chunk chunk item)
    (hadd : line.add item = .ok line') :
    ∃ q, chunk.foldlM read p = .ok q ∧ Settles q line' := by
  cases hchunk with
  | separate hname hvalue => exact h.foldlM_separate (option?_of_named hname) hvalue hadd
  | long hname => exact h.foldlM_attached (option?_long hname) hadd
  | short hletter hc => exact h.foldlM_attached (option?_short hletter hc) hadd
  | shortEquals hletter => exact h.foldlM_attached (option?_shortEquals hletter) hadd
  | environment => exact h.foldlM_environment hadd
  | template hvalue => exact h.foldlM_template hvalue hadd

theorem foldlM_flatten (h : Settles p line) (hchunks : List.Forall₂ Chunk chunks items)
    (hadd : items.foldlM add line = .ok line') :
    ∃ q, chunks.flatten.foldlM read p = .ok q ∧ Settles q line' := by
  induction hchunks generalizing p line with
  | nil =>
    obtain rfl := Except.ok.inj hadd
    exact ⟨p, rfl, h⟩
  | cons hchunk _ ih =>
    rw [List.foldlM_cons] at hadd
    obtain ⟨next, hfirst, hrest⟩ := bind_eq_ok.1 hadd
    obtain ⟨q, hq, hsettles⟩ := h.foldlM_chunk hchunk hfirst
    obtain ⟨r, hr, hsettles⟩ := ih hsettles hrest
    refine ⟨r, ?_, hsettles⟩
    rw [List.flatten_cons, List.foldlM_append, hq]
    exact hr

end Settles

end Progress

/-- Chunks are accepted if what they say can be added up. -/
theorem ofArguments_flatten (hchunks : List.Forall₂ Chunk chunks items)
    (hadd : items.foldlM add {} = .ok line) : ofArguments chunks.flatten = .ok line := by
  obtain ⟨p, hp, hsettles⟩ := Progress.settles_start.foldlM_flatten hchunks hadd
  exact bind_eq_ok.2 ⟨p, hp, bind_eq_ok.2 ⟨_, hsettles, rfl⟩⟩

/-- The arguments are in error, and do not ask for help or the version. -/
def Rejects {α : Type} (x : Except UsageError α) : Prop :=
  ∃ e, x = .error e ∧ e ≠ .help ∧ e ≠ .version

section Rejection

variable {α β : Type}

theorem Rejects.bind {x : Except UsageError α} (h : Rejects x) (f : α → Except UsageError β) :
    Rejects (x >>= f) := by
  obtain ⟨e, rfl, he⟩ := h
  exact ⟨e, rfl, he⟩

theorem definition?_eq_none (h : '=' ∉ text.toList) : definition? text = none := by
  rw [Option.eq_none_iff_forall_ne_some]
  rintro ⟨key, value⟩ hdefinition
  exact h (parts_of_definition? hdefinition).2.2

theorem rejects_store_definition (h : '=' ∉ text.toList) :
    Rejects (line.store .definition text) := by
  rw [store, definition?_eq_none h]
  exact ⟨_, rfl, by simp, by simp⟩

namespace Progress

theorem rejects_readOperand (h : Rejects p.settle) (argument : String) :
    Rejects (p.readOperand argument) := by
  cases hseen : p.templateSeen with
  | true =>
    rw [readOperand, hseen]
    exact ⟨_, rfl, by simp, by simp⟩
  | false =>
    rw [readOperand, hseen]
    exact h.bind _

theorem rejects_readLong (h : Rejects p.settle) (option : List Char) :
    Rejects (p.readLong option) := by
  unfold readLong
  dsimp only
  split
  · exact h.bind _
  · exact h.bind _
  · exact h.bind _
  · split
    · exact ⟨_, rfl, by simp, by simp⟩
    · exact h.bind _
  · split
    · exact ⟨_, rfl, by simp, by simp⟩
    · exact h.bind _
  · split
    · exact ⟨_, rfl, by simp, by simp⟩
    · exact h.bind _
  · exact ⟨_, rfl, by simp, by simp⟩

theorem rejects_readShort (h : Rejects p.settle) (letter : Char) (rest : List Char) :
    Rejects (p.readShort letter rest) := by
  unfold readShort
  split
  · exact h.bind _
  · exact h.bind _
  · exact h.bind _
  · exact h.bind _
  · exact h.bind _
  · exact ⟨_, rfl, by simp, by simp⟩

/-- If nothing can be settled, then only two hyphens and a missing value can still be read. -/
theorem rejects_read_or (h : Rejects p.settle) (argument : String) :
    Rejects (p.read argument) ∨ p.read argument = .ok { p with operandsOnly := true } ∨
      p.operandsOnly = false ∧ p.read argument = p.readValue argument := by
  unfold read
  split
  · exact .inl (rejects_readOperand h argument)
  · rename_i honly
    split
    · exact .inr (.inl rfl)
    · exact .inl (rejects_readLong h _)
    · exact .inl (rejects_readShort h _ _)
    · exact .inr (.inr ⟨by simpa using honly, rfl⟩)

/-- A value that is met or will never be met can not be settled. -/
inductive Stuck : Progress → Prop
  | value {p : Progress} {field : Field} {text : String} : p.pending = some (field, some text) →
      Rejects (p.line.store field text) → Stuck p
  | unmet {p : Progress} {field : Field} : p.pending = some (field, none) →
      p.operandsOnly = true → Stuck p

namespace Stuck

theorem rejects_settle (h : Stuck p) : Rejects p.settle := by
  unfold settle
  cases h with
  | value hpending hstore =>
    rw [hpending]
    exact hstore.bind _
  | unmet hpending _ =>
    rw [hpending]
    exact ⟨_, rfl, by simp, by simp⟩

theorem hyphens (h : Stuck p) : Stuck { p with operandsOnly := true } := by
  cases h with
  | value hpending hstore => exact .value hpending hstore
  | unmet hpending _ => exact .unmet hpending rfl

theorem rejects_readValue (h : Stuck p) (honly : p.operandsOnly = false) (argument : String) :
    Rejects (p.readValue argument) := by
  have hoperand := rejects_readOperand h.rejects_settle argument
  cases h with
  | value hpending _ => rwa [readValue, hpending]
  | unmet _ hunmet => simp [honly] at hunmet

theorem read (h : Stuck p) (argument : String) :
    Rejects (p.read argument) ∨ ∃ q, p.read argument = .ok q ∧ Stuck q := by
  rcases rejects_read_or h.rejects_settle argument with hread | hread | ⟨honly, hread⟩
  · exact .inl hread
  · exact .inr ⟨_, hread, h.hyphens⟩
  · exact .inl (hread ▸ h.rejects_readValue honly argument)

end Stuck

theorem rejects_foldlM_cons (h : Rejects (p.read argument) ∨ ∃ q, p.read argument = .ok q ∧
      Rejects (arguments.foldlM Progress.read q >>= settle)) :
    Rejects ((argument :: arguments).foldlM Progress.read p >>= settle) := by
  rw [List.foldlM_cons, bind_assoc]
  rcases h with hread | ⟨q, hread, hrest⟩
  · exact hread.bind _
  · rwa [hread]

/-- No further argument helps. -/
theorem Stuck.rejects_foldlM (h : Stuck p) (arguments : List String) :
    Rejects (arguments.foldlM Progress.read p >>= settle) := by
  induction arguments generalizing p with
  | nil => exact h.rejects_settle
  | cons argument arguments ih =>
    apply rejects_foldlM_cons
    rcases h.read argument with hread | ⟨q, hread, hstuck⟩
    · exact .inl hread
    · exact .inr ⟨q, hread, ih hstuck⟩

theorem Settles.rejects_attached (h : Settles p line)
    (hargument : option? argument = some (.definition, some text)) (htext : '=' ∉ text.toList)
    (more : List String) : Rejects ((argument :: more).foldlM Progress.read p >>= settle) := by
  apply rejects_foldlM_cons
  left
  rw [read_of_option? h.operandsOnly hargument, readField, h]
  exact (rejects_store_definition htext).bind _

theorem Settles.rejects_separate (h : Settles p line)
    (hname : option? argument = some (.definition, none)) (htext : '=' ∉ text.toList)
    (more : List String) :
    Rejects ((argument :: text :: more).foldlM Progress.read p >>= settle) := by
  have hnamed := read_of_option? h.operandsOnly hname
  rw [h.readField_none] at hnamed
  have hunmet : Rejects
      (settle ⟨line, some (.definition, none), line.template.isSome, false⟩) :=
    ⟨_, rfl, by simp, by simp⟩
  apply rejects_foldlM_cons
  refine .inr ⟨_, hnamed, ?_⟩
  apply rejects_foldlM_cons
  -- The text need not be a value: it may itself look like an option, or be two hyphens.
  rcases rejects_read_or hunmet text with hread | hread | ⟨-, hread⟩
  · exact .inl hread
  · exact .inr ⟨_, hread, Stuck.rejects_foldlM (.unmet rfl rfl) more⟩
  · exact .inr ⟨_, hread,
      Stuck.rejects_foldlM (.value rfl (rejects_store_definition htext)) more⟩

end Progress

theorem rejects_ofArguments (h : Rejects (arguments.foldlM Progress.read {} >>= Progress.settle)) :
    Rejects (ofArguments arguments) := by
  rw [ofArguments, ← bind_assoc]
  exact h.bind _

end Rejection

end PropertyTemplate.CommandLine
