import PropertyTemplate.Proofs.CommandLine.Chunks
import PropertyTemplate.Proofs.Outcome
import PropertyTemplate.Proofs.Text.Occurrence

/-! # Reading arguments

Whatever reading accepts is spelled in chunks, and the command line is what they say, in order. The
value of the last field that was met is added when the next thing is said or nothing follows.
-/

namespace PropertyTemplate.CommandLine

open Text

/-- The command line with one more thing said. The template, the output and the flag are said once
only. -/
def add (line : CommandLine) : Item → Except UsageError CommandLine
  | .value .template text =>
    if line.template.isSome then .error (.unknownArgument text) else line.store .template text
  | .value field text => line.store field text
  | .environment =>
    if line.useEnvironment then .error .repeated else .ok { line with useEnvironment := true }

variable {line line' : CommandLine} {field : Field} {text argument value : String}
  {arguments : List String} {items : List Item} {item : Item} {only : Bool}

section Store

theorem nonEmpty_eq_ok_iff {result : String} :
    nonEmpty value = .ok result ↔ value ≠ "" ∧ result = value := by
  unfold nonEmpty
  by_cases h : value = ""
  · simp [h]
  · simp only [String.isEmpty_iff, h, if_false, Except.ok.injEq, ne_eq, not_false_eq_true, true_and]
    exact eq_comm

theorem storeNonEmpty_eq_ok_iff {put : String → CommandLine} :
    (nonEmpty text >>= fun value => pure (put value)) = Except.ok line' ↔
      text ≠ "" ∧ line' = put text := by
  simp only [bind_eq_ok, nonEmpty_eq_ok_iff]
  constructor
  · rintro ⟨_, ⟨hne, rfl⟩, heq⟩
    exact ⟨hne, (Except.ok.inj heq).symm⟩
  · rintro ⟨hne, rfl⟩
    exact ⟨_, ⟨hne, rfl⟩, rfl⟩

theorem store_template_iff : line.store .template text = .ok line' ↔
    text ≠ "" ∧ line' = { line with template := some text } :=
  storeNonEmpty_eq_ok_iff

theorem store_propertyFile_iff : line.store .propertyFile text = .ok line' ↔
    text ≠ "" ∧ line' = { line with propertyFiles := line.propertyFiles ++ [text] } :=
  storeNonEmpty_eq_ok_iff

theorem store_definition_iff : line.store .definition text = .ok line' ↔
    ∃ definition, definition? text = some definition ∧
      line' = { line with definitions := line.definitions ++ [definition] } := by
  unfold store
  cases definition? text with
  | none => simp [throw, throwThe, MonadExceptOf.throw]
  | some definition => simp [pure, Except.pure, eq_comm]

theorem store_output_iff : line.store .output text = .ok line' ↔
    line.output = none ∧ text ≠ "" ∧ line' = { line with output := some text } := by
  cases houtput : line.output with
  | some path => simp [store, houtput, throw, throwThe, MonadExceptOf.throw, bind, Except.bind]
  | none =>
    rw [store, houtput]
    exact storeNonEmpty_eq_ok_iff.trans (by simp)

theorem template_of_store (hfield : field ≠ .template) (h : line.store field text = .ok line') :
    line'.template = line.template := by
  cases field with
  | template => exact absurd rfl hfield
  | propertyFile =>
    obtain ⟨-, rfl⟩ := store_propertyFile_iff.1 h
    rfl
  | definition =>
    obtain ⟨_, -, rfl⟩ := store_definition_iff.1 h
    rfl
  | output =>
    obtain ⟨-, -, rfl⟩ := store_output_iff.1 h
    rfl

theorem add_value_of_ne (hfield : field ≠ .template) :
    line.add (.value field text) = line.store field text := by
  cases field with
  | template => exact absurd rfl hfield
  | propertyFile => rfl
  | definition => rfl
  | output => rfl

theorem add_template_iff : line.add (.value .template text) = .ok line' ↔
    line.template = none ∧ line.store .template text = .ok line' := by
  cases h : line.template with
  | none => simp [add, h]
  | some path => simp [add, h]

theorem add_environment_iff : line.add .environment = .ok line' ↔
    line.useEnvironment = false ∧ line' = { line with useEnvironment := true } := by
  cases h : line.useEnvironment with
  | false => simp [add, h, eq_comm]
  | true => simp [add, h]

theorem foldlM_add_snoc (h : items.foldlM add {} = .ok line) (hadd : line.add item = .ok line') :
    (items ++ [item]).foldlM add {} = .ok line' := by
  rw [List.foldlM_append, bind_eq_ok]
  refine ⟨line, h, ?_⟩
  rw [List.foldlM_cons, bind_eq_ok]
  exact ⟨line', hadd, rfl⟩

end Store

section Fields

namespace Item

def propertyFile? : Item → Option String
  | .value .propertyFile path => some path
  | _ => none

/-- What a definition defines: a key, which ends before the first equals sign, and as its value what
stands behind that sign. -/
def definition? : Item → Option (String × String)
  | .value .definition text =>
    some (String.ofList (text.toList.takeWhile (· != '=')),
      String.ofList ((text.toList.dropWhile (· != '=')).drop 1))
  | _ => none

end Item

theorem parts_of_definition? {key value : String} (h : definition? text = some (key, value)) :
    text.toList.takeWhile (· != '=') = key.toList ∧
      (text.toList.dropWhile (· != '=')).drop 1 = value.toList ∧ '=' ∈ text.toList := by
  obtain ⟨⟨before, after⟩, hcut, heq⟩ := Option.map_eq_some_iff.1 h
  obtain ⟨rfl, rfl⟩ := Prod.mk.injEq .. ▸ heq
  have hcut := leftmostCut_of_cut hcut
  have hall : ∀ c ∈ before, (c != '=') = true := by
    intro c hc
    obtain ⟨i, hi, rfl⟩ := List.getElem_of_mem hc
    have hno := hcut.leftmost i hi
    rw [hcut.eq_append, List.drop_append_of_le_length (Nat.le_of_lt hi),
      List.drop_eq_getElem_cons hi] at hno
    simp only [List.cons_append, List.cons_prefix_cons, List.nil_prefix, and_true] at hno
    exact bne_iff_ne.2 fun heq => hno heq.symm
  rw [hcut.eq_append, List.takeWhile_append_of_pos hall, List.dropWhile_append_of_pos hall]
  simp

/-- The files, definitions and flag of a command line are those that some items say. -/
structure Says (items : List Item) (line : CommandLine) : Prop where
  propertyFiles : line.propertyFiles = items.filterMap Item.propertyFile?
  definitions : line.definitions = items.filterMap Item.definition?
  useEnvironment : line.useEnvironment = decide (Item.environment ∈ items)
  separated : ∀ text, .value .definition text ∈ items → '=' ∈ text.toList

theorem Says.nil : Says [] {} := ⟨rfl, rfl, rfl, fun _ h => absurd h List.not_mem_nil⟩

theorem Says.snoc (h : Says items line)
    (hfiles : line'.propertyFiles = line.propertyFiles ++ item.propertyFile?.toList)
    (hdefinitions : line'.definitions = line.definitions ++ item.definition?.toList)
    (henvironment : line'.useEnvironment = (line.useEnvironment || item == .environment))
    (hseparated : ∀ text, item = .value .definition text → '=' ∈ text.toList) :
    Says (items ++ [item]) line' := by
  constructor
  · rw [hfiles, h.propertyFiles, List.filterMap_append]
    cases hitem : item.propertyFile? <;> simp [hitem]
  · rw [hdefinitions, h.definitions, List.filterMap_append]
    cases hitem : item.definition? <;> simp [hitem]
  · rw [henvironment, h.useEnvironment]
    by_cases hitem : item = .environment
    · simp [hitem]
    · simp [hitem, Ne.symm hitem]
  · intro text htext
    rcases List.mem_append.1 htext with htext | htext
    · exact h.separated text htext
    · exact hseparated text (List.mem_singleton.1 htext).symm

theorem Says.add (h : Says items line) (hadd : line.add item = .ok line') :
    Says (items ++ [item]) line' := by
  cases item with
  | environment =>
    obtain ⟨-, rfl⟩ := add_environment_iff.1 hadd
    exact h.snoc (by simp [Item.propertyFile?]) (by simp [Item.definition?]) (by simp) (by simp)
  | value field text =>
    cases field with
    | template =>
      obtain ⟨-, rfl⟩ := store_template_iff.1 (add_template_iff.1 hadd).2
      exact h.snoc (by simp [Item.propertyFile?]) (by simp [Item.definition?]) (by simp) (by simp)
    | propertyFile =>
      obtain ⟨-, rfl⟩ := store_propertyFile_iff.1 hadd
      exact h.snoc rfl (by simp [Item.definition?]) (by simp) (by simp)
    | definition =>
      obtain ⟨⟨key, value⟩, hdefinition, rfl⟩ := store_definition_iff.1 hadd
      obtain ⟨hkey, hvalue, hmem⟩ := parts_of_definition? hdefinition
      refine h.snoc (by simp [Item.propertyFile?]) ?_ (by simp) ?_
      · simp [Item.definition?, hkey, hvalue]
      · rintro _ heq
        cases heq
        exact hmem
    | output =>
      obtain ⟨-, -, rfl⟩ := store_output_iff.1 hadd
      exact h.snoc (by simp [Item.propertyFile?]) (by simp [Item.definition?]) (by simp) (by simp)

theorem Says.foldlM (h : Says items line) {more : List Item}
    (hadd : more.foldlM CommandLine.add line = .ok line') : Says (items ++ more) line' := by
  induction more generalizing items line with
  | nil =>
    obtain rfl := Except.ok.inj hadd
    rwa [List.append_nil]
  | cons item more ih =>
    rw [List.foldlM_cons] at hadd
    obtain ⟨next, hfirst, hrest⟩ := bind_eq_ok.1 hadd
    rw [List.append_cons]
    exact ih (h.add hfirst) hrest

end Fields

/-- How far reading is once arguments are read: all that they say is added to the line, but for the
last value if that is pending. -/
inductive Reached : List String → Progress → Prop
  | settled {line : CommandLine} {arguments : List String} {items : List Item} {only : Bool} :
      Spelled only arguments items → items.foldlM add {} = .ok line →
      Reached arguments ⟨line, none, line.template.isSome, only⟩
  | valued {line : CommandLine} {arguments : List String} {items : List Item} {only : Bool}
      {field : Field} {text : String} : field ≠ .template →
      Spelled only arguments (items ++ [.value field text]) → items.foldlM add {} = .ok line →
      Reached arguments ⟨line, some (field, some text), line.template.isSome, only⟩
  | template {line : CommandLine} {arguments : List String} {items : List Item} {only : Bool}
      {text : String} : line.template = none →
      Spelled only arguments (items ++ [.value .template text]) → items.foldlM add {} = .ok line →
      Reached arguments ⟨line, some (.template, some text), true, only⟩
  | named {line : CommandLine} {arguments : List String} {items : List Item} {name : String}
      {field : Field} : field ≠ .template → Named name field → Spelled false arguments items →
      items.foldlM add {} = .ok line →
      Reached (arguments ++ [name]) ⟨line, some (field, none), line.template.isSome, false⟩
  | unmet {line : CommandLine} {arguments : List String} {field : Field} {seen : Bool} :
      Reached arguments ⟨line, some (field, none), seen, true⟩

namespace Reached

open Progress

variable {p q : Progress} {attached : Option String}

theorem settle (h : Reached arguments p) (hsettle : p.settle = .ok q) :
    ∃ line items, q = ⟨line, none, line.template.isSome, p.operandsOnly⟩ ∧
      q.templateSeen = p.templateSeen ∧ Spelled p.operandsOnly arguments items ∧
      items.foldlM add {} = .ok line := by
  cases h with
  | settled hspelled hline =>
    obtain rfl := Except.ok.inj hsettle
    exact ⟨_, _, rfl, rfl, hspelled, hline⟩
  | @valued line _ items only field text hfield hspelled hline =>
    obtain ⟨line', hstore, heq⟩ := bind_eq_ok.1 hsettle
    obtain rfl := Except.ok.inj heq
    have htemplate := template_of_store hfield hstore
    refine ⟨line', _, by simp [htemplate], rfl, hspelled, ?_⟩
    exact foldlM_add_snoc hline (add_value_of_ne hfield ▸ hstore)
  | @template line _ items only text hnone hspelled hline =>
    obtain ⟨line', hstore, heq⟩ := bind_eq_ok.1 hsettle
    obtain rfl := Except.ok.inj heq
    have hadd := foldlM_add_snoc hline (add_template_iff.2 ⟨hnone, hstore⟩)
    obtain ⟨-, rfl⟩ := store_template_iff.1 hstore
    exact ⟨_, _, rfl, rfl, hspelled, hadd⟩
  | named => cases hsettle
  | unmet => cases hsettle

theorem readOperand (h : Reached arguments p) (hread : p.readOperand argument = .ok q)
    (hargument : p.operandsOnly = false → IsOperand argument) :
    Reached (arguments ++ [argument]) q := by
  unfold Progress.readOperand at hread
  cases hseen : p.templateSeen with
  | true => simp [hseen, throw, throwThe, MonadExceptOf.throw, bind, Except.bind] at hread
  | false =>
    rw [hseen] at hread
    obtain ⟨r, hsettle, heq⟩ := bind_eq_ok.1 hread
    obtain ⟨line, items, rfl, hr, hspelled, hline⟩ := h.settle hsettle
    obtain rfl := Except.ok.inj heq
    have hnone : line.template = none := by simpa [hseen] using hr
    refine .template hnone ?_ hline
    cases honly : p.operandsOnly with
    | true => exact (honly ▸ hspelled).operand argument
    | false => exact (honly ▸ hspelled).snoc (.template (hargument honly))

theorem readField (h : Reached arguments p) (honly : p.operandsOnly = false)
    (hfield : field ≠ .template) (hread : p.readField field attached = .ok q)
    (hnamed : attached = none → Named argument field)
    (hchunk : ∀ value, attached = some value → Chunk [argument] (.value field value)) :
    Reached (arguments ++ [argument]) q := by
  obtain ⟨r, hsettle, hread⟩ := bind_eq_ok.1 hread
  obtain ⟨line, items, rfl, -, hspelled, hline⟩ := h.settle hsettle
  rw [honly] at hspelled hread
  cases attached with
  | none =>
    obtain rfl := Except.ok.inj hread
    exact .named hfield (hnamed rfl) hspelled hline
  | some value =>
    obtain ⟨line', hstore, heq⟩ := bind_eq_ok.1 hread
    obtain rfl := Except.ok.inj heq
    have hadd := foldlM_add_snoc hline (add_value_of_ne hfield ▸ hstore)
    rw [← template_of_store hfield hstore]
    exact .settled (hspelled.snoc (hchunk value rfl)) hadd

theorem readEnv (h : Reached arguments p) (honly : p.operandsOnly = false)
    (hread : p.readEnv = .ok q) : Reached (arguments ++ ["--env"]) q := by
  obtain ⟨r, hsettle, hread⟩ := bind_eq_ok.1 hread
  obtain ⟨line, items, rfl, -, hspelled, hline⟩ := h.settle hsettle
  rw [honly] at hspelled hread
  cases henv : line.useEnvironment with
  | true => simp [henv, throw, throwThe, MonadExceptOf.throw, bind, Except.bind] at hread
  | false =>
    have hq : q = ⟨{ line with useEnvironment := true }, none, line.template.isSome, false⟩ := by
      simpa [henv, pure, Except.pure, bind, Except.bind, eq_comm] using hread
    rw [hq]
    exact .settled (hspelled.snoc .environment)
      (foldlM_add_snoc hline (add_environment_iff.2 ⟨henv, rfl⟩))

theorem stop_ne_ok {request : UsageError} : p.stop request ≠ .ok q := by
  intro h
  obtain ⟨_, -, h⟩ := bind_eq_ok.1 h
  cases h

end Reached

section Long

variable {option : List Char} {name : String}

theorem eq_of_long (hargument : argument.toList = '-' :: '-' :: option)
    (hname : String.ofList (option.takeWhile (· != '=')) = name) :
    ((option.dropWhile (· != '=')).tail?.map String.ofList = none → argument = "--" ++ name) ∧
      ∀ value, (option.dropWhile (· != '=')).tail?.map String.ofList = some value →
        argument = "--" ++ name ++ "=" ++ value := by
  have happend := List.takeWhile_append_dropWhile (p := (· != '=')) (l := option)
  have hname := congrArg String.toList hname
  rw [String.toList_ofList] at hname
  rw [hname] at happend
  cases hdrop : option.dropWhile (· != '=') with
  | nil =>
    refine ⟨fun _ => ?_, fun value hvalue => by simp at hvalue⟩
    rw [← String.toList_inj, hargument, ← happend, hdrop]
    simp
  | cons c rest =>
    have hc := List.head?_dropWhile_not (· != '=') option
    obtain rfl : c = '=' := by simpa [hdrop] using hc
    refine ⟨fun hvalue => by simp at hvalue, fun value hvalue => ?_⟩
    obtain rfl : String.ofList rest = value := by simpa using hvalue
    rw [← String.toList_inj, hargument, ← happend, hdrop]
    simp

namespace Reached

variable {p q : Progress}

theorem readField_long (h : Reached arguments p) (honly : p.operandsOnly = false)
    (hargument : argument.toList = '-' :: '-' :: option)
    (hname : String.ofList (option.takeWhile (· != '=')) = name)
    (hfield : field.longName? = some name)
    (hread : p.readField field ((option.dropWhile (· != '=')).tail?.map String.ofList) = .ok q) :
    Reached (arguments ++ [argument]) q := by
  obtain ⟨hnamed, hchunk⟩ := eq_of_long hargument hname
  refine h.readField honly ?_ hread ?_ ?_
  · rintro rfl
    cases hfield
  · intro hnone
    rw [hnamed hnone]
    exact .long hfield
  · intro value hvalue
    rw [hchunk value hvalue]
    exact .long hfield

theorem readLong (h : Reached arguments p) (honly : p.operandsOnly = false)
    (hargument : argument.toList = '-' :: '-' :: option) (hread : p.readLong option = .ok q) :
    Reached (arguments ++ [argument]) q := by
  unfold Progress.readLong at hread
  dsimp only at hread
  split at hread
  · exact h.readField_long honly hargument ‹_› rfl hread
  · exact h.readField_long honly hargument ‹_› rfl hread
  · exact h.readField_long honly hargument ‹_› rfl hread
  · rename_i hname
    split at hread
    · cases hread
    · rename_i hnone
      have heq := (eq_of_long hargument hname).1 (by simpa using hnone)
      rw [heq]
      exact h.readEnv honly hread
  · split at hread
    · cases hread
    · exact absurd hread stop_ne_ok
  · split at hread
    · cases hread
    · exact absurd hread stop_ne_ok
  · cases hread

end Reached

end Long

namespace Reached

variable {p q : Progress}

theorem readField_short {letter : Char} {rest : List Char} (h : Reached arguments p)
    (honly : p.operandsOnly = false) (hargument : argument.toList = '-' :: letter :: rest)
    (hfield : field.letter? = some letter)
    (hread : p.readField field (Progress.attachedValue? rest) = .ok q) :
    Reached (arguments ++ [argument]) q := by
  have heq : argument = String.ofList ('-' :: letter :: rest) := by
    rw [← hargument, String.ofList_toList]
  subst heq
  refine h.readField honly ?_ hread ?_ ?_
  · rintro rfl
    cases hfield
  · intro hnone
    unfold Progress.attachedValue? at hnone
    split at hnone
    · exact .short hfield
    · cases hnone
    · cases hnone
  · intro value hvalue
    unfold Progress.attachedValue? at hvalue
    split at hvalue
    · cases hvalue
    · rename_i rest
      obtain rfl := Option.some.inj hvalue
      have hchunk : Chunk [String.ofList ['-', letter, '='] ++ String.ofList rest] _ :=
        .shortEquals hfield
      rwa [← String.ofList_append] at hchunk
    · rename_i hnil hequals
      obtain rfl := Option.some.inj hvalue
      cases rest with
      | nil => exact absurd rfl hnil
      | cons c rest =>
        refine .short hfield ?_
        rintro rfl
        exact hequals rest rfl

theorem readShort {letter : Char} {rest : List Char} (h : Reached arguments p)
    (honly : p.operandsOnly = false) (hargument : argument.toList = '-' :: letter :: rest)
    (hread : p.readShort letter rest = .ok q) : Reached (arguments ++ [argument]) q := by
  unfold Progress.readShort at hread
  split at hread
  · exact h.readField_short honly hargument rfl hread
  · exact h.readField_short honly hargument rfl hread
  · exact h.readField_short honly hargument rfl hread
  · exact absurd hread stop_ne_ok
  · exact absurd hread stop_ne_ok
  · cases hread

theorem hyphens (h : Reached arguments p) (honly : p.operandsOnly = false) :
    Reached (arguments ++ ["--"]) { p with operandsOnly := true } := by
  cases h with
  | settled hspelled hline =>
    obtain rfl := honly
    exact .settled hspelled.hyphens hline
  | valued hfield hspelled hline =>
    obtain rfl := honly
    exact .valued hfield hspelled.hyphens hline
  | template hnone hspelled hline =>
    obtain rfl := honly
    exact .template hnone hspelled.hyphens hline
  | named => exact .unmet
  | unmet => cases honly

theorem readValue (h : Reached arguments p) (honly : p.operandsOnly = false)
    (hargument : IsOperand argument) (hread : p.readValue argument = .ok q) :
    Reached (arguments ++ [argument]) q := by
  cases h with
  | settled hspelled hline =>
    exact (Reached.settled hspelled hline).readOperand hread fun _ => hargument
  | valued hfield hspelled hline =>
    exact (Reached.valued hfield hspelled hline).readOperand hread fun _ => hargument
  | template hnone hspelled hline =>
    exact (Reached.template hnone hspelled hline).readOperand hread fun _ => hargument
  | named hfield hnamed hspelled hline =>
    obtain rfl := Except.ok.inj hread
    have hchunk := hspelled.snoc (.separate hnamed hargument)
    rw [List.append_cons] at hchunk
    exact .valued hfield hchunk hline
  | unmet => cases honly

theorem read (h : Reached arguments p) (hread : p.read argument = .ok q) :
    Reached (arguments ++ [argument]) q := by
  unfold Progress.read at hread
  split at hread
  · rename_i honly
    exact h.readOperand hread fun hfalse => absurd honly (by simp [hfalse])
  · rename_i honly
    have honly : p.operandsOnly = false := by simpa using honly
    split at hread
    · rename_i hargument
      obtain rfl : argument = "--" := String.toList_inj.1 hargument
      obtain rfl := Except.ok.inj hread
      exact h.hyphens honly
    · rename_i hargument
      exact h.readLong honly hargument hread
    · rename_i hargument
      exact h.readShort honly hargument hread
    · rename_i hargument
      exact h.readValue honly hargument hread

theorem foldlM (h : Reached arguments p) {more : List String}
    (hread : more.foldlM Progress.read p = .ok q) : Reached (arguments ++ more) q := by
  induction more generalizing arguments p with
  | nil =>
    obtain rfl := Except.ok.inj hread
    rwa [List.append_nil]
  | cons argument more ih =>
    rw [List.foldlM_cons] at hread
    obtain ⟨r, hfirst, hrest⟩ := bind_eq_ok.1 hread
    rw [List.append_cons]
    exact ih (h.read hfirst) hrest

end Reached

theorem exists_spelled_of_ofArguments (h : ofArguments arguments = .ok line) :
    ∃ only items, Spelled only arguments items ∧ Says items line := by
  obtain ⟨p, hread, h⟩ := bind_eq_ok.1 h
  obtain ⟨q, hsettle, h⟩ := bind_eq_ok.1 h
  obtain rfl := Except.ok.inj h
  have hstart : Reached [] {} := .settled .nil rfl
  have hreached := hstart.foldlM hread
  obtain ⟨line, items, rfl, -, hspelled, hline⟩ := hreached.settle hsettle
  exact ⟨_, items, hspelled, Says.nil.foldlM hline⟩

end PropertyTemplate.CommandLine
