import PropertyTemplate.Environment
import PropertyTemplate.Resolution
import PropertyTemplate.Text.Occurrence

/-! # Arguments

The command line names a template, property files, definitions and an output file. An option takes
its value from the next argument, or from its own argument behind the name. A value is judged only
when the next option, template or the end is reached: an argument that cannot be understood at all
is reported first.

Arguments are texts: an argument of the system that is not UTF-8 is none here.
-/

namespace PropertyTemplate

structure CommandLine where
  template : Option String := none
  propertyFiles : List String := []
  definitions : List (String × String) := []
  useEnvironment : Bool := false
  output : Option String := none
  deriving DecidableEq, Repr

/-- Why the arguments do not say what to do, or that they ask for help or the version. -/
inductive UsageError
  | unknownArgument (argument : String)
  | invalidValue
  | badDefinition (text : String)
  | repeated
  | unneededValue
  | help
  | version
  deriving DecidableEq, Repr

/-- The version, and the first line that is said of a bad definition. All else is in the words of
the argument parser, which are not known here. -/
def UsageError.message : UsageError → String
  | badDefinition text =>
    "error: invalid value '" ++ text ++ "' for '--define <KEY=VALUE>': expected KEY=VALUE, got \x60"
      ++ text ++ "\x60\n"
  | version => "propsub 0.1.0\n"
  | unknownArgument _ | invalidValue | repeated | unneededValue | help => ""

namespace CommandLine

inductive Field
  | template
  | propertyFile
  | definition
  | output
  deriving DecidableEq, Repr

/-- Key and value of a definition, which are separated by the first equals sign. -/
def definition? (text : String) : Option (String × String) :=
  (Text.cut ['='] text.toList).map fun (key, value) => (String.ofList key, String.ofList value)

def nonEmpty (value : String) : Except UsageError String :=
  if value.isEmpty then .error .invalidValue else .ok value

def store (line : CommandLine) (field : Field) (value : String) :
    Except UsageError CommandLine := do
  match field with
  | .template => return { line with template := ← nonEmpty value }
  | .propertyFile => return { line with propertyFiles := line.propertyFiles ++ [← nonEmpty value] }
  | .definition =>
    match definition? value with
    | some definition => return { line with definitions := line.definitions ++ [definition] }
    | none => throw (.badDefinition value)
  | .output =>
    if line.output.isSome then throw .repeated
    return { line with output := some (← nonEmpty value) }

/-- A command line that is read as far as some argument. The value of the field that was met last
is not stored yet, and perhaps not even met. -/
structure Progress where
  line : CommandLine := {}
  pending : Option (Field × Option String) := none
  templateSeen : Bool := false
  operandsOnly : Bool := false
  deriving DecidableEq, Repr

namespace Progress

def settle (p : Progress) : Except UsageError Progress := do
  match p.pending with
  | none => return p
  | some (_, none) => throw .invalidValue
  | some (field, some value) =>
    return { p with line := ← p.line.store field value, pending := none }

/-- A field whose value, if there is one, is part of the same argument. -/
def readField (p : Progress) (field : Field) (attached : Option String) :
    Except UsageError Progress := do
  let p ← p.settle
  match attached with
  | none => return { p with pending := some (field, none) }
  | some value => return { p with line := ← p.line.store field value }

def readEnv (p : Progress) : Except UsageError Progress := do
  let p ← p.settle
  if p.line.useEnvironment then throw .repeated
  return { p with line := { p.line with useEnvironment := true } }

/-- A request that ends the reading, unless the value before it is in error. -/
def stop (p : Progress) (request : UsageError) : Except UsageError Progress := do
  let _ ← p.settle
  throw request

def readLong (p : Progress) (option : List Char) : Except UsageError Progress :=
  let name := String.ofList (option.takeWhile (· != '='))
  let attached := (option.dropWhile (· != '=')).tail?.map String.ofList
  let flag (read : Except UsageError Progress) : Except UsageError Progress :=
    if attached.isSome then .error .unneededValue else read
  match name with
  | "properties" => p.readField .propertyFile attached
  | "define" => p.readField .definition attached
  | "output" => p.readField .output attached
  | "env" => flag p.readEnv
  | "help" => flag (p.stop .help)
  | "version" => flag (p.stop .version)
  | _ => .error (.unknownArgument ("--" ++ name))

/-- The value behind a letter; an equals sign between them is not part of it. -/
def attachedValue? : List Char → Option String
  | [] => none
  | '=' :: value => some (String.ofList value)
  | value => some (String.ofList value)

def readShort (p : Progress) (letter : Char) (rest : List Char) : Except UsageError Progress :=
  match letter with
  | 'p' => p.readField .propertyFile (attachedValue? rest)
  | 'D' => p.readField .definition (attachedValue? rest)
  | 'o' => p.readField .output (attachedValue? rest)
  | 'h' => p.stop .help
  | 'V' => p.stop .version
  | c => .error (.unknownArgument (String.ofList ['-', c]))

/-- An argument that is the template. There is only one. -/
def readOperand (p : Progress) (argument : String) : Except UsageError Progress := do
  if p.templateSeen then throw (.unknownArgument argument)
  let p ← p.settle
  return { p with pending := some (.template, some argument), templateSeen := true }

/-- An argument that may be a value: that of the field before it, or the template. -/
def readValue (p : Progress) (argument : String) : Except UsageError Progress :=
  match p.pending with
  | some (field, none) => .ok { p with pending := some (field, some argument) }
  | _ => p.readOperand argument

/-- Reads an argument. A hyphen alone is a value, and after two hyphens all arguments are. -/
def read (p : Progress) (argument : String) : Except UsageError Progress :=
  if p.operandsOnly then p.readOperand argument
  else
    match argument.toList with
    | ['-', '-'] => .ok { p with operandsOnly := true }
    | '-' :: '-' :: option => p.readLong option
    | '-' :: letter :: rest => p.readShort letter rest
    | _ => p.readValue argument

end Progress

def ofArguments (arguments : List String) : Except UsageError CommandLine := do
  let progress ← arguments.foldlM Progress.read {}
  return (← progress.settle).line

def overridesName : String := "command-line"

def overrides (line : CommandLine) : Source := ⟨overridesName, .ofList line.definitions⟩

def request (line : CommandLine) (environment : Environment) (template : String) : Request where
  template := template
  propertyFiles := line.propertyFiles
  overrides := line.overrides
  fallback := if line.useEnvironment then some environment.source else none

end CommandLine

end PropertyTemplate
