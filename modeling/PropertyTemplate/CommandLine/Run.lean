import PropertyTemplate.CommandLine.Arguments
import PropertyTemplate.File.Tree

/-! # Runs

A run reads the template, resolves it, and writes the result. It reads all that it needs before it
writes anything. What it reads and writes belongs to a host, and so do the pages that the argument
parser shows.
-/

namespace PropertyTemplate

/-- What a run may do, by computations in `m`, and the page shown for a usage error. -/
structure Host (m : Type → Type) where
  fileContent : String → m (Except FileError ByteArray)
  replaceFile : String → String → m (Except FileError Unit)
  readInput : m (Except FileError ByteArray)
  environment : m Environment
  writeOutput : String → m (Except FileError Unit)
  page : UsageError → String

inductive InputError
  | unreadable (cause : FileError)
  | notUtf8 (cause : Text.Utf8Error)
  deriving DecidableEq, Repr

def InputError.message : InputError → String
  | unreadable cause => cause.message
  | notUtf8 cause => cause.message

inductive RunError
  | template (path : String) (cause : FileError)
  | input (cause : InputError)
  | resolution (cause : ResolutionError)
  | output (path : String) (cause : FileError)
  | standardOutput (cause : FileError)
  deriving DecidableEq, Repr

namespace RunError

def message : RunError → String
  | template path _ => "failed to read template " ++ path
  | input _ => "failed to read template from standard input"
  | resolution cause => cause.message
  | output path _ => "failed to write " ++ path
  | standardOutput cause => cause.message

/-- What a failure came from, where its message does not say it. -/
def cause? : RunError → Option String
  | template _ cause => some cause.message
  | input cause => some cause.message
  | resolution _ | standardOutput _ => none
  | output _ cause => some cause.message

def report (e : RunError) : String :=
  "Error: " ++ e.message ++
    (e.cause?.map fun cause => "\n\nCaused by:\n    " ++ cause).getD "" ++ "\n"

end RunError

namespace CommandLine

variable {m : Type → Type} [Monad m]

/-- The text of the template, which is read from standard input if it has no path. -/
def readTemplate (line : CommandLine) (host : Host m) : m (Except RunError String) := do
  match line.template with
  | some path =>
    match ← host.fileContent path with
    | .error cause => return .error (.template path cause)
    | .ok bytes =>
      match Text.decodeUtf8 bytes with
      | .error _ => return .error (.template path .notUtf8)
      | .ok text => return .ok text
  | none =>
    match ← host.readInput with
    | .error cause => return .error (.input (.unreadable cause))
    | .ok bytes =>
      match Text.decodeUtf8 bytes with
      | .error cause => return .error (.input (.notUtf8 cause))
      | .ok text => return .ok text

def resolve (line : CommandLine) (host : Host m) (template : String) :
    m (Except ResolutionError Resolution) := do
  let environment ← if line.useEnvironment then host.environment else pure ⟨[]⟩
  (line.request environment template).resolve (.ofFiles host.fileContent)

def writeResult (line : CommandLine) (host : Host m) (text : String) :
    m (Except RunError Unit) := do
  match line.output with
  | some path =>
    match ← host.replaceFile path text with
    | .error cause => return .error (.output path cause)
    | .ok () => return .ok ()
  | none =>
    match ← host.writeOutput text with
    | .error cause => return .error (.standardOutput cause)
    | .ok () => return .ok ()

def run (line : CommandLine) (host : Host m) : m (Except RunError Unit) := do
  match ← line.readTemplate host with
  | .error e => return .error e
  | .ok template =>
    match ← line.resolve host template with
    | .error e => return .error (.resolution e)
    | .ok resolution => line.writeResult host resolution.text

end CommandLine

/-- How a process ends: its exit code, and what it writes on the error stream. -/
structure Exit where
  code : UInt32 := 0
  report : String := ""
  deriving DecidableEq, Repr

namespace Exit

def ofUsage (page : String) : Exit := ⟨2, page⟩

def ofRun : Except RunError Unit → Exit
  | .ok () => {}
  | .error e => ⟨1, e.report⟩

end Exit

/-- What the program does with its arguments. Help and version are no failure, even if they cannot
be written. -/
def execute {m : Type → Type} [Monad m] (host : Host m) (arguments : List String) : m Exit := do
  match CommandLine.ofArguments arguments with
  | .ok line => return .ofRun (← line.run host)
  | .error .help =>
    let _ ← host.writeOutput (host.page .help)
    return {}
  | .error .version =>
    let _ ← host.writeOutput (host.page .version)
    return {}
  | .error e => return .ofUsage (host.page e)

end PropertyTemplate
