import PropertyTemplate.File.Error
import PropertyTemplate.Format
import PropertyTemplate.Property.Stack
import PropertyTemplate.Text.Utf8

/-! # Repositories

A repository loads property sources by their paths. Several are loaded in order, up to the first
that fails, and the earlier one has the higher precedence. Paths are texts, so each names its source
as it is, with no character replaced.
-/

namespace PropertyTemplate

inductive LoadError
  | notFound (path : String)
  | io (cause : FileError)
  | parse (path message : String)
  | unsupportedFormat (path : String)
  deriving DecidableEq, Repr

def LoadError.message : LoadError → String
  | notFound path => "Property file not found: " ++ path
  | io cause => "I/O error: " ++ cause.message
  | parse path message => "Failed to parse " ++ path ++ ": " ++ message
  | unsupportedFormat path => "Unsupported property file format: " ++ path

structure Repository (m : Type → Type) where
  load : String → m (Except LoadError Source)

namespace Repository

variable {m : Type → Type} [Monad m]

/-- The sources of the given paths, or why the first of them that fails was not loaded. -/
def loadSources (r : Repository m) : List String → m (Except LoadError (List Source))
  | [] => return .ok []
  | path :: paths => do
    match ← r.load path with
    | .error e => return .error e
    | .ok source =>
      match ← r.loadSources paths with
      | .error e => return .error e
      | .ok sources => return .ok (source :: sources)

def loadAll (r : Repository m) (paths : List String) : m (Except LoadError Stack) := do
  return (← r.loadSources paths).map Stack.mk

end Repository

/-- The property source that a file holds whose bytes were read, or were not. -/
def Source.ofFile (path : String) (format : Format) (content : Except FileError ByteArray) :
    Except LoadError Source :=
  match content with
  | .error .notFound => .error (.notFound path)
  | .error cause => .error (.io cause)
  | .ok bytes =>
    match Text.decodeUtf8 bytes with
    | .error _ => .error (.io .notUtf8)
    | .ok text =>
      match format.decode text with
      | .error cause => .error (.parse path cause.message)
      | .ok bindings =>
        .ok ⟨((Path.fileName? path).map String.ofList).getD path, bindings⟩

/-- The repository of property files. A file is read only if its name shows a format. -/
def Repository.ofFiles {m : Type → Type} [Monad m]
    (read : String → m (Except FileError ByteArray)) : Repository m where
  load path :=
    match Format.ofPath? path with
    | none => return .error (.unsupportedFormat path)
    | some format => return Source.ofFile path format (← read path)

end PropertyTemplate
