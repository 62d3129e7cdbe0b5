import PropertyTemplate.Placeholder.Resolver
import PropertyTemplate.Repository

/-! # Resolving a template

A template is resolved against property files. Overrides have precedence over all files and a
fallback has none; without any source the template has no store at all.
-/

namespace PropertyTemplate

structure Request where
  template : String
  propertyFiles : List String := []
  overrides : Source := .empty ""
  fallback : Option Source := none

/-- A resolved template, and the names of its sources from the highest precedence down. -/
structure Resolution where
  text : String
  sources : List String
  deriving DecidableEq, Repr

inductive ResolutionError
  | notFound (path : String)
  | io (text : String)
  | parse (text : String)
  deriving DecidableEq, Repr

namespace ResolutionError

def message : ResolutionError → String
  | notFound path => "Property file not found: " ++ path
  | io text => "Failed to read property file: " ++ text
  | parse text => "Failed to parse property file: " ++ text

def ofLoad : LoadError → ResolutionError
  | .notFound path => .notFound path
  | .io cause => .io cause.message
  | e => .parse e.message

end ResolutionError

namespace Request

/-- The sources of a request, given those of its files. Overrides that bind nothing are none. -/
def stack (r : Request) (files : Stack) : Stack :=
  let stack := if r.overrides.isEmpty then files else files.pushFront r.overrides
  r.fallback.elim stack stack.push

def answer (r : Request) (files : Stack) : Resolution :=
  let stack := r.stack files
  ⟨resolveText (if stack.isEmpty then none else some stack.store) r.template, stack.names⟩

def resolve {m : Type → Type} [Monad m] (r : Request) (repository : Repository m) :
    m (Except ResolutionError Resolution) := do
  match ← repository.loadAll r.propertyFiles with
  | .error e => return .error (.ofLoad e)
  | .ok files => return .ok (r.answer files)

end Request

end PropertyTemplate
