import PropertyTemplate.Property.Store
import PropertyTemplate.Text.Case
import PropertyTemplate.Text.Occurrence

/-! # Policy

The policy says whether the content of a placeholder may carry a default value, and what separates
the key from it. A store holds the policy under two keys of its own.
-/

namespace PropertyTemplate

structure Policy where
  defaultsEnabled : Bool := false
  separator : String := ":"
  deriving DecidableEq, Inhabited

namespace Policy

def enableKey : String := "propsub.parser.enable-default-value"

def separatorKey : String := "propsub.parser.default-value-separator"

/-- The policy held by a store. Nothing but the word `true`, in any case, enables defaults. -/
def read : Option Store → Recorded String Policy
  | none => return {}
  | some store => do
    let enabled ← store.consultOr enableKey "false"
    let separator ← store.consultOr separatorKey ":"
    return ⟨Text.eqIgnoringCase enabled "true", separator⟩

/-- Key and default of a content, if the policy finds a separator in it. -/
def split (p : Policy) (content : String) : Option (String × String) :=
  if p.defaultsEnabled then
    (Text.cut p.separator.toList content.toList).map fun (key, default) =>
      (String.ofList key, String.ofList default)
  else none

end Policy

end PropertyTemplate
