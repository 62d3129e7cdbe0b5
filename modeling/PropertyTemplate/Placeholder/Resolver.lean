import PropertyTemplate.Placeholder.Policy
import PropertyTemplate.Template.Scan

/-! # Resolving placeholders

A placeholder is replaced by the value of its key, else by its default, else it stays as it is.
Each placeholder asks its store for one key, and a value is never scanned again.
-/

namespace PropertyTemplate

structure Resolver where
  store : Option Store
  policy : Policy

namespace Resolver

/-- A resolver with the policy that its store holds. -/
def ofStore (store : Option Store) : Recorded String Resolver := do
  return ⟨store, ← Policy.read store⟩

def withPolicy (store : Option Store) (policy : Policy) : Recorded String Resolver :=
  return ⟨store, policy⟩

def unresolved (content : String) : String := "$\x7b" ++ content ++ "\x7d"

/-- What stands for a placeholder with the given content. -/
def value (r : Resolver) (content : String) : Recorded String String :=
  match r.store with
  | none => return unresolved content
  | some store =>
    match r.policy.split content with
    | some (key, default) => return (← store.consult key).getD default
    | none => return (← store.consult content).getD (unresolved content)

def resolve (r : Resolver) (text : String) : Recorded String String :=
  String.ofList <$> Delimiters.placeholder.scanM
    (fun content => String.toList <$> r.value (String.ofList content)) text.toList

end Resolver

/-- The text with its placeholders resolved under the policy that the store holds. -/
def resolveText (store : Option Store) (text : String) : String :=
  ((Resolver.ofStore store).value.resolve text).value

end PropertyTemplate
