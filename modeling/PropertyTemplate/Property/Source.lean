import PropertyTemplate.Property.Store

/-! # Sources

A source is a named set of bindings, such as one property file. Two sources are equal when their
names are, and they bind the same keys to the same values.
-/

namespace PropertyTemplate

/-- Bindings and the name of the place they come from. -/
structure Source where
  name : String
  bindings : Bindings
  deriving DecidableEq, Inhabited

namespace Source

def empty (name : String) : Source := ⟨name, .empty⟩

/-- A source without a name, of which a later pair wins. -/
def ofPairs (pairs : List (String × String)) : Source := ⟨"", .ofList pairs⟩

def get? (s : Source) (key : String) : Option String := s.bindings.get? key

/-- The source after a write, and the value that the write replaced. -/
def set (s : Source) (key value : String) : Option String × Source :=
  (s.get? key, { s with bindings := s.bindings.insert key value })

def extend (s : Source) (pairs : List (String × String)) : Source :=
  { s with bindings := s.bindings.insertMany pairs }

def size (s : Source) : Nat := s.bindings.size

def isEmpty (s : Source) : Bool := s.bindings.isEmpty

def store (s : Source) : Store := ⟨s.get?⟩

end Source

end PropertyTemplate
