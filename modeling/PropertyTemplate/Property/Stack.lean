import PropertyTemplate.Property.Source

/-! # Stacks of sources

The sources of a stack are listed from the highest precedence to the lowest: a key has its value in
the first source that binds it.
-/

namespace PropertyTemplate

structure Stack where
  sources : List Source
  deriving DecidableEq, Inhabited

namespace Stack

def empty : Stack := ⟨[]⟩

def push (s : Stack) (source : Source) : Stack := ⟨s.sources ++ [source]⟩

def pushFront (s : Stack) (source : Source) : Stack := ⟨source :: s.sources⟩

def get? (s : Stack) (key : String) : Option String := s.sources.findSome? (·.get? key)

def names (s : Stack) : List String := s.sources.map (·.name)

def size (s : Stack) : Nat := s.sources.length

def isEmpty (s : Stack) : Bool := s.sources.isEmpty

/-- The keys that some source binds, each once, in increasing order. -/
def keys (s : Stack) : List String :=
  ((s.sources.flatMap (·.bindings.keys)).mergeSort fun a b => decide (a ≤ b)).eraseReps

def store (s : Stack) : Store := ⟨s.get?⟩

end Stack

end PropertyTemplate
