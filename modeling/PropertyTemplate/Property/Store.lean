import PropertyTemplate.Property.Bindings
import PropertyTemplate.Recorded

/-! # Stores

Anything that answers a key with a value or with nothing is a store. A key bound to the empty value
is bound.
-/

namespace PropertyTemplate

structure Store where
  get? : String → Option String

namespace Store

variable (s : Store)

def getD (key fallback : String) : String := (s.get? key).getD fallback

def contains (key : String) : Bool := (s.get? key).isSome

def consult (key : String) : Recorded String (Option String) := .request key (s.get? key)

def consultOr (key fallback : String) : Recorded String String := .request key (s.getD key fallback)

variable {s}

theorem getD_eq_iff {key fallback value : String} : s.getD key fallback = value ↔
    s.get? key = some value ∨ s.get? key = none ∧ value = fallback := by
  unfold getD
  cases s.get? key with
  | none => simp [eq_comm]
  | some bound => simp

end Store

def Bindings.store (b : Bindings) : Store := ⟨b.get?⟩

end PropertyTemplate
