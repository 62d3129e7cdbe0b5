/-! # Recorded computations

A value together with the requests made to find it, in order. Requests of a sequence of
computations are those of its members, one after another.
-/

namespace PropertyTemplate

structure Recorded (ρ α : Type) where
  value : α
  requests : List ρ
  deriving DecidableEq, Repr

namespace Recorded

variable {ρ α β : Type}

instance : Monad (Recorded ρ) where
  pure a := ⟨a, []⟩
  bind x f := ⟨(f x.value).value, x.requests ++ (f x.value).requests⟩

def request (r : ρ) (a : α) : Recorded ρ α := ⟨a, [r]⟩

@[simp] theorem value_pure (a : α) : (pure a : Recorded ρ α).value = a := rfl
@[simp] theorem requests_pure (a : α) : (pure a : Recorded ρ α).requests = [] := rfl
@[simp] theorem value_bind (x : Recorded ρ α) (f : α → Recorded ρ β) :
    (x >>= f).value = (f x.value).value := rfl
@[simp] theorem requests_bind (x : Recorded ρ α) (f : α → Recorded ρ β) :
    (x >>= f).requests = x.requests ++ (f x.value).requests := rfl
@[simp] theorem value_request (r : ρ) (a : α) : (request r a).value = a := rfl
@[simp] theorem requests_request (r : ρ) (a : α) : (request r a).requests = [r] := rfl

instance : LawfulMonad (Recorded ρ) :=
  LawfulMonad.mk' (Recorded ρ)
    (fun x => by cases x; simp [Functor.map])
    (fun _ _ => by simp [bind, pure])
    (fun _ _ _ => by simp [bind, List.append_assoc])

@[simp] theorem value_map (f : α → β) (x : Recorded ρ α) : (f <$> x).value = f x.value := rfl
@[simp] theorem requests_map (f : α → β) (x : Recorded ρ α) : (f <$> x).requests = x.requests := by
  rw [map_eq_pure_bind, requests_bind, requests_pure, List.append_nil]

theorem mapM_eq (f : α → Recorded ρ β) (xs : List α) :
    xs.mapM f = ⟨xs.map fun x => (f x).value, xs.flatMap fun x => (f x).requests⟩ := by
  induction xs with
  | nil => rfl
  | cons x xs ih =>
    rw [List.mapM_cons, ih]
    simp [bind, pure]

end Recorded

end PropertyTemplate
