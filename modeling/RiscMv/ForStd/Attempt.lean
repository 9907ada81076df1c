import Mathlib.Logic.Basic

/-!
# Computations that may fail and keep their effects

`Attempt σ α` is a computation on a state `σ` that returns an `α` or fails; a failed one keeps what
it did to the state, as a C function does that returns early.
-/

namespace RiscMv

/-- A computation on a state that may fail.  A failed one keeps its effects. -/
def Attempt (σ α : Type) : Type := σ → Option α × σ

namespace Attempt

variable {σ α β : Type} {x : Attempt σ α} {f : α → Attempt σ β}

instance : Monad (Attempt σ) where
  pure a s := (some a, s)
  bind x f s :=
    match x s with
    | (some a, t) => f a t
    | (none, t) => (none, t)

instance : Alternative (Attempt σ) where
  failure s := (none, s)
  orElse x y s :=
    match x s with
    | (some a, t) => (some a, t)
    | (none, t) => y () t

instance : MonadStateOf σ (Attempt σ) where
  get s := (some s, s)
  set t _ := (some (), t)
  modifyGet f s := (some (f s).1, (f s).2)

@[simp] theorem pure_apply (a : α) (s : σ) : (pure a : Attempt σ α) s = (some a, s) := rfl

@[simp] theorem failure_apply (s : σ) : (failure : Attempt σ α) s = (none, s) := rfl

theorem bind_apply (x : Attempt σ α) (f : α → Attempt σ β) (s : σ) :
    (x >>= f) s = match x s with
      | (some a, t) => f a t
      | (none, t) => (none, t) := rfl

theorem bind_of_some {s t : σ} {a : α} (h : x s = (some a, t)) : (x >>= f) s = f a t := by
  rw [bind_apply, h]

/-- A sequence that succeeds is two successes. -/
theorem bind_eq_some {s u : σ} {b : β} (h : (x >>= f) s = (some b, u)) :
    ∃ a t, x s = (some a, t) ∧ f a t = (some b, u) := by
  rw [bind_apply] at h
  split at h
  · next a t hx => exact ⟨a, t, hx, h⟩
  · cases h

end Attempt

end RiscMv
