import Mathlib.Algebra.Order.Group.Nat

/-!
# Runs of a labelled transition function

A system is a partial transition function `step : σ → α → Option σ`.  `Run step ok s t`
says that `t` is reached from `s` by steps whose state and label satisfy the side
condition `ok`; with `ok := fun _ _ => True` these are all runs.  Invariants are proved
once per step and lifted by `Run.invariant`.
-/

namespace RiscMv

variable {σ α : Type}

/-- `t` is reached from `s` by steps of `step`, each taken in a state and with a label
    that satisfy `ok`. -/
inductive Run (step : σ → α → Option σ) (ok : σ → α → Prop) (s : σ) : σ → Prop
  | refl : Run step ok s s
  | tail {t u : σ} {a : α} (h : Run step ok s t) (hok : ok t a) (hstep : step t a = some u) :
      Run step ok s u

variable {step : σ → α → Option σ} {ok ok' : σ → α → Prop} {s t : σ}

/-- A predicate that holds at the start and is kept by every admissible step holds in
    every state of a run. -/
theorem Run.invariant {I : σ → Prop} (h : Run step ok s t) (hs : I s)
    (hstep : ∀ u a v, I u → ok u a → step u a = some v → I v) : I t := by
  induction h with
  | refl => exact hs
  | tail _ hok hst ih => exact hstep _ _ _ ih hok hst

/-- Weakening of the side condition, using an invariant of the stronger runs. -/
theorem Run.mono_of_invariant {I : σ → Prop} (h : Run step ok s t) (hs : I s)
    (hstep : ∀ u a v, I u → ok u a → step u a = some v → I v)
    (himp : ∀ u a, I u → ok u a → ok' u a) : Run step ok' s t := by
  induction h with
  | refl => exact .refl
  | tail h hok hst ih => exact .tail ih (himp _ _ (h.invariant hs hstep) hok) hst

/-- Executes a list of labels, stopping with `none` at the first impossible one. -/
def runList (step : σ → α → Option σ) (s : σ) : List α → Option σ
  | [] => some s
  | a :: as => (step s a).bind fun t => runList step t as

/-- A run goes on with a list of labels whose side condition is checked before each step. -/
theorem Run.guarded {g : σ → α → Bool} {u : σ} (h : Run step ok s t)
    (hguard : ∀ v a, Run step ok s v → g v a = true → ok v a) (as : List α)
    (hrun : runList (fun v a => if g v a then step v a else none) t as = some u) :
    Run step ok s u := by
  induction as generalizing t with
  | nil =>
    cases hrun
    exact h
  | cons a as ih =>
    obtain ⟨v, hv, hrest⟩ := Option.bind_eq_some_iff.mp hrun
    dsimp only at hv
    split at hv
    · next hg => exact ih (h.tail (hguard t a h hg) hv) hrest
    · cases hv

/-- An executed list of labels is a run. -/
theorem Run.of_runList {as : List α} (h : runList step s as = some t) :
    Run step (fun _ _ => True) s t :=
  Run.refl.guarded (g := fun _ _ => true) (fun _ _ _ _ => trivial) as h

/-- A run that goes on to a state passing the check `f`. -/
theorem Run.exists_guarded {g : σ → α → Bool} (h : Run step ok s t)
    (hguard : ∀ v a, Run step ok s v → g v a = true → ok v a) (as : List α) (f : σ → Bool)
    (hf : (runList (fun v a => if g v a then step v a else none) t as).any f = true) :
    ∃ u, Run step ok s u ∧ f u = true := by
  obtain ⟨u, hu, hf⟩ := Option.any_eq_true _ _ |>.mp hf
  exact ⟨u, h.guarded hguard as hu, hf⟩

/-- A list of labels that can be executed to a state passing the check `f`. -/
theorem Run.exists_of_runList (step : σ → α → Option σ) (s : σ) (as : List α) (f : σ → Bool)
    (h : (runList step s as).any f = true) :
    ∃ t, Run step (fun _ _ => True) s t ∧ f t = true :=
  Run.refl.exists_guarded (g := fun _ _ => true) (fun _ _ _ _ => trivial) as f h

/-- The same for runs with a side condition. -/
theorem Run.exists_of_guarded (step : σ → α → Option σ) (guard : σ → α → Bool) (s : σ)
    (as : List α) (f : σ → Bool)
    (h : (runList (fun u a => if guard u a then step u a else none) s as).any f = true) :
    ∃ t, Run step (fun u a => guard u a = true) s t ∧ f t = true :=
  Run.refl.exists_guarded (fun _ _ _ => id) as f h

end RiscMv
