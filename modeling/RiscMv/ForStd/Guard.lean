import Mathlib.Logic.Basic

/-!
# Sequences of checks

A validator in `Except` is a sequence of checks, each of which may refuse its input.  The lemmas
say what its success means: every check has passed.
-/

namespace RiscMv

variable {ε α β : Type} {e : ε} {xs : List α}

/-- Refuses with `e` if the input is bad. -/
def failIf (bad : Prop) [Decidable bad] (e : ε) : Except ε Unit :=
  if bad then .error e else .ok ()

@[simp] theorem failIf_eq_ok {bad : Prop} [Decidable bad] {u : Unit} :
    failIf bad e = .ok u ↔ ¬ bad := by
  unfold failIf
  split <;> simp [*]

theorem bind_eq_ok {x : Except ε α} {f : α → Except ε β} {b : β} :
    (x >>= f) = .ok b ↔ ∃ a, x = .ok a ∧ f a = .ok b := by
  cases x <;> simp [bind, Except.bind]

@[simp] theorem pure_eq_ok {a b : α} : (pure a : Except ε α) = .ok b ↔ a = b := by
  simp [pure, Except.pure]

/-- A check and what follows it. -/
@[simp] theorem check_bind_eq_ok {x : Except ε Unit} {f : Unit → Except ε β} {b : β} :
    (x >>= f) = .ok b ↔ x = .ok () ∧ f () = .ok b := by
  rw [bind_eq_ok]
  constructor
  · rintro ⟨⟨⟩, h⟩
    exact h
  · intro h
    exact ⟨(), h⟩

/-- A loop of checks. -/
@[simp] theorem forM_eq_ok {check : α → Except ε Unit} {u : Unit} :
    xs.forM check = .ok u ↔ ∀ x ∈ xs, check x = .ok () := by
  induction xs with
  | nil => exact ⟨fun _ x hx => (by cases hx), fun _ => rfl⟩
  | cons x xs ih => rw [List.forM, check_bind_eq_ok, ih, List.forall_mem_cons]

/-- A loop of checks that also looks for something. -/
theorem foldlM_eq_ok {check : α → Except ε Unit} {hit : α → Bool} {found b : Bool} :
    xs.foldlM (fun found x => do check x; return found || hit x) found = .ok b ↔
      (∀ x ∈ xs, check x = .ok ()) ∧ (found || xs.any hit) = b := by
  induction xs generalizing found with
  | nil => simp
  | cons x xs ih =>
    rw [List.foldlM_cons, bind_eq_ok]
    simp only [check_bind_eq_ok, pure_eq_ok, and_assoc, exists_and_left, exists_eq_left', ih,
      List.forall_mem_cons, List.any_cons, Bool.or_assoc]

end RiscMv
