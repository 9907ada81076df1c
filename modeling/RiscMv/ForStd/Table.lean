import Mathlib.Logic.Function.Basic
import Mathlib.Logic.Pairwise

/-!
# Tables with one entry replaced

What has to be shown of the new entry when an invariant of a table is about its entries, or about
each two of them.  For invariants about single entries there is `Function.forall_update_iff`.
-/

namespace RiscMv

variable {ι α : Type} [DecidableEq ι] {R : α → α → Prop} {f : ι → α} {i : ι} {v : α}

/-- A symmetric relation holds between the entries of a table if it did before and the new entry is
    related to the others. -/
theorem pairwise_update (h : Pairwise fun j k => R (f j) (f k)) (hsymm : ∀ {a b}, R a b → R b a)
    (hv : ∀ j, j ≠ i → R v (f j)) :
    Pairwise fun j k => R (Function.update f i v j) (Function.update f i v k) := by
  intro j k hjk
  by_cases hj : j = i
  · subst hj
    rw [Function.update_self, Function.update_of_ne hjk.symm]
    exact hv k hjk.symm
  · rw [Function.update_of_ne hj]
    by_cases hk : k = i
    · subst hk
      rw [Function.update_self]
      exact hsymm (hv j hj)
    · rw [Function.update_of_ne hk]
      exact h hjk

end RiscMv
