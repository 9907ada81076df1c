import Mathlib.Algebra.Order.Group.Nat

/-!
# Linked chains

A singly linked list kept in a store is a function `next` and an element to start from.  `Path`
says which elements lie between two of them, `Chain` which elements are passed before one with
`stop` is met.
-/

namespace RiscMv

variable {α : Type} {next next' : α → α} {stop : α → Prop} {a b c x : α} {xs ys : List α}

/-- Following `next` from `a` passes `xs`, none of them with `stop`, and arrives at `b`. -/
def Path (next : α → α) (stop : α → Prop) : α → List α → α → Prop
  | a, [], b => a = b
  | a, x :: xs, b => a = x ∧ ¬ stop a ∧ Path next stop (next a) xs b

/-- Following `next` from `a` passes `xs` and then meets an element with `stop`. -/
def Chain (next : α → α) (stop : α → Prop) (a : α) (xs : List α) : Prop :=
  ∃ b, Path next stop a xs b ∧ stop b

theorem Path.append_iff : Path next stop a (xs ++ ys) c ↔
    ∃ b, Path next stop a xs b ∧ Path next stop b ys c := by
  induction xs generalizing a with
  | nil => simp [Path]
  | cons x xs ih => simp [Path, ih, and_assoc]

/-- Only the links of the elements passed matter. -/
theorem Path.congr (h : Path next stop a xs b) (hn : ∀ y ∈ xs, next' y = next y) :
    Path next' stop a xs b := by
  induction xs generalizing a with
  | nil => exact h
  | cons x xs ih =>
    obtain ⟨rfl, hstop, hrest⟩ := h
    refine ⟨rfl, hstop, ?_⟩
    rw [hn a List.mem_cons_self]
    exact ih hrest fun y hy => hn y (List.mem_cons_of_mem a hy)

/-- The link of the last element passed is replaced. -/
theorem Path.retarget [DecidableEq α] (h : Path next stop a (xs ++ [x]) b) (hx : x ∉ xs) :
    Path (Function.update next x c) stop a (xs ++ [x]) c := by
  obtain ⟨y, hxs, rfl, hstop, _⟩ := Path.append_iff.mp h
  refine Path.append_iff.mpr ⟨y, hxs.congr fun z hz => ?_, rfl, hstop, ?_⟩
  · refine Function.update_of_ne ?_ c next
    rintro rfl
    exact hx hz
  · simp [Path]

theorem Chain.nil_iff : Chain next stop a [] ↔ stop a := by simp [Chain, Path]

theorem Chain.cons_iff :
    Chain next stop a (x :: xs) ↔ a = x ∧ ¬ stop a ∧ Chain next stop (next a) xs := by
  simp [Chain, Path, and_assoc]

theorem Chain.append_iff : Chain next stop a (xs ++ ys) ↔
    ∃ b, Path next stop a xs b ∧ Chain next stop b ys := by
  simp only [Chain, Path.append_iff]
  constructor
  · rintro ⟨c, ⟨b, hb, hc⟩, hstop⟩
    exact ⟨b, hb, c, hc, hstop⟩
  · rintro ⟨b, hb, c, hc, hstop⟩
    exact ⟨c, ⟨b, hb, hc⟩, hstop⟩

theorem Chain.congr (h : Chain next stop a xs) (hn : ∀ y ∈ xs, next' y = next y) :
    Chain next' stop a xs := by
  obtain ⟨b, hb, hstop⟩ := h
  exact ⟨b, hb.congr hn, hstop⟩

end RiscMv
