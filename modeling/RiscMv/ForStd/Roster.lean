import Mathlib.Data.List.Nodup

/-!
# Lists of the elements with a property

`Roster l P` says that the list `l` holds exactly the elements with property `P`, each of them
once: what a queue and the flag "is queued" of its elements have to keep in step.
-/

namespace RiscMv

variable {α : Type} {l l' : List α} {P Q : α → Prop} {a : α}

/-- `l` holds exactly the elements with property `P`, each of them once. -/
structure Roster (l : List α) (P : α → Prop) : Prop where
  nodup : l.Nodup
  mem : ∀ a, a ∈ l ↔ P a

theorem Roster.congr (h : Roster l P) (hPQ : ∀ b, Q b ↔ P b) : Roster l Q :=
  ⟨h.nodup, fun b => (h.mem b).trans (hPQ b).symm⟩

theorem Roster.perm (h : Roster l P) (hl : l'.Perm l) : Roster l' P :=
  ⟨hl.nodup_iff.mpr h.nodup, fun b => hl.mem_iff.trans (h.mem b)⟩

/-- An element that gets the property is put at the end. -/
theorem Roster.push (h : Roster l P) (ha : ¬ P a) (hQ : ∀ b, Q b ↔ b = a ∨ P b) :
    Roster (l ++ [a]) Q where
  nodup := by
    have hal : a ∉ l := fun hm => ha ((h.mem a).mp hm)
    exact List.nodup_append.mpr ⟨h.nodup, List.nodup_singleton a, fun b hb c hc hbc =>
      hal (List.mem_singleton.mp hc ▸ hbc ▸ hb)⟩
  mem b := by
    rw [List.mem_append, List.mem_singleton, hQ b, h.mem b]
    exact or_comm

/-- An element that loses the property is taken out. -/
theorem Roster.erase [DecidableEq α] (h : Roster l P) (hQ : ∀ b, Q b ↔ b ≠ a ∧ P b) :
    Roster (l.erase a) Q where
  nodup := h.nodup.erase a
  mem b := by rw [h.nodup.mem_erase_iff, hQ b, h.mem b]

/-- What happens to a list and to the property of the element `a` in one operation on a queue:
    nothing, `a` is put at the end, or `a` is taken out. -/
inductive Moved [DecidableEq α] (a : α) (l : List α) (P Q : Prop) : List α → Prop
  | stay (h : Q ↔ P) : Moved a l P Q l
  | push (hP : ¬ P) (hQ : Q) : Moved a l P Q (l ++ [a])
  | erase (hQ : ¬ Q) : Moved a l P Q (l.erase a)

/-- An operation that concerns one element keeps the roster. -/
theorem Roster.moved [DecidableEq α] (h : Roster l P) (hne : ∀ b, b ≠ a → (Q b ↔ P b))
    (hm : Moved a l (P a) (Q a) l') : Roster l' Q := by
  cases hm with
  | stay hQP =>
    refine h.congr fun b => ?_
    by_cases hb : b = a
    · exact hb ▸ hQP
    · exact hne b hb
  | push hP hQ =>
    refine h.push hP fun b => ?_
    by_cases hb : b = a
    · exact ⟨fun _ => .inl hb, fun _ => hb ▸ hQ⟩
    · exact (hne b hb).trans ⟨.inr, fun h => h.resolve_left hb⟩
  | erase hQ =>
    refine h.erase fun b => ?_
    by_cases hb : b = a
    · exact ⟨fun h => absurd (hb ▸ h) hQ, fun h => absurd hb h.1⟩
    · exact (hne b hb).trans ⟨fun h => ⟨hb, h⟩, And.right⟩

/-- The elements of an empty roster. -/
theorem Roster.not_of_nil (h : Roster [] P) (a : α) : ¬ P a :=
  fun ha => List.not_mem_nil ((h.mem a).mpr ha)

end RiscMv
