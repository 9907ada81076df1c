import RiscMv.Kernel.List
import RiscMv.Kernel.Machine

/-!
# The lists of threads (`scheduler.c`)

A thread has a list node for each kind of list it can be in.  `Rings` holds the links of all these
nodes and of the sentinels, and the counts of the lists; `Rings.Hold` says which threads are in
which list.  The wait queues share one node of each thread, so a thread may be in one of them.

## Key results
- `Rings.Hold.pushBack`, `Rings.Hold.remove`, `Rings.Hold.popFront`: an operation on one list does
  to it what it should, and nothing to the others
-/

namespace RiscMv.Kernel

/-- The wait queues of the kernel. -/
inductive WaitQueue where
  | sleep
  | gate
  | block
  | keyboard
  | display
  deriving DecidableEq, Repr

/-- The lists that hold threads. -/
inductive ThreadList where
  | run
  | timeout
  | reap
  | wait (q : WaitQueue)
  deriving DecidableEq, Repr

/-- The nodes of a thread in these lists. -/
inductive ThreadNode where
  | runNode
  | timeoutNode
  | reapNode
  | waitNode
  deriving DecidableEq, Repr

/-- The node that links a thread into a list. -/
def ThreadList.node : ThreadList → ThreadNode
  | .run => .runNode
  | .timeout => .timeoutNode
  | .reap => .reapNode
  | .wait _ => .waitNode

/-- A `KernelListNode *`. -/
inductive NodeRef where
  | sentinel (l : ThreadList)
  | thread (n : ThreadNode) (t : ThreadRef)
  deriving DecidableEq, Repr

/-- The links of the nodes and the counts of the lists. -/
structure Rings where
  links : NodeRef → KernelListNode NodeRef
  count : ThreadList → Nat

namespace Rings

section

variable (r : Rings) (l : ThreadList) (t : ThreadRef)

/-- A list with its count. -/
def list : KernelList NodeRef := ⟨.sentinel l, r.count l⟩

/-- The links and the count after an operation on list `l`. -/
def store (result : KernelList NodeRef × (NodeRef → KernelListNode NodeRef)) : Rings :=
  ⟨result.2, Function.update r.count l result.1.count⟩

/-- `kernel_list_push_back` of a thread's node. -/
def pushBack : Rings := r.store l (kernelListPushBack (r.list l) (.thread l.node t) r.links)

/-- `kernel_list_remove` of a thread's node. -/
def remove : Rings := r.store l (kernelListRemove (r.list l) (.thread l.node t) r.links)

/-- `kernel_list_pop_front`. -/
def popFront : Rings := r.store l (kernelListPopFront (r.list l) r.links).2

end

/-- `kernel_list_init` of every list. -/
def init : Rings where
  links := [.run, .timeout, .reap, .wait .sleep, .wait .gate, .wait .block, .wait .keyboard,
    .wait .display].foldl (fun links l => (kernelListInit (.sentinel l) links).2)
      fun _ => ⟨none, none⟩
  count _ := 0

/-- The nodes of the threads `ts` in list `l`. -/
def nodes (l : ThreadList) (ts : List ThreadRef) : List NodeRef := ts.map (.thread l.node)

/-- The lists hold the threads `q`. -/
structure Hold (r : Rings) (q : ThreadList → List ThreadRef) : Prop where
  ring : ∀ l, Represents (r.list l) r.links (nodes l (q l))
  apart : ∀ l l', l ≠ l' → l.node = l'.node → ∀ t ∈ q l, t ∉ q l'

variable {r : Rings} {q : ThreadList → List ThreadRef} {l : ThreadList} {t : ThreadRef}

theorem mem_nodes {ts : List ThreadRef} {n : ThreadNode} :
    NodeRef.thread n t ∈ nodes l ts ↔ l.node = n ∧ t ∈ ts := by
  simp [nodes, and_comm]

theorem sentinel_not_mem {l' : ThreadList} (ts : List ThreadRef) : .sentinel l' ∉ nodes l ts := by
  simp [nodes]

/-- An operation on list `l` that touches only its nodes. -/
theorem Hold.store (h : r.Hold q) {ts : List ThreadRef}
    {result : KernelList NodeRef × (NodeRef → KernelListNode NodeRef)}
    (hres : Represents result.1 result.2 (nodes l ts)) (hs : result.1.sentinel = .sentinel l)
    (hts : ∀ u ∈ ts, u ∈ q l ∨ ∀ l', l'.node = l.node → u ∉ q l')
    (hother : ∀ d, d ∉ nodes l ts → d ∉ .sentinel l :: nodes l (q l) → result.2 d = r.links d) :
    (r.store l result).Hold (Function.update q l ts) := by
  have hapart : ∀ l', l' ≠ l → l'.node = l.node → ∀ u, u ∈ q l ∨ u ∈ ts → u ∉ q l' := by
    rintro l' hne hnode u (hu | hu)
    · exact h.apart l l' hne.symm hnode.symm u hu
    · rcases hts u hu with hu | hu
      · exact h.apart l l' hne.symm hnode.symm u hu
      · exact hu l' hnode
  refine ⟨fun l' => ?_, fun l₁ l₂ hne hnode u hu => ?_⟩
  · by_cases hl : l' = l
    · subst hl
      have hlist : (r.store l' result).list l' = result.1 := by simp [Rings.store, list, ← hs]
      rw [Function.update_self, hlist]
      exact hres
    · have hlist : (r.store l result).list l' = r.list l' := by simp [Rings.store, list, hl]
      rw [Function.update_of_ne hl, hlist]
      refine (h.ring l').congr fun d hd => hother d ?_ ?_ <;>
        rcases List.mem_cons.mp hd with rfl | hd
      · exact sentinel_not_mem ts
      · obtain ⟨u, hu, rfl⟩ := List.mem_map.mp hd
        exact fun hmem => hapart l' hl (mem_nodes.mp hmem).1.symm u (.inr (mem_nodes.mp hmem).2) hu
      · simpa [list, hl] using sentinel_not_mem (q l)
      · obtain ⟨u, hu, rfl⟩ := List.mem_map.mp hd
        simp only [List.mem_cons, reduceCtorEq, false_or]
        exact fun hmem => hapart l' hl (mem_nodes.mp hmem).1.symm u (.inl (mem_nodes.mp hmem).2) hu
  · by_cases h₁ : l₁ = l
    · subst h₁
      rw [Function.update_self] at hu
      rw [Function.update_of_ne hne.symm]
      exact hapart l₂ hne.symm hnode.symm u (.inr hu)
    · rw [Function.update_of_ne h₁] at hu
      by_cases h₂ : l₂ = l
      · subst h₂
        rw [Function.update_self]
        exact fun hmem => hapart l₁ h₁ hnode u (.inr hmem) hu
      · rw [Function.update_of_ne h₂]
        exact h.apart l₁ l₂ hne hnode u hu

theorem Hold.pushBack (h : r.Hold q) (ht : ∀ l', l'.node = l.node → t ∉ q l') :
    (r.pushBack l t).Hold (Function.update q l (q l ++ [t])) := by
  have hnot : NodeRef.thread l.node t ∉ nodes l (q l) := fun hmem =>
    ht l rfl (mem_nodes.mp hmem).2
  have hpush := kernelListPushBack_represents (n := .thread l.node t) (h.ring l)
    (by simpa [list] using hnot)
  refine h.store (by simpa [nodes] using hpush) rfl (fun u hu => ?_) fun d hd hd' => ?_
  · rcases List.mem_append.mp hu with hu | hu
    · exact .inl hu
    · rw [List.mem_singleton.mp hu]
      exact .inr ht
  · refine kernelListPushBack_other (h.ring l) NodeRef.noConfusion ?_ hd'
    rintro rfl
    exact hd (mem_nodes.mpr ⟨rfl, by simp⟩)

/-- Threads that are put at the back one after the other. -/
theorem Hold.pushAll (h : r.Hold q) (ts : List ThreadRef) (hnodup : ts.Nodup)
    (hts : ∀ t ∈ ts, ∀ l', l'.node = l.node → t ∉ q l') :
    (ts.foldl (·.pushBack l) r).Hold (Function.update q l (q l ++ ts)) := by
  induction ts generalizing r q with
  | nil => simpa using h
  | cons t ts ih =>
    obtain ⟨hnot, hnodup⟩ := List.nodup_cons.mp hnodup
    have hrest := ih (h.pushBack (hts t (by simp))) hnodup fun u hu l' hnode => by
      have hfree := hts u (by simp [hu]) l' hnode
      by_cases hl : l' = l
      · subst hl
        rw [Function.update_self, List.mem_append, List.mem_singleton]
        exact fun hmem => hmem.elim hfree fun heq => hnot (heq ▸ hu)
      · rwa [Function.update_of_ne hl]
    rwa [Function.update_idem, Function.update_self, List.append_assoc] at hrest

theorem Hold.remove (h : r.Hold q) (ht : t ∈ q l) :
    (r.remove l t).Hold (Function.update q l ((q l).erase t)) := by
  have hmem : NodeRef.thread l.node t ∈ nodes l (q l) := mem_nodes.mpr ⟨rfl, ht⟩
  have hremove := kernelListRemove_represents (h.ring l) hmem
  rw [nodes, ← List.map_erase fun _ _ heq => (NodeRef.thread.inj heq).2] at hremove
  refine h.store hremove ?_ (fun u hu => .inl (List.mem_of_mem_erase hu))
    fun d _ hd => kernelListRemove_other (h.ring l) hmem hd
  unfold kernelListRemove
  repeat' split
  all_goals rfl

theorem Hold.popFront {ts : List ThreadRef} (h : r.Hold q) (hq : q l = t :: ts) :
    (r.popFront l).Hold (Function.update q l ts) := by
  have hring := h.ring l
  rw [hq] at hring
  have hremove := h.remove (l := l) (t := t) (by simp [hq])
  rw [hq, List.erase_cons_head] at hremove
  rw [Rings.popFront, kernelListPopFront_cons hring]
  exact hremove

theorem Hold.count (h : r.Hold q) (l : ThreadList) : r.count l = (q l).length :=
  (h.ring l).count.trans (List.length_map _)

/-- A thread that is taken from the front and put at the back. -/
theorem Hold.rotate {ts : List ThreadRef} (h : r.Hold q) (hq : q l = t :: ts) :
    ((r.popFront l).pushBack l t).Hold (Function.update q l (ts ++ [t])) := by
  have hnodup : t ∉ ts := fun hmem => by
    have hnodup := (h.ring l).nodup
    rw [hq] at hnodup
    exact absurd (mem_nodes.mpr ⟨rfl, hmem⟩) (List.nodup_cons.mp (List.nodup_cons.mp hnodup).2).1
  have hpop := h.popFront hq
  have hpush := hpop.pushBack (l := l) (t := t) fun l' hnode => by
    by_cases hl : l' = l
    · rw [hl, Function.update_self]
      exact hnodup
    · rw [Function.update_of_ne hl]
      exact h.apart l l' (Ne.symm hl) hnode.symm t (by simp [hq])
  rwa [Function.update_idem, Function.update_self] at hpush

theorem init_hold : init.Hold fun _ => [] := by
  refine ⟨fun l => ⟨?_, by simp [nodes], rfl⟩, fun _ _ _ _ _ hu => absurd hu List.not_mem_nil⟩
  rcases l with _ | _ | _ | (_ | _ | _ | _ | _) <;> exact ⟨rfl, rfl⟩

end Rings

end RiscMv.Kernel
