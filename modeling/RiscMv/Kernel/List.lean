import Mathlib.Data.List.Nodup
import Mathlib.Logic.Function.Basic

/-!
# Intrusive lists (`runtime.c`)

`KernelList` is a ring of nodes through a sentinel, with a count; `Represents` says when a ring
stands for a list.  Each operation of the ring does to that list what its name says and keeps the
count equal to the length, as long as a node is only pushed when it is not in the list and only
removed when it is, and changes no node of another ring.

## Key results
- `kernelListPushBack_represents`, `kernelListRemove_represents`, `kernelListPopFront_cons`
- `kernelListPushBack_other`, `kernelListRemove_other`: rings apart from the one that changes
-/

namespace RiscMv.Kernel

/-- `KernelListNode`; a null pointer is `none`. -/
structure KernelListNode (α : Type) where
  previous : Option α
  next : Option α

/-- `KernelList`, by the address of its sentinel. -/
structure KernelList (α : Type) where
  sentinel : α
  count : Nat

variable {α : Type}

/-! ## Chains of nodes -/

/-- The nodes `xs` lie between `a` and `b`, linked both ways. -/
def Linked (h : α → KernelListNode α) : α → List α → α → Prop
  | a, [], b => (h a).next = some b ∧ (h b).previous = some a
  | a, x :: xs, b => (h a).next = some x ∧ (h x).previous = some a ∧ Linked h x xs b

variable {h h' : α → KernelListNode α} {a b c d n : α} {xs ys : List α} {l : KernelList α}

theorem Linked.append_iff :
    Linked h a (xs ++ c :: ys) b ↔ Linked h a xs c ∧ Linked h c ys b := by
  induction xs generalizing a with
  | nil => simp [Linked, and_assoc]
  | cons x xs ih => simp [Linked, ih, and_assoc]

/-- Only the links of the chain matter. -/
theorem Linked.congr (hl : Linked h a xs b) (hn : ∀ d ∈ a :: xs, (h' d).next = (h d).next)
    (hp : ∀ d ∈ b :: xs, (h' d).previous = (h d).previous) : Linked h' a xs b := by
  induction xs generalizing a with
  | nil => exact ⟨(hn a (by simp)).trans hl.1, (hp b (by simp)).trans hl.2⟩
  | cons x xs ih =>
    obtain ⟨hnext, hprev, hrest⟩ := hl
    refine ⟨(hn a (by simp)).trans hnext, (hp x (by simp)).trans hprev,
      ih hrest (fun d hd => hn d (List.mem_cons_of_mem a hd)) fun d hd => hp d ?_⟩
    rcases List.mem_cons.mp hd with rfl | hd
    · exact List.mem_cons_self
    · exact List.mem_cons_of_mem b (List.mem_cons_of_mem x hd)

/-- The last node of a chain, or its start if it is empty. -/
def lastNode (a : α) (xs : List α) : α := (a :: xs).getLast (by simp)

theorem lastNode_cons (a x : α) (xs : List α) : lastNode a (x :: xs) = lastNode x xs := by
  simp [lastNode]

theorem lastNode_mem (a : α) (xs : List α) : lastNode a xs ∈ a :: xs := List.getLast_mem _

theorem Linked.previous_end (hl : Linked h a xs b) : (h b).previous = some (lastNode a xs) := by
  induction xs generalizing a with
  | nil => exact hl.2
  | cons x xs ih => rw [lastNode_cons]; exact ih hl.2.2

/-- The end of a chain is replaced. -/
theorem Linked.retarget (hl : Linked h a xs b) (hnodup : (a :: xs).Nodup)
    (hlast : (h' (lastNode a xs)).next = some c) (hc : (h' c).previous = some (lastNode a xs))
    (hn : ∀ d ∈ a :: xs, d ≠ lastNode a xs → (h' d).next = (h d).next)
    (hp : ∀ d ∈ xs, (h' d).previous = (h d).previous) : Linked h' a xs c := by
  induction xs generalizing a with
  | nil => exact ⟨hlast, hc⟩
  | cons x xs ih =>
    obtain ⟨hnext, hprev, hrest⟩ := hl
    rw [lastNode_cons] at hlast hc hn
    obtain ⟨ha, hnodup⟩ := List.nodup_cons.mp hnodup
    have hne : a ≠ lastNode x xs := fun heq => ha (heq ▸ lastNode_mem x xs)
    exact ⟨(hn a List.mem_cons_self hne).trans hnext,
      (hp x List.mem_cons_self).trans hprev,
      ih hrest hnodup hlast hc (fun d hd => hn d (List.mem_cons_of_mem a hd))
        fun d hd => hp d (List.mem_cons_of_mem x hd)⟩

/-- The ring of `l` holds the nodes `xs`. -/
structure Represents (l : KernelList α) (h : α → KernelListNode α) (xs : List α) : Prop where
  linked : Linked h l.sentinel xs l.sentinel
  nodup : (l.sentinel :: xs).Nodup
  count : l.count = xs.length

/-- Only the links of the ring matter. -/
theorem Represents.congr (hr : Represents l h xs)
    (hd : ∀ d ∈ l.sentinel :: xs, h' d = h d) : Represents l h' xs :=
  ⟨hr.linked.congr (fun d hx => by rw [hd d hx]) fun d hx => by rw [hd d hx], hr.nodup, hr.count⟩

/-- The neighbours of a node of the ring are in the ring. -/
theorem Represents.neighbours (hr : Represents l h xs) (hn : n ∈ xs) :
    (∀ p, (h n).previous = some p → p ∈ l.sentinel :: xs) ∧
      ∀ m, (h n).next = some m → m ∈ l.sentinel :: xs := by
  obtain ⟨ys, zs, rfl⟩ := List.append_of_mem hn
  obtain ⟨hfirst, hsecond⟩ := Linked.append_iff.mp hr.linked
  refine ⟨fun p hp => ?_, fun m hm => ?_⟩
  · obtain rfl := Option.some.inj (hfirst.previous_end.symm.trans hp)
    rw [← List.cons_append]
    exact List.mem_append_left _ (lastNode_mem _ ys)
  · cases zs with
    | nil =>
      obtain rfl := Option.some.inj (hsecond.1.symm.trans hm)
      exact List.mem_cons_self
    | cons z zs =>
      obtain rfl := Option.some.inj (hsecond.1.symm.trans hm)
      simp

/-! ## Operations -/

variable [DecidableEq α]

/-- Stores `node->previous`. -/
def setPrevious (a : α) (p : Option α) (h : α → KernelListNode α) : α → KernelListNode α :=
  Function.update h a { h a with previous := p }

/-- Stores `node->next`. -/
def setNext (a : α) (n : Option α) (h : α → KernelListNode α) : α → KernelListNode α :=
  Function.update h a { h a with next := n }

@[simp] theorem setPrevious_next (a d : α) (p : Option α) (h : α → KernelListNode α) :
    (setPrevious a p h d).next = (h d).next := by
  by_cases hd : d = a <;> simp [setPrevious, hd]

@[simp] theorem setPrevious_previous (a d : α) (p : Option α) (h : α → KernelListNode α) :
    (setPrevious a p h d).previous = if d = a then p else (h d).previous := by
  by_cases hd : d = a <;> simp [setPrevious, hd]

@[simp] theorem setNext_next (a d : α) (n : Option α) (h : α → KernelListNode α) :
    (setNext a n h d).next = if d = a then n else (h d).next := by
  by_cases hd : d = a <;> simp [setNext, hd]

@[simp] theorem setNext_previous (a d : α) (n : Option α) (h : α → KernelListNode α) :
    (setNext a n h d).previous = (h d).previous := by
  by_cases hd : d = a <;> simp [setNext, hd]

/-- `kernel_list_init`. -/
def kernelListInit (sentinel : α) (h : α → KernelListNode α) :
    KernelList α × (α → KernelListNode α) :=
  (⟨sentinel, 0⟩, setNext sentinel (some sentinel) (setPrevious sentinel (some sentinel) h))

/-- `kernel_list_push_back`; in a ring `sentinel.previous` is never null. -/
def kernelListPushBack (l : KernelList α) (node : α) (h : α → KernelListNode α) :
    KernelList α × (α → KernelListNode α) :=
  let h := setPrevious node (h l.sentinel).previous h
  let h := setNext node (some l.sentinel) h
  let h := match (h l.sentinel).previous with
    | some last => setNext last (some node) h
    | none => h
  ({ l with count := l.count + 1 }, setPrevious l.sentinel (some node) h)

/-- `kernel_list_remove`. -/
def kernelListRemove (l : KernelList α) (node : α) (h : α → KernelListNode α) :
    KernelList α × (α → KernelListNode α) :=
  match (h node).previous, (h node).next with
  | some p, some n =>
    if node = l.sentinel ∨ l.count = 0 then (l, h)
    else
      let h := setPrevious n (some p) (setNext p (some n) h)
      ({ l with count := l.count - 1 }, setNext node none (setPrevious node none h))
  | _, _ => (l, h)

/-- `kernel_list_pop_front`. -/
def kernelListPopFront (l : KernelList α) (h : α → KernelListNode α) :
    Option α × KernelList α × (α → KernelListNode α) :=
  if l.count = 0 then (none, l, h)
  else match (h l.sentinel).next with
    | some node => (some node, kernelListRemove l node h)
    | none => (none, l, h)

theorem kernelListPushBack_represents (hr : Represents l h xs) (hn : n ∉ l.sentinel :: xs) :
    Represents (kernelListPushBack l n h).1 (kernelListPushBack l n h).2 (xs ++ [n]) := by
  have hlast := hr.linked.previous_end
  have hmem := lastNode_mem l.sentinel xs
  obtain ⟨hs, _⟩ := List.nodup_cons.mp hr.nodup
  have hne : ∀ d ∈ l.sentinel :: xs, d ≠ n := fun d hd heq => hn (heq ▸ hd)
  have hself : l.sentinel ≠ n := hne _ List.mem_cons_self
  refine ⟨?_, ?_, by simp [kernelListPushBack, hr.count]⟩
  · rw [Linked.append_iff]
    have hprev : (setNext n (some l.sentinel) (setPrevious n (h l.sentinel).previous h)
        l.sentinel).previous = some (lastNode l.sentinel xs) := by
      simp [hself, hlast]
    simp only [kernelListPushBack, hprev]
    refine ⟨hr.linked.retarget hr.nodup ?_ ?_ (fun d hd hdl => ?_) fun d hd => ?_, ?_, ?_⟩
    · simp
    · simp [Ne.symm hself, hlast]
    · simp [hdl, hne d hd]
    · have hds : d ≠ l.sentinel := fun heq => hs (heq ▸ hd)
      simp [hds, hne d (List.mem_cons_of_mem _ hd)]
    · simp [Ne.symm (hne _ hmem)]
    · simp
  · simp only [kernelListPushBack]
    rw [← List.cons_append]
    exact hr.nodup.append (List.nodup_singleton n) (List.disjoint_singleton.mpr hn)

theorem kernelListRemove_represents (hr : Represents l h xs) (hn : n ∈ xs) :
    Represents (kernelListRemove l n h).1 (kernelListRemove l n h).2 (xs.erase n) := by
  have hcount : l.count ≠ 0 := by
    rw [hr.count]
    exact Nat.pos_iff_ne_zero.mp (List.length_pos_of_mem hn)
  have hself : n ≠ l.sentinel := fun heq => (List.nodup_cons.mp hr.nodup).1 (heq ▸ hn)
  have hnodup : (l.sentinel :: xs.erase n).Nodup :=
    hr.nodup.sublist (List.erase_sublist.cons_cons _)
  obtain ⟨ys, zs, rfl⟩ := List.append_of_mem hn
  obtain ⟨hfirst, hsecond⟩ := Linked.append_iff.mp hr.linked
  have hprev := hfirst.previous_end
  have hall := hr.nodup
  rw [← List.cons_append, List.nodup_middle, List.nodup_cons, List.mem_append, not_or] at hall
  obtain ⟨⟨hny, hnz⟩, hdisj⟩ := hall
  obtain ⟨hys, hzs, hyz⟩ := List.nodup_append.mp hdisj
  have herase : (ys ++ n :: zs).erase n = ys ++ zs := by
    rw [List.erase_append_right _ fun hmem => hny (List.mem_cons_of_mem _ hmem),
      List.erase_cons_head]
  rw [herase] at hnodup ⊢
  have hlast : lastNode l.sentinel ys ≠ n := fun heq => hny (heq ▸ lastNode_mem _ ys)
  have hfront : ∀ d ∈ l.sentinel :: ys, d ≠ n := fun d hd heq => hny (heq ▸ hd)
  cases zs with
  | nil =>
    obtain ⟨hnext, _⟩ := hsecond
    simp only [kernelListRemove, hprev, hnext, hself, hcount, or_self, if_false, List.append_nil]
      at hnodup ⊢
    refine ⟨hfirst.retarget hys ?_ ?_ (fun d hd hdl => ?_) fun d hd => ?_, hnodup, ?_⟩
    · simp [hlast]
    · simp [Ne.symm hself]
    · simp [hdl, hfront d hd]
    · have hds : d ≠ l.sentinel := fun heq => (List.nodup_cons.mp hys).1 (heq ▸ hd)
      simp [hds, hfront d (List.mem_cons_of_mem _ hd)]
    · simp [hr.count]
  | cons z zs =>
    obtain ⟨hnext, hzprev, hrest⟩ := hsecond
    simp only [kernelListRemove, hprev, hnext, hself, hcount, or_self, if_false]
    have hzn : z ≠ n := fun heq => hnz (heq ▸ List.mem_cons_self)
    refine ⟨Linked.append_iff.mpr ⟨hfirst.retarget hys ?_ ?_ (fun d hd hdl => ?_) fun d hd => ?_,
      hrest.congr (fun d hd => ?_) fun d hd => ?_⟩, hnodup, ?_⟩
    · simp [hlast]
    · simp [hzn]
    · simp [hdl, hfront d hd]
    · have hdz : d ≠ z := fun heq =>
        hyz d (List.mem_cons_of_mem _ hd) z List.mem_cons_self heq
      simp [hdz, hfront d (List.mem_cons_of_mem _ hd)]
    · have hdn : d ≠ n := fun heq => hnz (heq ▸ hd)
      have hdl : d ≠ lastNode l.sentinel ys := fun heq =>
        hyz _ (lastNode_mem _ ys) d hd heq.symm
      simp [hdn, hdl]
    · have hdn : d ≠ n := by
        rintro rfl
        rcases List.mem_cons.mp hd with heq | hd
        · exact hself heq
        · exact hnz (List.mem_cons_of_mem _ hd)
      have hdz : d ≠ z := by
        rintro rfl
        rcases List.mem_cons.mp hd with heq | hd
        · exact hyz _ List.mem_cons_self d List.mem_cons_self heq.symm
        · exact (List.nodup_cons.mp hzs).1 hd
      simp [hdn, hdz]
    · simp [hr.count]

/-- The front node is the first of the list. -/
theorem kernelListPopFront_cons (hr : Represents l h (n :: xs)) :
    kernelListPopFront l h = (some n, kernelListRemove l n h) := by
  have hcount : l.count ≠ 0 := by
    rw [hr.count]
    simp
  simp only [kernelListPopFront, hcount, if_false, hr.linked.1]

/-! ## Other rings -/

theorem setPrevious_other {p : Option α} (hd : d ≠ a) : setPrevious a p h d = h d :=
  Function.update_of_ne hd _ _

theorem setNext_other {p : Option α} (hd : d ≠ a) : setNext a p h d = h d :=
  Function.update_of_ne hd _ _

/-- A push leaves the nodes outside the ring alone. -/
theorem kernelListPushBack_other (hr : Represents l h xs) (hn : n ≠ l.sentinel) (hdn : d ≠ n)
    (hd : d ∉ l.sentinel :: xs) : (kernelListPushBack l n h).2 d = h d := by
  have hprev : (setNext n (some l.sentinel) (setPrevious n (h l.sentinel).previous h)
      l.sentinel).previous = some (lastNode l.sentinel xs) := by
    simp [hn.symm, hr.linked.previous_end]
  have hlast : d ≠ lastNode l.sentinel xs := fun heq => hd (heq ▸ lastNode_mem _ xs)
  simp only [kernelListPushBack, hprev]
  rw [setPrevious_other (List.ne_of_not_mem_cons hd), setNext_other hlast, setNext_other hdn,
    setPrevious_other hdn]

/-- So does a removal. -/
theorem kernelListRemove_other (hr : Represents l h xs) (hn : n ∈ xs)
    (hd : d ∉ l.sentinel :: xs) : (kernelListRemove l n h).2 d = h d := by
  have hdn : d ≠ n := fun heq => hd (heq ▸ List.mem_cons_of_mem _ hn)
  unfold kernelListRemove
  split
  · next p m hp hm =>
    split
    · rfl
    · dsimp only
      rw [setNext_other hdn, setPrevious_other hdn, setPrevious_other, setNext_other]
      · exact fun heq => hd (heq ▸ (hr.neighbours hn).1 p hp)
      · exact fun heq => hd (heq ▸ (hr.neighbours hn).2 m hm)
  · rfl

end RiscMv.Kernel
