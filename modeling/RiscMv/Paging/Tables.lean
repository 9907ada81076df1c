import Mathlib.Data.List.Perm.Subperm
import Mathlib.Data.Set.Insert
import RiscMv.Paging.AddressSpace

/-!
# Who owns which page

The pages of the kernel's own tables, the pages that an address space holds and the free pages
are kept apart, so that a store to one table is seen through every root that shares it and
through no other.

## Key results
- `Tables`: the shape of the kernel's tables, none of whose mappings is for user mode
- `Owns`, `Limbo`: the three kinds of pages are apart, and pages that are no one's from all of them
- `Owns.exchange`, `Owns.remove`, `Owns.adopt`, `Owns.allocate_kernel`: pages change their owner
-/

namespace RiscMv.Paging

variable {s s' : State} {k1 : Nat} {L1 L0 K : Set Nat}

/-! ## Entries -/

namespace State

@[simp] theorem entry_setEntry {p q i j : Nat} (v : Nat) (hp : p % pageSize = 0)
    (hq : q % pageSize = 0) (hi : i < 512) (hj : j < 512) :
    (s.setEntry q j v).entry p i = if p = q ∧ i = j then v else s.entry p i := by
  simp only [entry, setEntry, Function.update_apply]
  have hiff : p + i * 8 = q + j * 8 ↔ p = q ∧ i = j := by
    simp only [pageSize] at hp hq
    omega
  simp only [hiff]

@[simp] theorem entry_zeroPage {p q i : Nat} (hp : p % pageSize = 0) (hq : q % pageSize = 0)
    (hi : i < 512) : (s.zeroPage q).entry p i = if p = q then 0 else s.entry p i := by
  simp only [entry, zeroPage]
  have hiff : (q ≤ p + i * 8 ∧ p + i * 8 < q + pageSize) ↔ p = q := by
    simp only [pageSize] at hp hq ⊢
    omega
  simp only [hiff]

@[simp] theorem entry_copyEntries {p q src first i : Nat} (hp : p % pageSize = 0)
    (hq : q % pageSize = 0) (hi : i < 512) :
    (s.copyEntries q src first).entry p i =
      if p = q ∧ first ≤ i then s.entry src i else s.entry p i := by
  simp only [entry, copyEntries]
  have hiff : (q + first * 8 ≤ p + i * 8 ∧ p + i * 8 < q + pageSize) ↔ p = q ∧ first ≤ i := by
    simp only [pageSize] at hp hq ⊢
    omega
  simp only [hiff]
  split
  · next h => rw [h.1, Nat.add_sub_cancel_left]
  · rfl

/-- The free pages, in the order in which they are handed out. -/
def free (s : State) : List Nat := s.recycled ++ s.fresh

end State

/-- A page that the allocator may hand out. -/
structure Page (s : State) (p : Nat) : Prop where
  aligned : p % pageSize = 0
  nonzero : p ≠ 0
  inside : p + pageSize ≤ s.ram.size
  direct : s.direct p = true

/-- Two states that differ in the contents of tables, in the free pages and in the progress of
    the heap. -/
structure Same (s s' : State) : Prop where
  size : s'.ram.size = s.ram.size
  direct : s'.directMapSize = s.directMapSize
  root : s'.root = s.root
  heap : s'.heapBase = s.heapBase

theorem Same.refl (s : State) : Same s s := ⟨rfl, rfl, rfl, rfl⟩

theorem Same.trans {s₁ s₂ s₃ : State} (h : Same s₁ s₂) (h' : Same s₂ s₃) : Same s₁ s₃ :=
  ⟨h'.size.trans h.size, h'.direct.trans h.direct, h'.root.trans h.root, h'.heap.trans h.heap⟩

theorem Page.same {p : Nat} (h : Page s p) (hs : Same s s') : Page s' p :=
  ⟨h.aligned, h.nonzero, by rw [hs.size]; exact h.inside,
    by simpa [State.direct, hs.direct] using h.direct⟩

/-! ## The kernel's tables -/

/-- An entry that is not for user mode and that, if it refers to a table, refers to one of `L`. -/
def Links (L : Set Nat) (e : Nat) : Prop :=
  isValid e = true → isUser e = false ∧ (isLeaf e = false → addressOf e ∈ L)

theorem Links.mono {L L' : Set Nat} {e : Nat} (h : Links L e) (hL : L ⊆ L') : Links L' e :=
  fun hv => ⟨(h hv).1, fun hl => hL ((h hv).2 hl)⟩

theorem links_zero (L : Set Nat) : Links L 0 := by
  intro hv
  simp [isValid] at hv

/-- An entry that `allocate_next_table` makes. -/
theorem links_table {L : Set Nat} {p : Nat} (hp : p % pageSize = 0) (hL : p ∈ L) :
    Links L (p ||| pteValid) := by
  intro _
  refine ⟨?_, fun _ => ?_⟩
  · rw [isUser, testBit_entry hp (by decide)]
    decide
  · rwa [addressOf_entry hp (by decide)]

theorem isValid_table {p : Nat} (hp : p % pageSize = 0) : isValid (p ||| pteValid) = true := by
  simp [isValid, testBit_entry hp, pteValid]

theorem isLeaf_table {p : Nat} (hp : p % pageSize = 0) : isLeaf (p ||| pteValid) = false := by
  rw [isLeaf_entry hp]
  decide

/-- The kernel's tables: `k1` is the table of the first gigabyte, `L1` has those of the others
    and `L0` the tables of small pages. -/
structure Tables (s : State) (k1 : Nat) (L1 L0 : Set Nat) : Prop where
  entry0 : isValid (s.entry s.root 0) = true ∧ isLeaf (s.entry s.root 0) = false ∧
    addressOf (s.entry s.root 0) = k1
  root : ∀ i, 0 < i → i < 512 → Links L1 (s.entry s.root i)
  level1 : ∀ q, q = k1 ∨ q ∈ L1 → ∀ j < 512, Links L0 (s.entry q j)
  level0 : ∀ q ∈ L0, ∀ j < 512, isValid (s.entry q j) = true → isUser (s.entry q j) = false
  aligned : ∀ q, q = s.root ∨ q = k1 ∨ q ∈ L1 ∨ q ∈ L0 → q % pageSize = 0
  root_apart : s.root ≠ k1 ∧ s.root ∉ L1 ∧ s.root ∉ L0
  k1_apart : k1 ∉ L1 ∧ k1 ∉ L0

/-- The pages of the kernel's tables. -/
def kernelPages (root k1 : Nat) (L1 L0 : Set Nat) : Set Nat :=
  {q | q = root ∨ q = k1 ∨ q ∈ L1 ∨ q ∈ L0}

theorem mem_kernelPages_root (root k1 : Nat) (L1 L0 : Set Nat) :
    root ∈ kernelPages root k1 L1 L0 := .inl rfl

theorem mem_kernelPages_k1 (root k1 : Nat) (L1 L0 : Set Nat) :
    k1 ∈ kernelPages root k1 L1 L0 := .inr (.inl rfl)

/-- A table that was none of `K` and is still empty. -/
structure Blank (s : State) (K : Set Nat) (q : Nat) : Prop where
  aligned : q % pageSize = 0
  new : q ∉ K
  entry : ∀ i < 512, s.entry q i = 0

/-- What may be stored in a table of the kernel's. -/
structure Fits (root k1 : Nat) (L1 L0 L1' L0' : Set Nat) (q i v : Nat) : Prop where
  root : q = root → 0 < i ∧ Links L1' v
  level1 : q = k1 ∨ q ∈ L1 → Links L0' v
  level0 : q ∈ L0 → isUser v = false

/-- What is to show when the kernel's tables change: there are new ones, still empty, and what is
    stored in the old ones fits. -/
theorem Tables.update {L1' L0' : Set Nat} (h : Tables s k1 L1 L0) (hroot : s'.root = s.root)
    (hL1 : L1 ⊆ L1') (hL0 : L0 ⊆ L0')
    (hL1' : ∀ q ∈ L1', q ∈ L1 ∨ Blank s' (kernelPages s.root k1 L1 L0) q)
    (hL0' : ∀ q ∈ L0', q ∈ L0 ∨ Blank s' (kernelPages s.root k1 L1 L0) q)
    (hstore : ∀ q ∈ kernelPages s.root k1 L1 L0, ∀ i < 512, s'.entry q i = s.entry q i ∨
      Fits s.root k1 L1 L0 L1' L0' q i (s'.entry q i)) :
    Tables s' k1 L1' L0' where
  entry0 := by
    rw [hroot]
    rcases hstore s.root (.inl rfl) 0 (by decide) with he | hfit
    · rw [he]
      exact h.entry0
    · exact absurd (hfit.root rfl).1 (Nat.lt_irrefl 0)
  root i h0 hi := by
    rw [hroot]
    rcases hstore s.root (.inl rfl) i hi with he | hfit
    · rw [he]
      exact (h.root i h0 hi).mono hL1
    · exact (hfit.root rfl).2
  level1 q hq j hj := by
    have hq' : (q = k1 ∨ q ∈ L1) ∨ Blank s' (kernelPages s.root k1 L1 L0) q :=
      hq.elim (fun he => .inl (.inl he)) fun hl => (hL1' q hl).imp_left .inr
    rcases hq' with hq' | hblank
    · rcases hstore q (.inr (hq'.imp_right .inl)) j hj with he | hfit
      · rw [he]
        exact (h.level1 q hq' j hj).mono hL0
      · exact hfit.level1 hq'
    · rw [hblank.entry j hj]
      exact links_zero _
  level0 q hq j hj hv := by
    rcases hL0' q hq with hq | hblank
    · rcases hstore q (.inr (.inr (.inr hq))) j hj with he | hfit
      · rw [he] at hv ⊢
        exact h.level0 q hq j hj hv
      · exact hfit.level0 hq
    · rw [hblank.entry j hj] at hv
      simp [isValid] at hv
  aligned q hq := by
    rw [hroot] at hq
    rcases hq with hq | hq | hq | hq
    · exact h.aligned q (.inl hq)
    · exact h.aligned q (.inr (.inl hq))
    · exact (hL1' q hq).elim (fun hl => h.aligned q (.inr (.inr (.inl hl)))) (·.aligned)
    · exact (hL0' q hq).elim (fun hl => h.aligned q (.inr (.inr (.inr hl)))) (·.aligned)
  root_apart := by
    have hnew : ¬ Blank s' (kernelPages s.root k1 L1 L0) s.root :=
      fun hb => hb.new (mem_kernelPages_root ..)
    rw [hroot]
    exact ⟨h.root_apart.1, fun hq => (hL1' _ hq).elim h.root_apart.2.1 hnew,
      fun hq => (hL0' _ hq).elim h.root_apart.2.2 hnew⟩
  k1_apart := by
    have hnew : ¬ Blank s' (kernelPages s.root k1 L1 L0) k1 :=
      fun hb => hb.new (mem_kernelPages_k1 ..)
    exact ⟨fun hq => (hL1' _ hq).elim h.k1_apart.1 hnew,
      fun hq => (hL0' _ hq).elim h.k1_apart.2 hnew⟩

/-- Stores outside the kernel's tables do not change them. -/
theorem Tables.frame (h : Tables s k1 L1 L0) (hs : Same s s')
    (hsame : ∀ q ∈ kernelPages s.root k1 L1 L0, ∀ i < 512, s'.entry q i = s.entry q i) :
    Tables s' k1 L1 L0 :=
  h.update hs.root subset_rfl subset_rfl (fun _ => .inl) (fun _ => .inl)
    fun q hq i hi => .inl (hsame q hq i hi)

/-! ## Ownership -/

/-- The pages that an address space returns when it is destroyed. -/
def AddressSpace.held (space : AddressSpace) : List Nat :=
  (space.pages.filter (·.kind ≠ .external)).map (·.physicalAddress)

/-- The free pages and the pages of the address spaces are apart, and none is one of `K`. -/
structure Owns (s : State) (space : Nat → Option AddressSpace) (K : Set Nat) : Prop where
  nodup : s.free.Nodup
  free : ∀ p ∈ s.free, Page s p ∧ p ∉ K
  held_nodup : ∀ id sp, space id = some sp → sp.held.Nodup
  held : ∀ id sp, space id = some sp → ∀ p ∈ sp.held, Page s p ∧ p ∉ K ∧ p ∉ s.free
  apart : ∀ id id' sp sp', space id = some sp → space id' = some sp' → id ≠ id' →
    ∀ p ∈ sp.held, p ∉ sp'.held

/-- Pages that belong to no one: neither free, nor one of `K`, nor an address space's. -/
structure Limbo (s : State) (space : Nat → Option AddressSpace) (K : Set Nat) (ps : List Nat) :
    Prop where
  nodup : ps.Nodup
  page : ∀ p ∈ ps, Page s p ∧ p ∉ K ∧ p ∉ s.free
  apart : ∀ p ∈ ps, ∀ id sp, space id = some sp → p ∉ sp.held

variable {space : Nat → Option AddressSpace} {id : Nat} {sp sp' : AddressSpace} {p : Nat}
  {ps ps' : List Nat}

theorem Limbo.nil : Limbo s space K [] := ⟨List.nodup_nil, nofun, nofun⟩

/-- Pages move between the allocator and no one. -/
theorem Owns.exchange (h : Owns s space K) (hl : Limbo s space K ps) (hs : Same s s')
    (hmove : (s'.free ++ ps').Subperm (s.free ++ ps)) :
    Owns s' space K ∧ Limbo s' space K ps' := by
  have hn : (s.free ++ ps).Nodup := List.nodup_append.mpr
    ⟨h.nodup, hl.nodup, fun q hq q' hq' he => (hl.page q' hq').2.2 (he ▸ hq)⟩
  have hpool : ∀ q ∈ s.free ++ ps, (Page s' q ∧ q ∉ K) ∧
      ∀ id sp, space id = some sp → q ∉ sp.held := by
    intro q hq
    rcases List.mem_append.mp hq with hq | hq
    · obtain ⟨hpage, hK⟩ := h.free q hq
      exact ⟨⟨hpage.same hs, hK⟩, fun id sp hsp hheld => (h.held id sp hsp q hheld).2.2 hq⟩
    · obtain ⟨hpage, hK, -⟩ := hl.page q hq
      exact ⟨⟨hpage.same hs, hK⟩, hl.apart q hq⟩
  obtain ⟨l, hperm, hsub⟩ := hmove
  obtain ⟨hfree, hps, hapart⟩ := List.nodup_append.mp (hperm.nodup_iff.mp (hn.sublist hsub))
  have hmem : ∀ q ∈ s'.free ++ ps', q ∈ s.free ++ ps := fun q hq =>
    hsub.subset (hperm.mem_iff.mpr hq)
  have hfree' : ∀ q ∈ s'.free, q ∈ s.free ++ ps := fun q hq => hmem q (List.mem_append_left _ hq)
  have hps' : ∀ q ∈ ps', q ∈ s.free ++ ps := fun q hq => hmem q (List.mem_append_right _ hq)
  refine ⟨⟨hfree, fun q hq => (hpool q (hfree' q hq)).1, h.held_nodup, fun id sp hsp q hq => ?_,
    h.apart⟩, hps, fun q hq => ?_, fun q hq => (hpool q (hps' q hq)).2⟩
  · obtain ⟨hpage, hK, -⟩ := h.held id sp hsp q hq
    exact ⟨hpage.same hs, hK, fun hf => (hpool q (hfree' q hf)).2 id sp hsp hq⟩
  · obtain ⟨hpage, hK⟩ := (hpool q (hps' q hq)).1
    exact ⟨hpage, hK, fun hf => hapart q hf q hq rfl⟩

/-- An address space is taken away; its pages are no one's. -/
theorem Owns.remove (h : Owns s space K) (hl : Limbo s space K ps) (hsp : space id = some sp) :
    Owns s (Function.update space id none) K ∧
      Limbo s (Function.update space id none) K (sp.held ++ ps) := by
  have hget : ∀ j sp₂, Function.update space id none j = some sp₂ →
      j ≠ id ∧ space j = some sp₂ := by
    intro j sp₂ hj
    rw [Function.update_apply] at hj
    split at hj
    · cases hj
    · next hne => exact ⟨hne, hj⟩
  refine ⟨⟨h.nodup, h.free, ?_, ?_, ?_⟩, ?_, fun q hq => ?_, fun q hq j sp₂ hj => ?_⟩
  · exact fun j sp₂ hj => h.held_nodup j sp₂ (hget j sp₂ hj).2
  · exact fun j sp₂ hj => h.held j sp₂ (hget j sp₂ hj).2
  · exact fun j j' sp₂ sp₃ hj hj' => h.apart j j' sp₂ sp₃ (hget j sp₂ hj).2 (hget j' sp₃ hj').2
  · exact List.nodup_append.mpr ⟨h.held_nodup id sp hsp, hl.nodup,
      fun q hq q' hq' he => hl.apart q' hq' id sp hsp (he ▸ hq)⟩
  · exact (List.mem_append.mp hq).elim (h.held id sp hsp q) (hl.page q)
  · obtain ⟨hne, hj⟩ := hget j sp₂ hj
    rcases List.mem_append.mp hq with hq | hq
    · exact h.apart id j sp sp₂ hsp hj (Ne.symm hne) q hq
    · exact hl.apart q hq j sp₂ hj

/-- An address space takes pages that are no one's. -/
theorem Owns.adopt (h : Owns s space K) (hl : Limbo s space K (sp.held ++ ps)) (id : Nat) :
    Owns s (Function.update space id (some sp)) K ∧
      Limbo s (Function.update space id (some sp)) K ps := by
  obtain ⟨hheld, hps, hapart⟩ := List.nodup_append.mp hl.nodup
  have hl₁ : ∀ q ∈ sp.held, q ∈ sp.held ++ ps := fun q hq => List.mem_append_left _ hq
  have hl₂ : ∀ q ∈ ps, q ∈ sp.held ++ ps := fun q hq => List.mem_append_right _ hq
  have hget : ∀ {j sp₂}, Function.update space id (some sp) j = some sp₂ →
      j = id ∧ sp₂ = sp ∨ space j = some sp₂ := by
    intro j sp₂ hj
    rw [Function.update_apply] at hj
    split at hj
    · next he =>
      cases hj
      exact .inl ⟨he, rfl⟩
    · exact .inr hj
  refine ⟨⟨h.nodup, h.free, fun j sp₂ hj => ?_, fun j sp₂ hj => ?_, ?_⟩, hps,
    fun q hq => hl.page q (hl₂ q hq), fun q hq j sp₂ hj => ?_⟩
  · obtain ⟨-, rfl⟩ | hj := hget hj
    · exact hheld
    · exact h.held_nodup j sp₂ hj
  · obtain ⟨-, rfl⟩ | hj := hget hj
    · exact fun q hq => hl.page q (hl₁ q hq)
    · exact h.held j sp₂ hj
  · intro j j' sp₂ sp₃ hj hj' hne q hq
    obtain ⟨he, rfl⟩ | hj₀ := hget hj <;> obtain ⟨he', rfl⟩ | hj₀' := hget hj'
    · exact absurd (he.trans he'.symm) hne
    · exact hl.apart q (hl₁ q hq) j' sp₃ hj₀'
    · exact fun hq' => hl.apart q (hl₁ q hq') j sp₂ hj₀ hq
    · exact h.apart j j' sp₂ sp₃ hj₀ hj₀' hne q hq
  · obtain ⟨-, rfl⟩ | hj := hget hj
    · exact fun hq' => hapart q hq' q hq rfl
    · exact hl.apart q (hl₂ q hq) j sp₂ hj

/-! ## Allocation -/

/-- An allocated page, cleared, and what is left. -/
structure Allocated (s : State) (p : Nat) (s' : State) : Prop where
  same : Same s s'
  free : s.free = p :: s'.free
  entry : ∀ q i, q % pageSize = 0 → i < 512 → s'.entry q i = if q = p then 0 else s.entry q i
  spaces : s'.space = s.space
  heap : s'.heapMappedSize = s.heapMappedSize

theorem Allocated.mem (ha : Allocated s p s') : p ∈ s.free := ha.free ▸ List.mem_cons_self

/-- The page is added to some list of pages. -/
theorem Allocated.subperm (ha : Allocated s p s') (l ps : List Nat) :
    (s'.free ++ ((l ++ [p]) ++ ps)).Subperm (s.free ++ (l ++ ps)) := by
  have hperm : (s'.free ++ l ++ p :: ps).Perm (p :: (s'.free ++ l ++ ps)) := List.perm_middle
  rw [ha.free]
  simpa using hperm.subperm

/-- The entries of a free page do not matter. -/
theorem Allocated.entry_of_not_free {q : Nat} (ha : Allocated s p s') (hq : q % pageSize = 0)
    (hfree : q ∉ s.free) : ∀ i < 512, s'.entry q i = s.entry q i := by
  intro i hi
  rw [ha.entry q i hq hi, if_neg]
  rintro rfl
  exact hfree ha.mem

theorem pmmAllocPage_some (hpage : ∀ q ∈ s.free, Page s q) (h : s.pmmAllocPage = (some p, s')) :
    Allocated s p s' := by
  unfold State.pmmAllocPage at h
  split at h
  · next page rest hrec =>
    split at h <;> cases h
    have hfree : s.free = p :: (rest ++ s.fresh) := by simp [State.free, hrec]
    have hp := (hpage p (by simp [hfree])).aligned
    exact ⟨⟨rfl, rfl, rfl, rfl⟩, hfree, fun q i hq hi => State.entry_zeroPage hq hp hi, rfl, rfl⟩
  · next page rest hrec hfresh =>
    split at h <;> cases h
    have hfree : s.free = p :: rest := by simp [State.free, hrec, hfresh]
    have hp := (hpage p (by simp [hfree])).aligned
    refine ⟨⟨rfl, rfl, rfl, rfl⟩, ?_, fun q i hq hi => State.entry_zeroPage hq hp hi, rfl, rfl⟩
    simp [State.free, State.zeroPage, hrec, hfresh]
  · cases h

/-- A page that cannot be allocated changes nothing but perhaps the fresh pages. -/
theorem pmmAllocPage_none (hpage : ∀ q ∈ s.free, Page s q) (h : s.pmmAllocPage = (none, s')) :
    s' = s := by
  unfold State.pmmAllocPage at h
  split at h
  · next page rest hrec =>
    split at h <;> cases h
    rfl
  · next page rest hrec hfresh =>
    have hd := (hpage page (by simp [State.free, hrec, hfresh])).direct
    rw [hd] at h
    cases h
  · cases h; rfl

/-- `allocate_next_table` finds a table, or enters a new one. -/
theorem allocateNextTable_cases {t i : Nat} {ok : Bool}
    (hpage : ∀ q ∈ s.free, Page s q) (ha : s.allocateNextTable t i = (ok, s')) :
    s' = s ∧ isValid (s.entry t i) = true ∧ (ok = true → isLeaf (s.entry t i) = false) ∨
    isValid (s.entry t i) = false ∧ ok = false ∧ s' = s ∨
    isValid (s.entry t i) = false ∧ ok = true ∧
      ∃ p s₁, Allocated s p s₁ ∧ s' = s₁.setEntry t i (p ||| pteValid) := by
  unfold State.allocateNextTable at ha
  split at ha
  · next hv =>
    cases ha
    refine .inl ⟨rfl, hv, fun hok => ?_⟩
    simp only [State.tableEntryValid, Bool.and_eq_true, Bool.not_eq_true'] at hok
    exact hok.1.2
  · next hv =>
    refine .inr ?_
    split at ha
    · next hal =>
      cases ha
      exact .inl ⟨by simpa using hv, rfl, pmmAllocPage_none hpage hal⟩
    · next p s₁ hal =>
      cases ha
      exact .inr ⟨by simpa using hv, rfl, p, s₁, pmmAllocPage_some hpage hal, rfl⟩

/-- A page is allocated for an address space, or there is none. -/
theorem addressPageAllocate_cases {va : Nat} {result : Option Nat} {kind : PageKind} {malloc : Bool}
    (hpage : ∀ q ∈ s.free, Page s q)
    (ha : s.addressPageAllocate sp va kind malloc = (result, s', sp')) :
    (result = none ∧ s' = s ∧ sp' = sp) ∨ ∃ p, result = some p ∧ Allocated s p s' ∧
      sp' = { sp with pages := sp.pages ++ [⟨p, va, kind⟩] } := by
  unfold State.addressPageAllocate at ha
  split at ha
  · cases ha
    exact .inl ⟨rfl, rfl, rfl⟩
  · split at ha
    · next hal =>
      cases ha
      exact .inl ⟨rfl, pmmAllocPage_none hpage hal, rfl⟩
    · next page s₁ hal =>
      cases ha
      exact .inr ⟨page, rfl, pmmAllocPage_some hpage hal, rfl⟩

/-- The allocated page becomes one of the kernel's. -/
theorem Owns.allocate_kernel (h : Owns s space K) (hl : Limbo s space K ps)
    (ha : Allocated s p s') : Owns s' space (insert p K) ∧ Limbo s' space (insert p K) ps := by
  obtain ⟨hp, hn⟩ := List.nodup_cons.mp (ha.free ▸ h.nodup)
  have hsub : ∀ {q}, q ∈ s'.free → q ∈ s.free := fun hq => ha.free ▸ List.mem_cons_of_mem p hq
  have hout : ∀ {q}, Page s q ∧ q ∉ K ∧ q ∉ s.free →
      Page s' q ∧ q ∉ insert p K ∧ q ∉ s'.free := by
    rintro q ⟨hpage, hK, hf⟩
    refine ⟨hpage.same ha.same, ?_, fun hf' => hf (hsub hf')⟩
    rintro (rfl | hK')
    · exact hf ha.mem
    · exact hK hK'
  refine ⟨⟨hn, fun q hq => ⟨(h.free q (hsub hq)).1.same ha.same, ?_⟩, h.held_nodup,
    fun id sp hsp q hq => hout (h.held id sp hsp q hq), h.apart⟩, hl.nodup,
    fun q hq => hout (hl.page q hq), hl.apart⟩
  rintro (rfl | hK)
  · exact hp hq
  · exact (h.free q (hsub hq)).2 hK

theorem pmmFreePage_eq (hpage : Page s p) : s.pmmFreePage p =
    { s.setEntry p 0 (s.recycled.headD 0) with recycled := p :: s.recycled } := by
  unfold State.pmmFreePage
  rw [if_neg]
  have hin := hpage.inside
  simp only [hpage.aligned, hpage.nonzero, hpage.direct, not_or]
  exact ⟨not_false, fun h => h rfl, by omega, by simp⟩

theorem pmmFreePage_same (hpage : Page s p) : Same s (s.pmmFreePage p) := by
  rw [pmmFreePage_eq hpage]
  exact ⟨rfl, rfl, rfl, rfl⟩

theorem pmmFreePage_entry (hpage : Page s p) {q i : Nat} (hq : q % pageSize = 0) (hi : i < 512)
    (hne : q ≠ p) : (s.pmmFreePage p).entry q i = s.entry q i := by
  rw [pmmFreePage_eq hpage]
  have hset := State.entry_setEntry (s := s) (s.recycled.headD 0) hq hpage.aligned hi
    (show 0 < 512 by decide)
  rw [if_neg (fun he => hne he.1)] at hset
  exact hset

theorem pmmFreePage_free (hpage : Page s p) : (s.pmmFreePage p).free = p :: s.free := by
  rw [pmmFreePage_eq hpage]
  rfl

end RiscMv.Paging
