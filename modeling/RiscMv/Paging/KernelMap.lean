import RiscMv.Paging.Layout

/-!
# Mappings of the kernel, and the life of an address space

`kernel_map_page` adds a table or a small page to the kernel's tables.  An address space sees a
new table unless its place is in the root or in the first-gigabyte table, of which it has copies.

## Key results
- `Tables.enter`, `Tables.leaf`: a new table, or a small page, in the kernel's tables
- `TableRules`: what a property has to do with a store to tables, for the functions that map pages
  for the kernel, create an address space and free its pages to keep it
-/

namespace RiscMv.Paging

variable {s s' : State} {k1 v p q j : Nat} {L1 L0 K L1' L0' : Set Nat}

/-! ## New tables -/

theorem kernelPages_insert_level1 (root k1 p : Nat) (L1 L0 : Set Nat) :
    kernelPages root k1 (insert p L1) L0 = insert p (kernelPages root k1 L1 L0) := by
  ext x
  simp only [kernelPages, Set.mem_insert_iff, Set.mem_ofPred_eq]
  tauto

theorem kernelPages_insert_level0 (root k1 p : Nat) (L1 L0 : Set Nat) :
    kernelPages root k1 L1 (insert p L0) = insert p (kernelPages root k1 L1 L0) := by
  ext x
  simp only [kernelPages, Set.mem_insert_iff, Set.mem_ofPred_eq]
  tauto

/-- The entry of a table for a new one, which is added to one of the two kinds. -/
inductive Enters (root k1 : Nat) (L1 L0 : Set Nat) (p : Nat) : Nat → Nat → Set Nat → Set Nat → Prop
  | level1 {j : Nat} (h0 : 0 < j) : Enters root k1 L1 L0 p root j (insert p L1) L0
  | level0 {t j : Nat} (ht : t = k1 ∨ t ∈ L1) : Enters root k1 L1 L0 p t j L1 (insert p L0)

section

variable {root t : Nat} (he : Enters root k1 L1 L0 p t j L1' L0')
include he

theorem Enters.kernelPages :
    kernelPages root k1 L1' L0' = insert p (kernelPages root k1 L1 L0) := by
  cases he with
  | level1 => exact kernelPages_insert_level1 ..
  | level0 => exact kernelPages_insert_level0 ..

theorem Enters.mem : t ∈ Paging.kernelPages root k1 L1 L0 := by
  cases he with
  | level1 => exact mem_kernelPages_root ..
  | level0 ht => exact .inr (ht.imp_right .inl)

theorem Enters.subset : L1 ⊆ L1' ∧ L0 ⊆ L0' := by
  cases he <;> simp

theorem Enters.cases : (∀ q ∈ L1', q ∈ L1 ∨ q = p) ∧ ∀ q ∈ L0', q ∈ L0 ∨ q = p := by
  cases he with
  | level1 => exact ⟨fun q hq => hq.symm, fun q hq => .inl hq⟩
  | level0 => exact ⟨fun q hq => .inl hq, fun q hq => hq.symm⟩

end

/-- What is in the tables when a new one was entered. -/
theorem Allocated.entry_enter {t i : Nat} (ha : Allocated s p s') (hp : p ∉ K)
    (hK : ∀ q ∈ K, q % pageSize = 0) (ht : t ∈ K) (hj : j < 512) (hq : q ∈ K) (hi : i < 512) :
    (s'.setEntry t j v).entry q i = if q = t ∧ i = j then v else s.entry q i := by
  have hqp : q ≠ p := fun he => hp (he ▸ hq)
  rw [State.entry_setEntry _ (hK q hq) (hK t ht) hi hj, ha.entry q i (hK q hq) hi, if_neg hqp]

/-- A new table is entered. -/
theorem Tables.enter {t : Nat} (h : Tables s k1 L1 L0) (ha : Allocated s p s')
    (hp : Page s p ∧ p ∉ kernelPages s.root k1 L1 L0) (he : Enters s.root k1 L1 L0 p t j L1' L0')
    (hj : j < 512) : Tables (s'.setEntry t j (p ||| pteValid)) k1 L1' L0' := by
  have hpa := hp.1.aligned
  have hne : p ≠ t := fun hpt => hp.2 (hpt ▸ he.mem)
  have hblank : Blank (s'.setEntry t j (p ||| pteValid)) (kernelPages s.root k1 L1 L0) p := by
    refine ⟨hpa, hp.2, fun i hi => ?_⟩
    rw [State.entry_setEntry _ hpa (h.aligned t he.mem) hi hj, if_neg (fun hpt => hne hpt.1),
      ha.entry p i hpa hi, if_pos rfl]
  have huser : isUser (p ||| pteValid) = false := (links_table hpa (Set.mem_univ p)
    (isValid_table hpa)).1
  refine h.update ha.same.root he.subset.1 he.subset.2
    (fun q hq => (he.cases.1 q hq).imp_right fun (hqp : q = p) => hqp ▸ hblank)
    (fun q hq => (he.cases.2 q hq).imp_right fun (hqp : q = p) => hqp ▸ hblank) fun q hq i hi => ?_
  rw [ha.entry_enter hp.2 h.aligned he.mem hj hq hi]
  split
  swap
  · exact .inl rfl
  next heq =>
  obtain ⟨rfl, rfl⟩ := heq
  refine .inr ?_
  cases he with
  | level1 h0 =>
    refine ⟨fun _ => ⟨h0, links_table hpa (Set.mem_insert ..)⟩, fun hq => ?_, fun _ => huser⟩
    exact hq.elim (absurd · h.root_apart.1) (absurd · h.root_apart.2.1)
  | level0 ht =>
    refine ⟨fun hq => ?_, fun _ => links_table hpa (Set.mem_insert ..), fun _ => huser⟩
    subst hq
    exact absurd ht (not_or.mpr ⟨h.root_apart.1, h.root_apart.2.1⟩)

/-- A small page is entered in a table that all roots share. -/
theorem Tables.leaf (h : Tables s k1 L1 L0) (hq : q ∈ L0) (hj : j < 512)
    (huser : isUser v = false) (hleaf : isLeaf v = true) : Tables (s.setEntry q j v) k1 L1 L0 := by
  refine h.update rfl subset_rfl subset_rfl (fun _ => .inl) (fun _ => .inl) fun t ht i hi => ?_
  rw [State.entry_setEntry _ (h.aligned t ht) (h.aligned q (.inr (.inr (.inr hq)))) hi hj]
  split
  · next he =>
    rw [he.1]
    refine .inr ⟨fun hr => absurd (hr ▸ hq) h.root_apart.2.2, fun _ _ => ⟨huser, fun hl => ?_⟩,
      fun _ => huser⟩
    cases hleaf.symm.trans hl
  · exact .inl rfl

/-- What a mapping leaves alone, besides tables and free pages. -/
structure Quiet (s s' : State) : Prop where
  same : Same s s'
  spaces : s'.space = s.space
  heap : s'.heapMappedSize = s.heapMappedSize

theorem Quiet.refl (s : State) : Quiet s s := ⟨Same.refl s, rfl, rfl⟩

theorem Quiet.trans {s₁ s₂ s₃ : State} (h : Quiet s₁ s₂) (h' : Quiet s₂ s₃) : Quiet s₁ s₃ :=
  ⟨h.same.trans h'.same, h'.spaces.trans h.spaces, h'.heap.trans h.heap⟩

theorem Allocated.quiet (ha : Allocated s p s') (t j v : Nat) : Quiet s (s'.setEntry t j v) :=
  ⟨⟨ha.same.size, ha.same.direct, ha.same.root, ha.same.heap⟩, ha.spaces, ha.heap⟩

/-- The tables that a mapping needs in the root and in the first-gigabyte table are there. -/
def pathExists (s : State) (va : Nat) : Bool :=
  isValid (s.entry s.root (tableIndex va 30)) && (tableIndex va 30 ≠ 0 ||
    isValid (s.entry (addressOf (s.entry s.root 0)) (tableIndex va 21)))

/-! ## New address spaces -/

/-- The pages of a list of records that are freed with it. -/
def heldPages (pages : List AddressPage) : List Nat :=
  (pages.filter (·.kind ≠ .external)).map (·.physicalAddress)

/-- The tables of a new address space: copies of the kernel's. -/
def State.copyTables (s : State) (r l k1 : Nat) : State :=
  ((s.copyEntries r s.root 1).copyEntries l k1 0).setEntry r 0 (l ||| pteValid)

section

variable {r l i : Nat} (h : Tables s k1 L1 L0)
  (hl : ∀ q ∈ [r, l], Page s q ∧ q ∉ kernelPages s.root k1 L1 L0 ∧ q ∉ s.free)

include h hl

theorem entry_copyTables (hq : q % pageSize = 0) (hi : i < 512) :
    (s.copyTables r l k1).entry q i =
      if q = r ∧ i = 0 then l ||| pteValid
      else if q = l then s.entry k1 i
      else if q = r then s.entry s.root i else s.entry q i := by
  have hr := (hl r (by simp)).1.aligned
  have hla := (hl l (by simp)).1.aligned
  have hka := h.aligned k1 (mem_kernelPages_k1 ..)
  have hk1r : k1 ≠ r := fun he => (hl r (by simp)).2.1 (he ▸ mem_kernelPages_k1 ..)
  have hcopy : (s.copyEntries r s.root 1).entry k1 i = s.entry k1 i := by
    rw [State.entry_copyEntries hka hr hi, if_neg (fun he => hk1r he.1)]
  rw [State.copyTables, State.entry_setEntry _ hq hr hi (by decide),
    State.entry_copyEntries hq hla hi, hcopy, State.entry_copyEntries hq hr hi]
  grind

/-- The entries of a new address space. -/
theorem entry_copyTables_new (hne : r ≠ l) : (s.copyTables r l k1).entry r 0 = l ||| pteValid ∧
    (∀ i, 0 < i → i < 512 → (s.copyTables r l k1).entry r i = s.entry s.root i) ∧
    ∀ i < 512, (s.copyTables r l k1).entry l i = s.entry k1 i := by
  have hr := (hl r (by simp)).1.aligned
  have hla := (hl l (by simp)).1.aligned
  refine ⟨?_, fun i h0 hi => ?_, fun i hi => ?_⟩
  · rw [entry_copyTables h hl hr (by decide), if_pos ⟨rfl, rfl⟩]
  · rw [entry_copyTables h hl hr hi, if_neg (fun he => Nat.ne_of_gt h0 he.2), if_neg hne,
      if_pos rfl]
  · rw [entry_copyTables h hl hla hi, if_neg (fun he => hne he.1.symm), if_pos rfl]

/-- The kernel's tables stay as they are, and so do those of the other address spaces. -/
theorem entry_copyTables_old (hq : q % pageSize = 0) (hnot : q ∉ [r, l]) (hi : i < 512) :
    (s.copyTables r l k1).entry q i = s.entry q i := by
  simp only [List.mem_cons, List.not_mem_nil, or_false, not_or] at hnot
  rw [entry_copyTables h hl hq hi, if_neg (fun he => hnot.1 he.1), if_neg hnot.2, if_neg hnot.1]

end

/-- A new address space. -/
def AddressSpace.fresh (r l : Nat) : AddressSpace :=
  ⟨r, l, fun _ => false, [⟨r, 0, .table⟩, ⟨l, 0, .table⟩]⟩

@[simp] theorem AddressSpace.fresh_root (r l : Nat) : (AddressSpace.fresh r l).root = r := rfl

@[simp] theorem AddressSpace.fresh_level1 (r l : Nat) : (AddressSpace.fresh r l).level1 = l := rfl

/-- The tables of a new address space have the entries of the kernel's. -/
theorem linked_fresh {r l : Nat} (h : Tables s k1 L1 L0)
    (hl : ∀ q ∈ [r, l], Page s q ∧ q ∉ kernelPages s.root k1 L1 L0 ∧ q ∉ s.free) (hne : r ≠ l) :
    Linked (s.copyTables r l k1) L1 L0 (.fresh r l) := by
  obtain ⟨hzero, hroot, hlevel1⟩ := entry_copyTables_new h hl hne
  refine ⟨?_, ?_, hne, hzero, fun i h0 hi => ?_, fun j hj _ => ?_, nofun, nofun⟩
  · simp [AddressSpace.tables, AddressSpace.fresh]
  · simp [AddressSpace.tables, AddressSpace.fresh]
  · rw [AddressSpace.fresh_root, hroot i h0 hi]
    exact h.root i h0 hi
  · rw [AddressSpace.fresh_level1, hlevel1 j hj]
    exact h.level1 k1 (.inl rfl) j hj

variable {result : Option Nat} {id : Nat}

/-- What `kernel_address_space_create` can do: it frees the pages that it has allocated, or it
    fills the two tables. -/
inductive Created (s : State) (id : Nat) : State → Prop
  | unchanged : Created s id s
  | one {r : Nat} {s₁ : State} (ha : Allocated s r s₁) :
    Created s id (State.freePages [⟨r, 0, .table⟩] s₁)
  | two {r l : Nat} {s₁ s₂ s₃ : State} (ha : Allocated s r s₁) (ha' : Allocated s₁ l s₂)
    (hs₃ : s₃ = s₂ ∨ s₃ = s₂.copyEntries r s₂.root 1) :
    Created s id (State.freePages [⟨r, 0, .table⟩, ⟨l, 0, .table⟩] s₃)
  | done {r l : Nat} {s₁ s₂ s₃ : State} (ha : Allocated s r s₁) (ha' : Allocated s₁ l s₂)
    (hs₃ : isValid (s₂.entry s₂.root 0) = true →
      s₃ = s₂.copyTables r l (addressOf (s₂.entry s₂.root 0))) :
    Created s id { s₃ with
      space := Function.update s₃.space id (some (AddressSpace.fresh r l)) }

theorem create_cases (hpage : ∀ q ∈ s.free, Page s q) (id : Nat)
    (calloc mallocRoot mallocLevel1 : Bool) :
    Created s id (s.create id calloc mallocRoot mallocLevel1) := by
  unfold State.create
  split
  · exact .unchanged
  cases ha₁ : s.addressPageAllocate ⟨0, 0, fun _ => false, []⟩ 0 .table mallocRoot with
  | mk r p₁ =>
  obtain ⟨s₁, sp₁⟩ := p₁
  dsimp only
  cases ha₂ : s₁.addressPageAllocate sp₁ 0 .table mallocLevel1 with
  | mk l p₂ =>
  obtain ⟨s₂, sp₂⟩ := p₂
  dsimp only
  obtain ⟨rfl, rfl, rfl⟩ | ⟨r, rfl, hall₁, rfl⟩ := addressPageAllocate_cases hpage ha₁
  · obtain ⟨rfl, rfl, rfl⟩ | ⟨l, rfl, hall₂, rfl⟩ := addressPageAllocate_cases hpage ha₂
    · exact .unchanged
    · exact .one hall₂
  have hpage₁ : ∀ q ∈ s₁.free, Page s₁ q := fun q hq =>
    (hpage q (hall₁.free ▸ List.mem_cons_of_mem r hq)).same hall₁.same
  obtain ⟨rfl, rfl, rfl⟩ | ⟨l, rfl, hall₂, rfl⟩ := addressPageAllocate_cases hpage₁ ha₂
  · exact .one hall₁
  dsimp only
  split
  · exact .two hall₁ hall₂ (.inl rfl)
  split
  · exact .two hall₁ hall₂ (.inr rfl)
  · refine .done hall₁ hall₂ fun hv => ?_
    rw [if_pos hv]
    rfl

/-! ## Operations on tables -/

theorem isUser_kernelFlags : isUser State.kernelFlags = false := by decide

/-- What a property of the page tables, with pages `ps` that are no one's, has to do with the
    operations on the kernel's tables and on pages of no one.  A new table goes into the root or
    into the first-gigabyte table only if it may. -/
structure TableRules (k1 : Nat) (may : Prop)
    (P : State → Set Nat → Set Nat → List Nat → Prop) : Prop where
  tables : ∀ {s L1 L0 ps}, P s L1 L0 ps → Tables s k1 L1 L0
  page : ∀ {s L1 L0 ps}, P s L1 L0 ps → ∀ q ∈ s.free, Page s q ∧ q ∉ kernelPages s.root k1 L1 L0
  limbo : ∀ {s L1 L0 ps}, P s L1 L0 ps →
    ∀ q ∈ ps, Page s q ∧ q ∉ kernelPages s.root k1 L1 L0 ∧ q ∉ s.free
  newLevel1 : ∀ {s s' L1 L0 ps p j}, P s L1 L0 ps → Allocated s p s' → 0 < j → j < 512 →
    isValid (s.entry s.root j) = false → may →
    P (s'.setEntry s.root j (p ||| pteValid)) (insert p L1) L0 ps
  newLevel0 : ∀ {s s' L1 L0 ps p q j}, P s L1 L0 ps → Allocated s p s' → q = k1 ∨ q ∈ L1 →
    j < 512 → isValid (s.entry q j) = false → (q = k1 → may) →
    P (s'.setEntry q j (p ||| pteValid)) L1 (insert p L0) ps
  leaf : ∀ {s L1 L0 ps q j v}, P s L1 L0 ps → q ∈ L0 → j < 512 → isUser v = false →
    isLeaf v = true → P (s.setEntry q j v) L1 L0 ps
  allocate : ∀ {s s' L1 L0 ps p}, P s L1 L0 ps → Allocated s p s' → P s' L1 L0 (ps ++ [p])
  free : ∀ {s L1 L0 ps p}, P s L1 L0 (p :: ps) → P (s.pmmFreePage p) L1 L0 ps
  forget : ∀ {s L1 L0 ps}, P s L1 L0 ps → P s L1 L0 []
  write : ∀ {s s' L1 L0 ps}, P s L1 L0 ps → Same s s' → s'.free = s.free →
    (∀ q, q % pageSize = 0 → q ∉ ps → ∀ i < 512, s'.entry q i = s.entry q i) → P s' L1 L0 ps

namespace TableRules

variable {may : Prop} {P : State → Set Nat → Set Nat → List Nat → Prop} {ps : List Nat}
  {ok : Bool} {va : Nat} (R : TableRules k1 may P)

include R

theorem pmmAllocPage_cases (h : P s L1 L0 ps) (ha : s.pmmAllocPage = (result, s')) :
    result = none ∧ s' = s ∨ ∃ p, result = some p ∧ Allocated s p s' := by
  have hpages : ∀ q ∈ s.free, Page s q := fun q hq => (R.page h q hq).1
  cases result with
  | none => exact .inl ⟨rfl, pmmAllocPage_none hpages ha⟩
  | some p => exact .inr ⟨p, rfl, pmmAllocPage_some hpages ha⟩

/-- `allocate_next_table` in the kernel's root. -/
theorem allocateNextTable_root (h : P s L1 L0 ps) (hj : j < 512)
    (hmay : may ∨ isValid (s.entry s.root j) = true)
    (ha : s.allocateNextTable s.root j = (ok, s')) :
    ∃ L1', P s' L1' L0 ps ∧ Quiet s s' ∧ (isValid (s.entry s.root j) = true → s' = s) ∧
      (ok = true → (j = 0 → addressOf (s'.entry s.root j) = k1) ∧
        (0 < j → addressOf (s'.entry s.root j) ∈ L1')) := by
  have htables := R.tables h
  have h0 : isValid (s.entry s.root j) = false → 0 < j := by
    refine fun hv => Nat.pos_of_ne_zero ?_
    rintro rfl
    cases htables.entry0.1.symm.trans hv
  obtain ⟨rfl, hv, hl⟩ | ⟨hv, rfl, rfl⟩ | ⟨hv, -, page, s₁, hall, rfl⟩ :=
    allocateNextTable_cases (fun q hq => (R.page h q hq).1) ha
  · refine ⟨L1, h, Quiet.refl _, fun _ => rfl, fun hok => ⟨fun h0 => ?_, fun h0 => ?_⟩⟩
    · rw [h0]
      exact htables.entry0.2.2
    · exact (htables.root j h0 hj hv).2 (hl hok)
  · exact ⟨L1, h, Quiet.refl _, fun _ => rfl, nofun⟩
  · have hra := htables.aligned s.root (mem_kernelPages_root ..)
    have hmay := hmay.resolve_right (by simp [hv])
    refine ⟨insert page L1, R.newLevel1 h hall (h0 hv) hj hv hmay, hall.quiet _ _ _,
      fun hv' => absurd hv' (by simp [hv]), fun _ => ⟨fun he => ?_, fun _ => ?_⟩⟩
    · exact absurd he (Nat.ne_of_gt (h0 hv))
    · rw [State.entry_setEntry _ hra hra hj hj, if_pos ⟨rfl, rfl⟩,
        addressOf_entry (R.page h page hall.mem).1.aligned (by decide)]
      exact Set.mem_insert _ _

/-- `allocate_next_table` in a table below the kernel's root. -/
theorem allocateNextTable_level1 (h : P s L1 L0 ps) (hq : q = k1 ∨ q ∈ L1) (hj : j < 512)
    (hmay : q = k1 → may ∨ isValid (s.entry q j) = true)
    (ha : s.allocateNextTable q j = (ok, s')) :
    ∃ L0', P s' L1 L0' ps ∧ Quiet s s' ∧ (ok = true → addressOf (s'.entry q j) ∈ L0') := by
  have htables := R.tables h
  obtain ⟨rfl, hv, hl⟩ | ⟨hv, rfl, rfl⟩ | ⟨hv, -, page, s₁, hall, rfl⟩ :=
    allocateNextTable_cases (fun q hq => (R.page h q hq).1) ha
  · exact ⟨L0, h, Quiet.refl _, fun hok => (htables.level1 q hq j hj hv).2 (hl hok)⟩
  · exact ⟨L0, h, Quiet.refl _, nofun⟩
  · have hqa := htables.aligned q (.inr (hq.imp_right .inl))
    refine ⟨insert page L0, R.newLevel0 h hall hq hj hv
      (fun he => (hmay he).resolve_right (by simp [hv])), hall.quiet _ _ _, fun _ => ?_⟩
    rw [State.entry_setEntry _ hqa hqa hj hj, if_pos ⟨rfl, rfl⟩,
      addressOf_entry (R.page h page hall.mem).1.aligned (by decide)]
    exact Set.mem_insert _ _

/-- A mapping in the kernel's root. -/
theorem kernelMapPage {pa flags : Nat} (h : P s L1 L0 ps) (hflags : isUser flags = false)
    (hmay : may ∨ pathExists s va = true) (ha : s.kernelMapPage s.root va pa flags = (ok, s')) :
    ∃ L1' L0', P s' L1' L0' ps ∧ Quiet s s' := by
  unfold State.kernelMapPage State.kernelMapLeaf at ha
  simp only [Nat.reduceEqDiff, if_false] at ha
  split at ha
  · cases ha
    exact ⟨L1, L0, h, Quiet.refl s⟩
  next hargs =>
  have hmay₂ : may ∨ isValid (s.entry s.root (tableIndex va 30)) = true := by
    refine hmay.imp_right fun hp => ?_
    simp only [pathExists, Bool.and_eq_true] at hp
    exact hp.1
  split at ha
  · next hal =>
    cases ha
    obtain ⟨L1', h₁, hk, -⟩ := R.allocateNextTable_root h (tableIndex_lt va 30) hmay₂ hal
    exact ⟨L1', L0, h₁, hk⟩
  next s₁ hal =>
  obtain ⟨L1', h₁, hk, hsame, htab⟩ := R.allocateNextTable_root h (tableIndex_lt va 30) hmay₂ hal
  obtain ⟨ht0, ht1⟩ := htab rfl
  generalize hq : addressOf (s₁.entry s.root (tableIndex va 30)) = q at ha ht0 ht1
  have hmem : q = k1 ∨ q ∈ L1' := (Nat.eq_zero_or_pos _).imp ht0 ht1
  -- a table for the first-gigabyte table is needed only if the path is not there yet
  have hmay₁ : q = k1 → may ∨ isValid (s₁.entry q (tableIndex va 21)) = true := by
    refine fun hqk => hmay.imp_right fun hp => ?_
    simp only [pathExists, Bool.and_eq_true, Bool.or_eq_true, decide_eq_true_eq,
      (R.tables h).entry0.2.2] at hp
    rcases hp.2 with hne | hv
    · exact absurd (hqk ▸ ht1 (Nat.pos_of_ne_zero hne)) (R.tables h₁).k1_apart.1
    · rwa [hqk, hsame hp.1]
  split at ha
  · cases ha
    exact ⟨L1', L0, h₁, hk⟩
  split at ha
  · next hal₂ =>
    cases ha
    obtain ⟨L0', h₂, hk₂, -⟩ := R.allocateNextTable_level1 h₁ hmem (tableIndex_lt va 21) hmay₁ hal₂
    exact ⟨L1', L0', h₂, hk.trans hk₂⟩
  next s₂ hal₂ =>
  obtain ⟨L0', h₂, hk₂, htab₂⟩ :=
    R.allocateNextTable_level1 h₁ hmem (tableIndex_lt va 21) hmay₁ hal₂
  split at ha
  · cases ha
    exact ⟨L1', L0', h₂, hk.trans hk₂⟩
  · cases ha
    simp only [not_or, Bool.not_eq_true', Bool.not_eq_false, State.leafArguments,
      decide_eq_true_eq] at hargs
    refine ⟨L1', L0', R.leaf h₂ (htab₂ rfl) (tableIndex_lt va 12) ?_ ?_,
      (hk.trans hk₂).trans ⟨⟨rfl, rfl, rfl, rfl⟩, rfl, rfl⟩⟩
    · rw [isUser, testBit_entry (addressOf_aligned pa) (by decide)]
      exact hflags
    · rw [isLeaf_entry (addressOf_aligned pa)]
      exact hargs.1.2.2.2.1

/-- Allocating a page does not change the kernel's tables. -/
theorem pathExists_allocated (h : P s L1 L0 ps) (ha : Allocated s p s') (va : Nat) :
    pathExists s' va = pathExists s va := by
  have htables := R.tables h
  have hentry : ∀ q ∈ kernelPages s.root k1 L1 L0, ∀ i < 512, s'.entry q i = s.entry q i := by
    intro q hq i hi
    rw [ha.entry q i (htables.aligned q hq) hi, if_neg]
    rintro rfl
    exact (R.page h q ha.mem).2 hq
  have hroot := hentry s.root (mem_kernelPages_root _ _ _ _)
  have hk1 := hentry k1 (mem_kernelPages_k1 _ _ _ _)
  simp only [pathExists, ha.same.root]
  rw [hroot _ (tableIndex_lt va 30), hroot 0 (by decide), htables.entry0.2.2,
    hk1 _ (tableIndex_lt va 21)]

/-- A turn of the loop of `heap_append_pages`. -/
theorem heapAppendPage (h : P s L1 L0 [])
    (hmay : may ∨ pathExists s (s.heapBase + s.heapMappedSize) = true) :
    ∃ L1' L0', P s.heapAppendPage L1' L0' [] ∧ s.heapAppendPage.space = s.space := by
  unfold State.heapAppendPage
  cases hal : s.pmmAllocPage with
  | mk result s₁ =>
  obtain ⟨rfl, rfl⟩ | ⟨page, rfl, hall⟩ := R.pmmAllocPage_cases h hal
  · exact ⟨L1, L0, h, rfl⟩
  have h₁ := R.allocate h hall
  rw [← R.pathExists_allocated h hall, ← hall.same.heap, ← hall.heap] at hmay
  dsimp only
  split
  · next s₂ hmap =>
    obtain ⟨L1', L0', h₂, hq⟩ := R.kernelMapPage h₁ isUser_kernelFlags hmay hmap
    -- the page of the heap is no one's, so it can be returned
    refine ⟨L1', L0', R.free h₂, ?_⟩
    rw [pmmFreePage_eq (R.limbo h₂ page (by simp)).1]
    exact hq.spaces.trans hall.spaces
  · next s₂ hmap =>
    obtain ⟨L1', L0', h₂, hq⟩ := R.kernelMapPage h₁ isUser_kernelFlags hmay hmap
    exact ⟨L1', L0', R.write (R.forget h₂) ⟨rfl, rfl, rfl, rfl⟩ rfl fun _ _ _ _ _ => rfl,
      hq.spaces.trans hall.spaces⟩

theorem freePages {pages : List AddressPage} (h : P s L1 L0 (heldPages pages)) :
    P (State.freePages pages s) L1 L0 [] ∧ Quiet s (State.freePages pages s) := by
  induction pages generalizing s with
  | nil => exact ⟨h, Quiet.refl s⟩
  | cons r rest ih =>
    unfold State.freePages
    by_cases hk : r.kind = .external
    · rw [if_pos hk]
      have hheld : heldPages (r :: rest) = heldPages rest := by simp [heldPages, hk]
      exact ih (hheld ▸ h)
    · rw [if_neg hk]
      have hheld : heldPages (r :: rest) = r.physicalAddress :: heldPages rest := by
        simp [heldPages, hk]
      rw [hheld] at h
      have hpage := (R.limbo h r.physicalAddress (by simp)).1
      obtain ⟨h', hq⟩ := ih (R.free h)
      refine ⟨h', Quiet.trans ⟨pmmFreePage_same hpage, ?_, ?_⟩ hq⟩ <;>
        rw [pmmFreePage_eq hpage] <;> rfl

/-- `kernel_address_space_create` fails, or it has filled the tables of a new address space. -/
theorem create (h : P s L1 L0 []) (id : Nat) (calloc mallocRoot mallocLevel1 : Bool) :
    P (s.create id calloc mallocRoot mallocLevel1) L1 L0 [] ∧
        Quiet s (s.create id calloc mallocRoot mallocLevel1) ∨
      ∃ r l s₂, P s₂ L1 L0 [r, l] ∧ P (s₂.copyTables r l k1) L1 L0 [r, l] ∧
        s.create id calloc mallocRoot mallocLevel1 = { s₂.copyTables r l k1 with
          space := Function.update s.space id (some (AddressSpace.fresh r l)) } := by
  have hfail : ∀ {s₃ : State} {pages : List AddressPage}, P s₃ L1 L0 (heldPages pages) →
      Quiet s s₃ → P (State.freePages pages s₃) L1 L0 [] ∧
        Quiet s (State.freePages pages s₃) :=
    fun h₃ hq₃ => ⟨(R.freePages h₃).1, hq₃.trans (R.freePages h₃).2⟩
  have hc := create_cases (fun q hq => (R.page h q hq).1) id calloc mallocRoot mallocLevel1
  generalize s.create id calloc mallocRoot mallocLevel1 = s' at hc
  cases hc with
  | unchanged => exact .inl ⟨h, Quiet.refl s⟩
  | one ha => exact .inl (hfail (R.allocate h ha) ⟨ha.same, ha.spaces, ha.heap⟩)
  | @two r l s₁ s₂ s₃ ha ha' hs₃ =>
    have h₂ := R.allocate (R.allocate h ha) ha'
    have hq : Quiet s s₂ :=
      Quiet.trans ⟨ha.same, ha.spaces, ha.heap⟩ ⟨ha'.same, ha'.spaces, ha'.heap⟩
    rcases hs₃ with rfl | rfl
    · exact .inl (hfail h₂ hq)
    · refine .inl (hfail (R.write h₂ ⟨rfl, rfl, rfl, rfl⟩ rfl fun q hqa hnot i hi => ?_)
        (hq.trans ⟨⟨rfl, rfl, rfl, rfl⟩, rfl, rfl⟩))
      rw [State.entry_copyEntries hqa (R.limbo h₂ r (by simp)).1.aligned hi, if_neg]
      exact fun he => hnot (by simp [he.1, heldPages])
  | @done r l s₁ s₂ s₃ ha ha' hs₃ =>
    have h₂ := R.allocate (R.allocate h ha) ha'
    have htables := R.tables h₂
    have hs₃ := hs₃ htables.entry0.1
    rw [htables.entry0.2.2] at hs₃
    subst hs₃
    have hspace : s₂.space = s.space := ha'.spaces.trans ha.spaces
    refine .inr ⟨r, l, s₂, h₂, R.write h₂ ⟨rfl, rfl, rfl, rfl⟩ rfl fun q hqa hnot i hi => ?_, ?_⟩
    · exact entry_copyTables_old htables (R.limbo h₂) hqa hnot hi
    · rw [← hspace]
      rfl

end TableRules

end RiscMv.Paging
