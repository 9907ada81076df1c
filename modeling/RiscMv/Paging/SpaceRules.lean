import RiscMv.Paging.UserPages

/-!
# The operations on one address space

The operations on an address space take private tables, and map and unmap pages one after the other.
`SpaceRules` says what an invariant has to do with each of these steps; the operations then keep
every such invariant.

## Key results
- `SpaceRules.mapAnonymous`, `SpaceRules.mapPhysical`, `SpaceRules.unmapRange`
-/

namespace RiscMv.Paging

variable {s s' : State} {sp sp' : AddressSpace} {p va pa v flags i n j size : Nat} {ps : List Nat}
  {r : AddressPage} {malloc : Nat → Bool × Bool}

/-! ## Records -/

/-- There is a record for the page. -/
def AddressSpace.Maps (sp : AddressSpace) (va : Nat) : Prop :=
  ∃ r ∈ sp.records, r.virtualAddress = va

theorem AddressSpace.mem_records : r ∈ sp.records ↔ r ∈ sp.pages ∧ r.kind ≠ .table := by
  simp [AddressSpace.records]

theorem AddressSpace.maps_append {p : Nat} {kind : PageKind} (hkind : kind ≠ .table) :
    ({ sp with pages := sp.pages ++ [⟨p, va, kind⟩] } : AddressSpace).Maps v ↔
      sp.Maps v ∨ v = va := by
  simp only [AddressSpace.Maps, AddressSpace.mem_records, List.mem_append, List.mem_singleton]
  constructor
  · rintro ⟨r, ⟨hr | rfl, hk⟩, rfl⟩
    · exact .inl ⟨r, ⟨hr, hk⟩, rfl⟩
    · exact .inr rfl
  · rintro (⟨r, ⟨hr, hk⟩, rfl⟩ | rfl)
    · exact ⟨r, ⟨.inl hr, hk⟩, rfl⟩
    · exact ⟨_, ⟨.inr rfl, hkind⟩, rfl⟩

theorem AddressSpace.maps_congr (hrecords : sp'.records = sp.records) : sp'.Maps v ↔ sp.Maps v := by
  rw [AddressSpace.Maps, AddressSpace.Maps, hrecords]

theorem addressFindUserPage_records (h : State.addressFindUserPage sp va = some r) :
    r ∈ sp.records ∧ r.virtualAddress = va := by
  have hr := List.find?_some h
  simp only [decide_eq_true_eq] at hr
  exact ⟨AddressSpace.mem_records.mpr ⟨List.mem_of_find?_eq_some h, hr.1⟩, hr.2⟩

theorem AddressSpace.Maps.find (h : sp.Maps va) :
    ∃ r, State.addressFindUserPage sp va = some r := by
  obtain ⟨r, hr, hrva⟩ := h
  obtain ⟨hmem, hkind⟩ := AddressSpace.mem_records.mp hr
  exact Option.isSome_iff_exists.mp (List.find?_isSome.mpr ⟨r, hmem, by simp [hkind, hrva]⟩)

theorem maps_of_unmappable (h : s.unmappable sp va = true) : sp.Maps va := by
  unfold State.unmappable at h
  split at h
  · cases h
  · simp only [Bool.and_eq_true] at h
    obtain ⟨r, hr⟩ := Option.isSome_iff_exists.mp h.2
    exact ⟨r, addressFindUserPage_records hr⟩

theorem AddressSpace.maps_of_erase (h : (sp.erase r).Maps v) : sp.Maps v := by
  obtain ⟨r', hr', hv⟩ := h
  rw [AddressSpace.records_erase] at hr'
  exact ⟨r', List.mem_of_mem_erase hr', hv⟩

theorem AddressSpace.Maps.erase (h : sp.Maps v) (hne : v ≠ r.virtualAddress) :
    (sp.erase r).Maps v := by
  obtain ⟨r', hr', rfl⟩ := h
  refine ⟨r', ?_, rfl⟩
  rw [AddressSpace.records_erase, List.mem_erase_of_ne (fun he => hne (by rw [he]))]
  exact hr'

/-- What the operations leave alone, of the state and of the space they work on. -/
structure Kept (s : State) (sp : AddressSpace) (s' : State) (sp' : AddressSpace) : Prop where
  same : Same s s'
  spaces : s'.space = s.space
  heap : s'.heapMappedSize = s.heapMappedSize
  root : sp'.root = sp.root
  level1 : sp'.level1 = sp.level1
  owned : ∀ j, sp.ownedLevel0 j = true → sp'.ownedLevel0 j = true

theorem Kept.refl (s : State) (sp : AddressSpace) : Kept s sp s sp :=
  ⟨Same.refl s, rfl, rfl, rfl, rfl, fun _ h => h⟩

theorem Kept.trans {s₁ s₂ s₃ : State} {sp₁ sp₂ sp₃ : AddressSpace} (h : Kept s₁ sp₁ s₂ sp₂)
    (h' : Kept s₂ sp₂ s₃ sp₃) : Kept s₁ sp₁ s₃ sp₃ :=
  ⟨h.same.trans h'.same, h'.spaces.trans h.spaces, h'.heap.trans h.heap, h'.root.trans h.root,
    h'.level1.trans h.level1, fun j hj => h'.owned j (h.owned j hj)⟩

/-- A store to a table, with other records. -/
theorem kept_store (s : State) (sp : AddressSpace) (t i v : Nat) (pages : List AddressPage) :
    Kept s sp (s.setEntry t i v) { sp with pages := pages } :=
  ⟨⟨rfl, rfl, rfl, rfl⟩, rfl, rfl, rfl, rfl, fun _ hj => hj⟩

theorem kept_allocated (ha : Allocated s p s') (pages : List AddressPage) :
    Kept s sp s' { sp with pages := pages } :=
  ⟨ha.same, ha.spaces, ha.heap, rfl, rfl, fun _ hj => hj⟩

theorem kept_erase (s : State) (sp : AddressSpace) (va : Nat) (r : AddressPage) :
    Kept s sp (s.clearPage sp va) (sp.erase r) := by
  unfold State.clearPage
  split
  · exact kept_store _ _ _ _ _ _
  · exact ⟨Same.refl s, rfl, rfl, rfl, rfl, fun _ hj => hj⟩

theorem kept_free (s : State) (sp : AddressSpace) (p : Nat) : Kept s sp (s.pmmFreePage p) sp := by
  unfold State.pmmFreePage
  split
  · exact Kept.refl s sp
  · exact ⟨⟨rfl, rfl, rfl, rfl⟩, rfl, rfl, rfl, rfl, fun _ hj => hj⟩

/-- The pages from page `i` of a range on. -/
def pageRange (pa i n : Nat) : List Nat := (List.range' i n).map fun k => pa + k * pageSize

theorem pageRange_succ (pa i n : Nat) :
    pageRange pa i (n + 1) = (pa + i * pageSize) :: pageRange pa (i + 1) n := rfl

theorem mem_pageRange : v ∈ pageRange pa i n ↔ ∃ k, i ≤ k ∧ k < i + n ∧ v = pa + k * pageSize := by
  simp [pageRange, and_assoc, eq_comm]

theorem notMem_pageRange_succ : pa + i * pageSize ∉ pageRange pa (i + 1) n := by
  rw [mem_pageRange]
  rintro ⟨k, hik, -, he⟩
  simp only [pageSize] at he
  omega

/-! ## The rules -/

/-- A page of the user range that is not mapped, in a private table. -/
structure Vacant (s : State) (sp : AddressSpace) (va : Nat) : Prop where
  range : InUser va
  aligned : va % pageSize = 0
  owned : sp.ownedLevel0 (tableIndex va 21) = true
  invalid : isValid (userEntry s sp va) = false

/-- A page of the user range with a private table and a record. -/
structure Placed (sp : AddressSpace) (va : Nat) : Prop where
  range : InUser va
  owned : sp.ownedLevel0 (tableIndex va 21) = true
  maps : sp.Maps va

/-- What a property of the page tables and of one address space, with pages `ps` that are no one's,
    has to do with the operations on that address space.  Where it is `strict`, the entries for
    user mode are those of the records. -/
structure SpaceRules (strict : Prop) (P : State → AddressSpace → List Nat → Prop) : Prop where
  page : ∀ {s sp ps}, P s sp ps → ∀ q ∈ s.free, Page s q
  level1 : ∀ {s sp ps}, P s sp ps → sp.level1 % pageSize = 0
  forget : ∀ {s sp ps}, P s sp ps → P s sp []
  addTable : ∀ {s s' sp ps p}, P s sp ps → Allocated s p s' →
    P s' { sp with pages := sp.pages ++ [⟨p, 0, .table⟩] } ps
  own : ∀ {s s' sp ps p j}, P s sp ps → Allocated s p s' → 8 ≤ j ∧ j < 504 →
    sp.ownedLevel0 j = false →
    (isValid (s.entry sp.level1 j) = true → isLeaf (s.entry sp.level1 j) = false) →
    P ((if isValid (s.entry sp.level1 j) then s'.copyEntries p (addressOf (s.entry sp.level1 j)) 0
        else s').setEntry sp.level1 j (p ||| pteValid))
      { sp with
        pages := sp.pages ++ [⟨p, 0, .table⟩]
        ownedLevel0 := Function.update sp.ownedLevel0 j true } ps
  mapUser : ∀ {s s' sp p va flags}, P s sp [] → Allocated s p s' → Vacant s sp va →
    State.userFlags flags = true →
    P (s'.setEntry (addressOf (s.entry sp.level1 (tableIndex va 21))) (tableIndex va 12)
      (p ||| (pteValid ||| pteUser ||| flags)))
      { sp with pages := sp.pages ++ [⟨p, va, .user⟩] } []
  mapExternal : ∀ {s sp ps p va flags}, P s sp (p :: ps) → Vacant s sp va →
    State.userFlags flags = true →
    P (s.setEntry (addressOf (s.entry sp.level1 (tableIndex va 21))) (tableIndex va 12)
      (p ||| (pteValid ||| pteUser ||| flags)))
      { sp with pages := sp.pages ++ [⟨p, va, .external⟩] } ps
  unmap : ∀ {s sp va r}, P s sp [] → Placed sp va → State.addressFindUserPage sp va = some r →
    P (s.clearPage sp va) (sp.erase r) [] ∧
      (r.kind ≠ .external → P ((s.clearPage sp va).pmmFreePage r.physicalAddress) (sp.erase r) [])
  owned : ∀ {s sp va}, P s sp [] → InUser va → s.unmappable sp va = true →
    sp.ownedLevel0 (tableIndex va 21) = true
  pages : strict → ∀ {s sp ps}, P s sp ps → UserPages s sp
  lookup : ∀ {s sp va}, P s sp [] → Placed sp va → s.addressLookupLevel0 sp va ≠ none

namespace SpaceRules

variable {strict : Prop} {P : State → AddressSpace → List Nat → Prop} (R : SpaceRules strict P)

include R

/-- `address_private_level0` gives the table for the index. -/
theorem addressPrivateLevel0 {malloc : Bool} {result : Option Nat} (h : P s sp ps)
    (hj : 8 ≤ j ∧ j < 504) (ha : s.addressPrivateLevel0 sp j malloc = (result, s', sp')) :
    P s' sp' ps ∧ Kept s sp s' sp' ∧ sp'.records = sp.records ∧
      ∀ t, result = some t → sp'.ownedLevel0 j = true ∧ t = addressOf (s'.entry sp'.level1 j) := by
  unfold State.addressPrivateLevel0 at ha
  dsimp only at ha
  split at ha
  · cases ha
    exact ⟨h, Kept.refl _ _, rfl, fun _ ht => by cases ht⟩
  split at ha
  · next howned =>
    cases ha
    refine ⟨h, Kept.refl _ _, rfl, fun t ht => ⟨howned, ?_⟩⟩
    split at ht <;> cases ht
    rfl
  next howned =>
  split at ha
  · next hal =>
    obtain ⟨-, rfl, rfl⟩ | ⟨p, hres, -⟩ := addressPageAllocate_cases (R.page h) hal
    · cases ha
      exact ⟨h, Kept.refl _ _, rfl, fun _ ht => by cases ht⟩
    · cases hres
  next page s₁ sp₁ hal =>
  obtain ⟨hres, -⟩ | ⟨p, hres, hall, rfl⟩ := addressPageAllocate_cases (R.page h) hal
  · cases hres
  cases hres
  have hrecords : AddressSpace.records { sp with pages := sp.pages ++ [⟨page, 0, .table⟩] } =
      sp.records := by simp [AddressSpace.records]
  have hkept : Kept s sp s₁ { sp with pages := sp.pages ++ [⟨page, 0, .table⟩] } :=
    kept_allocated hall _
  split at ha
  · cases ha
    exact ⟨R.addTable h hall, hkept, hrecords, fun _ ht => by cases ht⟩
  next hguard =>
  simp only [not_or, not_and, Bool.not_eq_true] at hguard
  have hown := R.own h hall hj (Bool.eq_false_iff.mpr howned) fun hv => (hguard.2 hv).1
  cases ha
  refine ⟨hown, hkept.trans ⟨?_, ?_, ?_, rfl, rfl, fun i hi => ?_⟩, hrecords,
    fun t ht => ⟨Function.update_self .., ?_⟩⟩
  · split <;> exact ⟨rfl, rfl, rfl, rfl⟩
  · split <;> rfl
  · split <;> rfl
  · simp only [Function.update_apply]
    split
    · rfl
    · exact hi
  · cases ht
    have hlevel1 := R.level1 h
    rw [State.entry_setEntry _ hlevel1 hlevel1 (by omega) (by omega), if_pos ⟨rfl, rfl⟩,
      addressOf_entry (R.page h page hall.mem).aligned (by decide)]

/-! ## `kernel_address_space_map_anonymous` -/

theorem mapAnonymous {mallocTable mallocPage : Bool} (h : P s sp [])
    (ha : s.mapAnonymous sp va flags mallocTable mallocPage = (s', sp')) :
    P s' sp' [] ∧ Kept s sp s' sp' ∧ ∀ v, sp'.Maps v → sp.Maps v ∨
      s.mapAnonymousOk sp va flags mallocTable mallocPage = true ∧ v = va := by
  unfold State.mapAnonymous at ha
  unfold State.mapAnonymousOk
  split at ha
  · cases ha
    exact ⟨h, Kept.refl _ _, fun v hv => .inl hv⟩
  next hargs =>
  rw [if_neg hargs]
  simp only [not_or, not_lt, ge_iff_le, not_le, Decidable.not_not, Bool.not_eq_true',
    Bool.not_eq_false] at hargs
  obtain ⟨haligned, hbase, htop, hflags, -⟩ := hargs
  have hva : InUser va := ⟨hbase, htop⟩
  split at ha
  · next hal =>
    cases ha
    obtain ⟨h₁, hk, hrec, -⟩ := R.addressPrivateLevel0 h hva.index.2 hal
    exact ⟨h₁, hk, fun v hv => .inl ((AddressSpace.maps_congr hrec).mp hv)⟩
  next level0 s₁ sp₁ hal =>
  obtain ⟨h₁, hk, hrec, hres⟩ := R.addressPrivateLevel0 h hva.index.2 hal
  obtain ⟨ho, rfl⟩ := hres level0 rfl
  split at ha
  · cases ha
    exact ⟨h₁, hk, fun v hv => .inl ((AddressSpace.maps_congr hrec).mp hv)⟩
  next hinvalid =>
  split at ha
  · next hal₂ =>
    obtain ⟨-, rfl, rfl⟩ | ⟨p, hnone, -⟩ := addressPageAllocate_cases (R.page h₁) hal₂
    · cases ha
      exact ⟨h₁, hk, fun v hv => .inl ((AddressSpace.maps_congr hrec).mp hv)⟩
    · cases hnone
  next page s₂ sp₂ hal₂ =>
  obtain ⟨hnone, -⟩ | ⟨p, hsome, hall, rfl⟩ := addressPageAllocate_cases (R.page h₁) hal₂
  · cases hnone
  cases hsome
  cases ha
  have hvacant : Vacant s₁ sp₁ va := ⟨hva, haligned, ho, Bool.eq_false_iff.mpr hinvalid⟩
  refine ⟨R.mapUser h₁ hall hvacant hflags,
    (hk.trans (kept_allocated hall _)).trans (kept_store _ _ _ _ _ _), fun v hv => ?_⟩
  rcases (AddressSpace.maps_append (by nofun)).mp hv with hv | rfl
  · exact .inl ((AddressSpace.maps_congr hrec).mp hv)
  · refine .inr ⟨?_, rfl⟩
    simp [hal₂, hinvalid]

/-! ## `kernel_address_space_map_physical` -/

theorem mapPages {m : Nat} (hflags : State.userFlags flags = true) (haligned : va % pageSize = 0)
    (hva : userImageBase ≤ va) (hend : va + (i + n) * pageSize ≤ userStackTop)
    (h : P s sp (pageRange pa i n))
    (ha : State.mapPages va pa flags malloc n i s sp = (m, s', sp')) :
    ∃ d, m = i + d ∧ P s' sp' [] ∧ Kept s sp s' sp' ∧
      (∀ v, sp'.Maps v ↔ sp.Maps v ∨ v ∈ pageRange va i d) ∧
      (∀ v ∈ pageRange va i d, Placed sp' v) ∧ (strict → ∀ v ∈ pageRange va i d, ¬ sp.Maps v) := by
  induction n generalizing i s sp with
  | zero =>
    cases ha
    exact ⟨0, rfl, R.forget h, Kept.refl _ _, by simp [pageRange], by simp [pageRange],
      by simp [pageRange]⟩
  | succ n ih =>
    have hpage : InUser (va + i * pageSize) := by
      refine ⟨by omega, ?_⟩
      simp only [pageSize] at hend ⊢
      omega
    -- the loop stops here, with the records of `sp₁`
    have hstop : ∀ {s₁ : State} {sp₁ : AddressSpace}, P s₁ sp₁ (pageRange pa i (n + 1)) →
        Kept s sp s₁ sp₁ → sp₁.records = sp.records → ∃ d, i = i + d ∧ P s₁ sp₁ [] ∧
          Kept s sp s₁ sp₁ ∧ (∀ v, sp₁.Maps v ↔ sp.Maps v ∨ v ∈ pageRange va i d) ∧
          (∀ v ∈ pageRange va i d, Placed sp₁ v) ∧
          (strict → ∀ v ∈ pageRange va i d, ¬ sp.Maps v) := by
      intro s₁ sp₁ h₁ hk hrec
      exact ⟨0, rfl, R.forget h₁, hk, by simp [pageRange, AddressSpace.maps_congr hrec],
        by simp [pageRange], by simp [pageRange]⟩
    unfold State.mapPages at ha
    dsimp only at ha
    split at ha
    · cases ha
      exact hstop h (Kept.refl _ _) rfl
    split at ha
    · next hal =>
      cases ha
      obtain ⟨h₁, hk, hrec, -⟩ := R.addressPrivateLevel0 h hpage.index.2 hal
      exact hstop h₁ hk hrec
    next level0 s₁ sp₁ hal =>
    obtain ⟨h₁, hk, hrec, hres⟩ := R.addressPrivateLevel0 h hpage.index.2 hal
    obtain ⟨ho, rfl⟩ := hres level0 rfl
    split at ha
    · cases ha
      exact hstop h₁ hk hrec
    next hcond =>
    simp only [not_or, Bool.not_eq_true] at hcond
    have hvacant : Vacant s₁ sp₁ (va + i * pageSize) :=
      ⟨hpage, by rw [Nat.add_mul_mod_self_right]; exact haligned, ho, hcond.1⟩
    obtain ⟨d, rfl, h', hk', hmaps, hplaced, hnot⟩ := ih (by rw [Nat.add_right_comm]; exact hend)
      (R.mapExternal h₁ hvacant hflags) ha
    have hmaps₁ : ∀ v, AddressSpace.Maps { sp₁ with pages := sp₁.pages ++ [⟨pa + i * pageSize,
        va + i * pageSize, .external⟩] } v ↔ sp.Maps v ∨ v = va + i * pageSize := fun v => by
      rw [AddressSpace.maps_append PageKind.noConfusion, AddressSpace.maps_congr hrec]
    refine ⟨d + 1, by omega, h', (hk.trans (kept_store _ _ _ _ _ _)).trans hk', fun v => ?_,
      fun v hv => ?_, fun hs v hv => ?_⟩
    · rw [hmaps, hmaps₁, or_assoc, pageRange_succ, List.mem_cons]
    · rcases List.mem_cons.mp hv with rfl | hv
      · exact ⟨hpage, hk'.owned _ ho, (hmaps _).mpr (.inl ((hmaps₁ _).mpr (.inr rfl)))⟩
      · exact hplaced v hv
    · rcases List.mem_cons.mp hv with rfl | hv
      · -- the page had no record: its entry was not valid
        rw [← AddressSpace.maps_congr hrec]
        rintro ⟨r, hr, hrva⟩
        have hvalid := (R.pages hs h₁).isValid_of_record hr
        rw [hrva] at hvalid
        cases hvalid.symm.trans hcond.1
      · exact fun hm => hnot hs v hv ((hmaps₁ v).mpr (.inl hm))

/-- The first page of a range is unmapped: the others are still mapped. -/
theorem unmap_first (h : P s sp [])
    (hplaced : ∀ v ∈ pageRange va i (n + 1), Placed sp v) :
    ∃ r, State.addressFindUserPage sp (va + i * pageSize) = some r ∧
      (∀ v ∈ pageRange va (i + 1) n, Placed (sp.erase r) v) ∧
      ∀ v, (sp.erase r).Maps v ∧ (strict → v ∉ pageRange va (i + 1) n) →
        sp.Maps v ∧ (strict → v ∉ pageRange va i (n + 1)) := by
  obtain ⟨r, hfind⟩ := (hplaced _ List.mem_cons_self).maps.find
  obtain ⟨hr, hrva⟩ := addressFindUserPage_records hfind
  refine ⟨r, hfind, fun v hv => ?_, fun v ⟨hv, hout⟩ => ⟨AddressSpace.maps_of_erase hv,
    fun hs hmem => (List.mem_cons.mp hmem).elim (fun he => ?_) (hout hs)⟩⟩
  · have hold := hplaced v (List.mem_cons_of_mem _ hv)
    refine ⟨hold.range, hold.owned, hold.maps.erase fun he => ?_⟩
    rw [he, hrva] at hv
    exact notMem_pageRange_succ hv
  · obtain ⟨r', hr', hv⟩ := hv
    exact (((R.pages hs h).mem_erase_iff hr).mp hr').2 (by rw [hv, he, hrva])

theorem rollback (h : P s sp []) (hplaced : ∀ v ∈ pageRange va i n, Placed sp v)
    (ha : State.rollback va n i s sp = (s', sp')) :
    P s' sp' [] ∧ Kept s sp s' sp' ∧
      ∀ v, sp'.Maps v → sp.Maps v ∧ (strict → v ∉ pageRange va i n) := by
  induction n generalizing i s sp with
  | zero =>
    cases ha
    exact ⟨h, Kept.refl _ _, fun v hv => ⟨hv, fun _ hmem => by cases hmem⟩⟩
  | succ n ih =>
    obtain ⟨r, hfind, hrest, herase⟩ := R.unmap_first h hplaced
    unfold State.rollback at ha
    simp only [State.removeRecord, hfind] at ha
    obtain ⟨h', hk, hsub⟩ := ih (R.unmap h (hplaced _ List.mem_cons_self) hfind).1 hrest ha
    exact ⟨h', (kept_erase _ _ _ _).trans hk, fun v hv => herase v (hsub v hv)⟩

theorem mapPhysical (h : P s sp [])
    (hl : pa % pageSize = 0 → s.direct (pa + size - 1) = true →
      P s sp (pageRange pa 0 (size / pageSize)))
    (ha : s.mapPhysical sp va pa size flags malloc = (s', sp')) :
    P s' sp' [] ∧ Kept s sp s' sp' ∧
      (strict → ∀ v, sp'.Maps v → sp.Maps v ∨ s.mapPhysicalOk sp va pa size flags malloc = true ∧
        va ≤ v ∧ v < va + size ∧ v % pageSize = 0) := by
  unfold State.mapPhysical at ha
  unfold State.mapPhysicalOk
  split at ha
  · cases ha
    exact ⟨h, Kept.refl _ _, fun _ v hv => .inl hv⟩
  next hargs =>
  rw [if_neg hargs]
  simp only [not_or, not_lt, gt_iff_lt, Decidable.not_not, Bool.not_eq_true',
    Bool.not_eq_false] at hargs
  obtain ⟨-, haligned, hpa, hsize, hva, hend, -, hdirect, hflags⟩ := hargs
  have hpages : size / pageSize * pageSize = size :=
    Nat.div_mul_cancel (Nat.dvd_of_mod_eq_zero hsize)
  cases hmap : State.mapPages va pa flags malloc (size / pageSize) 0 s sp with
  | mk m rest =>
    obtain ⟨s₁, sp₁⟩ := rest
    rw [hmap] at ha
    obtain ⟨d, rfl, h₁, hk, hmaps, hplaced, hnot⟩ := R.mapPages hflags haligned hva
      (by rw [Nat.zero_add, hpages]; exact hend) (hl hpa hdirect) hmap
    rw [Nat.zero_add] at ha ⊢
    dsimp only at ha
    split at ha
    · next hall =>
      cases ha
      refine ⟨h₁, hk, fun _ v hv => ((hmaps v).mp hv).imp_right fun hv => ?_⟩
      obtain ⟨k, -, hkd, rfl⟩ := mem_pageRange.mp hv
      refine ⟨decide_eq_true hall, by omega, ?_, ?_⟩
      · rw [← hpages, ← hall]
        have := Nat.mul_lt_mul_of_pos_right (Nat.zero_add d ▸ hkd) (show 0 < pageSize by decide)
        omega
      · rw [Nat.add_mul_mod_self_right]
        exact haligned
    · obtain ⟨h', hk', hsub⟩ := R.rollback h₁ hplaced ha
      refine ⟨h', hk.trans hk', fun hs v hv => .inl ?_⟩
      obtain ⟨hv, hne⟩ := hsub v hv
      exact ((hmaps v).mp hv).resolve_right (hne hs)

/-! ## `kernel_address_space_unmap_range` -/

theorem unmapPages (h : P s sp []) (hplaced : ∀ v ∈ pageRange va i n, Placed sp v)
    (ha : State.unmapPages va n i s sp = (s', sp')) :
    P s' sp' [] ∧ Kept s sp s' sp' ∧
      ∀ v, sp'.Maps v → sp.Maps v ∧ (strict → v ∉ pageRange va i n) := by
  induction n generalizing i s sp with
  | zero =>
    cases ha
    exact ⟨h, Kept.refl _ _, fun v hv => ⟨hv, fun _ hmem => by cases hmem⟩⟩
  | succ n ih =>
    have hfirst : Placed sp (va + i * pageSize) := hplaced _ List.mem_cons_self
    obtain ⟨r, hfind, hrest, herase⟩ := R.unmap_first h hplaced
    obtain ⟨hclear, hfree⟩ := R.unmap h hfirst hfind
    unfold State.unmapPages at ha
    cases ht : s.addressLookupLevel0 sp (va + i * pageSize) with
    | none => exact absurd ht (R.lookup h hfirst)
    | some t =>
      have hstore : s.clearPage sp (va + i * pageSize) =
          s.setEntry t (tableIndex (va + i * pageSize) 12) 0 := by rw [State.clearPage, ht]
      simp only [ht, hfind, ← hstore] at ha
      -- a page of the space's own is freed
      obtain ⟨h', hk, hsub⟩ := ih (by split; exacts [hclear, hfree ‹_›]) hrest ha
      have hkept := kept_erase s sp (va + i * pageSize) r
      exact ⟨h', (hkept.trans (by split; exacts [Kept.refl _ _, kept_free _ _ _])).trans hk,
        fun v hv => herase v (hsub v hv)⟩

theorem unmapRange (h : P s sp []) (ha : s.unmapRange sp va size = (s', sp')) :
    P s' sp' [] ∧ Kept s sp s' sp' ∧ (strict → ∀ v, sp'.Maps v → sp.Maps v ∧
      (s.unmapRangeOk sp va size = true → ¬ (va ≤ v ∧ v < va + size))) := by
  unfold State.unmapRange at ha
  unfold State.unmapRangeOk
  split at ha
  · next hargs =>
    cases ha
    rw [if_pos hargs]
    exact ⟨h, Kept.refl _ _, fun _ v hv => ⟨hv, Bool.noConfusion⟩⟩
  next hargs =>
  rw [if_neg hargs]
  split at ha
  · next hall =>
    simp only [not_or, not_lt, gt_iff_lt, Decidable.not_not] at hargs
    obtain ⟨-, haligned, hsize, hva, hend⟩ := hargs
    have hplaced : ∀ v ∈ pageRange va 0 (size / pageSize), Placed sp v := by
      intro v hv
      obtain ⟨k, -, hk, rfl⟩ := mem_pageRange.mp hv
      have hun := List.all_eq_true.mp hall k (List.mem_range.mpr (by omega))
      have hin : InUser (va + k * pageSize) := by
        refine ⟨by omega, ?_⟩
        simp only [pageSize] at *
        omega
      exact ⟨hin, R.owned h hin hun, maps_of_unmappable hun⟩
    obtain ⟨h', hk, hsub⟩ := R.unmapPages h hplaced ha
    refine ⟨h', hk, fun hs v hv => ⟨(hsub v hv).1, fun _ hrange => ?_⟩⟩
    obtain ⟨⟨r, hr, rfl⟩, hne⟩ := hsub v hv
    have hva := ((R.pages hs h).record r hr).aligned
    refine hne hs (mem_pageRange.mpr
      ⟨(r.virtualAddress - va) / pageSize, Nat.zero_le _, ?_, ?_⟩) <;>
    · simp only [pageSize] at *
      omega
  · next hall =>
    cases ha
    exact ⟨h, Kept.refl _ _, fun _ v hv => ⟨hv, fun hok => absurd hok hall⟩⟩

end SpaceRules

end RiscMv.Paging
