import RiscMv.Paging.Layout

/-!
# The user pages of an address space

Unlike `Shares`, what is said here about an address space does not depend on what the kernel maps
for itself later on.  `UserPages` says that the entries for user mode are those of the page records,
one for each.

## Key results
- `SpaceOk.frame`, `SpaceOk.own`: a private table is added
- `SpaceOk.map`, `SpaceOk.unmap`: a page is mapped and unmapped, with its record
-/

namespace RiscMv.Paging

variable {s s' : State} {L1 L0 L1' L0' : Set Nat} {sp sp' : AddressSpace} {p t j va flags : Nat}
  {r : AddressPage}

/-- The entry of a virtual address in the small-page table that an address space has for it. -/
def userEntry (s : State) (sp : AddressSpace) (va : Nat) : Nat :=
  s.entry (addressOf (s.entry sp.level1 (tableIndex va 21))) (tableIndex va 12)

/-- The addresses of the user range. -/
def InUser (va : Nat) : Prop := userImageBase ≤ va ∧ va < userStackTop

/-- A page record: its page is mapped where it says. -/
structure Recorded (s : State) (sp : AddressSpace) (r : AddressPage) : Prop where
  range : InUser r.virtualAddress
  aligned : r.virtualAddress % pageSize = 0
  owned : sp.ownedLevel0 (tableIndex r.virtualAddress 21) = true
  page : r.physicalAddress % pageSize = 0
  entry : ∃ flags, State.userFlags flags = true ∧ userEntry s sp r.virtualAddress =
    r.physicalAddress ||| (pteValid ||| pteUser ||| flags)

/-- The records of user pages and external pages. -/
def AddressSpace.records (sp : AddressSpace) : List AddressPage :=
  sp.pages.filter (·.kind ≠ .table)

/-- The entries for user mode are those of the records. -/
structure UserPages (s : State) (sp : AddressSpace) : Prop where
  entry : ∀ va, InUser va → sp.ownedLevel0 (tableIndex va 21) = true →
    isValid (userEntry s sp va) = true → isUser (userEntry s sp va) = true →
    ∃ r ∈ sp.records, r.virtualAddress = addressOf va
  record : ∀ r ∈ sp.records, Recorded s sp r
  nodup : (sp.records.map (·.virtualAddress)).Nodup

/-- What holds of an address space on its own. -/
structure SpaceOk (s : State) (L1 L0 : Set Nat) (sp : AddressSpace) : Prop where
  linked : Linked s L1 L0 sp
  flat : ∀ j, 8 ≤ j → j < 504 → sp.ownedLevel0 j = false →
    isValid (s.entry sp.level1 j) = true → isLeaf (s.entry sp.level1 j) = false
  injective : ∀ j < 512, ∀ k < 512, sp.ownedLevel0 j = true → sp.ownedLevel0 k = true →
    s.entry sp.level1 j = s.entry sp.level1 k → j = k
  pages : UserPages s sp

/-! ## Indices -/

theorem InUser.index (h : InUser va) : tableIndex va 30 = 0 ∧ 8 ≤ tableIndex va 21 ∧
    tableIndex va 21 < 504 := by
  simp only [InUser, tableIndex, userImageBase, userStackTop] at *
  omega

/-- In the user range the two indices determine the page. -/
theorem InUser.index_eq {vb : Nat} (ha : InUser va) (hb : InUser vb)
    (h21 : tableIndex va 21 = tableIndex vb 21) (h12 : tableIndex va 12 = tableIndex vb 12) :
    addressOf va = addressOf vb := by
  have hdiv : va / pageSize = vb / pageSize := by
    simp only [InUser, tableIndex, userImageBase, userStackTop, pageSize] at *
    omega
  rw [addressOf, addressOf, hdiv]

theorem tableIndex_addressOf (va : Nat) : tableIndex (addressOf va) 21 = tableIndex va 21 ∧
    tableIndex (addressOf va) 12 = tableIndex va 12 := by
  simp only [tableIndex, addressOf, pageSize]
  omega

theorem addressOf_of_aligned (h : va % pageSize = 0) : addressOf va = va := by
  simp only [addressOf, pageSize] at *
  omega

/-! ## Frames -/

theorem Linked.userEntry_congr (h : Linked s L1 L0 sp)
    (ho : sp.ownedLevel0 (tableIndex va 21) = true)
    (hentry : ∀ q ∈ sp.tables, ∀ i < 512, s'.entry q i = s.entry q i) :
    userEntry s' sp va = userEntry s sp va := by
  have ht := (h.level1_table (tableIndex_lt va 21) ho).1
  unfold userEntry
  rw [hentry _ h.level1_mem _ (tableIndex_lt va 21), hentry _ ht.mem _ (tableIndex_lt va 12)]

theorem Recorded.congr (h : Recorded s sp r)
    (howned : ∀ j, sp.ownedLevel0 j = true → sp'.ownedLevel0 j = true)
    (hentry : userEntry s' sp' r.virtualAddress = userEntry s sp r.virtualAddress) :
    Recorded s' sp' r :=
  ⟨h.range, h.aligned, howned _ h.owned, h.page, by rw [hentry]; exact h.entry⟩

theorem SpaceOk.frame (h : SpaceOk s L1 L0 sp) (hL1 : L1 ⊆ L1') (hL0 : L0 ⊆ L0')
    (hentry : ∀ q ∈ sp.tables, ∀ i < 512, s'.entry q i = s.entry q i) : SpaceOk s' L1' L0' sp where
  linked := h.linked.frame hL1 hL0 fun q hq => by
    rcases hq with rfl | rfl
    · exact hentry _ h.linked.root_mem
    · exact hentry _ h.linked.level1_mem
  flat j h8 h504 ho := by
    rw [hentry _ h.linked.level1_mem j (by omega)]
    exact h.flat j h8 h504 ho
  injective j hj k hk := by
    rw [hentry _ h.linked.level1_mem j hj, hentry _ h.linked.level1_mem k hk]
    exact h.injective j hj k hk
  pages := by
    refine ⟨fun va hva ho => ?_, fun r hr => ?_, h.pages.nodup⟩
    · rw [h.linked.userEntry_congr ho hentry]
      exact h.pages.entry va hva ho
    · have hrec := h.pages.record r hr
      exact hrec.congr (fun _ hj => hj) (h.linked.userEntry_congr hrec.owned hentry)

/-- A table record is added. -/
theorem SpaceOk.addTable (h : SpaceOk s L1 L0 sp) :
    SpaceOk s L1 L0 { sp with pages := sp.pages ++ [⟨p, 0, .table⟩] } where
  linked := h.linked.records rfl rfl rfl fun q hq => AddressSpace.tables_append _ hq
  flat := h.flat
  injective := h.injective
  pages := by
    have hrecords : AddressSpace.records { sp with pages := sp.pages ++ [⟨p, 0, .table⟩] } =
        sp.records := by simp [AddressSpace.records]
    refine ⟨fun va hva ho hv hu => ?_, fun r hr => ?_, ?_⟩
    · rw [hrecords]
      exact h.pages.entry va hva ho hv hu
    · rw [hrecords] at hr
      exact (h.pages.record r hr).congr (fun _ hj => hj) rfl
    · rw [hrecords]
      exact h.pages.nodup

/-! ## Private tables -/

/-- The stores with which a new table is put into the first-gigabyte table.  The table has no
    entry for user mode. -/
structure TableAdded (s : State) (sp : AddressSpace) (p j : Nat) (s' : State) : Prop where
  priv : PrivateTable sp p
  aligned : p % pageSize = 0
  range : 8 ≤ j ∧ j < 504
  unowned : sp.ownedLevel0 j = false
  fresh : ∀ k < 512, sp.ownedLevel0 k = true → addressOf (s.entry sp.level1 k) ≠ p
  entry : ∀ q ∈ sp.tables, q ≠ p → ∀ i < 512, s'.entry q i =
    if q = sp.level1 ∧ i = j then p ||| pteValid else s.entry q i
  kernel : ∀ i < 512, isValid (s'.entry p i) = true → isUser (s'.entry p i) = false

theorem Linked.tableAdded (h : Linked s L1 L0 sp) (ht : TableAdded s sp p j s') :
    (∀ i < 512, s'.entry sp.root i = s.entry sp.root i) ∧
    ∀ i < 512, s'.entry sp.level1 i = if i = j then p ||| pteValid else s.entry sp.level1 i := by
  refine ⟨fun i hi => ?_, fun i hi => ?_⟩
  · rw [ht.entry _ h.root_mem ht.priv.ne_root.symm i hi, if_neg (fun he => h.root_ne he.1)]
  · rw [ht.entry _ h.level1_mem ht.priv.ne_level1.symm i hi]
    simp

theorem SpaceOk.own (h : SpaceOk s L1 L0 sp) (ht : TableAdded s sp p j s') :
    SpaceOk s' L1 L0 { sp with ownedLevel0 := Function.update sp.ownedLevel0 j true } := by
  have hl := h.linked
  obtain ⟨hroot, hlevel1⟩ := hl.tableAdded ht
  have howned : ∀ i, Function.update sp.ownedLevel0 j true i = true → i ≠ j →
      sp.ownedLevel0 i = true := fun i hi => (update_true_eq_true.mp hi).resolve_left
  have hother : ∀ va, tableIndex va 21 ≠ j → sp.ownedLevel0 (tableIndex va 21) = true →
      s'.entry (addressOf (s'.entry sp.level1 (tableIndex va 21))) (tableIndex va 12) =
        userEntry s sp va := by
    intro va hne ho
    have hpriv := hl.level1_table (tableIndex_lt va 21) ho
    rw [hlevel1 _ (tableIndex_lt va 21), if_neg hne,
      ht.entry _ hpriv.1.mem (ht.fresh _ (tableIndex_lt va 21) ho) _ (tableIndex_lt va 12),
      if_neg (fun he => hpriv.1.ne_level1 he.1)]
    rfl
  have hne_entry : ∀ k < 512, sp.ownedLevel0 k = true → s.entry sp.level1 k ≠ p ||| pteValid := by
    intro k hk ho he
    exact ht.fresh k hk ho (by rw [he, addressOf_entry ht.aligned (by decide)])
  refine ⟨hl.own ht.priv ht.aligned ht.range hroot hlevel1, ?_, ?_, ?_, ?_, ?_⟩
  · intro i h8 h504 ho
    obtain ⟨hne, ho⟩ := update_true_eq_false.mp ho
    rw [hlevel1 i (by omega), if_neg hne]
    exact h.flat i h8 h504 ho
  · intro i hi k hk ho ho'
    rw [hlevel1 i hi, hlevel1 k hk]
    split <;> split
    · next hij hkj => exact fun _ => hij.trans hkj.symm
    · next hij hkj => exact fun he => absurd he.symm (hne_entry k hk (howned k ho' hkj))
    · next hij hkj => exact fun he => absurd he (hne_entry i hi (howned i ho hij))
    · next hij hkj => exact h.injective i hi k hk (howned i ho hij) (howned k ho' hkj)
  · -- the new table has no entry for user mode
    intro va hva ho hv hu
    by_cases hij : tableIndex va 21 = j
    · have htable : addressOf (s'.entry sp.level1 (tableIndex va 21)) = p := by
        rw [hlevel1 _ (tableIndex_lt va 21), if_pos hij, addressOf_entry ht.aligned (by decide)]
      simp only [userEntry, htable] at hv hu
      rw [ht.kernel _ (tableIndex_lt va 12) hv] at hu
      cases hu
    · have hold := hother va hij (howned _ ho hij)
      simp only [userEntry, hold] at hv hu
      exact h.pages.entry va hva (howned _ ho hij) hv hu
  · intro r hr
    have hrec := h.pages.record r hr
    have hne : tableIndex r.virtualAddress 21 ≠ j := fun he =>
      Bool.false_ne_true (ht.unowned.symm.trans (he ▸ hrec.owned))
    exact hrec.congr (fun i hi => update_true_eq_true.mpr (.inr hi)) (hother _ hne hrec.owned)
  · exact h.pages.nodup

/-! ## Pages -/

/-- A store to the entry of a page in the table that an address space has for it. -/
structure EntryStored (s : State) (sp : AddressSpace) (va v : Nat) (s' : State) : Prop where
  range : InUser va
  owned : sp.ownedLevel0 (tableIndex va 21) = true
  entry : ∀ q ∈ sp.tables, ∀ i < 512, s'.entry q i =
    if q = addressOf (s.entry sp.level1 (tableIndex va 21)) ∧ i = tableIndex va 12 then v
    else s.entry q i

/-- It leaves the root and the first-gigabyte table. -/
theorem Linked.entryStored {v : Nat} (h : Linked s L1 L0 sp) (hst : EntryStored s sp va v s') :
    ∀ q, q = sp.root ∨ q = sp.level1 → ∀ i < 512, s'.entry q i = s.entry q i := by
  have ht := (h.level1_table (tableIndex_lt va 21) hst.owned).1
  rintro q (rfl | rfl) i hi
  · rw [hst.entry _ h.root_mem i hi, if_neg (fun he => ht.ne_root he.1.symm)]
  · rw [hst.entry _ h.level1_mem i hi, if_neg (fun he => ht.ne_level1 he.1.symm)]

/-- A store to the entry of a user page changes that entry only. -/
theorem SpaceOk.userEntry_stored {v : Nat} (h : SpaceOk s L1 L0 sp)
    (hst : EntryStored s sp va v s') {vb : Nat} (hvb : InUser vb)
    (hob : sp.ownedLevel0 (tableIndex vb 21) = true) :
    userEntry s' sp vb = if addressOf vb = addressOf va then v else userEntry s sp vb := by
  obtain ⟨t, he, hta, htp⟩ := h.linked.level1_private _ (tableIndex_lt va 21) hst.owned
  obtain ⟨u, he', hua, hup⟩ := h.linked.level1_private _ (tableIndex_lt vb 21) hob
  have hadr : addressOf (s.entry sp.level1 (tableIndex va 21)) = t := by
    rw [he, addressOf_entry hta (by decide)]
  have hadr' : addressOf (s.entry sp.level1 (tableIndex vb 21)) = u := by
    rw [he', addressOf_entry hua (by decide)]
  unfold userEntry
  rw [h.linked.entryStored hst _ (.inr rfl) _ (tableIndex_lt vb 21), hadr',
    hst.entry u hup.mem _ (tableIndex_lt vb 12), hadr]
  refine if_congr ⟨fun hsame => ?_, fun hsame => ?_⟩ rfl rfl
  · -- the same table is that of the same index
    have h21 : tableIndex vb 21 = tableIndex va 21 := by
      refine h.injective _ (tableIndex_lt vb 21) _ (tableIndex_lt va 21) hob hst.owned ?_
      rw [he, he', hsame.1]
    exact hvb.index_eq hst.range h21 hsame.2
  · have h21 : tableIndex vb 21 = tableIndex va 21 := by
      rw [← (tableIndex_addressOf vb).1, hsame, (tableIndex_addressOf va).1]
    have h12 : tableIndex vb 12 = tableIndex va 12 := by
      rw [← (tableIndex_addressOf vb).2, hsame, (tableIndex_addressOf va).2]
    exact ⟨by rw [← hadr, ← hadr', h21], h12⟩

/-- The records change with the entry that is stored, and the tables stay. -/
theorem SpaceOk.of_stored {v : Nat} (h : SpaceOk s L1 L0 sp) (hst : EntryStored s sp va v s')
    (hroot : sp'.root = sp.root) (hlevel1 : sp'.level1 = sp.level1)
    (howned : sp'.ownedLevel0 = sp.ownedLevel0) (htables : ∀ q ∈ sp.tables, q ∈ sp'.tables)
    (hpages : UserPages s' sp') : SpaceOk s' L1 L0 sp' where
  linked := (h.linked.frame subset_rfl subset_rfl (h.linked.entryStored hst)).records hroot hlevel1
    howned htables
  flat j h8 h504 := by
    rw [hlevel1, howned, h.linked.entryStored hst _ (.inr rfl) j (by omega)]
    exact h.flat j h8 h504
  injective j hj k hk := by
    rw [hlevel1, howned, h.linked.entryStored hst _ (.inr rfl) j hj,
      h.linked.entryStored hst _ (.inr rfl) k hk]
    exact h.injective j hj k hk
  pages := hpages

theorem isValid_user (hp : p % pageSize = 0) :
    isValid (p ||| (pteValid ||| pteUser ||| flags)) = true := by
  rw [isValid, testBit_entry hp (by decide), Nat.testBit_or, Nat.testBit_or]
  simp [pteValid]

/-- A record is in the way only if its page is mapped. -/
theorem UserPages.isValid_of_record (h : UserPages s sp) (hr : r ∈ sp.records) :
    isValid (userEntry s sp r.virtualAddress) = true := by
  obtain ⟨flags, -, he⟩ := (h.record r hr).entry
  rw [he]
  exact isValid_user (h.record r hr).page

/-- A page is mapped, with its record. -/
theorem SpaceOk.map {kind : PageKind} (h : SpaceOk s L1 L0 sp)
    (hst : EntryStored s sp va (p ||| (pteValid ||| pteUser ||| flags)) s')
    (haligned : va % pageSize = 0) (hfree : isValid (userEntry s sp va) = false)
    (hp : p % pageSize = 0) (hflags : State.userFlags flags = true) (hkind : kind ≠ .table) :
    SpaceOk s' L1 L0 { sp with pages := sp.pages ++ [⟨p, va, kind⟩] } := by
  have huser {vb : Nat} := @SpaceOk.userEntry_stored _ _ _ _ _ _ _ h hst vb
  have hrecords : AddressSpace.records { sp with pages := sp.pages ++ [⟨p, va, kind⟩] } =
      sp.records ++ [⟨p, va, kind⟩] := by simp [AddressSpace.records, hkind]
  -- no record has this address: its page would be mapped
  have hnew : ∀ r ∈ sp.records, r.virtualAddress ≠ va := by
    rintro r hr rfl
    rw [h.pages.isValid_of_record hr] at hfree
    cases hfree
  refine h.of_stored hst rfl rfl rfl (fun q hq => AddressSpace.tables_append _ hq) ⟨?_, ?_, ?_⟩
  · intro vb hvb hob hv hu
    rw [hrecords]
    change isValid (userEntry s' sp vb) = true at hv
    change isUser (userEntry s' sp vb) = true at hu
    rw [huser hvb hob] at hv hu
    split at hv
    · next hsame =>
      exact ⟨⟨p, va, kind⟩, by simp, by rw [hsame, addressOf_of_aligned haligned]⟩
    · next hsame =>
      rw [if_neg hsame] at hu
      obtain ⟨r, hr, hrva⟩ := h.pages.entry vb hvb hob hv hu
      exact ⟨r, List.mem_append_left _ hr, hrva⟩
  · intro r hr
    rw [hrecords, List.mem_append, List.mem_singleton] at hr
    rcases hr with hr | rfl
    · have hrec := h.pages.record r hr
      refine hrec.congr (fun _ hj => hj) ?_
      change userEntry s' sp r.virtualAddress = _
      rw [huser hrec.range hrec.owned, if_neg]
      rw [addressOf_of_aligned hrec.aligned, addressOf_of_aligned haligned]
      exact hnew r hr
    · refine ⟨hst.range, haligned, hst.owned, hp, flags, hflags, ?_⟩
      change userEntry s' sp va = _
      rw [huser hst.range hst.owned, if_pos rfl]
  · rw [hrecords, List.map_append, List.nodup_append]
    refine ⟨h.pages.nodup, by simp, fun a ha b hb => ?_⟩
    obtain ⟨r, hr, rfl⟩ := List.mem_map.mp ha
    simp only [List.map_cons, List.map_nil, List.mem_singleton] at hb
    rw [hb]
    exact hnew r hr

theorem AddressSpace.records_erase (sp : AddressSpace) (r : AddressPage) :
    (sp.erase r).records = sp.records.erase r := by
  rw [AddressSpace.records, AddressSpace.records, List.erase_filter]
  rfl

/-- The record of an address is the only one. -/
theorem UserPages.eq_of_va (h : UserPages s sp) {r' : AddressPage} (hr : r ∈ sp.records)
    (hr' : r' ∈ sp.records) (hva : r.virtualAddress = r'.virtualAddress) : r = r' :=
  List.inj_on_of_nodup_map h.nodup hr hr' hva

theorem UserPages.mem_erase_iff (h : UserPages s sp) {r' : AddressPage} (hr : r ∈ sp.records) :
    r' ∈ (sp.erase r).records ↔ r' ∈ sp.records ∧ r'.virtualAddress ≠ r.virtualAddress := by
  rw [AddressSpace.records_erase, (List.Nodup.of_map _ h.nodup).mem_erase_iff]
  constructor
  · rintro ⟨hne, hr'⟩
    exact ⟨hr', fun he => hne (h.eq_of_va hr' hr he)⟩
  · rintro ⟨hr', hne⟩
    exact ⟨fun he => hne (by rw [he]), hr'⟩

/-- A page is unmapped, with its record. -/
theorem SpaceOk.unmap (h : SpaceOk s L1 L0 sp) (hr : r ∈ sp.records)
    (hst : EntryStored s sp r.virtualAddress 0 s') : SpaceOk s' L1 L0 (sp.erase r) := by
  have hrec := h.pages.record r hr
  have hkind : r.kind ≠ .table := by
    simpa using (List.mem_filter.mp hr).2
  have huser {vb : Nat} := @SpaceOk.userEntry_stored _ _ _ _ _ _ _ h hst vb
  refine h.of_stored hst rfl rfl rfl (fun q hq => AddressSpace.tables_erase hkind hq) ⟨?_, ?_, ?_⟩
  · intro vb hvb hob hv hu
    change isValid (userEntry s' sp vb) = true at hv
    change isUser (userEntry s' sp vb) = true at hu
    rw [huser hvb hob] at hv hu
    split at hv
    · simp [isValid] at hv
    · next hsame =>
      rw [if_neg hsame] at hu
      obtain ⟨r', hr', hva⟩ := h.pages.entry vb hvb hob hv hu
      refine ⟨r', (h.pages.mem_erase_iff hr).mpr ⟨hr', fun he => hsame ?_⟩, hva⟩
      rw [← hva, he, addressOf_of_aligned hrec.aligned]
  · intro r' hr'
    obtain ⟨hr', hne⟩ := (h.pages.mem_erase_iff hr).mp hr'
    have hrec' := h.pages.record r' hr'
    refine hrec'.congr (fun _ hj => hj) ?_
    change userEntry s' sp r'.virtualAddress = _
    rw [huser hrec'.range hrec'.owned, if_neg]
    rwa [addressOf_of_aligned hrec'.aligned, addressOf_of_aligned hrec.aligned]
  · rw [AddressSpace.records_erase]
    exact h.pages.nodup.sublist (List.Sublist.map _ List.erase_sublist)

end RiscMv.Paging
