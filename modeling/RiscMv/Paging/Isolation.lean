import RiscMv.Paging.Coherence
import RiscMv.Paging.Walls

/-!
# Isolation of address spaces

What user mode can reach through the root of an address space: the pages that were mapped in it,
each with the permissions it was mapped with, and nothing else.

## Key results
- `Walls.translate_record`, `Walls.record_of_translate`: user mode reaches the pages with a record
- `step_apart`: every operation keeps the address spaces apart
- `spaces_isolated`: isolation, exclusion of writable code, and agreement of
  `kernel_address_space_resolve` with the memory management unit
-/

namespace RiscMv.Paging

variable {s s' : State} {k1 flags : Nat} {L1 L0 : Set Nat} {space : Nat → Option AddressSpace}
  {id : Nat} {sp : AddressSpace} {p q va : Nat} {access : Access} {r : AddressPage} {t : Traced}
  {mapped : Nat → Nat → Bool} {mallocTable mallocPage : Bool}

/-! ## Translation -/

/-- The tables of an address space are inside RAM. -/
theorem Walls.rootValid_of_tables (h : Walls s space k1 L1 L0) (hsp : space id = some sp)
    (hq : q ∈ sp.tables) : rootValid s.ram q = true := by
  have hpage := (h.table_page hsp hq).1
  exact rootValid_iff.mpr ⟨hpage.aligned, hpage.inside⟩

/-- The last step of a walk, at an entry for user mode. -/
theorem walk_leaf {ram : Ram} {t : Nat} (ht : rootValid ram t = true) (hp : p % pageSize = 0)
    (hin : p + pageSize ≤ ram.size) (hflags : State.userFlags flags = true)
    (hword : ram.word (t + tableIndex va 12 * 8) = p ||| (pteValid ||| pteUser ||| flags)) :
    walk ram true va access [12] t =
      if permissionGranted (p ||| (pteValid ||| pteUser ||| flags)) true access then
        .ok (p ||| va % pageSize)
      else .permissionDenied := by
  simp only [State.userFlags, decide_eq_true_eq] at hflags
  obtain ⟨hlt, -, hread, -⟩ := hflags
  have hsmall : pteValid ||| pteUser ||| flags < 32 :=
    Nat.or_lt_two_pow (n := 5) (by decide) (by omega)
  have hreadable : isReadable (p ||| (pteValid ||| pteUser ||| flags)) = true := by
    rw [isReadable, testBit_entry hp (by decide), Nat.testBit_or]
    simp only [isReadable] at hread
    simp [hread]
  have hreserved : isReserved (p ||| (pteValid ||| pteUser ||| flags)) = false :=
    isReserved_entry hp hsmall
  have haddress : addressOf (p ||| (pteValid ||| pteUser ||| flags)) = p :=
    addressOf_entry hp (by simp only [pageSize]; omega)
  have hrange : physicalRangeValid ram p (2 ^ 12) = true :=
    (physicalRangeValid_iff (by decide)).mpr hin
  have hp' : p % 2 ^ 12 = 0 := hp
  have hleaf : isLeaf (p ||| (pteValid ||| pteUser ||| flags)) = true := by
    rw [isLeaf, hreadable]
    rfl
  simp only [walk, physicalRangeValid_entry ht, hword, isValid_user hp, hreserved, hreadable, hleaf,
    haddress, hp', hrange, Bool.not_true, Bool.and_false, Bool.or_self]
  rcases permissionGranted (p ||| (pteValid ||| pteUser ||| flags)) true access with _ | _
  · simp
  · simp [pageSize]

/-- A walk in the range of an address space, through its own tables. -/
theorem Walls.walk_user (h : Walls s space k1 L1 L0) (hsp : space id = some sp)
    (h30 : tableIndex va 30 = 0) (ho : sp.ownedLevel0 (tableIndex va 21) = true) :
    walk s.ram true va access [30, 21, 12] sp.root =
      walk s.ram true va access [12] (addressOf (s.entry sp.level1 (tableIndex va 21))) := by
  have hl := (h.spaces id sp hsp).linked
  obtain ⟨t, he, hta, htp⟩ := hl.level1_private _ (tableIndex_lt va 21) ho
  have haddress : addressOf (s.entry sp.level1 (tableIndex va 21)) = t := by
    rw [he, addressOf_entry hta (by decide)]
  have hlevel1 := h.rootValid_of_tables hsp hl.level1_mem
  rw [walk_next (h.rootValid_of_tables hsp hl.root_mem) hlevel1 (by rw [h30]; exact hl.entry0),
    walk_next hlevel1 (h.rootValid_of_tables hsp htp.mem) he, haddress]

theorem userEntry_addressOf (s : State) (sp : AddressSpace) (va : Nat) :
    userEntry s sp (addressOf va) = userEntry s sp va := by
  obtain ⟨h21, h12⟩ := tableIndex_addressOf va
  rw [userEntry, userEntry, h21, h12]

/-- The address of a page in the user range is there with the page. -/
theorem inUser_of_addressOf (h : InUser (addressOf va)) : InUser va := by
  simp only [InUser, addressOf, pageSize, userImageBase, userStackTop] at *
  omega

/-- What user mode finds at a page with a record. -/
theorem Walls.translate_record (h : Walls s space k1 L1 L0) (hsp : space id = some sp)
    (hr : r ∈ sp.records) (hva : r.virtualAddress = addressOf va) (access : Access) :
    translate s.ram sp.root true va access =
      if permissionGranted (userEntry s sp va) true access then
        .ok (r.physicalAddress ||| va % pageSize)
      else .permissionDenied := by
  have hrec := (h.spaces id sp hsp).pages.record r hr
  have hl := (h.spaces id sp hsp).linked
  have huser : InUser va := inUser_of_addressOf (hva ▸ hrec.range)
  have hlimit : ¬ va ≥ virtualAddressLimit := by
    have := huser.2
    simp only [userStackTop, virtualAddressLimit] at *
    omega
  have howned : sp.ownedLevel0 (tableIndex va 21) = true := by
    rw [← (tableIndex_addressOf va).1, ← hva]
    exact hrec.owned
  obtain ⟨flags, hflags, hentry⟩ := hrec.entry
  rw [hva, userEntry_addressOf] at hentry
  have hpage := (h.page hsp (AddressSpace.mem_records.mp hr).1).1
  rw [translate, if_neg hlimit, h.rootValid_of_tables hsp hl.root_mem,
    h.walk_user hsp huser.index.1 howned,
    walk_leaf (h.rootValid_of_tables hsp (h.userTable hsp howned)) hrec.page hpage.inside hflags
      hentry, hentry]
  rfl

/-- User mode reaches only pages with a record. -/
theorem Walls.record_of_translate (h : Walls s space k1 L1 L0) (hsp : space id = some sp)
    (hok : translate s.ram sp.root true va access = .ok q) :
    ∃ r ∈ sp.records, r.virtualAddress = addressOf va := by
  have hl := (h.spaces id sp hsp).linked
  have hsp_root := h.rootValid_of_tables hsp hl.root_mem
  have hlevel1 := h.rootValid_of_tables hsp hl.level1_mem
  unfold translate at hok
  split_ifs at hok with hlimit
  by_cases h30 : tableIndex va 30 = 0
  swap
  · -- the kernel's part of the root
    have hlinks := hl.root _ (Nat.pos_of_ne_zero h30) (tableIndex_lt va 30)
    refine absurd hok (walk_user_ne (fun hv => (hlinks hv).1) fun hv hleaf _ => ?_)
    exact h.kernel.tables.walk_user_level1 (.inr ((hlinks hv).2 hleaf))
  by_cases ho : sp.ownedLevel0 (tableIndex va 21) = true
  swap
  · -- the kernel's part of the first-gigabyte table
    rw [walk_next hsp_root hlevel1 (by rw [h30]; exact hl.entry0)] at hok
    have hlinks := hl.level1_links _ (tableIndex_lt va 21) (by simpa using ho)
    refine absurd hok (walk_user_ne (fun hv => (hlinks hv).1) fun hv hleaf _ => ?_)
    exact h.kernel.tables.walk_user_level0 ((hlinks hv).2 hleaf)
  have hrange := hl.range _ (tableIndex_lt va 21) ho
  have huser : InUser va := by
    simp only [InUser, tableIndex, userImageBase, userStackTop, virtualAddressLimit] at *
    omega
  rw [h.walk_user hsp h30 ho] at hok
  refine (h.spaces id sp hsp).pages.entry va huser ho (isValid_of_walk hok) ?_
  by_contra hnot
  have hkernel : isUser (userEntry s sp va) = false := by simpa using hnot
  exact walk_user_ne (fun _ => hkernel) (fun _ _ hne => absurd rfl hne) hok

/-! ## Page tables are out of reach -/

theorem LinksTo.kernel_root (hlink : LinksTo s s.root q) (h : Tables s k1 L1 L0) :
    q = k1 ∨ q ∈ L1 := by
  obtain ⟨i, hi, hv, hl, rfl⟩ := hlink
  rcases Nat.eq_zero_or_pos i with rfl | h0
  · exact .inl h.entry0.2.2
  · exact .inr ((h.root i h0 hi hv).2 hl)

theorem LinksTo.kernel_level1 {t : Nat} (hlink : LinksTo s t q) (h : Tables s k1 L1 L0)
    (ht : t = k1 ∨ t ∈ L1) : q ∈ L0 := by
  obtain ⟨i, hi, hv, hl, rfl⟩ := hlink
  exact (h.level1 t ht i hi hv).2 hl

/-- The tables of the kernel's root. -/
theorem KernelTables.mem_of_tablePage (h : KernelTables s k1 L1 L0) (hq : TablePage s s.root q) :
    q ∈ kernelPages s.root k1 L1 L0 := by
  rcases hq with rfl | hlink | ⟨t, ht, hlink⟩
  · exact mem_kernelPages_root ..
  · exact (hlink.kernel_root h.tables).elim (fun he => .inr (.inl he))
      fun hl => .inr (.inr (.inl hl))
  · exact .inr (.inr (.inr (hlink.kernel_level1 h.tables (ht.kernel_root h.tables))))

/-- The kernel's tables are those of its root. -/
theorem KernelTables.tablePage (h : KernelTables s k1 L1 L0)
    (hq : q ∈ kernelPages s.root k1 L1 L0) : TablePage s s.root q := by
  have hk1 : LinksTo s s.root k1 :=
    ⟨0, by decide, h.tables.entry0.1, h.tables.entry0.2.1, h.tables.entry0.2.2⟩
  rcases hq with rfl | rfl | hq | hq
  · exact .inl rfl
  · exact .inr (.inl hk1)
  · exact .inr (.inl (h.reach1 q hq))
  · obtain ⟨t, rfl | ht, hlink⟩ := h.reach0 q hq
    · exact .inr (.inr ⟨_, hk1, hlink⟩)
    · exact .inr (.inr ⟨t, h.reach1 t ht, hlink⟩)

/-- The tables of the root of an address space: its own, and the kernel's. -/
theorem Walls.mem_of_tablePage (h : Walls s space k1 L1 L0) (hsp : space id = some sp)
    (hq : TablePage s sp.root q) : q ∈ sp.tables ∨ q ∈ kernelPages s.root k1 L1 L0 := by
  have hl := (h.spaces id sp hsp).linked
  have hroot : ∀ {t}, LinksTo s sp.root t → t = sp.level1 ∨ t ∈ L1 := by
    rintro t ⟨i, hi, hv, hleaf, rfl⟩
    rcases Nat.eq_zero_or_pos i with rfl | h0
    · left
      rw [hl.entry0, addressOf_entry (h.table_page hsp hl.level1_mem).1.aligned (by decide)]
    · exact .inr ((hl.root i h0 hi hv).2 hleaf)
  rcases hq with rfl | hlink | ⟨t, ht, hlink⟩
  · exact .inl hl.root_mem
  · rcases hroot hlink with rfl | hq
    · exact .inl hl.level1_mem
    · exact .inr (.inr (.inr (.inl hq)))
  · rcases hroot ht with rfl | ht
    · obtain ⟨j, hj, hv, hleaf, rfl⟩ := hlink
      cases ho : sp.ownedLevel0 j with
      | true => exact .inl (hl.level1_table hj ho).1.mem
      | false => exact .inr (.inr (.inr (.inr ((hl.level1_links j hj ho hv).2 hleaf))))
    · exact .inr (.inr (.inr (.inr (hlink.kernel_level1 h.kernel.tables (.inr ht)))))

/-- The roots of page tables. -/
def IsRoot (s : State) (root : Nat) : Prop :=
  root = s.root ∨ ∃ id sp, s.space id = some sp ∧ root = sp.root

/-- A user page is not a page table. -/
theorem Walls.record_not_table {root : Nat} (h : Walls s s.space k1 L1 L0)
    (hsp : s.space id = some sp) (hr : r ∈ sp.records) (hroot : IsRoot s root) :
    ¬ TablePage s root r.physicalAddress := by
  obtain ⟨hmem, hkind⟩ := AddressSpace.mem_records.mp hr
  intro ht
  rcases hroot with rfl | ⟨id', sp', hsp', rfl⟩
  · exact (h.page hsp hmem).2.1 (h.kernel.mem_of_tablePage ht)
  · rcases h.mem_of_tablePage hsp' ht with htable | hK
    · obtain ⟨r', hr', hk', hp'⟩ := AddressSpace.mem_tables.mp htable
      obtain ⟨-, rfl⟩ := h.page_injective hsp' hsp hr' hmem hp'
      exact hkind hk'
    · exact (h.page hsp hmem).2.1 hK

/-! ## Agreement of `kernel_address_space_resolve` -/

/-- The mask that `kernel_address_space_resolve` applies to an entry: the entry is for user mode
    and has all the permissions that are asked for. -/
theorem and_required_iff {pte : Nat} (hflags : flags < 16) :
    pte &&& (pteValid ||| pteUser ||| flags) = pteValid ||| pteUser ||| flags ↔
      isValid pte = true ∧ isUser pte = true ∧ (isReadable flags = true → isReadable pte = true) ∧
        (isWritable flags = true → isWritable pte = true) ∧
        (isExecutable flags = true → isExecutable pte = true) := by
  have hbits : pte &&& (pteValid ||| pteUser ||| flags) = pteValid ||| pteUser ||| flags ↔
      ∀ i < 5, (pteValid ||| pteUser ||| flags).testBit i = true → pte.testBit i = true := by
    constructor
    · intro he i _ hi
      rw [← he, Nat.testBit_and, Bool.and_eq_true] at hi
      exact hi.1
    · intro hall
      refine Nat.eq_of_testBit_eq fun i => ?_
      rw [Nat.testBit_and]
      cases hi : (pteValid ||| pteUser ||| flags).testBit i with
      | false => rw [Bool.and_false]
      | true =>
        rw [Bool.and_true]
        refine hall i ?_ hi
        -- there are no higher bits
        by_contra hge
        have hlt : pteValid ||| pteUser ||| flags < 2 ^ i :=
          Nat.lt_of_lt_of_le (Nat.or_lt_two_pow (n := 5) (by decide) (by omega))
            (Nat.pow_le_pow_right (by decide) (by omega))
        rw [Nat.testBit_lt_two_pow hlt] at hi
        cases hi
  have hmask : ∀ i < 5, (pteValid ||| pteUser).testBit i = decide (i = 0 ∨ i = 4) := by decide
  rw [hbits]
  simp only [isValid, isUser, isReadable, isWritable, isExecutable]
  constructor
  · intro hall
    have hbit : ∀ i < 5, i = 0 ∨ i = 4 ∨ flags.testBit i = true → pte.testBit i = true := by
      intro i hi hor
      refine hall i hi ?_
      rw [Nat.testBit_or, hmask i hi, Bool.or_eq_true, decide_eq_true_eq, or_assoc]
      exact hor
    exact ⟨hbit 0 (by decide) (.inl rfl), hbit 4 (by decide) (.inr (.inl rfl)),
      fun hf => hbit 1 (by decide) (.inr (.inr hf)), fun hf => hbit 2 (by decide) (.inr (.inr hf)),
      fun hf => hbit 3 (by decide) (.inr (.inr hf))⟩
  · rintro ⟨h0, h4, h1, h2, h3⟩ i hi hbit
    rw [Nat.testBit_or, hmask i hi, Bool.or_eq_true, decide_eq_true_eq, or_assoc] at hbit
    rcases hbit with rfl | rfl | hbit
    · exact h0
    · exact h4
    · obtain rfl | rfl | rfl | rfl | rfl : i = 0 ∨ i = 1 ∨ i = 2 ∨ i = 3 ∨ i = 4 := by omega
      · exact h0
      · exact h1 hbit
      · exact h2 hbit
      · exact h3 hbit
      · exact h4

/-- An entry for user mode has the permissions in `flags` if every access in `flags` is granted. -/
theorem granted_iff {pte : Nat} (huser : isUser pte = true) :
    (∀ access, permissionGranted flags false access = true →
      permissionGranted pte true access = true) ↔
      (isReadable flags = true → isReadable pte = true) ∧
        (isWritable flags = true → isWritable pte = true) ∧
        (isExecutable flags = true → isExecutable pte = true) := by
  simp only [permissionGranted, huser]
  constructor
  · intro h
    exact ⟨h .read, h .write, h .execute⟩
  · rintro ⟨hr, hw, hx⟩ access hacc
    cases access with
    | read => exact hr hacc
    | write => exact hw hacc
    | execute => exact hx hacc
    | atomic =>
      simp only [Bool.false_and, Bool.false_eq_true, if_false, Bool.and_eq_true] at hacc
      simp [hr hacc.1, hw hacc.2]

/-- The entry that `kernel_address_space_resolve` looks at, in a private table. -/
theorem Walls.resolve_owned {flags : Nat} (h : Walls s space k1 L1 L0) (hsp : space id = some sp)
    (hva : InUser va) (ho : sp.ownedLevel0 (tableIndex va 21) = true) (hflags : flags < 16)
    (hvalid : isValid flags = false) : s.resolve sp va flags =
      if userEntry s sp va &&& (pteValid ||| pteUser ||| flags) =
          pteValid ||| pteUser ||| flags then
        some (addressOf (userEntry s sp va) ||| va % pageSize)
      else none := by
  have hl := (h.spaces id sp hsp).linked
  obtain ⟨t, he, hta, htp⟩ := hl.level1_private _ (tableIndex_lt va 21) ho
  have hla := (h.table_page hsp hl.level1_mem).1
  have hentry2 : s.entry sp.root (tableIndex va 30) = sp.level1 ||| pteValid := by
    rw [hva.index.1]
    exact hl.entry0
  have htable : addressOf (s.entry sp.level1 (tableIndex va 21)) = t := by
    rw [he, addressOf_entry hta (by decide)]
  have hdirect : s.direct t = true := (h.table_page hsp htp.mem).1.direct
  have hrange : ¬ (flags ≥ 16 ∨ isValid flags = true ∨ va < userImageBase ∨ va ≥ userStackTop) := by
    have h1 := hva.1
    have h2 := hva.2
    rw [hvalid]
    simp only [Bool.false_eq_true, false_or, not_or]
    omega
  unfold State.resolve
  simp only [hentry2, addressOf_entry hla.aligned (show pteValid < pageSize by decide), htable]
  rw [if_neg hrange, (h.table_page hsp hl.root_mem).1.direct, isValid_table hla.aligned, hla.direct,
    he, isValid_table hta, hdirect]
  have hentry : s.entry t (tableIndex va 12) = userEntry s sp va := by rw [userEntry, htable]
  rw [hentry]
  simp

/-- Where an address space has no table of its own, nothing is resolved. -/
theorem Walls.resolve_unowned (h : Walls s space k1 L1 L0) (hsp : space id = some sp)
    (hva : InUser va) (ho : sp.ownedLevel0 (tableIndex va 21) = false) :
    s.resolve sp va flags = none := by
  have hl := (h.spaces id sp hsp).linked
  have hla := (h.table_page hsp hl.level1_mem).1
  have hentry2 : s.entry sp.root (tableIndex va 30) = sp.level1 ||| pteValid := by
    rw [hva.index.1]
    exact hl.entry0
  unfold State.resolve
  simp only [hentry2, addressOf_entry hla.aligned (show pteValid < pageSize by decide)]
  split_ifs with hargs hroot hlevel1 hbits
  · rfl
  · rfl
  · rfl
  · rfl
  -- the entry belongs to a table of the kernel's, which has none for user mode
  exfalso
  simp only [not_or, Bool.not_eq_true', Bool.not_eq_false, Decidable.not_not] at hlevel1 hbits
  have hlink := hl.level1_links _ (tableIndex_lt va 21) ho hlevel1.2
  have hleaf := (h.spaces id sp hsp).flat _ hva.index.2.1 hva.index.2.2 ho hlevel1.2
  obtain ⟨hv, hu, -⟩ := (and_required_iff (by omega)).mp hbits.2
  rw [h.kernel.tables.level0 _ (hlink.2 hleaf) _ (tableIndex_lt va 12) hv] at hu
  cases hu

/-- `kernel_address_space_resolve` returns the address that the memory management unit gives, if
    and only if it grants the accesses that are asked for. -/
theorem Walls.resolve_iff (h : Walls s space k1 L1 L0) (hsp : space id = some sp) :
    s.resolve sp va flags = some p ↔ (flags < 16 ∧ isValid flags = false) ∧
      (∃ access, translate s.ram sp.root true va access = .ok p) ∧
      ∀ access, permissionGranted flags false access = true →
        translate s.ram sp.root true va access = .ok p := by
  have hok := h.spaces id sp hsp
  constructor
  · intro hres
    have hargs : flags < 16 ∧ isValid flags = false ∧ InUser va := by
      unfold State.resolve at hres
      dsimp only at hres
      split at hres
      · cases hres
      · next hargs =>
        simp only [not_or, not_lt, not_le, Bool.not_eq_true] at hargs
        exact ⟨hargs.1, hargs.2.1, hargs.2.2⟩
    obtain ⟨hflags, hvalid, hva⟩ := hargs
    cases ho : sp.ownedLevel0 (tableIndex va 21) with
    | false =>
      rw [h.resolve_unowned hsp hva ho] at hres
      cases hres
    | true =>
      rw [h.resolve_owned hsp hva ho hflags hvalid] at hres
      split at hres
      swap
      · cases hres
      next hbits =>
      obtain ⟨hv, hu, hperm⟩ := (and_required_iff hflags).mp hbits
      obtain ⟨r, hr, hrva⟩ := hok.pages.entry va hva ho hv hu
      have hrec := hok.pages.record r hr
      obtain ⟨pflags, hpflags, hentry⟩ := hrec.entry
      rw [hrva, userEntry_addressOf] at hentry
      simp only [State.userFlags, decide_eq_true_eq] at hpflags
      have hp : p = r.physicalAddress ||| va % pageSize := by
        rw [hentry, addressOf_entry hrec.page] at hres
        · exact (Option.some.inj hres).symm
        · exact Nat.lt_trans (Nat.or_lt_two_pow (n := 5) (by decide) (by omega)) (by decide)
      have hgrant : ∀ access, permissionGranted (userEntry s sp va) true access = true →
          translate s.ram sp.root true va access = .ok p := by
        intro access hacc
        rw [h.translate_record hsp hr hrva, if_pos hacc, hp]
      refine ⟨⟨hflags, hvalid⟩, ⟨.read, hgrant .read ?_⟩, fun access hacc => ?_⟩
      · -- every user page is readable
        have hread : isReadable (userEntry s sp va) = true := by
          rw [hentry, isReadable, testBit_entry hrec.page (by decide), Nat.testBit_or]
          have := hpflags.2.2.1
          simp only [isReadable] at this
          simp [this]
        simp [permissionGranted, hu, hread]
      · exact hgrant access ((granted_iff hu).mpr hperm access hacc)
  · rintro ⟨⟨hflags, hvalid⟩, ⟨access, htr⟩, hall⟩
    obtain ⟨r, hr, hrva⟩ := h.record_of_translate hsp htr
    have hrec := hok.pages.record r hr
    have hva : InUser va := inUser_of_addressOf (hrva ▸ hrec.range)
    have ho : sp.ownedLevel0 (tableIndex va 21) = true := by
      rw [← (tableIndex_addressOf va).1, ← hrva]
      exact hrec.owned
    obtain ⟨pflags, hpflags, hentry⟩ := hrec.entry
    rw [hrva, userEntry_addressOf] at hentry
    simp only [State.userFlags, decide_eq_true_eq] at hpflags
    have hgrant : ∀ access, translate s.ram sp.root true va access = .ok p →
        permissionGranted (userEntry s sp va) true access = true ∧
          p = r.physicalAddress ||| va % pageSize := by
      intro access hacc
      rw [h.translate_record hsp hr hrva] at hacc
      split at hacc
      · next hperm =>
        cases hacc
        exact ⟨hperm, rfl⟩
      · cases hacc
    have hvalid' : isValid (userEntry s sp va) = true := hentry ▸ isValid_user hrec.page
    have huser : isUser (userEntry s sp va) = true := by
      rw [hentry, isUser, testBit_entry hrec.page (by decide), Nat.testBit_or]
      rfl
    have hperm := (granted_iff huser).mp fun access hacc => (hgrant access (hall access hacc)).1
    rw [h.resolve_owned hsp hva ho hflags hvalid,
      if_pos ((and_required_iff hflags).mpr ⟨hvalid', huser, hperm⟩), (hgrant access htr).2, hentry,
      addressOf_entry hrec.page]
    exact Nat.lt_trans (Nat.or_lt_two_pow (n := 5) (by decide) (by omega)) (by decide)

/-! ## Runs -/

/-- What the kernel has set up when the first address space is created. -/
structure Walled (s : State) : Prop where
  spaces : ∀ id, s.space id = none
  walls : ∃ k1 L1 L0, Walls s s.space k1 L1 L0

/-- A page that may be given to `kernel_address_space_map_physical`: one that the page allocator may
    hand out, so not page 0 and a page of RAM (the direct map, which `map_physical` asks for, may be
    larger), and that is neither free, nor one of the kernel's tables, nor recorded in an address
    space. -/
structure Unclaimed (s : State) (p : Nat) : Prop where
  nonzero : p ≠ 0
  inside : p + pageSize ≤ s.ram.size
  not_free : p ∉ s.free
  not_table : ¬ TablePage s s.root p
  not_recorded : ∀ id sp, s.space id = some sp → ∀ r ∈ sp.pages, r.physicalAddress ≠ p

/-- Memory that is mapped into an address space is not in use otherwise. -/
def MapsUnclaimed (t : Traced) : Op → Prop
  | .mapPhysical _ _ pa size _ _ =>
    ∀ i < size / pageSize, Unclaimed t.state (pa + i * pageSize)
  | _ => True

theorem nodup_pageRange (pa n : Nat) : (pageRange pa 0 n).Nodup := by
  refine List.Nodup.map (fun i j he => ?_) (List.nodup_range' ..)
  simp only [pageSize] at he
  omega

/-- Memory that is not in use belongs to no one. -/
theorem Walls.limbo_of_unclaimed {pa size : Nat} (h : Walls s s.space k1 L1 L0)
    (hpages : ∀ i < size / pageSize, Unclaimed s (pa + i * pageSize)) (hpa : pa % pageSize = 0)
    (hdirect : s.direct (pa + size - 1) = true) :
    Limbo s (walled.claims s.space) (kernelPages s.root k1 L1 L0)
      (pageRange pa 0 (size / pageSize)) where
  nodup := nodup_pageRange _ _
  page p hp := by
    obtain ⟨k, -, hk, rfl⟩ := mem_pageRange.mp hp
    rw [Nat.zero_add] at hk
    have hun := hpages k hk
    refine ⟨⟨?_, hun.nonzero, hun.inside, ?_⟩, fun hK => hun.not_table (h.kernel.tablePage hK),
      hun.not_free⟩
    · rw [Nat.add_mul_mod_self_right]
      exact hpa
    · simp only [State.direct, decide_eq_true_eq] at hdirect ⊢
      have hle : (k + 1) * pageSize ≤ size :=
        (Nat.mul_le_mul_right _ (by omega)).trans (Nat.div_mul_le_self size pageSize)
      rw [Nat.succ_mul] at hle
      have hpos : 0 < pageSize := by decide
      omega
  apart p hp id sp hsp := by
    obtain ⟨k, -, hk, rfl⟩ := mem_pageRange.mp hp
    rw [Nat.zero_add] at hk
    obtain ⟨sp₀, hsp₀, rfl⟩ := Option.map_eq_some_iff.mp hsp
    rw [walled.held_view, List.mem_map]
    rintro ⟨r, hr, he⟩
    replace hr := List.mem_of_mem_filter hr
    exact (hpages k hk).not_recorded id sp₀ hsp₀ r hr he

/-- The invariant of runs: the address spaces are apart, and their pages are remembered. -/
def Apart (t : Traced) : Prop :=
  (∃ k1 L1 L0, Walls t.state t.state.space k1 L1 L0) ∧ Remembers t.state.space t.mapped

/-- Every operation keeps the address spaces apart. -/
theorem step_apart {t' : Traced} {op : Op} (h : Apart t) (hop : MapsUnclaimed t op)
    (hst : tracedStep t op = some t') : Apart t' := by
  obtain ⟨⟨k1, L1, L0, hw⟩, hmem⟩ := h
  obtain ⟨s, hs, rfl⟩ := Option.map_eq_some_iff.mp hst
  obtain ⟨L1', L0', h', hmem'⟩ := hw.guarded.step nofun (fun _ id va pa size flags malloc he => by
    subst he
    exact hw.limbo_of_unclaimed hop) hs
  exact ⟨⟨k1, L1', L0', h'.walls⟩, hmem' rfl t.mapped hmem⟩

theorem Walled.apart_of_run (hboot : Walled s)
    (hrun : Run tracedStep MapsUnclaimed ⟨s, fun _ _ => false⟩ t) : Apart t := by
  refine hrun.invariant (I := Apart) ⟨hboot.walls, fun id sp hsp => ?_⟩ fun _ _ _ => step_apart
  rw [hboot.spaces id] at hsp
  cases hsp

/-- What keeps address spaces apart, as user mode sees it through the memory management unit. -/
structure Isolated (t : Traced) : Prop where
  /-- User mode reaches pages of the user range that were mapped, and no page table. -/
  reach : ∀ id sp, t.state.space id = some sp → ∀ va access p,
    translate t.state.ram sp.root true va access = .ok p →
      userImageBase ≤ va ∧ va < userStackTop ∧ t.mapped id (addressOf va) = true ∧
        ∀ root, IsRoot t.state root → ¬ TablePage t.state root (addressOf p)
  /-- No page is writable and executable. -/
  exclusive : ∀ id sp, t.state.space id = some sp → ∀ va va' p p',
    translate t.state.ram sp.root true va .write = .ok p →
    translate t.state.ram sp.root true va' .execute = .ok p' → addressOf va ≠ addressOf va'
  /-- No two pages, of one address space or of two, share a physical page. -/
  unshared : ∀ id id' sp sp', t.state.space id = some sp → t.state.space id' = some sp' →
    ∀ va va' access access' p p', translate t.state.ram sp.root true va access = .ok p →
      translate t.state.ram sp'.root true va' access' = .ok p' → addressOf p = addressOf p' →
      id = id' ∧ addressOf va = addressOf va'
  /-- `kernel_address_space_resolve` agrees with the memory management unit. -/
  resolve : ∀ id sp, t.state.space id = some sp → ∀ va flags p,
    t.state.resolve sp va flags = some p ↔ (flags < 16 ∧ isValid flags = false) ∧
      (∃ access, translate t.state.ram sp.root true va access = .ok p) ∧
      ∀ access, permissionGranted flags false access = true →
        translate t.state.ram sp.root true va access = .ok p

/-- What a successful translation says: the record of the page, and the permission in its entry. -/
theorem Walls.of_translate (h : Walls s space k1 L1 L0) (hsp : space id = some sp)
    (hok : translate s.ram sp.root true va access = .ok p) :
    ∃ r ∈ sp.records, r.virtualAddress = addressOf va ∧ addressOf p = r.physicalAddress ∧
      permissionGranted (userEntry s sp va) true access = true := by
  obtain ⟨r, hr, hrva⟩ := h.record_of_translate hsp hok
  rw [h.translate_record hsp hr hrva] at hok
  split at hok
  · next hperm =>
    cases hok
    refine ⟨r, hr, hrva, addressOf_entry ?_ (Nat.mod_lt _ (by decide)), hperm⟩
    exact ((h.spaces id sp hsp).pages.record r hr).page
  · cases hok

/-- The entries of user pages are not writable and executable. -/
theorem Walls.entry_exclusive (h : Walls s space k1 L1 L0) (hsp : space id = some sp)
    (hr : r ∈ sp.records) (hw : isWritable (userEntry s sp r.virtualAddress) = true) :
    isExecutable (userEntry s sp r.virtualAddress) = false := by
  have hrec := (h.spaces id sp hsp).pages.record r hr
  obtain ⟨flags, hflags, hentry⟩ := hrec.entry
  simp only [State.userFlags, decide_eq_true_eq, not_and, Bool.not_eq_true] at hflags
  have hbit : ∀ i, 1 ≤ i → i < 4 →
      (userEntry s sp r.virtualAddress).testBit i = flags.testBit i := by
    intro i hi hi'
    have hmask : ∀ i < 4, 1 ≤ i → (pteValid ||| pteUser).testBit i = false := by decide
    rw [hentry, testBit_entry hrec.page (by omega), Nat.testBit_or, hmask i hi' hi, Bool.false_or]
  rw [isWritable, hbit 2 (by decide) (by decide)] at hw
  rw [isExecutable, hbit 3 (by decide) (by decide)]
  exact hflags.2.2.2 hw

/-- In every run in which memory that is mapped into an address space is not in use otherwise, the
    address spaces are isolated in every state. -/
theorem spaces_isolated {s : State} {t : Traced} (hboot : Walled s)
    (hrun : Run tracedStep MapsUnclaimed ⟨s, fun _ _ => false⟩ t) : Isolated t := by
  obtain ⟨⟨k1, L1, L0, hw⟩, hmem⟩ := hboot.apart_of_run hrun
  refine ⟨?_, ?_, ?_, ?_⟩
  · intro id sp hsp va access p hok
    obtain ⟨r, hr, hrva, hp, -⟩ := hw.of_translate hsp hok
    have hrec := (hw.spaces id sp hsp).pages.record r hr
    obtain ⟨hlow, hhigh⟩ := inUser_of_addressOf (hrva ▸ hrec.range)
    refine ⟨hlow, hhigh, hmem id sp hsp _ ⟨r, hr, hrva⟩, fun root hroot => ?_⟩
    rw [hp]
    exact hw.record_not_table hsp hr hroot
  · intro id sp hsp va va' p p' hwrite hexec heq
    obtain ⟨r, hr, hrva, -, hwritable⟩ := hw.of_translate hsp hwrite
    obtain ⟨-, -, -, -, hexecutable⟩ := hw.of_translate hsp hexec
    rw [← userEntry_addressOf, ← hrva] at hwritable
    rw [← userEntry_addressOf, ← heq, ← hrva] at hexecutable
    simp only [permissionGranted, Bool.if_false_left, Bool.and_eq_true] at hwritable hexecutable
    rw [hw.entry_exclusive hsp hr hwritable.2] at hexecutable
    cases hexecutable.2
  · intro id id' sp sp' hsp hsp' va va' access access' p p' hok hok' heq
    obtain ⟨r, hr, hrva, hp, -⟩ := hw.of_translate hsp hok
    obtain ⟨r', hr', hrva', hp', -⟩ := hw.of_translate hsp' hok'
    obtain ⟨hid, rfl⟩ := hw.page_injective hsp hsp' (AddressSpace.mem_records.mp hr).1
      (AddressSpace.mem_records.mp hr').1 (by rw [← hp, ← hp', heq])
    exact ⟨hid, by rw [← hrva, ← hrva']⟩
  · intro id sp hsp va flags p
    exact hw.resolve_iff hsp

theorem bootState_walls :
    Walls bootState bootState.space 0x2000 {0x3000} {0x4000, 0x5000, 0x7000} := by
  refine ⟨⟨bootState_tables, ?_, ?_, ?_, ?_⟩, bootState_owns, nofun⟩
  · have h : ∀ j < 504, 8 ≤ j → isValid (bootState.entry 0x2000 j) = true →
        isLeaf (bootState.entry 0x2000 j) = false := by decide +kernel
    exact fun j h8 h504 => h j h504 h8
  · rintro q rfl
    exact ⟨4, by decide⟩
  · rintro q (rfl | rfl | rfl)
    · exact ⟨0x3000, .inr rfl, 510, by decide⟩
    · exact ⟨0x3000, .inr rfl, 511, by decide⟩
    · exact ⟨0x2000, .inl rfl, 0, by decide⟩
  · rintro q rfl
    simp

theorem bootState_walled : Walled bootState :=
  ⟨fun _ => rfl, 0x2000, {0x3000}, {0x4000, 0x5000, 0x7000}, bootState_walls⟩

/-- The first address space. -/
def oneSpace : State := bootState.create 0 true true true

theorem oneSpace_walls : Walls oneSpace oneSpace.space 0x2000 {0x3000} {0x4000, 0x5000, 0x7000} :=
  (bootState_walls.guarded.create 0 true true true).1.walls

theorem oneSpace_space {id : Nat} (hid : id ≠ 0) : oneSpace.space id = none := by
  obtain hspace | ⟨sp, hspace, -⟩ := (bootState_walls.guarded.create 0 true true true).2
  · rw [oneSpace, hspace]
    rfl
  · rw [oneSpace, hspace, Function.update_of_ne hid]
    rfl

/-- The first address space, with its history. -/
def oneTraced : Traced := ⟨oneSpace, note bootState (fun _ _ => false) (.create 0 true true true)⟩

theorem oneTraced_reached (ok : Traced → Op → Prop)
    (h : ok ⟨bootState, fun _ _ => false⟩ (.create 0 true true true)) :
    Run tracedStep ok ⟨bootState, fun _ _ => false⟩ oneTraced :=
  .tail .refl h rfl

/-- The first address space leaves the pages from 0x20000 on. -/
theorem oneSpace_unclaimed (i : Nat) (hi : i < 16) :
    Unclaimed oneSpace (0x20000 + i * pageSize) where
  nonzero := by omega
  inside := by
    have hsize : oneSpace.ram.size = 0x3FDF0000 := by decide
    rw [hsize, pageSize]
    omega
  not_free := by
    have h : ∀ i < 16, 0x20000 + i * pageSize ∉ oneSpace.free := by decide +kernel
    exact h i hi
  not_table htable := by
    have hmem := oneSpace_walls.kernel.mem_of_tablePage htable
    have hroot : oneSpace.root = 0x1000 := by decide +kernel
    rw [hroot] at hmem
    simp only [kernelPages, Set.mem_ofPred_eq, Set.mem_insert_iff, Set.mem_singleton_iff,
      pageSize] at hmem
    omega
  not_recorded id sp hsp r hr := by
    by_cases hid : id = 0
    · have h : (oneSpace.space 0).all fun sp => sp.pages.all fun r =>
          r.physicalAddress < 0x20000 := by decide +kernel
      rw [← hid, hsp] at h
      simp only [Option.all_some, List.all_eq_true, decide_eq_true_eq] at h
      have hlow := h r hr
      omega
    · rw [oneSpace_space hid] at hsp
      cases hsp

/-- One address space maps a page of the caller's for writing, another one a new page for
    execution, at the same address. -/
theorem spaces_isolated_mapped :
    ∃ t sp sp', Walled bootState ∧ Run tracedStep MapsUnclaimed ⟨bootState, fun _ _ => false⟩ t ∧
      t.state.space 0 = some sp ∧ t.state.space 1 = some sp' ∧
      translate t.state.ram sp.root true 0x1000004 .write = .ok 0x20004 ∧
      translate t.state.ram sp'.root true 0x1000004 .execute = .ok 0x13004 ∧ Isolated t := by
  have h₁ := oneTraced_reached MapsUnclaimed trivial
  have hguard : MapsUnclaimed oneTraced
      (.mapPhysical 0 0x1000000 0x20000 0x1000 6 fun _ => (true, true)) := by
    intro i hi
    have hone : 0x1000 / pageSize = 1 := by decide
    exact oneSpace_unclaimed i (by omega)
  have hrest : (tracedStep oneTraced
      (.mapPhysical 0 0x1000000 0x20000 0x1000 6 fun _ => (true, true))).any (fun t₂ =>
        (tracedStep t₂ (.create 1 true true true)).any fun t₃ =>
          (tracedStep t₃ (.mapAnonymous 1 0x1000000 10 true true)).any fun t =>
            (t.state.space 0).any fun sp => (t.state.space 1).any fun sp' =>
              translate t.state.ram sp.root true 0x1000004 .write == .ok 0x20004 &&
                translate t.state.ram sp'.root true 0x1000004 .execute == .ok 0x13004) = true := by
    decide +kernel
  simp only [Option.any_eq_true, Bool.and_eq_true, beq_iff_eq] at hrest
  obtain ⟨t₂, hst₂, t₃, hst₃, t, hst, sp, hsp, sp', hsp', hwrite, hexec⟩ := hrest
  have hrun := ((h₁.tail hguard hst₂).tail (a := Op.create 1 true true true) trivial hst₃).tail
    (a := Op.mapAnonymous 1 0x1000000 10 true true) trivial hst
  exact ⟨t, sp, sp', bootState_walled, hrun, hsp, hsp', hwrite, hexec,
    spaces_isolated bootState_walled hrun⟩

/-- The other address spaces stay as they are. -/
theorem mapAnonymous_space {va k : Nat} (h : Walls s s.space k1 L1 L0)
    (hst : step s (.mapAnonymous id va flags mallocTable mallocPage) = some s') (hk : k ≠ id) :
    s'.space k = s.space k := by
  obtain ⟨sp, hsp, rfl⟩ := Option.map_eq_some_iff.mp hst
  obtain ⟨-, hkept, -⟩ :=
    (walled.spaceRules _ id k1 L1 L0).mapAnonymous (h.guarded.at_space hsp) rfl
  rw [State.store]
  dsimp only
  rw [Function.update_of_ne hk]
  exact congrFun hkept.spaces k

/-- Memory that is mapped into an address space has no record in another one. -/
def MapsNoOthers (t : Traced) : Op → Prop
  | .mapPhysical id _ pa size _ _ => ∀ i < size / pageSize, ∀ id' sp, id' ≠ id →
    t.state.space id' = some sp → ∀ r ∈ sp.pages, r.physicalAddress ≠ pa + i * pageSize
  | _ => True

/-- A space maps a new page, and the same memory once more at the address behind it. -/
def mappedTwice (flags : Nat) : Option Traced :=
  (tracedStep oneTraced (.mapAnonymous 0 0x1000000 6 true true)).bind fun t =>
    tracedStep t (.mapPhysical 0 0x1001000 0x10000 0x1000 flags fun _ => (true, true))

/-- With one address space there are no others. -/
theorem mappedTwice_reached (h : mappedTwice flags = some t) :
    Run tracedStep MapsNoOthers ⟨bootState, fun _ _ => false⟩ t := by
  obtain ⟨t₂, hst₂, hst⟩ := Option.bind_eq_some_iff.mp h
  have h₂ := (oneTraced_reached MapsNoOthers trivial).tail
    (a := Op.mapAnonymous 0 0x1000000 6 true true) trivial hst₂
  refine h₂.tail ?_ hst
  intro i _ id sp hid hsp
  obtain ⟨s₂, hs₂, rfl⟩ := Option.map_eq_some_iff.mp hst₂
  rw [mapAnonymous_space oneSpace_walls hs₂ hid, oneSpace_space hid] at hsp
  cases hsp

/-- An address space maps a page of its own again: `map_physical` does not look for its owner. -/
theorem mapPhysical_shares :
    ∃ t sp, Walled bootState ∧ Run tracedStep MapsNoOthers ⟨bootState, fun _ _ => false⟩ t ∧
      t.state.space 0 = some sp ∧
      translate t.state.ram sp.root true 0x1000000 .read = .ok 0x10000 ∧
      translate t.state.ram sp.root true 0x1001000 .read = .ok 0x10000 := by
  have hrest : (mappedTwice 2).any (fun t => (t.state.space 0).any fun sp =>
      translate t.state.ram sp.root true 0x1000000 .read == .ok 0x10000 &&
        translate t.state.ram sp.root true 0x1001000 .read == .ok 0x10000) = true := by
    decide +kernel
  simp only [Option.any_eq_true, Bool.and_eq_true, beq_iff_eq] at hrest
  obtain ⟨t, ht, sp, hsp, hread, hread'⟩ := hrest
  exact ⟨t, sp, bootState_walled, mappedTwice_reached ht, hsp, hread, hread'⟩

end RiscMv.Paging
