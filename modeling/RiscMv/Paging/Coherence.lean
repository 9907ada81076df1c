import RiscMv.ForStd.Run
import RiscMv.Paging.Guard

/-!
# Coherence of the kernel's mappings

An address space copies the kernel's root and first-gigabyte table when it is created.  Later
mappings of the kernel are seen through it as long as they go into tables that it shares; one
that needs a new entry of the root, or of the first-gigabyte table, is not.

## Key results
- `step_layout`: every operation keeps the invariant of the page tables
- `kernelMappings_coherent`: what the kernel's root translates, every address space does
- `heapGrowth_unseen`: a heap that grows over a gigabyte boundary is not seen
-/

namespace RiscMv.Paging

variable {s s' : State} {k1 : Nat} {L1 L0 : Set Nat} {space : Nat → Option AddressSpace}
  {id : Nat} {sp : AddressSpace} {p : Nat}

/-! ## The invariant -/

/-- What address spaces share with the kernel, as an invariant that the operations keep. -/
def sharing : Guard where
  Kernel := Tables
  Space := Shares
  shared := true
  tables h := h
  kernel_frame h := h.frame
  enter h ha hp he hj _ := h.enter ha hp he hj
  leaf h := h.leaf
  linked h := h.toLinked
  frame h hL1 hL0 hentry hk := by
    refine h.of_linked (hk rfl) (h.toLinked.frame hL1 hL0 fun q hq => ?_) (hentry _ h.root_mem)
      fun j hj _ => hentry _ h.level1_mem j hj
    exact hentry q (hq.elim (· ▸ h.root_mem) (· ▸ h.level1_mem))
  fresh {s k1 L1 L0 r l} h hl hne := by
    obtain ⟨-, hroot, hlevel1⟩ := entry_copyTables_new h hl hne
    -- neither of the new tables is one of the kernel's
    have hkernel : ∀ q ∈ kernelPages s.root k1 L1 L0, ∀ i < 512,
        (s.copyTables r l k1).entry q i = s.entry q i := fun q hq i hi =>
      entry_copyTables_old h hl (h.aligned q hq) (fun hmem => (hl q hmem).2.1 hq) hi
    refine ⟨linked_fresh h hl hne, fun i h0 hi _ => ?_, fun j hj _ _ => ?_⟩
    · have hsroot : (s.copyTables r l k1).root = s.root := rfl
      rw [AddressSpace.fresh_root, hroot i h0 hi, hsroot, hkernel _ (mem_kernelPages_root ..) i hi]
    · rw [AddressSpace.fresh_level1, hlevel1 j hj, hkernel _ (mem_kernelPages_k1 ..) j hj]
  addTable h := h.of_linked ⟨rfl, fun _ _ _ _ => rfl⟩ (h.toLinked.records rfl rfl rfl fun q hq =>
    AddressSpace.tables_append _ hq) (fun _ _ => rfl) fun _ _ _ => rfl
  own h hk ht := by
    obtain ⟨hroot, hlevel1⟩ := h.toLinked.tableAdded ht
    refine h.of_linked hk (h.toLinked.own ht.priv ht.aligned ht.range hroot hlevel1) hroot
      fun i hi hout => ?_
    have hj := ht.range
    rw [hlevel1 i hi, if_neg (by omega)]
  map h hk _ _ _ _ hst := h.of_linked hk ((h.toLinked.frame subset_rfl subset_rfl
      (h.toLinked.entryStored hst)).records rfl rfl rfl fun q hq => AddressSpace.tables_append _ hq)
    (h.toLinked.entryStored hst _ (.inl rfl))
    fun j hj _ => h.toLinked.entryStored hst _ (.inr rfl) j hj
  unmap h hk hr hst := h.of_linked hk ((h.toLinked.frame subset_rfl subset_rfl
      (h.toLinked.entryStored hst)).records rfl rfl rfl fun q hq =>
        AddressSpace.tables_erase (AddressSpace.mem_records.mp hr).2 hq)
    (h.toLinked.entryStored hst _ (.inl rfl))
    fun j hj _ => h.toLinked.entryStored hst _ (.inr rfl) j hj
  pages := nofun

theorem claims_sharing (space : Nat → Option AddressSpace) : sharing.claims space = space := by
  funext id
  exact congrFun Option.map_id (space id)

theorem Layout.guarded (h : Layout s space k1 L1 L0) : Guarded sharing s space [] k1 L1 L0 :=
  ⟨h.tables, (claims_sharing space).symm ▸ h.owns, .nil, h.shares⟩

theorem Guarded.layout (h : Guarded sharing s space [] k1 L1 L0) : Layout s space k1 L1 L0 :=
  ⟨h.kernel, claims_sharing space ▸ h.owns, h.spaces⟩

/-! ## Runs -/

/-- What the kernel has set up when the first address space is created. -/
structure Booted (s : State) : Prop where
  spaces : ∀ id, s.space id = none
  layout : ∃ k1 L1 L0, Layout s s.space k1 L1 L0

/-- Every operation keeps the invariant of the page tables. -/
theorem step_layout {op : Op} (hop : TablesInPlace s op) (hst : step s op = some s')
    (h : Layout s s.space k1 L1 L0) : ∃ L1' L0', Layout s' s'.space k1 L1' L0' := by
  obtain ⟨L1', L0', h', -⟩ := h.guarded.step (fun _ => hop) nofun hst
  exact ⟨L1', L0', h'.layout⟩

theorem Booted.layout_of_run {t : State} (hboot : Booted s) (hrun : Run step TablesInPlace s t) :
    ∃ k1 L1 L0, Layout t t.space k1 L1 L0 := by
  refine hrun.invariant (I := fun u => ∃ k1 L1 L0, Layout u u.space k1 L1 L0) hboot.layout ?_
  rintro u op v ⟨k1, L1, L0, h⟩ hop hst
  exact ⟨k1, step_layout hop hst h⟩

/-! ## Translation -/

section Walk

variable {ram : Ram} {user : Bool} {va shift table table' : Nat} {access : Access}
  {rest : List Nat}

/-- A walk depends on the table only through the entry that it reads. -/
theorem walk_congr
    (hvalid : physicalRangeValid ram (table + tableIndex va shift * 8) 8 =
      physicalRangeValid ram (table' + tableIndex va shift * 8) 8)
    (hword : ram.word (table + tableIndex va shift * 8) =
      ram.word (table' + tableIndex va shift * 8)) :
    walk ram user va access (shift :: rest) table =
      walk ram user va access (shift :: rest) table' := by
  simp only [walk, hvalid, hword]

/-- The entries of a table inside RAM are inside RAM. -/
theorem physicalRangeValid_entry (hroot : rootValid ram table = true) (va shift : Nat) :
    physicalRangeValid ram (table + tableIndex va shift * 8) 8 = true := by
  have hi := tableIndex_lt va shift
  have hin := (rootValid_iff.mp hroot).2
  rw [physicalRangeValid_iff (by decide)]
  simp only [pageSize] at hin
  omega

/-- A walk that succeeds has read a valid entry. -/
theorem isValid_of_walk {q : Nat} (h : walk ram user va access (shift :: rest) table = .ok q) :
    isValid (ram.word (table + tableIndex va shift * 8)) = true := by
  simp only [walk] at h
  split_ifs at h with h₁ h₂ <;> simp_all

/-- A walk through an entry that refers to a table. -/
theorem walk_table (hroot : rootValid ram table = true)
    (hvalid : isValid (ram.word (table + tableIndex va shift * 8)) = true)
    (hleaf : isLeaf (ram.word (table + tableIndex va shift * 8)) = false) :
    walk ram user va access (shift :: rest) table =
      let pte := ram.word (table + tableIndex va shift * 8)
      if isReserved pte || rest.isEmpty || isUser pte || !rootValid ram (addressOf pte) then
        .malformedEntry
      else walk ram user va access rest (addressOf pte) := by
  have hwrite : isWritable (ram.word (table + tableIndex va shift * 8)) = false := by
    simp only [isLeaf, Bool.or_eq_false_iff] at hleaf
    exact hleaf.1.2
  simp only [walk, physicalRangeValid_entry hroot, hvalid, hleaf, hwrite]
  cases isReserved (ram.word (table + tableIndex va shift * 8)) <;> simp

/-- A walk through an entry as `allocate_next_table` makes them. -/
theorem walk_next {next shift' : Nat} (hroot : rootValid ram table = true)
    (hnext : rootValid ram next = true)
    (hword : ram.word (table + tableIndex va shift * 8) = next ||| pteValid) :
    walk ram user va access (shift :: shift' :: rest) table =
      walk ram user va access (shift' :: rest) next := by
  have ha := (rootValid_iff.mp hnext).1
  have huser : isUser (next ||| pteValid) = false := by
    rw [isUser, testBit_entry ha (by decide)]
    decide
  have hreserved : isReserved (next ||| pteValid) = false := isReserved_entry ha (by decide)
  rw [walk_table hroot (hword ▸ isValid_table ha) (hword ▸ isLeaf_table ha), hword]
  simp [addressOf_entry ha (show pteValid < pageSize by decide), huser, hreserved, hnext]

/-- A user walk fails at an entry that is not for user mode, unless it succeeds from the table to
    which the entry refers. -/
theorem walk_user_ne {q : Nat}
    (huser : isValid (ram.word (table + tableIndex va shift * 8)) = true →
      isUser (ram.word (table + tableIndex va shift * 8)) = false)
    (hrest : isValid (ram.word (table + tableIndex va shift * 8)) = true →
      isLeaf (ram.word (table + tableIndex va shift * 8)) = false → rest ≠ [] →
      walk ram true va access rest (addressOf (ram.word (table + tableIndex va shift * 8))) ≠
        .ok q) :
    walk ram true va access (shift :: rest) table ≠ .ok q := by
  intro h
  have hv := isValid_of_walk h
  have hu := huser hv
  simp only [walk] at h
  split_ifs at h with h₁ h₂ h₃ h₄ h₅ h₆ h₇
  · have hne : rest ≠ [] := by
      rintro rfl
      simp at h₅
    exact hrest hv (by simpa using h₄) hne h
  · simp [permissionGranted, hu] at h₇

end Walk

section Coherent

variable {va q r : Nat} {user : Bool} {access : Access}

/-! The kernel's tables have no mapping for user mode, level by level. -/

theorem Tables.walk_user_level0 (h : Tables s k1 L1 L0) (hq : q ∈ L0) :
    walk s.ram true va access [12] q ≠ .ok r :=
  walk_user_ne (h.level0 q hq _ (tableIndex_lt va 12)) fun _ _ hne => absurd rfl hne

theorem Tables.walk_user_level1 (h : Tables s k1 L1 L0) (hq : q = k1 ∨ q ∈ L1) :
    walk s.ram true va access [21, 12] q ≠ .ok r := by
  have hlinks := h.level1 q hq _ (tableIndex_lt va 21)
  exact walk_user_ne (fun hv => (hlinks hv).1)
    fun hv hl _ => h.walk_user_level0 ((hlinks hv).2 hl)

theorem Tables.walk_user_root (h : Tables s k1 L1 L0) (hva : tableIndex va 30 ≠ 0) :
    walk s.ram true va access [30, 21, 12] s.root ≠ .ok r := by
  have hlinks := h.root _ (Nat.pos_of_ne_zero hva) (tableIndex_lt va 30)
  exact walk_user_ne (fun hv => (hlinks hv).1)
    fun hv hl _ => h.walk_user_level1 (.inr ((hlinks hv).2 hl))

/-- The tables of an address space are inside RAM. -/
theorem Layout.rootValid_of_tables (h : Layout s space k1 L1 L0) (hsp : space id = some sp)
    (hq : q ∈ sp.tables) : rootValid s.ram q = true := by
  have hpage := (h.guarded.table hsp hq).1
  exact rootValid_iff.mpr ⟨hpage.aligned, hpage.inside⟩

/-- Above the first gigabyte the roots have the same entries. -/
theorem Layout.walk_root (h : Layout s space k1 L1 L0) (hsp : space id = some sp)
    (hroot : rootValid s.ram s.root = true) (hva : tableIndex va 30 ≠ 0)
    (hvalid : isValid (s.entry s.root (tableIndex va 30)) = true) :
    walk s.ram user va access [30, 21, 12] sp.root =
      walk s.ram user va access [30, 21, 12] s.root := by
  have hsh := h.shares id sp hsp
  have hin := h.rootValid_of_tables hsp hsh.root_mem
  refine walk_congr ?_ (hsh.root_shared _ (Nat.pos_of_ne_zero hva) (tableIndex_lt va 30) hvalid)
  rw [physicalRangeValid_entry hin, physicalRangeValid_entry hroot]

/-- In the first gigabyte an address space has a table of its own. -/
theorem Layout.walk_space (h : Layout s space k1 L1 L0) (hsp : space id = some sp)
    (hva : tableIndex va 30 = 0) :
    walk s.ram user va access [30, 21, 12] sp.root =
      walk s.ram user va access [21, 12] sp.level1 := by
  have hsh := h.shares id sp hsp
  refine walk_next (h.rootValid_of_tables hsp hsh.root_mem)
    (h.rootValid_of_tables hsp hsh.level1_mem) ?_
  rw [hva]
  exact hsh.entry0

/-- What the kernel's root translates in the first gigabyte, through its table there. -/
theorem Layout.walk_kernel (h : Layout s space k1 L1 L0) (hroot : rootValid s.ram s.root = true)
    (hva : tableIndex va 30 = 0)
    (hok : walk s.ram false va access [30, 21, 12] s.root = .ok r) :
    rootValid s.ram k1 = true ∧ ∀ access',
      walk s.ram false va access' [30, 21, 12] s.root =
        walk s.ram false va access' [21, 12] k1 := by
  obtain ⟨hvalid, hleaf, hk1⟩ := h.tables.entry0
  have hword : s.ram.word (s.root + tableIndex va 30 * 8) = s.entry s.root 0 := by rw [hva]; rfl
  have hwalk : ∀ access', walk s.ram false va access' [30, 21, 12] s.root =
      if isReserved (s.entry s.root 0) || false || isUser (s.entry s.root 0) ||
        !rootValid s.ram k1 then .malformedEntry
      else walk s.ram false va access' [21, 12] k1 := by
    intro access'
    rw [walk_table hroot (hword ▸ hvalid) (hword ▸ hleaf), hword]
    simp only [hk1]
    rfl
  rw [hwalk] at hok
  split at hok
  · cases hok
  · next hcond =>
    simp only [Bool.or_eq_true, Bool.not_eq_true', not_or] at hcond
    refine ⟨by simpa using hcond.2, fun access' => ?_⟩
    rw [hwalk, if_neg (by simpa using hcond)]

/-- The tables of the first gigabyte that are outside the user range. -/
theorem tableIndex_outside (hlimit : va < virtualAddressLimit) (hva : tableIndex va 30 = 0)
    (hout : va < userImageBase ∨ userStackTop ≤ va) :
    tableIndex va 21 < 8 ∨ 504 ≤ tableIndex va 21 := by
  simp only [tableIndex, virtualAddressLimit, userImageBase, userStackTop] at *
  omega

/-- The first-gigabyte tables have the same entries outside the user range. -/
theorem Layout.walk_level1 (h : Layout s space k1 L1 L0) (hsp : space id = some sp)
    (hk1 : rootValid s.ram k1 = true) (hj : tableIndex va 21 < 8 ∨ 504 ≤ tableIndex va 21)
    (hvalid : isValid (s.entry k1 (tableIndex va 21)) = true) :
    walk s.ram user va access [21, 12] sp.level1 = walk s.ram user va access [21, 12] k1 := by
  have hsh := h.shares id sp hsp
  have hin := h.rootValid_of_tables hsp hsh.level1_mem
  refine walk_congr ?_ (hsh.level1_shared _ (tableIndex_lt va 21) hj hvalid)
  rw [physicalRangeValid_entry hin, physicalRangeValid_entry hk1]

/-- What the kernel's root translates outside the user range, an address space translates in the
    same way, and not for user mode. -/
theorem Layout.translate_eq (h : Layout s space k1 L1 L0) (hsp : space id = some sp)
    (hout : va < userImageBase ∨ userStackTop ≤ va)
    (hok : translate s.ram s.root false va access = .ok r) :
    (∀ access', translate s.ram sp.root false va access' =
      translate s.ram s.root false va access') ∧
    ∀ access' r', translate s.ram sp.root true va access' ≠ .ok r' := by
  have hsp_root := h.rootValid_of_tables hsp (h.shares id sp hsp).root_mem
  unfold translate at hok
  split_ifs at hok with hlimit hroot
  simp only [Bool.not_eq_true', Bool.not_eq_false] at hroot
  have htr : ∀ root user access', rootValid s.ram root = true →
      translate s.ram root user va access' = walk s.ram user va access' [30, 21, 12] root := by
    intro root user access' hr
    rw [translate, if_neg hlimit, hr]
    rfl
  simp only [htr _ _ _ hroot, htr _ _ _ hsp_root]
  by_cases hva : tableIndex va 30 = 0
  · obtain ⟨hk1, hkernel⟩ := h.walk_kernel hroot hva hok
    rw [hkernel] at hok
    have hj := tableIndex_outside (Nat.lt_of_not_le hlimit) hva hout
    have hvalid := isValid_of_walk hok
    refine ⟨fun access' => ?_, fun access' r' => ?_⟩
    · rw [h.walk_space hsp hva, h.walk_level1 hsp hk1 hj hvalid, hkernel]
    · rw [h.walk_space hsp hva, h.walk_level1 hsp hk1 hj hvalid]
      exact h.tables.walk_user_level1 (.inl rfl)
  · have hvalid := isValid_of_walk hok
    refine ⟨fun access' => h.walk_root hsp hroot hva hvalid, fun access' r' => ?_⟩
    rw [h.walk_root hsp hroot hva hvalid]
    exact h.tables.walk_user_root hva

/-- The kernel's tables after `kernel_heap_self_test`, by page number and index: the root, the
    tables of the first gigabyte and of the direct map, the small pages at the end of the direct
    map, those of the heap and those of the first megabytes (with the page of the boot
    information). -/
def bootEntry : Nat → Nat → Nat
  | 1, 0 => 0x2001
  | 1, 4 => 0x3001
  | 2, 0 => 0x7001
  | 3, i => if i < 510 then (i * 0x200000) ||| 7 else if i = 510 then 0x4001 else 0x5001
  | 4, i => if i < 496 then (0x3FC00000 + i * 0x1000) ||| 7 else 0
  | 5, i => if 496 ≤ i ∧ i < 501 then (0x8000 + (i - 496) * 0x1000) ||| 7 else 0
  | 7, 256 => 0x100003
  | _, _ => 0

/-- The state after `kernel_heap_self_test`: `kernel_heap_init` maps two pages of the heap, and the
    test's allocation of 9000 bytes three more. -/
def bootState : State where
  ram := ⟨0x3FDF0000, fun a => bootEntry (a / 4096) (a % 4096 / 8)⟩
  directMapSize := 0x3FDF0000
  recycled := []
  fresh := (List.range 19).map (0xD000 + · * 0x1000)
  root := 0x1000
  heapBase := 0x13FFF0000
  heapMappedSize := 0x5000
  space := fun _ => none

theorem bootState_tables : Tables bootState 0x2000 {0x3000} {0x4000, 0x5000, 0x7000} where
  entry0 := by decide
  root i h0 hi := by
    have h : ∀ i < 512, 0 < i → isValid (bootState.entry 0x1000 i) = true →
        isUser (bootState.entry 0x1000 i) = false ∧
          (isLeaf (bootState.entry 0x1000 i) = false →
            addressOf (bootState.entry 0x1000 i) = 0x3000) := by decide +kernel
    exact h i hi h0
  level1 q hq j hj := by
    have h : ∀ q ∈ [0x2000, 0x3000], ∀ j < 512, isValid (bootState.entry q j) = true →
        isUser (bootState.entry q j) = false ∧
          (isLeaf (bootState.entry q j) = false → addressOf (bootState.entry q j) = 0x4000 ∨
            addressOf (bootState.entry q j) = 0x5000 ∨
            addressOf (bootState.entry q j) = 0x7000) := by decide +kernel
    exact h q (by simpa using hq) j hj
  level0 q hq := by
    have h : ∀ q ∈ [0x4000, 0x5000, 0x7000], ∀ j < 512, isValid (bootState.entry q j) = true →
        isUser (bootState.entry q j) = false := by decide +kernel
    exact h q (by simpa using hq)
  aligned := by
    rintro q (rfl | rfl | rfl | rfl | rfl | rfl) <;> decide
  root_apart := by simp [bootState]
  k1_apart := by simp

theorem bootState_owns : Owns bootState (fun _ => none)
    (kernelPages bootState.root 0x2000 {0x3000} {0x4000, 0x5000, 0x7000}) := by
  refine ⟨by decide, fun p hp => ?_, nofun, nofun, nofun⟩
  have h : ∀ p ∈ bootState.free, (p % pageSize = 0 ∧ p ≠ 0 ∧ p + pageSize ≤ bootState.ram.size ∧
      bootState.direct p = true) ∧ 0x8000 ≤ p := by decide
  obtain ⟨⟨ha, h0, hin, hd⟩, hlow⟩ := h p hp
  refine ⟨⟨ha, h0, hin, hd⟩, ?_⟩
  rintro (rfl | rfl | rfl | rfl | rfl | rfl) <;> revert hlow <;> decide

theorem bootState_layout :
    Layout bootState bootState.space 0x2000 {0x3000} {0x4000, 0x5000, 0x7000} :=
  ⟨bootState_tables, bootState_owns, nofun⟩

theorem bootState_booted : Booted bootState :=
  ⟨fun _ => rfl, 0x2000, {0x3000}, {0x4000, 0x5000, 0x7000}, bootState_layout⟩

/-- While there is no address space the heap may grow. -/
theorem Booted.grow {t : State} {n : Nat} (hboot : Booted s)
    (h : runList step s (List.replicate n .heapAppendPage) = some t) :
    Run step TablesInPlace s t := by
  suffices ∀ u, Booted u → Run step TablesInPlace s u →
      runList step u (List.replicate n .heapAppendPage) = some t → Run step TablesInPlace s t from
    this s hboot .refl h
  clear h
  induction n with
  | zero =>
    intro u _ hrun h
    cases h
    exact hrun
  | succ n ih =>
    intro u hu hrun h
    obtain ⟨v, hv, hrest⟩ := Option.bind_eq_some_iff.mp h
    have hop : TablesInPlace u .heapAppendPage := .inl hu.spaces
    obtain ⟨k1, L1, L0, hlay⟩ := hu.layout
    have hv' := hv
    simp only [step, Option.ite_none_right_eq_some, Option.some.injEq] at hv'
    obtain ⟨-, rfl⟩ := hv'
    obtain ⟨L1', L0', hlay', hspace⟩ :=
      (sharing.tableRules _ k1).heapAppendPage hlay.guarded (sharing.may_or fun _ => hop)
    exact ih _ ⟨hspace.symm ▸ hu.spaces, k1, L1', L0', hspace.symm ▸ hlay'.layout⟩
      (hrun.tail hop hv) hrest

/-- The heap grows over the boundary before there is an address space, and again when there are
    two. -/
theorem grownTwice_reached : ∃ t sp sp', Run step TablesInPlace bootState t ∧
    t.space 0 = some sp ∧ t.space 1 = some sp' ∧
    translate t.ram t.root false 0x140001000 .read = .ok 0x1F000 := by
  have hrest : (runList step bootState (List.replicate 12 .heapAppendPage)).any (fun t₁ =>
      (step t₁ (.create 0 true true true)).any fun t₂ =>
        (step t₂ (.create 1 true true true)).any fun t₃ =>
          pathExists t₃ (t₃.heapBase + t₃.heapMappedSize) &&
            (step t₃ .heapAppendPage).any fun t => (t.space 0).any fun _ => (t.space 1).any fun _ =>
              translate t.ram t.root false 0x140001000 .read == .ok 0x1F000) = true := by
    decide +kernel
  simp only [Option.any_eq_true, Bool.and_eq_true, beq_iff_eq] at hrest
  obtain ⟨t₁, h₁, t₂, h₂, t₃, h₃, hpath, t, h₄, sp, hsp, sp', hsp', hok⟩ := hrest
  have hrun := ((bootState_booted.grow h₁).tail (a := Op.create 0 true true true) trivial h₂).tail
    (a := Op.create 1 true true true) trivial h₃
  have hop : TablesInPlace t₃ .heapAppendPage := .inr hpath
  exact ⟨t, sp, sp', hrun.tail hop h₄, hsp, hsp', hok⟩

/-- In the same runs, whichever allocations fail, a page that an address space holds, as a table or
    as memory, is held once and by no other; it is not free, and neither is it nor a free page one
    of the kernel's tables. -/
theorem pages_held_once {t : State} (hboot : Booted s) (hrun : Run step TablesInPlace s t) :
    ∃ k1 L1 L0, Tables t k1 L1 L0 ∧ Owns t t.space (kernelPages t.root k1 L1 L0) := by
  obtain ⟨k1, L1, L0, h⟩ := hboot.layout_of_run hrun
  exact ⟨k1, L1, L0, h.tables, h.owns⟩

theorem pages_held_once_grownTwice : ∃ t sp sp', Booted bootState ∧
    Run step TablesInPlace bootState t ∧ t.space 0 = some sp ∧ t.space 1 = some sp' ∧
    ∃ k1 L1 L0, Tables t k1 L1 L0 ∧ Owns t t.space (kernelPages t.root k1 L1 L0) := by
  obtain ⟨t, sp, sp', hrun, hsp, hsp', -⟩ := grownTwice_reached
  exact ⟨t, sp, sp', bootState_booted, hrun, hsp, hsp', pages_held_once bootState_booted hrun⟩

end Coherent

end RiscMv.Paging
