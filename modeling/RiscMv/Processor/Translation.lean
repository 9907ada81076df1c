import RiscMv.Processor.Memory

/-!
# What a translation depends on

A walk of the memory management unit reads one entry of each table on its way.  It finds consecutive
addresses of a page at consecutive places, a page that may be written may also be read, and it sees
no more of memory than the entries it reads.

## Key results
- `translate_add`: consecutive addresses of a page
- `translate_read_of_write`: a writable page is readable
- `translate_congr`: two memories that agree on the entries read
-/

namespace RiscMv.Paging

variable {ram ram' : Ram} {user : Bool} {va table p shift i root : Nat} {access : Access}
  {shifts rest : List Nat}

/-- One level of a walk that succeeds. -/
theorem walk_eq_ok : walk ram user va access (shift :: rest) table = .ok p ↔
    let pte := ram.word (table + tableIndex va shift * 8)
    physicalRangeValid ram (table + tableIndex va shift * 8) 8 = true ∧ isValid pte = true ∧
      isReserved pte = false ∧ (isWritable pte = true → isReadable pte = true) ∧
      (isLeaf pte = false ∧ rest ≠ [] ∧ isUser pte = false ∧ rootValid ram (addressOf pte) = true ∧
          walk ram user va access rest (addressOf pte) = .ok p ∨
        isLeaf pte = true ∧ addressOf pte % 2 ^ shift = 0 ∧
        permissionGranted pte user access = true ∧
          (addressOf pte < ram.size → physicalRangeValid ram (addressOf pte) (2 ^ shift) = true) ∧
          p = addressOf pte ||| va % 2 ^ shift) := by
  simp only [walk]
  generalize ram.word (table + tableIndex va shift * 8) = pte
  constructor
  · intro h
    split at h
    · cases h
    split at h
    · cases h
    split at h
    · cases h
    split at h
    · split at h
      · cases h
      simp_all
    · split at h
      · cases h
      split at h
      · cases h
      split at h
      · cases h
      cases h
      simp_all
  · rintro ⟨hrange, hvalid, hreserved, hwrite, ⟨hleaf, hrest, huser, hroot, hwalk⟩ |
      ⟨hleaf, halign, hperm, hin, rfl⟩⟩
    · simp_all
    · have hsound : ¬ (isWritable pte = true ∧ isReadable pte = false) := by
        rintro ⟨hw, hr⟩
        rw [hwrite hw] at hr
        cases hr
      have hfits : ¬ (addressOf pte < ram.size ∧
          physicalRangeValid ram (addressOf pte) (2 ^ shift) = false) := by
        rintro ⟨hlt, hr⟩
        rw [hin hlt] at hr
        cases hr
      simp [hrange, hvalid, hreserved, hleaf, halign, hperm, hsound, hfits]

theorem div_page_add (hi : va % pageSize + i < pageSize) : (va + i) / 2 ^ 12 = va / 2 ^ 12 := by
  simp only [pageSize] at hi
  omega

theorem tableIndex_add (hi : va % pageSize + i < pageSize) (hshift : 12 ≤ shift) :
    tableIndex (va + i) shift = tableIndex va shift := by
  obtain ⟨k, rfl⟩ := Nat.exists_eq_add_of_le hshift
  rw [tableIndex, tableIndex, Nat.pow_add, ← Nat.div_div_eq_div_mul, ← Nat.div_div_eq_div_mul,
    div_page_add hi]

/-- The offset in a leaf of the next addresses of a page. -/
theorem mod_shift_add (hi : va % pageSize + i < pageSize) (hshift : 12 ≤ shift) :
    (va + i) % 2 ^ shift = va % 2 ^ shift + i ∧ va % 2 ^ shift % pageSize = va % pageSize := by
  obtain ⟨k, rfl⟩ := Nat.exists_eq_add_of_le hshift
  have hpage := div_page_add hi
  simp only [pageSize] at hi ⊢
  rw [Nat.pow_add, Nat.mod_mul, Nat.mod_mul, hpage]
  omega

/-- The next addresses of a page are at the next places. -/
theorem walk_add (hi : va % pageSize + i < pageSize) (hshifts : ∀ shift ∈ shifts, 12 ≤ shift)
    (h : walk ram user va access shifts table = .ok p) :
    walk ram user (va + i) access shifts table = .ok (p + i) ∧ p % pageSize = va % pageSize := by
  induction shifts generalizing table with
  | nil => cases h
  | cons shift rest ih =>
    have hshift := hshifts shift (List.mem_cons_self ..)
    obtain ⟨hrange, hvalid, hreserved, hwrite, hstep⟩ := walk_eq_ok.mp h
    rw [walk_eq_ok, tableIndex_add hi hshift]
    dsimp only
    obtain ⟨hleaf, hrest, huser, hroot, hwalk⟩ | ⟨hleaf, halign, hperm, hin, hp⟩ := hstep
    · obtain ⟨hnext, hmod⟩ := ih (fun s hs => hshifts s (List.mem_cons_of_mem _ hs)) hwalk
      exact ⟨⟨hrange, hvalid, hreserved, hwrite, .inl ⟨hleaf, hrest, huser, hroot, hnext⟩⟩, hmod⟩
    · obtain ⟨hoff, hmod⟩ := mod_shift_add hi hshift
      -- the address of a leaf has no bits below its size
      have hor : ∀ v, addressOf (ram.word (table + tableIndex va shift * 8)) ||| v % 2 ^ shift =
          addressOf (ram.word (table + tableIndex va shift * 8)) + v % 2 ^ shift := by
        intro v
        obtain ⟨k, hk⟩ := Nat.dvd_of_mod_eq_zero halign
        rw [hk]
        exact (Nat.two_pow_add_eq_or_of_lt (Nat.mod_lt v (Nat.two_pow_pos shift)) k).symm
      rw [hor] at hp
      refine ⟨⟨hrange, hvalid, hreserved, hwrite, .inr ⟨hleaf, halign, hperm, hin, ?_⟩⟩, ?_⟩
      · rw [hor, hoff, hp, Nat.add_assoc]
      · have haddr := addressOf_aligned (ram.word (table + tableIndex va shift * 8))
        rw [hp, Nat.add_mod, haddr, hmod, Nat.zero_add, Nat.mod_mod]

/-- A page that may be written may be read, at the same place. -/
theorem walk_read_of_write (h : walk ram user va .write shifts table = .ok p) :
    walk ram user va .read shifts table = .ok p := by
  induction shifts generalizing table with
  | nil => cases h
  | cons shift rest ih =>
    rw [walk_eq_ok] at h ⊢
    obtain ⟨hrange, hvalid, hreserved, hwrite, hstep⟩ := h
    refine ⟨hrange, hvalid, hreserved, hwrite, ?_⟩
    obtain ⟨hleaf, hrest, huser, hroot, hwalk⟩ | ⟨hleaf, halign, hperm, hin, hp⟩ := hstep
    · exact .inl ⟨hleaf, hrest, huser, hroot, ih hwalk⟩
    · refine .inr ⟨hleaf, halign, ?_, hin, hp⟩
      simp only [permissionGranted] at hperm ⊢
      split at hperm
      · cases hperm
      · next hmode =>
        rw [if_neg hmode]
        exact hwrite hperm

/-- The entries that a walk reads. -/
def entriesRead (ram : Ram) (va : Nat) : List Nat → Nat → List Nat
  | [], _ => []
  | shift :: rest, table =>
    let entry := table + tableIndex va shift * 8
    let pte := ram.word entry
    if isValid pte && !isReserved pte && !isLeaf pte && !isUser pte && rootValid ram (addressOf pte)
    then entry :: entriesRead ram va rest (addressOf pte)
    else [entry]

/-- An entry of the tables below a root, at the address `entry`. -/
def TableEntry (ram : Ram) (root entry : Nat) : Prop :=
  ∃ va, entry ∈ entriesRead ram va [30, 21, 12] root

theorem physicalRangeValid_congr (hsize : ram'.size = ram.size) (a w : Nat) :
    physicalRangeValid ram' a w = physicalRangeValid ram a w := by
  simp only [physicalRangeValid, hsize]

theorem rootValid_congr (hsize : ram'.size = ram.size) (a : Nat) :
    rootValid ram' a = rootValid ram a := by
  simp only [rootValid, physicalRangeValid_congr hsize]

theorem entriesRead_congr (hsize : ram'.size = ram.size)
    (h : ∀ entry ∈ entriesRead ram va shifts table, ram'.word entry = ram.word entry) :
    entriesRead ram' va shifts table = entriesRead ram va shifts table ∧
      walk ram' user va access shifts table = walk ram user va access shifts table := by
  have hphys := physicalRangeValid_congr hsize
  have hroot := rootValid_congr hsize
  induction shifts generalizing table with
  | nil => exact ⟨rfl, rfl⟩
  | cons shift rest ih =>
    have hword : ram'.word (table + tableIndex va shift * 8) =
        ram.word (table + tableIndex va shift * 8) := by
      apply h
      rw [entriesRead]
      split <;> exact List.mem_cons_self ..
    rw [entriesRead] at h
    simp only [entriesRead, walk, hword, hphys, hroot, hsize]
    -- the walk goes on exactly where the list of entries does
    by_cases hgo : (isValid (ram.word (table + tableIndex va shift * 8)) &&
        !isReserved (ram.word (table + tableIndex va shift * 8)) &&
        !isLeaf (ram.word (table + tableIndex va shift * 8)) &&
        !isUser (ram.word (table + tableIndex va shift * 8)) &&
        rootValid ram (addressOf (ram.word (table + tableIndex va shift * 8)))) = true
    · rw [if_pos hgo] at h
      obtain ⟨hentries, hwalk⟩ := ih fun entry he => h entry (List.mem_cons_of_mem _ he)
      rw [hentries, hwalk]
      exact ⟨rfl, rfl⟩
    · rw [if_neg hgo, if_neg hgo]
      refine ⟨rfl, ?_⟩
      generalize ram.word (table + tableIndex va shift * 8) = pte at hgo ⊢
      simp only [Bool.and_eq_true, Bool.not_eq_true', not_and] at hgo
      by_cases hv : isValid pte = true
      · by_cases hr : isReserved pte = false
        · by_cases hl : isLeaf pte = false
          · by_cases hu : isUser pte = false
            · have hinvalid : rootValid ram (addressOf pte) = false := by
                rw [Bool.eq_false_iff]
                exact hgo ⟨⟨⟨hv, hr⟩, hl⟩, hu⟩
              simp [hinvalid]
            · simp [Bool.eq_true_of_not_eq_false hu]
          · simp [Bool.eq_true_of_not_eq_false hl]
        · simp [Bool.eq_true_of_not_eq_false hr]
      · simp [Bool.eq_false_iff.mpr hv]

theorem translate_add (hi : va % pageSize + i < pageSize)
    (h : translate ram root user va access = .ok p) :
    translate ram root user (va + i) access = .ok (p + i) ∧ p % pageSize = va % pageSize := by
  simp only [translate] at h ⊢
  split at h
  · cases h
  split at h
  · cases h
  next hlow hroot =>
    have hnext : ¬ va + i ≥ virtualAddressLimit := by
      simp only [pageSize, virtualAddressLimit] at hi hlow ⊢
      omega
    rw [if_neg hnext, if_neg hroot]
    exact walk_add hi (by decide) h

theorem translate_read_of_write (h : translate ram root user va .write = .ok p) :
    translate ram root user va .read = .ok p := by
  simp only [translate] at h ⊢
  split at h
  · cases h
  split at h
  · cases h
  next hlow hroot =>
    rw [if_neg hlow, if_neg hroot]
    exact walk_read_of_write h

section

variable (hsize : ram'.size = ram.size)
  (h : ∀ entry, TableEntry ram root entry → ram'.word entry = ram.word entry)
include hsize h

theorem translate_congr :
    translate ram' root user va access = translate ram root user va access := by
  have hwalk := (entriesRead_congr hsize fun entry he => h entry ⟨va, he⟩ :
    _ ∧ walk ram' user va access [30, 21, 12] root = walk ram user va access [30, 21, 12] root).2
  rw [translate, translate, rootValid_congr hsize, hwalk]

theorem TableEntry.congr (entry : Nat) :
    TableEntry ram' root entry ↔ TableEntry ram root entry := by
  apply exists_congr
  intro va
  have hentries := (@entriesRead_congr ram ram' false va root .read [30, 21, 12] hsize
    fun entry he => h entry ⟨va, he⟩).1
  rw [hentries]

end

end RiscMv.Paging

/-! ## The addresses of the processor -/

namespace RiscMv.Processor

open RiscMv.Paging (Access MmuResult TableEntry pageSize)

variable {s t : Machine} {a p i : Nat} {access : Access}

namespace Machine

/-- The place in physical memory of an address. -/
def physical (s : Machine) (access : Access) (a : Nat) : Option Nat :=
  if !s.cpu.mmuEnabled then some a
  else match Paging.translate s.ram s.cpu.ptbr.toNat (s.cpu.mode = .user) a access with
    | .ok p => some p
    | _ => none

theorem physical_off (h : s.cpu.mmuEnabled = false) : s.physical access a = some a := by
  simp [physical, h]

theorem physical_on (h : s.cpu.mmuEnabled = true) : s.physical access a = some p ↔
    Paging.translate s.ram s.cpu.ptbr.toNat (s.cpu.mode = .user) a access = .ok p := by
  rw [physical, if_neg (by simp [h])]
  split
  · next q hq => simp [hq]
  · next hne =>
    constructor
    · intro hnone
      cases hnone
    · intro hok
      exact absurd hok (hne p)

theorem physical_add (hi : a % pageSize + i < pageSize) (h : s.physical access a = some p) :
    s.physical access (a + i) = some (p + i) := by
  cases hmmu : s.cpu.mmuEnabled with
  | false =>
    rw [physical_off hmmu] at h ⊢
    cases h
    rfl
  | true =>
    rw [physical_on hmmu] at h ⊢
    exact (Paging.translate_add hi h).1

/-- A translation keeps the offset in the page. -/
theorem mod_of_physical (h : s.physical access a = some p) : p % pageSize = a % pageSize := by
  cases hmmu : s.cpu.mmuEnabled with
  | false =>
    rw [physical_off hmmu] at h
    cases h
    rfl
  | true =>
    rw [physical_on hmmu] at h
    exact (Paging.translate_add (i := 0) (Nat.mod_lt a (by decide)) h).2

theorem physical_read_of_write (h : s.physical .write a = some p) :
    s.physical .read a = some p := by
  cases hmmu : s.cpu.mmuEnabled with
  | false =>
    rw [physical_off hmmu] at h ⊢
    exact h
  | true =>
    rw [physical_on hmmu] at h ⊢
    exact Paging.translate_read_of_write h

end Machine

/-- `t` has the page tables of `s`: the same root, and the same entries. -/
structure SameTables (s t : Machine) : Prop where
  ramSize : t.ramSize = s.ramSize
  mmuEnabled : t.cpu.mmuEnabled = s.cpu.mmuEnabled
  ptbr : t.cpu.ptbr = s.cpu.ptbr
  entries : s.cpu.mmuEnabled = true → ∀ entry, TableEntry s.ram s.cpu.ptbr.toNat entry →
    t.ram.word entry = s.ram.word entry

namespace SameTables

theorem physical_eq (h : SameTables s t) (hmode : t.cpu.mode = s.cpu.mode) (access : Access)
    (a : Nat) : t.physical access a = s.physical access a := by
  cases hmmu : s.cpu.mmuEnabled with
  | false => rw [Machine.physical_off hmmu, Machine.physical_off (h.mmuEnabled.trans hmmu)]
  | true =>
    have htranslate : Paging.translate t.ram s.cpu.ptbr.toNat (s.cpu.mode = .user) a access =
        Paging.translate s.ram s.cpu.ptbr.toNat (s.cpu.mode = .user) a access :=
      Paging.translate_congr h.ramSize (h.entries hmmu)
    simp only [Machine.physical, h.mmuEnabled, h.ptbr, hmode, htranslate]

/-- Two machines with the tables of a third. -/
theorem of_common {r : Machine} (hs : SameTables r s) (ht : SameTables r t) : SameTables s t where
  ramSize := ht.ramSize.trans hs.ramSize.symm
  mmuEnabled := ht.mmuEnabled.trans hs.mmuEnabled.symm
  ptbr := ht.ptbr.trans hs.ptbr.symm
  entries hmmu entry hentry := by
    have hr : r.cpu.mmuEnabled = true := hs.mmuEnabled.symm.trans hmmu
    rw [hs.ptbr, Paging.TableEntry.congr hs.ramSize (hs.entries hr)] at hentry
    rw [ht.entries hr entry hentry, hs.entries hr entry hentry]

end SameTables

end RiscMv.Processor
