import Mathlib.Data.List.Nodup
import RiscMv.Paging.Tables

/-!
# What address spaces share with the kernel

An address space has the kernel's entries in its root and in its first-gigabyte table, except
for the user range, where its tables are private.

## Key results
- `Linked`: the shape of the tables of an address space
- `Linked.frame`, `Linked.records`, `Linked.own`: what keeps it
- `Layout`: the invariant of the page tables, with what the address spaces share
-/

namespace RiscMv.Paging

variable {s s' : State} {k1 q j va : Nat} {L1 L0 L1' L0' : Set Nat} {sp sp' : AddressSpace}
  {p : Nat} {r : AddressPage}

/-! ## Records -/

/-- The pages that an address space has for tables. -/
def AddressSpace.tables (sp : AddressSpace) : List Nat :=
  (sp.pages.filter (·.kind = .table)).map (·.physicalAddress)

theorem AddressSpace.mem_tables {sp : AddressSpace} :
    p ∈ sp.tables ↔ ∃ r ∈ sp.pages, r.kind = .table ∧ r.physicalAddress = p := by
  simp [AddressSpace.tables, and_assoc]

theorem AddressSpace.tables_append (r : AddressPage) (hp : p ∈ sp.tables) :
    p ∈ ({ sp with pages := sp.pages ++ [r] } : AddressSpace).tables := by
  simp only [AddressSpace.mem_tables, List.mem_append] at hp ⊢
  obtain ⟨r', hr', hp⟩ := hp
  exact ⟨r', .inl hr', hp⟩

/-- A record is removed. -/
def AddressSpace.erase (sp : AddressSpace) (r : AddressPage) : AddressSpace :=
  { sp with pages := sp.pages.erase r }

theorem AddressSpace.tables_erase (hk : r.kind ≠ .table) (hp : p ∈ sp.tables) :
    p ∈ (sp.erase r).tables := by
  rw [AddressSpace.mem_tables] at hp ⊢
  obtain ⟨r', hr', hk', hp⟩ := hp
  refine ⟨r', (List.mem_erase_of_ne ?_).mpr hr', hk', hp⟩
  rintro rfl
  exact hk hk'

/-! ## The tables of an address space -/

/-- A table of an address space below its first-gigabyte table. -/
structure PrivateTable (sp : AddressSpace) (t : Nat) : Prop where
  mem : t ∈ sp.tables
  ne_root : t ≠ sp.root
  ne_level1 : t ≠ sp.level1

/-- A private table stays one as records are added. -/
theorem PrivateTable.kept (ht : PrivateTable sp p) (hroot : sp'.root = sp.root)
    (hlevel1 : sp'.level1 = sp.level1) (htables : ∀ q ∈ sp.tables, q ∈ sp'.tables) :
    PrivateTable sp' p :=
  ⟨htables p ht.mem, hroot ▸ ht.ne_root, hlevel1 ▸ ht.ne_level1⟩

/-- The shape of the tables of an address space. -/
structure Linked (s : State) (L1 L0 : Set Nat) (sp : AddressSpace) : Prop where
  root_mem : sp.root ∈ sp.tables
  level1_mem : sp.level1 ∈ sp.tables
  root_ne : sp.root ≠ sp.level1
  entry0 : s.entry sp.root 0 = sp.level1 ||| pteValid
  root : ∀ i, 0 < i → i < 512 → Links L1 (s.entry sp.root i)
  level1_links : ∀ j < 512, sp.ownedLevel0 j = false → Links L0 (s.entry sp.level1 j)
  range : ∀ j < 512, sp.ownedLevel0 j = true → 8 ≤ j ∧ j < 504
  level1_private : ∀ j < 512, sp.ownedLevel0 j = true →
    ∃ t, s.entry sp.level1 j = t ||| pteValid ∧ t % pageSize = 0 ∧ PrivateTable sp t

theorem Linked.level1_table (h : Linked s L1 L0 sp) (hj : j < 512) (ho : sp.ownedLevel0 j = true) :
    PrivateTable sp (addressOf (s.entry sp.level1 j)) ∧
      addressOf (s.entry sp.level1 j) % pageSize = 0 := by
  obtain ⟨t, he, ha, ht⟩ := h.level1_private j hj ho
  rw [he, addressOf_entry ha (by decide)]
  exact ⟨ht, ha⟩

/-- Stores outside the root and the first-gigabyte table of an address space. -/
theorem Linked.frame (h : Linked s L1 L0 sp) (hL1 : L1 ⊆ L1') (hL0 : L0 ⊆ L0')
    (hentry : ∀ q, q = sp.root ∨ q = sp.level1 → ∀ i < 512, s'.entry q i = s.entry q i) :
    Linked s' L1' L0' sp where
  root_mem := h.root_mem
  level1_mem := h.level1_mem
  root_ne := h.root_ne
  entry0 := by
    rw [hentry sp.root (.inl rfl) 0 (by decide)]
    exact h.entry0
  root i h0 hi := by
    rw [hentry sp.root (.inl rfl) i hi]
    exact (h.root i h0 hi).mono hL1
  level1_links j hj ho := by
    rw [hentry sp.level1 (.inr rfl) j hj]
    exact (h.level1_links j hj ho).mono hL0
  range := h.range
  level1_private j hj ho := by
    rw [hentry sp.level1 (.inr rfl) j hj]
    exact h.level1_private j hj ho

/-- More records, or other records of user pages, do not matter for the tables. -/
theorem Linked.records (h : Linked s L1 L0 sp) (hroot : sp'.root = sp.root)
    (hlevel1 : sp'.level1 = sp.level1) (howned : sp'.ownedLevel0 = sp.ownedLevel0)
    (htables : ∀ q ∈ sp.tables, q ∈ sp'.tables) : Linked s L1 L0 sp' where
  root_mem := hroot ▸ htables _ h.root_mem
  level1_mem := hlevel1 ▸ htables _ h.level1_mem
  root_ne := by rw [hroot, hlevel1]; exact h.root_ne
  entry0 := by rw [hroot, hlevel1]; exact h.entry0
  root := by rw [hroot]; exact h.root
  level1_links := by rw [hlevel1, howned]; exact h.level1_links
  range := by rw [howned]; exact h.range
  level1_private j hj ho := by
    rw [howned] at ho
    rw [hlevel1]
    obtain ⟨t, he, ha, ht⟩ := h.level1_private j hj ho
    exact ⟨t, he, ha, ht.kept hroot hlevel1 htables⟩

theorem update_true_eq_false {f : Nat → Bool} {i : Nat} :
    Function.update f j true i = false ↔ i ≠ j ∧ f i = false := by
  rw [Function.update_apply]
  split <;> simp_all

theorem update_true_eq_true {f : Nat → Bool} {i : Nat} :
    Function.update f j true i = true ↔ i = j ∨ f i = true := by
  rw [Function.update_apply]
  split <;> simp_all

/-- A private table is put into the first-gigabyte table. -/
theorem Linked.own (h : Linked s L1 L0 sp) (ht : PrivateTable sp p) (hp : p % pageSize = 0)
    (hj : 8 ≤ j ∧ j < 504) (hroot : ∀ i < 512, s'.entry sp.root i = s.entry sp.root i)
    (hlevel1 : ∀ i < 512, s'.entry sp.level1 i =
      if i = j then p ||| pteValid else s.entry sp.level1 i) :
    Linked s' L1 L0 { sp with ownedLevel0 := Function.update sp.ownedLevel0 j true } where
  root_mem := h.root_mem
  level1_mem := h.level1_mem
  root_ne := h.root_ne
  entry0 := by
    rw [hroot 0 (by decide)]
    exact h.entry0
  root i h0 hi := by
    rw [hroot i hi]
    exact h.root i h0 hi
  level1_links i hi ho := by
    obtain ⟨hne, ho⟩ := update_true_eq_false.mp ho
    rw [hlevel1 i hi, if_neg hne]
    exact h.level1_links i hi ho
  range i hi ho := by
    obtain rfl | ho := update_true_eq_true.mp ho
    · exact hj
    · exact h.range i hi ho
  level1_private i hi ho := by
    rw [hlevel1 i hi]
    split
    · exact ⟨p, rfl, hp, ht.mem, ht.ne_root, ht.ne_level1⟩
    · next hij =>
      obtain ⟨t, he, ha, ht'⟩ :=
        h.level1_private i hi ((update_true_eq_true.mp ho).resolve_left hij)
      exact ⟨t, he, ha, ht'.mem, ht'.ne_root, ht'.ne_level1⟩

/-! ## The kernel's entries -/

/-- What the tables of an address space have in common with the kernel's. -/
structure Shares (s : State) (k1 : Nat) (L1 L0 : Set Nat) (sp : AddressSpace) : Prop
    extends Linked s L1 L0 sp where
  root_shared : ∀ i, 0 < i → i < 512 → isValid (s.entry s.root i) = true →
    s.entry sp.root i = s.entry s.root i
  level1_shared : ∀ j < 512, j < 8 ∨ 504 ≤ j → isValid (s.entry k1 j) = true →
    s.entry sp.level1 j = s.entry k1 j

/-- The kernel's root and first-gigabyte table have the entries they had. -/
structure SameRoots (s s' : State) (k1 : Nat) : Prop where
  root : s'.root = s.root
  entry : ∀ q, q = s.root ∨ q = k1 → ∀ i < 512, s'.entry q i = s.entry q i

/-- What is to show for the entries that are shared. -/
theorem Shares.of_linked (h : Shares s k1 L1 L0 sp) (hk : SameRoots s s' k1)
    (hl : Linked s' L1' L0' sp') (hroot : ∀ i < 512, s'.entry sp'.root i = s.entry sp.root i)
    (hlevel1 : ∀ j < 512, j < 8 ∨ 504 ≤ j → s'.entry sp'.level1 j = s.entry sp.level1 j) :
    Shares s' k1 L1' L0' sp' where
  toLinked := hl
  root_shared i h0 hi := by
    rw [hk.root, hroot i hi, hk.entry s.root (.inl rfl) i hi]
    exact h.root_shared i h0 hi
  level1_shared j hj hout := by
    rw [hlevel1 j hj hout, hk.entry k1 (.inr rfl) j hj]
    exact h.level1_shared j hj hout

/-- The invariant of the page tables: the kernel's, the pages of each owner, and what the address
    spaces share. -/
structure Layout (s : State) (space : Nat → Option AddressSpace) (k1 : Nat) (L1 L0 : Set Nat) :
    Prop where
  tables : Tables s k1 L1 L0
  owns : Owns s space (kernelPages s.root k1 L1 L0)
  shares : ∀ id sp, space id = some sp → Shares s k1 L1 L0 sp

theorem tableIndex_lt (va shift : Nat) : tableIndex va shift < 512 := Nat.mod_lt _ (by decide)

end RiscMv.Paging
