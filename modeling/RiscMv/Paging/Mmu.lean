import Mathlib.Algebra.Order.Group.Nat

/-!
# The memory management unit (`src/mmu.c`)

Page-table entries are 64-bit words; the model reads RAM in such words, at byte addresses that
are multiples of 8, which is how both the unit and the kernel access page tables.

Addresses are natural numbers: an address that the unit accepts lies below
`MMU_VIRTUAL_ADDRESS_LIMIT` or inside RAM, so nothing wraps around.
-/

namespace RiscMv.Paging

/-- `RAM`, in words; `word a` is the word at byte address `a`. -/
structure Ram where
  size : Nat
  word : Nat → Nat

/-- `MMU_PAGE_SIZE`. -/
def pageSize : Nat := 4096

/-- `MMU_VIRTUAL_ADDRESS_LIMIT`. -/
def virtualAddressLimit : Nat := 2 ^ 39

/-- `MMU_PTE_VALID`. -/
def pteValid : Nat := 1

/-- `MMU_PTE_READ`. -/
def pteRead : Nat := 2

/-- `MMU_PTE_WRITE`. -/
def pteWrite : Nat := 4

/-- `MMU_PTE_USER`. -/
def pteUser : Nat := 16

/-- `pte & MMU_PTE_VALID`. -/
def isValid (pte : Nat) : Bool := pte.testBit 0

/-- `pte & MMU_PTE_READ`. -/
def isReadable (pte : Nat) : Bool := pte.testBit 1

/-- `pte & MMU_PTE_WRITE`. -/
def isWritable (pte : Nat) : Bool := pte.testBit 2

/-- `pte & MMU_PTE_EXECUTE`. -/
def isExecutable (pte : Nat) : Bool := pte.testBit 3

/-- `pte & MMU_PTE_USER`. -/
def isUser (pte : Nat) : Bool := pte.testBit 4

/-- `pte & MMU_PTE_PERMISSION_MASK`: the entry is a leaf. -/
def isLeaf (pte : Nat) : Bool := isReadable pte || isWritable pte || isExecutable pte

/-- `pte & MMU_PTE_RESERVED_LOW_MASK`. -/
def isReserved (pte : Nat) : Bool := pte % pageSize / 32 ≠ 0

/-- `pte & MMU_PTE_ADDRESS_MASK`. -/
def addressOf (pte : Nat) : Nat := pte / pageSize * pageSize

/-- `MmuAccess`. -/
inductive Access where
  | read
  | write
  | execute
  | atomic
  deriving DecidableEq, Repr

/-- `MmuResult`, with the physical address. -/
inductive MmuResult where
  | ok (physical : Nat)
  | invalidVirtualAddress
  | invalidRoot
  | notPresent
  | malformedEntry
  | permissionDenied
  deriving DecidableEq, Repr

/-- `physical_range_valid`. -/
def physicalRangeValid (ram : Ram) (address width : Nat) : Bool :=
  address ≤ ram.size ∧ width ≤ ram.size - address

/-- `mmu_root_valid`. -/
def rootValid (ram : Ram) (root : Nat) : Bool :=
  root % pageSize = 0 ∧ physicalRangeValid ram root pageSize

/-- `permission_granted`. -/
def permissionGranted (pte : Nat) (user : Bool) (access : Access) : Bool :=
  if user && !isUser pte then false
  else match access with
    | .read => isReadable pte
    | .write => isWritable pte
    | .execute => isExecutable pte
    | .atomic => isReadable pte && isWritable pte

/-- The index of a virtual address in the table of a level. -/
def tableIndex (va shift : Nat) : Nat := va / 2 ^ shift % 512

/-- The loop of `mmu_translate` over the levels that remain. -/
def walk (ram : Ram) (user : Bool) (va : Nat) (access : Access) : List Nat → Nat → MmuResult
  | [], _ => .malformedEntry
  | shift :: rest, table =>
    let entry := table + tableIndex va shift * 8
    if !physicalRangeValid ram entry 8 then .invalidRoot
    else
      let pte := ram.word entry
      if !isValid pte then .notPresent
      else if isReserved pte || isWritable pte && !isReadable pte then .malformedEntry
      else if !isLeaf pte then
        if rest.isEmpty || isUser pte || !rootValid ram (addressOf pte) then .malformedEntry
        else walk ram user va access rest (addressOf pte)
      else if addressOf pte % 2 ^ shift ≠ 0 then .malformedEntry
      else if !permissionGranted pte user access then .permissionDenied
      else if addressOf pte < ram.size ∧ !physicalRangeValid ram (addressOf pte) (2 ^ shift) then
        .malformedEntry
      else .ok (addressOf pte ||| va % 2 ^ shift)

/-- `mmu_translate`. -/
def translate (ram : Ram) (root : Nat) (user : Bool) (va : Nat) (access : Access) : MmuResult :=
  if va ≥ virtualAddressLimit then .invalidVirtualAddress
  else if !rootValid ram root then .invalidRoot
  else walk ram user va access [30, 21, 12] root

/-! ## Ranges -/

variable {ram : Ram}

theorem physicalRangeValid_iff {address width : Nat} (hwidth : 0 < width) :
    physicalRangeValid ram address width = true ↔ address + width ≤ ram.size := by
  rw [physicalRangeValid, decide_eq_true_iff]
  omega

theorem rootValid_iff {root : Nat} :
    rootValid ram root = true ↔ root % pageSize = 0 ∧ root + pageSize ≤ ram.size := by
  rw [rootValid, decide_eq_true_iff, physicalRangeValid_iff (by decide)]

/-! ## Building entries -/

variable {page flags : Nat}

/-- The low bits of an entry are its flags. -/
theorem testBit_entry (hpage : page % pageSize = 0) {j : Nat} (hj : j < 12) :
    (page ||| flags).testBit j = flags.testBit j := by
  obtain ⟨k, hk⟩ := Nat.dvd_of_mod_eq_zero hpage
  have hbit : page.testBit j = false := by
    rw [hk]
    have h := Nat.testBit_two_pow_mul_add k (Nat.two_pow_pos 12) j
    simpa [pageSize, hj] using h
  simp [Nat.testBit_or, hbit]

theorem isLeaf_entry (hpage : page % pageSize = 0) : isLeaf (page ||| flags) = isLeaf flags := by
  simp (disch := decide) only [isLeaf, isReadable, isWritable, isExecutable, testBit_entry hpage]

/-- The flags of an entry do not overlap with its address. -/
theorem or_flags (hpage : page % pageSize = 0) (hflags : flags < pageSize) :
    page ||| flags = page + flags := by
  obtain ⟨k, hk⟩ := Nat.dvd_of_mod_eq_zero hpage
  have hlt : flags < 2 ^ 12 := hflags
  rw [hk]
  exact (Nat.two_pow_add_eq_or_of_lt hlt k).symm

/-- The address of an entry. -/
theorem addressOf_entry (hpage : page % pageSize = 0) (hflags : flags < pageSize) :
    addressOf (page ||| flags) = page := by
  rw [or_flags hpage hflags, addressOf]
  simp only [pageSize] at *
  omega

/-- An entry has no bits but its address and its flags. -/
theorem isReserved_entry (hpage : page % pageSize = 0) (hflags : flags < 32) :
    isReserved (page ||| flags) = false := by
  rw [or_flags hpage (Nat.lt_trans hflags (by decide)), isReserved, decide_eq_false_iff_not]
  simp only [pageSize] at *
  omega

@[simp] theorem addressOf_aligned (pte : Nat) : addressOf pte % pageSize = 0 :=
  Nat.mul_mod_left _ _

end RiscMv.Paging
