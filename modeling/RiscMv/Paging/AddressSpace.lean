import RiscMv.Paging.Mmu

/-!
# Page tables of the kernel (`mmu.c`, `address_space.c`, `pmm.c`)

The kernel maps pages in its own root as the heap grows and as devices are found; an address
space has a root of its own, a copy of the kernel's, and a first-gigabyte table of its own, in
which the tables of the user range are private.

The heap is not modelled: whether `kernel_malloc` has room for a page record is an input, and
the growth of the heap is an operation of its own.  (In the code it happens inside
`kernel_malloc`.  What `map_anonymous` and `map_physical` have read before they call it, they read
from tables of the address space, which the growth of the heap does not change.)  The page allocator
hands out its recycled pages, last freed first, and then its fresh ones.
-/

namespace RiscMv.Paging

/-- `KERNEL_USER_IMAGE_BASE`. -/
def userImageBase : Nat := 0x01000000

/-- `KERNEL_USER_STACK_TOP`. -/
def userStackTop : Nat := 0x3F000000

/-- `KERNEL_HEAP_MAX_SIZE`. -/
def heapMaxSize : Nat := 0x04000000

/-- `KERNEL_VIO_ALIAS`, the first of the device aliases. -/
def vioAlias : Nat := 0x3F000000

/-- The end of the aliases of the sixteen device slots. -/
def externalMmioEnd : Nat := 0x3F100000 + 16 * 0x10000

/-- The kinds of a page record. -/
inductive PageKind where
  | table
  | user
  | external
  deriving DecidableEq, Repr

/-- `KernelAddressPage`. -/
structure AddressPage where
  physicalAddress : Nat
  virtualAddress : Nat
  kind : PageKind
  deriving DecidableEq, Repr

/-- `KernelAddressSpace`. -/
structure AddressSpace where
  root : Nat
  level1 : Nat
  ownedLevel0 : Nat → Bool
  pages : List AddressPage

/-- The page tables and the allocator of the kernel. -/
structure State where
  ram : Ram
  directMapSize : Nat
  /-- The free list of `kernel_pmm_free_page`, its head first. -/
  recycled : List Nat
  /-- The pages that `take_fresh_page` will return. -/
  fresh : List Nat
  /-- `kernel_ptbr`. -/
  root : Nat
  heapBase : Nat
  heapMappedSize : Nat
  space : Nat → Option AddressSpace

namespace State

variable (s : State)

/-- `kernel_phys_to_virt` is not `NULL`. -/
def direct (page : Nat) : Bool := page < s.directMapSize

/-- An entry of a table. -/
def entry (table index : Nat) : Nat := s.ram.word (table + index * 8)

/-- Stores an entry of a table. -/
def setEntry (table index value : Nat) : State :=
  { s with ram := { s.ram with word := Function.update s.ram.word (table + index * 8) value } }

/-- Clears a page. -/
def zeroPage (page : Nat) : State :=
  let word a := if page ≤ a ∧ a < page + pageSize then 0 else s.ram.word a
  { s with ram := { s.ram with word } }

/-- Copies the entries from `first` on of one table to another. -/
def copyEntries (target source first : Nat) : State :=
  let word a :=
    if target + first * 8 ≤ a ∧ a < target + pageSize then s.ram.word (source + (a - target))
    else s.ram.word a
  { s with ram := { s.ram with word } }

/-- `kernel_pmm_alloc_page`. -/
def pmmAllocPage : Option Nat × State :=
  match s.recycled, s.fresh with
  | page :: rest, _ =>
    if s.direct page then (some page, { s with recycled := rest }.zeroPage page) else (none, s)
  | [], page :: rest =>
    if s.direct page then (some page, { s with fresh := rest }.zeroPage page)
    else (none, { s with fresh := rest })
  | [], [] => (none, s)

/-- `kernel_pmm_free_page`. -/
def pmmFreePage (page : Nat) : State :=
  if page = 0 ∨ page % pageSize ≠ 0 ∨ page + pageSize > s.ram.size ∨ !s.direct page then s
  else { s.setEntry page 0 (s.recycled.headD 0) with recycled := page :: s.recycled }

/-! ## Mapping in the kernel's root -/

/-- `table_entry_valid`. -/
def tableEntryValid (entry : Nat) : Bool := isValid entry && !isLeaf entry && !isUser entry

/-- `allocate_next_table`: whether it succeeds. -/
def allocateNextTable (table index : Nat) : Bool × State :=
  if isValid (s.entry table index) then (tableEntryValid (s.entry table index), s)
  else match s.pmmAllocPage with
    | (none, s) => (false, s)
    | (some page, s) => (true, s.setEntry table index (page ||| pteValid))

/-- The argument checks of `kernel_map_leaf`. -/
def leafArguments (va pa flags shift : Nat) : Bool :=
  va % 2 ^ shift = 0 ∧ pa % 2 ^ shift = 0 ∧ isValid flags ∧ isLeaf flags ∧ flags < 32 ∧
    (isWritable flags → isReadable flags)

/-- `kernel_map_leaf`: whether it succeeds. -/
def kernelMapLeaf (root va pa flags leafShift : Nat) : Bool × State :=
  if !leafArguments va pa flags leafShift ∨ !s.direct root then (false, s)
  else if leafShift = 30 then
    if isValid (s.entry root (tableIndex va 30)) then (false, s)
    else (true, s.setEntry root (tableIndex va 30) (pa ||| flags))
  else match s.allocateNextTable root (tableIndex va 30) with
    | (false, s) => (false, s)
    | (true, s) =>
      let level1 := addressOf (s.entry root (tableIndex va 30))
      if !s.direct level1 then (false, s)
      else if leafShift = 21 then
        if isValid (s.entry level1 (tableIndex va 21)) then (false, s)
        else (true, s.setEntry level1 (tableIndex va 21) (pa ||| flags))
      else match s.allocateNextTable level1 (tableIndex va 21) with
        | (false, s) => (false, s)
        | (true, s) =>
          let level0 := addressOf (s.entry level1 (tableIndex va 21))
          if !s.direct level0 then (false, s)
          else (true, s.setEntry level0 (tableIndex va 12) (addressOf pa ||| flags))

/-- `kernel_map_page`. -/
def kernelMapPage (root va pa flags : Nat) : Bool × State := s.kernelMapLeaf root va pa flags 12

/-- The flags of heap pages and device pages. -/
def kernelFlags : Nat := pteValid ||| pteRead ||| pteWrite

/-- One turn of the loop of `heap_append_pages`. -/
def heapAppendPage : State :=
  match s.pmmAllocPage with
  | (none, s) => s
  | (some page, s) =>
    match s.kernelMapPage s.root (s.heapBase + s.heapMappedSize) page kernelFlags with
    | (false, s) => s.pmmFreePage page
    | (true, s) => { s with heapMappedSize := s.heapMappedSize + pageSize }

/-! ## Address spaces -/

/-- `address_page_allocate`; `malloc` tells whether there is room for the record. -/
def addressPageAllocate (space : AddressSpace) (va : Nat) (kind : PageKind) (malloc : Bool) :
    Option Nat × State × AddressSpace :=
  if !malloc then (none, s, space)
  else match s.pmmAllocPage with
    | (none, s) => (none, s, space)
    | (some page, s) => (some page, s, { space with pages := space.pages ++ [⟨page, va, kind⟩] })

/-- `address_private_level0`. -/
def addressPrivateLevel0 (space : AddressSpace) (index1 : Nat) (malloc : Bool) :
    Option Nat × State × AddressSpace :=
  let old := s.entry space.level1 index1
  if !s.direct space.level1 then (none, s, space)
  else if space.ownedLevel0 index1 then
    (if s.direct (addressOf old) then some (addressOf old) else none, s, space)
  else match s.addressPageAllocate space 0 .table malloc with
    | (none, s, space) => (none, s, space)
    | (some page, s, space) =>
      if !s.direct page ∨ isValid old ∧ (isLeaf old ∨ !s.direct (addressOf old)) then
        (none, s, space)
      else
        let s := if isValid old then s.copyEntries page (addressOf old) 0 else s
        (some page, s.setEntry space.level1 index1 (page ||| pteValid),
          { space with ownedLevel0 := Function.update space.ownedLevel0 index1 true })

/-- The loop of `kernel_address_space_destroy`. -/
def freePages : List AddressPage → State → State
  | [], s => s
  | record :: rest, s =>
    freePages rest (if record.kind = .external then s else s.pmmFreePage record.physicalAddress)

/-- `kernel_address_space_create`; the inputs tell which of its allocations have room. -/
def create (id : Nat) (calloc mallocRoot mallocLevel1 : Bool) : State :=
  if !calloc then s
  else
    let (root, s, space) := s.addressPageAllocate ⟨0, 0, fun _ => false, []⟩ 0 .table mallocRoot
    let (level1, s, space) := s.addressPageAllocate space 0 .table mallocLevel1
    match root, level1 with
    | some root, some level1 =>
      if !s.direct s.root ∨ !s.direct root ∨ !s.direct level1 then freePages space.pages s
      else
        let kernelEntry0 := s.entry s.root 0
        let s := s.copyEntries root s.root 1
        if isValid kernelEntry0 ∧ !s.direct (addressOf kernelEntry0) then freePages space.pages s
        else
          let s := if isValid kernelEntry0 then s.copyEntries level1 (addressOf kernelEntry0) 0
            else s
          let s := s.setEntry root 0 (level1 ||| pteValid)
          let space := { space with root := root, level1 := level1 }
          { s with space := Function.update s.space id (some space) }
    | _, _ => freePages space.pages s

/-- The checks of the flags of a user mapping. -/
def userFlags (flags : Nat) : Bool :=
  flags < 16 ∧ ¬ isValid flags ∧ isReadable flags ∧ ¬ (isWritable flags ∧ isExecutable flags)

/-- `kernel_address_space_map_anonymous`. -/
def mapAnonymous (space : AddressSpace) (va flags : Nat) (mallocTable mallocPage : Bool) :
    State × AddressSpace :=
  if va % pageSize ≠ 0 ∨ va < userImageBase ∨ va ≥ userStackTop ∨ !userFlags flags ∨
      tableIndex va 30 ≠ 0 then (s, space)
  else match s.addressPrivateLevel0 space (tableIndex va 21) mallocTable with
    | (none, s, space) => (s, space)
    | (some level0, s, space) =>
      if isValid (s.entry level0 (tableIndex va 12)) then (s, space)
      else match s.addressPageAllocate space va .user mallocPage with
        | (none, s, space) => (s, space)
        | (some page, s, space) =>
          (s.setEntry level0 (tableIndex va 12) (page ||| (pteValid ||| pteUser ||| flags)), space)

/-- `address_find_user_page`. -/
def addressFindUserPage (space : AddressSpace) (va : Nat) : Option AddressPage :=
  space.pages.find? fun page => page.kind ≠ .table ∧ page.virtualAddress = va

/-- `address_lookup_level0`. -/
def addressLookupLevel0 (space : AddressSpace) (va : Nat) : Option Nat :=
  let entry2 := s.entry space.root (tableIndex va 30)
  if !s.direct space.root ∨ !isValid entry2 ∨ isLeaf entry2 ∨ !s.direct (addressOf entry2) then
    none
  else
    let entry1 := s.entry (addressOf entry2) (tableIndex va 21)
    if !isValid entry1 ∨ isLeaf entry1 ∨ !s.direct (addressOf entry1) then none
    else some (addressOf entry1)

/-- The mapping loop of `kernel_address_space_map_physical`, from page `i` on, with the number
    of pages that are mapped in the end; `malloc` has the results of the allocations. -/
def mapPages (va pa flags : Nat) (malloc : Nat → Bool × Bool) :
    Nat → Nat → State → AddressSpace → Nat × State × AddressSpace
  | 0, i, s, space => (i, s, space)
  | n + 1, i, s, space =>
    let page := va + i * pageSize
    if tableIndex page 30 ≠ 0 then (i, s, space)
    else match s.addressPrivateLevel0 space (tableIndex page 21) (malloc i).1 with
      | (none, s, space) => (i, s, space)
      | (some level0, s, space) =>
        if isValid (s.entry level0 (tableIndex page 12)) ∨ !(malloc i).2 then (i, s, space)
        else mapPages va pa flags malloc n (i + 1)
          (s.setEntry level0 (tableIndex page 12)
            ((pa + i * pageSize) ||| (pteValid ||| pteUser ||| flags)))
          { space with pages := space.pages ++ [⟨pa + i * pageSize, page, .external⟩] }

/-- Clears the entry of a page, if there is a table for it. -/
def clearPage (space : AddressSpace) (page : Nat) : State :=
  match s.addressLookupLevel0 space page with
  | some level0 => s.setEntry level0 (tableIndex page 12) 0
  | none => s

/-- Removes the record of a page, if there is one. -/
def removeRecord (space : AddressSpace) (page : Nat) : AddressSpace :=
  match addressFindUserPage space page with
  | some record => { space with pages := space.pages.erase record }
  | none => space

/-- The rollback loop of `kernel_address_space_map_physical`, from page `i` on. -/
def rollback (va : Nat) : Nat → Nat → State → AddressSpace → State × AddressSpace
  | 0, _, s, space => (s, space)
  | n + 1, i, s, space =>
    let page := va + i * pageSize
    rollback va n (i + 1) (s.clearPage space page) (removeRecord space page)

/-- `kernel_address_space_map_physical`. -/
def mapPhysical (space : AddressSpace) (va pa size flags : Nat) (malloc : Nat → Bool × Bool) :
    State × AddressSpace :=
  if size = 0 ∨ va % pageSize ≠ 0 ∨ pa % pageSize ≠ 0 ∨ size % pageSize ≠ 0 ∨
      va < userImageBase ∨ va + size > userStackTop ∨ !s.direct pa ∨ !s.direct (pa + size - 1) ∨
      !userFlags flags then (s, space)
  else
    let (mapped, s, space) := mapPages va pa flags malloc (size / pageSize) 0 s space
    if mapped = size / pageSize then (s, space) else rollback va mapped 0 s space

/-- The check of `kernel_address_space_unmap_range` for one page. -/
def unmappable (space : AddressSpace) (page : Nat) : Bool :=
  match s.addressLookupLevel0 space page with
  | none => false
  | some level0 =>
    isValid (s.entry level0 (tableIndex page 12)) && isUser (s.entry level0 (tableIndex page 12))
      && (addressFindUserPage space page).isSome

/-- The second loop of `kernel_address_space_unmap_range`, from page `i` on. -/
def unmapPages (va : Nat) : Nat → Nat → State → AddressSpace → State × AddressSpace
  | 0, _, s, space => (s, space)
  | n + 1, i, s, space =>
    let page := va + i * pageSize
    match s.addressLookupLevel0 space page, addressFindUserPage space page with
    | some level0, some record =>
      let s := s.setEntry level0 (tableIndex page 12) 0
      let s := if record.kind = .external then s else s.pmmFreePage record.physicalAddress
      unmapPages va n (i + 1) s { space with pages := space.pages.erase record }
    -- the first loop has excluded these
    | _, _ => (s, space)

/-- `kernel_address_space_unmap_range`. -/
def unmapRange (space : AddressSpace) (va size : Nat) : State × AddressSpace :=
  if size = 0 ∨ va % pageSize ≠ 0 ∨ size % pageSize ≠ 0 ∨ va < userImageBase ∨
      va + size > userStackTop then (s, space)
  else if (List.range (size / pageSize)).all fun i => s.unmappable space (va + i * pageSize) then
    unmapPages va (size / pageSize) 0 s space
  else (s, space)

/-- `kernel_address_space_resolve`: the physical address, if it returns 1. -/
def resolve (space : AddressSpace) (va requiredFlags : Nat) : Option Nat :=
  let entry2 := s.entry space.root (tableIndex va 30)
  let entry1 := s.entry (addressOf entry2) (tableIndex va 21)
  let entry0 := s.entry (addressOf entry1) (tableIndex va 12)
  let required := pteValid ||| pteUser ||| requiredFlags
  if requiredFlags ≥ 16 ∨ isValid requiredFlags ∨ va < userImageBase ∨ va ≥ userStackTop then none
  else if !s.direct space.root ∨ !isValid entry2 then none
  else if !s.direct (addressOf entry2) ∨ !isValid entry1 then none
  else if !s.direct (addressOf entry1) ∨ entry0 &&& required ≠ required then none
  else some (addressOf entry0 ||| va % pageSize)

/-! The results of the functions above: whether they return 0. -/

/-- `kernel_address_space_map_anonymous` returns 0. -/
def mapAnonymousOk (space : AddressSpace) (va flags : Nat) (mallocTable mallocPage : Bool) : Bool :=
  if va % pageSize ≠ 0 ∨ va < userImageBase ∨ va ≥ userStackTop ∨ !userFlags flags ∨
      tableIndex va 30 ≠ 0 then false
  else match s.addressPrivateLevel0 space (tableIndex va 21) mallocTable with
    | (none, _, _) => false
    | (some level0, s, space) =>
      !isValid (s.entry level0 (tableIndex va 12)) &&
        (s.addressPageAllocate space va .user mallocPage).1.isSome

/-- `kernel_address_space_map_physical` returns 0. -/
def mapPhysicalOk (space : AddressSpace) (va pa size flags : Nat) (malloc : Nat → Bool × Bool) :
    Bool :=
  if size = 0 ∨ va % pageSize ≠ 0 ∨ pa % pageSize ≠ 0 ∨ size % pageSize ≠ 0 ∨
      va < userImageBase ∨ va + size > userStackTop ∨ !s.direct pa ∨ !s.direct (pa + size - 1) ∨
      !userFlags flags then false
  else (mapPages va pa flags malloc (size / pageSize) 0 s space).1 = size / pageSize

/-- `kernel_address_space_unmap_range` returns 0. -/
def unmapRangeOk (space : AddressSpace) (va size : Nat) : Bool :=
  if size = 0 ∨ va % pageSize ≠ 0 ∨ size % pageSize ≠ 0 ∨ va < userImageBase ∨
      va + size > userStackTop then false
  else (List.range (size / pageSize)).all fun i => s.unmappable space (va + i * pageSize)

/-- Stores an address space that an operation has changed. -/
def store (id : Nat) (result : State × AddressSpace) : State :=
  { result.1 with space := Function.update result.1.space id (some result.2) }

end State

/-- The operations on address spaces and on the kernel's own mappings. -/
inductive Op where
  | create (id : Nat) (calloc mallocRoot mallocLevel1 : Bool)
  | mapAnonymous (id va flags : Nat) (mallocTable mallocPage : Bool)
  | mapPhysical (id va pa size flags : Nat) (malloc : Nat → Bool × Bool)
  | unmapRange (id va size : Nat)
  | destroy (id : Nat)
  /-- The heap grows by a page. -/
  | heapAppendPage
  /-- A page of a device is mapped (`map_mmio_range`, `smp_map_mmio`). -/
  | mapMmio (va physical : Nat)

/-- One operation. -/
def step (s : State) : Op → Option State
  | .create id calloc mallocRoot mallocLevel1 =>
    if (s.space id).isSome then none else some (s.create id calloc mallocRoot mallocLevel1)
  | .mapAnonymous id va flags mallocTable mallocPage =>
    (s.space id).map fun space =>
      State.store id (s.mapAnonymous space va flags mallocTable mallocPage)
  | .mapPhysical id va pa size flags malloc =>
    (s.space id).map fun space => State.store id (s.mapPhysical space va pa size flags malloc)
  | .unmapRange id va size =>
    (s.space id).map fun space => State.store id (s.unmapRange space va size)
  | .destroy id =>
    (s.space id).map fun space =>
      State.freePages space.pages { s with space := Function.update s.space id none }
  | .heapAppendPage =>
    if s.heapMappedSize + pageSize ≤ heapMaxSize then some s.heapAppendPage else none
  | .mapMmio va physical =>
    if vioAlias ≤ va ∧ va < externalMmioEnd then
      some (s.kernelMapPage s.root va physical State.kernelFlags).2
    else none

/-! ## History -/

/-- The page tables, with the pages of each address space that were mapped and not unmapped
    since. -/
structure Traced where
  state : State
  mapped : Nat → Nat → Bool

/-- What an operation adds to the history, and what it ends. -/
def note (s : State) (mapped : Nat → Nat → Bool) : Op → Nat → Nat → Bool
  | .create id _ _ _ => Function.update mapped id fun _ => false
  | .mapAnonymous id va flags mallocTable mallocPage =>
    if (s.space id).any fun space => s.mapAnonymousOk space va flags mallocTable mallocPage then
      Function.update mapped id fun page => mapped id page || page = va
    else mapped
  | .mapPhysical id va pa size flags malloc =>
    if (s.space id).any fun space => s.mapPhysicalOk space va pa size flags malloc then
      Function.update mapped id fun page => mapped id page ||
        (va ≤ page && page < va + size && page % pageSize = 0)
    else mapped
  | .unmapRange id va size =>
    if (s.space id).any fun space => s.unmapRangeOk space va size then
      Function.update mapped id fun page => mapped id page && !(va ≤ page && page < va + size)
    else mapped
  | .destroy id => Function.update mapped id fun _ => false
  | .heapAppendPage | .mapMmio _ _ => mapped

/-- One operation, with its history. -/
def tracedStep (t : Traced) (op : Op) : Option Traced :=
  (step t.state op).map fun s => ⟨s, note t.state t.mapped op⟩

end RiscMv.Paging
