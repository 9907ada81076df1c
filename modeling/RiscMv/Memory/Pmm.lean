import RiscMv.ForStd.Chain
import RiscMv.ForStd.Run

/-!
# The physical page allocator (`pmm.c`)

The allocator hands out recycled pages first, which are linked through their first words, and then
the pages of the memory map, in order.  A page is named by its physical address; 0 is returned when
there is none.

Words are kept by their physical address.  The counters are natural numbers: no operation makes one
pass 2^64, and `PmmOk.count` shows that the number of free pages is not decremented at 0.  The
entries of the memory map that `select_next_usable_range` has not seen yet stand for
`pmm_memory_map_index`.  A function that follows the recycled list has a bound on its steps and
returns `none` when it reaches it; `kernelPmmAllocContiguous_ok` shows that it does not.

The pages handed out and not yet freed, and the pages of reserved memory that were given to the
allocator, are recorded as history.
-/

namespace RiscMv.Memory

/-- `KERNEL_PAGE_SIZE`. -/
def pageSize : Nat := 4096

/-- `UINT64_MAX`. -/
def uint64Max : Nat := 2 ^ 64 - 1

/-- `address & KERNEL_PTE_ADDRESS_MASK`. -/
def alignDown (address : Nat) : Nat := address / pageSize * pageSize

/-- `CVM_MEMORY_USABLE`. -/
def memoryUsable : Nat := 1

/-- `CvmMemoryMapEntry`. -/
structure MemoryMapEntry where
  base : Nat
  length : Nat
  type : Nat

/-- What the allocator reads of `CvmBootInfo`. -/
structure BootInfo where
  ramSize : Nat
  memoryMap : List MemoryMapEntry

/-- The allocator, the direct map and the memory. -/
structure Pmm where
  bootInfo : BootInfo
  directMapSize : Nat
  /-- The entries from `pmm_memory_map_index` on. -/
  memoryMap : List MemoryMapEntry
  rangeNext : Nat
  rangeEnd : Nat
  recycledHead : Nat
  freeCount : Nat
  word : Nat → Nat
  /-- The pages handed out and not freed since. -/
  handedOut : List Nat
  /-- The pages that were freed without having been handed out. -/
  donated : List Nat

/-- `kernel_phys_to_virt` does not return `NULL`. -/
def Pmm.direct (s : Pmm) (page : Nat) : Bool := decide (page < s.directMapSize)

/-- Stores the first word of a page. -/
def Pmm.setLink (s : Pmm) (page value : Nat) : Pmm :=
  { s with word := Function.update s.word page value }

/-- Links a page in front of the recycled list. -/
def Pmm.recycle (s : Pmm) (page : Nat) : Pmm :=
  { s.setLink page s.recycledHead with recycledHead := page }

/-- Stores 0 in all words of a page. -/
def Pmm.clearPage (s : Pmm) (page : Nat) : Pmm :=
  { s with word := fun a => if page ≤ a ∧ a < page + pageSize then 0 else s.word a }

/-- `usable_range_bounds`: the first page and the end of the last. -/
def usableRangeBounds (base length : Nat) : Option (Nat × Nat) :=
  if length = 0 ∨ uint64Max - length < base ∨ uint64Max - (pageSize - 1) < base then none
  else
    let last := alignDown (base + length)
    let page := alignDown (base + (pageSize - 1))
    some (if page = 0 then pageSize else page, last)

/-- The loop of `select_next_usable_range`. -/
def selectFrom (s : Pmm) : List MemoryMapEntry → Bool × Pmm
  | [] => (false, { s with memoryMap := [], rangeNext := 0, rangeEnd := 0 })
  | entry :: rest =>
    if entry.type ≠ memoryUsable then selectFrom s rest
    else match usableRangeBounds entry.base entry.length with
      | none => (false, { s with memoryMap := rest })
      | some (first, last) =>
        if first < last then
          (true, { s with memoryMap := rest, rangeNext := first, rangeEnd := last })
        else selectFrom s rest

/-- `select_next_usable_range`. -/
def selectNextUsableRange (s : Pmm) : Bool × Pmm := selectFrom s s.memoryMap

/-- Takes the next page of the range. -/
def Pmm.advance (s : Pmm) : Nat × Pmm :=
  (s.rangeNext, { s with rangeNext := s.rangeNext + pageSize })

/-- `take_fresh_page`.  A range that was selected is not empty, so the loop selects one at most. -/
def takeFreshPage (s : Pmm) : Nat × Pmm :=
  if s.rangeEnd ≤ s.rangeNext then
    match selectNextUsableRange s with
    | (false, s) => (0, s)
    | (true, s) => s.advance
  else s.advance

/-- The loop of `kernel_pmm_init` over the memory map, with the number of pages counted so far. -/
def countPages (ramSize : Nat) : List MemoryMapEntry → Nat → Option Nat
  | [], count => some count
  | entry :: rest, count =>
    if entry.type = memoryUsable then
      match usableRangeBounds entry.base entry.length with
      | none => none
      | some (first, last) =>
        if ramSize < last then none
        else
          let pages := if first < last then (last - first) / pageSize else 0
          if uint64Max - pages < count then none else countPages ramSize rest (count + pages)
    else countPages ramSize rest count

/-- `kernel_pmm_init`; `none` if it reports an error. -/
def kernelPmmInit (info : BootInfo) (directMapSize : Nat) (word : Nat → Nat) : Option Pmm :=
  match countPages info.ramSize info.memoryMap 0 with
  | none => none
  | some count =>
    if count = 0 then none
    else some
      { bootInfo := info, directMapSize, memoryMap := info.memoryMap, rangeNext := 0,
        rangeEnd := 0, recycledHead := 0, freeCount := count, word, handedOut := [],
        donated := [] }

/-- The choice of a page in `kernel_pmm_alloc_page`. -/
def choosePage (s : Pmm) : Nat × Pmm :=
  if s.recycledHead ≠ 0 then
    if s.direct s.recycledHead then
      (s.recycledHead, { s with recycledHead := s.word s.recycledHead })
    else (0, s)
  else takeFreshPage s

/-- `kernel_pmm_alloc_page`. -/
def kernelPmmAllocPage (s : Pmm) : Nat × Pmm :=
  match choosePage s with
  | (page, s) =>
    if page = 0 ∨ !s.direct page then (0, s)
    else
      let s := { s with freeCount := s.freeCount - 1 }.clearPage page
      (page, { s with handedOut := page :: s.handedOut })

/-- How the search of `kernel_pmm_alloc_contiguous` in the recycled list ends. -/
inductive Search where
  /-- The chain from after `before` (0 for the head) to `current` has the length asked for. -/
  | found (before current next : Nat)
  | exhausted
  /-- A page is outside the direct map. -/
  | unmapped

/-- The search of `kernel_pmm_alloc_contiguous` for a descending chain of `pageCount` pages:
    `length` pages of a chain after `before` end with `current`. -/
def searchRecycled (s : Pmm) (pageCount : Nat) : Nat → Nat → Nat → Nat → Option Search
  | 0, _, _, _ => none
  | fuel + 1, before, current, length =>
    if current = 0 then some .exhausted
    else if !s.direct current then some .unmapped
    else
      let next := s.word current
      if length = pageCount then some (.found before current next)
      else if next ≠ 0 ∧ pageSize ≤ current ∧ next = current - pageSize then
        searchRecycled s pageCount fuel before next (length + 1)
      else searchRecycled s pageCount fuel current next (if next ≠ 0 then 1 else 0)

/-- Clears `count` pages from `page` on, while they are in the direct map. -/
def clearPages : Nat → Nat → Pmm → Bool × Pmm
  | 0, _, s => (true, s)
  | count + 1, page, s =>
    if s.direct page then clearPages count (page + pageSize) (s.clearPage page) else (false, s)

/-- `count` pages from `first` on, in ascending order. -/
def pageRun (first count : Nat) : List Nat := (List.range count).map (first + · * pageSize)

/-- The end of `kernel_pmm_alloc_contiguous` once the pages are chosen. -/
def handOutRun (s : Pmm) (first pageCount : Nat) : Nat × Pmm :=
  match clearPages pageCount first { s with freeCount := s.freeCount - pageCount } with
  | (false, s) => (0, s)
  | (true, s) => (first, { s with handedOut := pageRun first pageCount ++ s.handedOut })

/-- Moves the rest of the range to the recycled list; `fuel` bounds the number of pages. -/
def recycleTail : Nat → Pmm → Bool × Pmm
  | 0, s => (true, s)
  | fuel + 1, s =>
    if s.rangeNext < s.rangeEnd then
      match s.advance with
      | (page, s) => if s.direct page then recycleTail fuel (s.recycle page) else (false, s)
    else (true, s)

/-- The second loop of `kernel_pmm_alloc_contiguous`: a range that is too small is recycled. -/
def allocFresh (pageCount : Nat) : Nat → Pmm → Option (Nat × Pmm)
  | 0, _ => none
  | fuel + 1, s =>
    let required := pageCount * pageSize
    if s.rangeNext < s.rangeEnd ∧ required ≤ s.rangeEnd - s.rangeNext then
      some (handOutRun { s with rangeNext := s.rangeNext + required } s.rangeNext pageCount)
    else match recycleTail (s.rangeEnd - s.rangeNext) s with
      | (false, s) => some (0, s)
      | (true, s) => match selectNextUsableRange s with
        | (false, s) => some (0, s)
        | (true, s) => allocFresh pageCount fuel s

/-- `kernel_pmm_alloc_contiguous`. -/
def kernelPmmAllocContiguous (pageCount : Nat) (s : Pmm) : Option (Nat × Pmm) :=
  if pageCount = 0 ∨ uint64Max / pageSize < pageCount ∨ s.freeCount < pageCount then some (0, s)
  else
    match searchRecycled s pageCount (s.freeCount + 1) 0 s.recycledHead
      (if s.recycledHead ≠ 0 then 1 else 0) with
    | none => none
    | some .unmapped => some (0, s)
    | some (.found before current next) =>
      if before = 0 then some (handOutRun { s with recycledHead := next } current pageCount)
      else if !s.direct before then some (0, s)
      else some (handOutRun (s.setLink before next) current pageCount)
    | some .exhausted => allocFresh pageCount (s.memoryMap.length + 1) s

/-- The checks of `kernel_pmm_free_page`. -/
def Pmm.accepts (s : Pmm) (page : Nat) : Bool :=
  page ≠ 0 && page % pageSize = 0 && pageSize ≤ s.bootInfo.ramSize &&
    page ≤ s.bootInfo.ramSize - pageSize && s.direct page

/-- `kernel_pmm_free_page`. -/
def kernelPmmFreePage (page : Nat) (s : Pmm) : Pmm :=
  if s.accepts page then
    { s.recycle page with
      freeCount := s.freeCount + 1
      handedOut := s.handedOut.erase page
      donated := if page ∈ s.handedOut then s.donated else page :: s.donated }
  else s

/-- `kernel_pmm_release_range`. -/
def kernelPmmReleaseRange (base size : Nat) (s : Pmm) : Pmm :=
  if base % pageSize ≠ 0 ∨ size % pageSize ≠ 0 ∨ uint64Max - size < base ∨
      s.bootInfo.ramSize < base + size then s
  else (pageRun base (size / pageSize)).foldl (fun s page => kernelPmmFreePage page s) s

/-! ## Free pages -/

/-- The pages of a range of the memory map. -/
def pagesIn (first last : Nat) : List Nat := pageRun first ((last - first) / pageSize)

/-- The pages an entry of the memory map contributes. -/
def entryPages (entry : MemoryMapEntry) : List Nat :=
  if entry.type = memoryUsable then
    match usableRangeBounds entry.base entry.length with
    | none => []
    | some (first, last) => pagesIn first last
  else []

/-- The pages that were not handed out yet: the rest of the range and of the memory map. -/
def freshPages (s : Pmm) : List Nat :=
  pagesIn s.rangeNext s.rangeEnd ++ s.memoryMap.flatMap entryPages

/-- The free pages: `recycled` are the pages linked from the head of the recycled list. -/
def FreePages (s : Pmm) (pages : List Nat) : Prop :=
  ∃ recycled, Chain s.word (· = 0) s.recycledHead recycled ∧ pages = recycled ++ freshPages s

/-- The page lies in a usable range of the memory map. -/
def InUsable (info : BootInfo) (page : Nat) : Prop :=
  ∃ entry ∈ info.memoryMap, entry.type = memoryUsable ∧ entry.base ≤ page ∧
    page + pageSize ≤ entry.base + entry.length

instance (info : BootInfo) (page : Nat) : Decidable (InUsable info page) :=
  inferInstanceAs (Decidable (∃ entry ∈ info.memoryMap, _))

/-! ## Runs -/

/-- A call of the allocator, or a store by the owner of a page. -/
inductive Op where
  | allocPage
  | allocContiguous (pageCount : Nat)
  | freePage (page : Nat)
  | releaseRange (base size : Nat)
  | store (address value : Nat)

/-- One call. -/
def step (s : Pmm) : Op → Option Pmm
  | .allocPage => (kernelPmmAllocPage s).2
  | .allocContiguous pageCount => (kernelPmmAllocContiguous pageCount s).map Prod.snd
  | .freePage page => kernelPmmFreePage page s
  | .releaseRange base size => kernelPmmReleaseRange base size s
  | .store address value => s.setLink address value

/-- The page was handed out, or it is reserved memory that was not donated before. -/
def Freeable (s : Pmm) (page : Nat) : Prop :=
  page ∈ s.handedOut ∨ ¬ InUsable s.bootInfo page ∧ page ∉ s.donated

instance (s : Pmm) (page : Nat) : Decidable (Freeable s page) :=
  inferInstanceAs (Decidable (_ ∨ _))

/-- Only pages that may be freed are freed, and nobody stores to a free page. -/
def FreesOwned (s : Pmm) : Op → Prop
  | .freePage page => Freeable s page
  | .releaseRange base size => ∀ page ∈ pageRun base (size / pageSize), Freeable s page
  | .store address _ => ∀ pages, FreePages s pages → ∀ page ∈ pages,
      ¬ (page ≤ address ∧ address < page + pageSize)
  | _ => True

end RiscMv.Memory
