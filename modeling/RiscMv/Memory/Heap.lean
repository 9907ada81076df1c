import RiscMv.ForStd.LittleEndian
import RiscMv.ForStd.Run
import RiscMv.Memory.Pmm

/-!
# The kernel heap (`heap.c`)

The heap is a range of virtual memory that is tiled by blocks.  A block is a header of six words
and a payload; the headers are linked both ways and lie in the same memory as the payloads.

`kernel_pmm_alloc_page` and `kernel_map_page` may fail at any time: the number of pages that can
be had before the first failure is an input of each call.  A function that follows the links has a
bound on its steps and returns `none` when it reaches it; `kernelMalloc_ok` shows that it does not.
`kernel_heap_validate` counts the blocks itself.

The allocations that were returned and not freed since are recorded as history.
-/

namespace RiscMv.Memory

/-- `KERNEL_HEAP_ALIGNMENT`. -/
def heapAlignment : Nat := 16

/-- `KERNEL_HEAP_GUARD_SIZE`. -/
def heapGuardSize : Nat := 0x200000

/-- `KERNEL_HEAP_MAX_SIZE`. -/
def heapMaxSize : Nat := 0x04000000

/-- `KERNEL_HEAP_MAGIC`. -/
def heapMagic : Nat := 0x434F4C424D56434B

/-- `KERNEL_HEAP_FREE`. -/
def heapFree : Nat := 1

/-- `KERNEL_DEMAND_TEST_ADDRESS`. -/
def demandTestAddress : Nat := 0x7FFFFFE000

/-- `sizeof(KernelHeapBlock)`. -/
def headerSize : Nat := 48

/-- The words of a `KernelHeapBlock`. -/
inductive HeaderField where
  | magic
  | size
  | previous
  | next
  | flags
  | reserved
deriving DecidableEq

/-- The position of a word in the header. -/
def HeaderField.index : HeaderField → Nat
  | .magic => 0
  | .size => 1
  | .previous => 2
  | .next => 3
  | .flags => 4
  | .reserved => 5

/-- A block that was returned, with the size that was asked for. -/
structure Allocation where
  pointer : Nat
  size : Nat
deriving DecidableEq

/-- The variables of the heap and the memory.  `NULL` is 0. -/
structure Heap where
  base : Nat
  limit : Nat
  mappedSize : Nat
  first : Nat
  last : Nat
  byte : ByteMemory
  live : List Allocation

/-- A word of the header at `block`. -/
def Heap.field (h : Heap) (block : Nat) (f : HeaderField) : Nat :=
  loadLE h.byte (block + 8 * f.index) 8

/-- Stores a word of the header at `block`. -/
def Heap.setField (h : Heap) (block : Nat) (f : HeaderField) (value : Nat) : Heap :=
  { h with byte := storeLE h.byte (block + 8 * f.index) 8 value }

/-- Stores all words of the header of a new free block. -/
def Heap.writeHeader (h : Heap) (block size previous next : Nat) : Heap :=
  let h := h.setField block .magic heapMagic
  let h := h.setField block .size size
  let h := h.setField block .previous previous
  let h := h.setField block .next next
  let h := h.setField block .flags heapFree
  h.setField block .reserved 0

/-- The block at `next` (or the variable for the last block) is told that `block` precedes it. -/
def Heap.relink (h : Heap) (next block : Nat) : Heap :=
  if next ≠ 0 then h.setField next .previous block else { h with last := block }

/-- `heap_align_size`. -/
def heapAlignSize (size : Nat) : Option Nat :=
  if size = 0 ∨ uint64Max - (heapAlignment - 1) < size then none
  else some ((size + (heapAlignment - 1)) / heapAlignment * heapAlignment)

/-- `heap_block_free`. -/
def heapBlockFree (h : Heap) (block : Nat) : Bool := h.field block .flags &&& heapFree ≠ 0

/-- The loop of `heap_append_pages`: maps pages while they can be had.  A new page is clear.
    Returns the number of bytes added and what is left of the `pages` that can be had. -/
def mapPages (oldSize needed : Nat) : (pages added : Nat) → Heap → Nat × Nat × Heap
  | 0, added, h => (added, 0, h)
  | pages + 1, added, h =>
    if added < needed then
      let page := h.base + oldSize + added
      mapPages oldSize needed pages (added + pageSize)
        { h with
          byte := fun a => if page ≤ a ∧ a < page + pageSize then 0 else h.byte a
          mappedSize := oldSize + (added + pageSize) }
    else (added, pages + 1, h)

/-- The block `heap_append_pages` makes of the new pages. -/
def appendBlock (oldSize added : Nat) (h : Heap) : Heap :=
  if h.last ≠ 0 ∧ heapBlockFree h h.last then
    h.setField h.last .size (h.field h.last .size + added)
  else
    let block := h.base + oldSize
    let h := h.writeHeader block (added - headerSize) h.last 0
    let h := if h.last ≠ 0 then h.setField h.last .next block else { h with first := block }
    { h with last := block }

/-- `heap_append_pages`: whether there was room, the pages left, and the heap. -/
def heapAppendPages (minimumPayload pages : Nat) (h : Heap) : Bool × Nat × Heap :=
  if uint64Max - headerSize < minimumPayload then (false, pages, h)
  else
    let needed := minimumPayload + headerSize
    if uint64Max - (pageSize - 1) < needed then (false, pages, h)
    else
      let needed := (needed + (pageSize - 1)) / pageSize * pageSize
      let oldSize := h.mappedSize
      if h.limit - h.base ≤ oldSize ∨ h.limit - h.base - oldSize < needed then (false, pages, h)
      else
        match mapPages oldSize needed pages 0 h with
        | (added, pages, h) =>
          if added = 0 then (false, pages, h)
          else (decide (needed ≤ added), pages, appendBlock oldSize added h)

/-- `heap_split`. -/
def heapSplit (block size : Nat) (h : Heap) : Heap :=
  if h.field block .size < size + headerSize + heapAlignment then h
  else
    let tail := block + headerSize + size
    let h := h.writeHeader tail (h.field block .size - size - headerSize) block
      (h.field block .next)
    let h := h.relink (h.field tail .next) tail
    let h := h.setField block .next tail
    h.setField block .size size

/-- `heap_merge_next`. -/
def heapMergeNext (block : Nat) (h : Heap) : Heap :=
  let next := h.field block .next
  if next = 0 ∨ !heapBlockFree h next then h
  else
    let h := h.setField block .size (h.field block .size + (headerSize + h.field next .size))
    let h := h.setField block .next (h.field next .next)
    let h := h.relink (h.field block .next) block
    h.setField next .magic 0

/-- Where `kernel_heap_init` puts the heap, after the end of the direct map. -/
def heapSelected (directEnd : Nat) : Nat := alignDown (directEnd + heapGuardSize + pageSize - 1)

/-- `kernel_heap_init`; the flag says that it reports no error. -/
def kernelHeapInit (directMapBase directMapSize pages : Nat) (byte : ByteMemory) :
    Option (Bool × Heap) :=
  if uint64Max - directMapSize < directMapBase then none
  else if uint64Max - heapGuardSize - (pageSize - 1) < directMapBase + directMapSize then none
  else if demandTestAddress ≤ heapSelected (directMapBase + directMapSize) ∨
      demandTestAddress - heapSelected (directMapBase + directMapSize) < heapMaxSize then none
  else
    match heapAppendPages pageSize pages
      ⟨heapSelected (directMapBase + directMapSize),
        heapSelected (directMapBase + directMapSize) + heapMaxSize, 0, 0, 0, byte, []⟩ with
    | (ok, _, h) => some (ok, h)

/-- The inner loop of `kernel_malloc`: the first free block that is large enough. -/
def findBlock (h : Heap) (aligned : Nat) : (fuel block : Nat) → Option (Option Nat)
  | 0, _ => none
  | fuel + 1, block =>
    if block = 0 then some none
    else if h.field block .magic = heapMagic ∧ heapBlockFree h block ∧
        aligned ≤ h.field block .size then some (some block)
    else findBlock h aligned fuel (h.field block .next)

/-- A block is taken out of the free ones. -/
def takeBlock (block aligned : Nat) (h : Heap) : Heap :=
  let h := heapSplit block aligned h
  h.setField block .flags (h.field block .flags &&& (uint64Max - heapFree))

/-- The outer loop of `kernel_malloc`. -/
def mallocLoop (aligned : Nat) : (fuel pages : Nat) → Heap → Option (Nat × Heap)
  | 0, _, _ => none
  | fuel + 1, pages, h =>
    match findBlock h aligned (h.mappedSize / headerSize + 1) h.first with
    | none => none
    | some (some block) => some (block + headerSize, takeBlock block aligned h)
    | some none =>
      match heapAppendPages aligned pages h with
      | (false, _, h) => some (0, h)
      | (true, pages, h) => mallocLoop aligned fuel pages h

/-- `kernel_malloc`. -/
def kernelMalloc (size pages : Nat) (h : Heap) : Option (Nat × Heap) :=
  match heapAlignSize size with
  | none => some (0, h)
  | some aligned =>
    if h.first = 0 then some (0, h)
    else (mallocLoop aligned (pages + 1) pages h).map fun (pointer, h) =>
      (pointer, if pointer = 0 then h else { h with live := ⟨pointer, size⟩ :: h.live })

/-- `heap_zero`. -/
def heapZero (pointer size : Nat) (h : Heap) : Heap :=
  { h with byte := fun a => if pointer ≤ a ∧ a < pointer + size then 0 else h.byte a }

/-- `kernel_calloc`. -/
def kernelCalloc (count size pages : Nat) (h : Heap) : Option (Nat × Heap) :=
  if count = 0 ∨ size = 0 ∨ uint64Max / size < count then some (0, h)
  else
    let total := count * size
    (kernelMalloc total pages h).map fun (pointer, h) =>
      (pointer, if pointer ≠ 0 then heapZero pointer total h else h)

/-- The blocks `kernel_free` merges. -/
def releaseBlock (block : Nat) (h : Heap) : Heap :=
  let h := h.setField block .flags (h.field block .flags ||| heapFree)
  let h := heapMergeNext block h
  let previous := h.field block .previous
  if previous ≠ 0 ∧ heapBlockFree h previous then heapMergeNext previous h else h

/-- `kernel_free`. -/
def kernelFree (pointer : Nat) (h : Heap) : Heap :=
  if pointer = 0 ∨ h.first = 0 then h
  else if pointer < h.base + headerSize ∨ h.base + h.mappedSize ≤ pointer ∨
      pointer % heapAlignment ≠ 0 then h
  else
    let block := pointer - headerSize
    if h.field block .magic ≠ heapMagic ∨ heapBlockFree h block then h
    else
      let h := releaseBlock block h
      { h with live := h.live.filter (·.pointer ≠ pointer) }

/-- The loop of `kernel_heap_validate`; `blocks` more blocks fit the heap. -/
def validateLoop (h : Heap) : (blocks block expected previous : Nat) → Nat
  | blocks, block, expected, previous =>
    if block = 0 then
      if previous ≠ h.last ∨ expected ≠ h.base + h.mappedSize then 1 else 0
    else match blocks with
      | 0 => 1
      | blocks + 1 =>
        let payload := block + headerSize
        let size := h.field block .size
        let next := h.field block .next
        if block ≠ expected ∨ h.field block .magic ≠ heapMagic ∨
            h.field block .previous ≠ previous ∨ h.field block .reserved ≠ 0 ∨
            size % heapAlignment ≠ 0 ∨ h.base + h.mappedSize < payload ∨
            h.base + h.mappedSize - payload < size ∨
            (next ≠ 0 ∧ heapBlockFree h block ∧ heapBlockFree h next) then 1
        else validateLoop h blocks next (payload + size) block

/-- `kernel_heap_validate`. -/
def kernelHeapValidate (h : Heap) : Nat :=
  if h.first = 0 ∨ h.last = 0 ∨ h.mappedSize = 0 then 1
  else validateLoop h (h.mappedSize / headerSize) h.first h.base 0

/-! ## Runs -/

/-- A call of the heap, or a store by the owner of a block. -/
inductive HeapOp where
  | malloc (size pages : Nat)
  | calloc (count size pages : Nat)
  | free (pointer : Nat)
  | store (address : Nat) (value : UInt8)

/-- One call. -/
def heapStep (h : Heap) : HeapOp → Option Heap
  | .malloc size pages => (kernelMalloc size pages h).map Prod.snd
  | .calloc count size pages => (kernelCalloc count size pages h).map Prod.snd
  | .free pointer => kernelFree pointer h
  | .store address value => some { h with byte := Function.update h.byte address value }

/-- Only live blocks (and `NULL`) are freed, and a store is to a live block. -/
def FreesLive (h : Heap) : HeapOp → Prop
  | .free pointer => pointer = 0 ∨ ∃ al ∈ h.live, al.pointer = pointer
  | .store address _ => ∃ al ∈ h.live, al.pointer ≤ address ∧ address < al.pointer + al.size
  | _ => True

instance (h : Heap) (op : HeapOp) : Decidable (FreesLive h op) :=
  match op with
  | .free pointer => inferInstanceAs (Decidable (pointer = 0 ∨ ∃ al ∈ h.live, al.pointer = pointer))
  | .store address _ =>
    inferInstanceAs (Decidable (∃ al ∈ h.live, al.pointer ≤ address ∧
      address < al.pointer + al.size))
  | .malloc _ _ => isTrue trivial
  | .calloc _ _ _ => isTrue trivial

end RiscMv.Memory
