import RiscMv.Device.Bus
import RiscMv.Interrupt.Router

/-!
# The device manager (`device_manager.c`)

`device_manager_publish_fixed`, `device_manager_attach_module` and `device_manager_detach_module`,
each with the manager's lock held.  The arrays of a descriptor and of resources are lists of
`bar_count` and `irq_count` elements.  Whether a module's `create` succeeds is an input.
-/

namespace RiscMv.Device

open Interrupt (externalLineCount)

/-! ## Data (`device_abi.h`, `device_manager.h`) -/

def abiVersion : Nat := 1
def maxBars : Nat := 4
def maxIrqs : Nat := 4
def sizeofDescriptor : Nat := 168
def sizeofResources : Nat := 96
def sizeofModule : Nat := 224

/-- `DEVICE_MANAGER_MAX_SLOTS`. -/
def maxSlots : Nat := 16

/-- `DEVICE_MANAGER_DYNAMIC_MMIO_BASE`. -/
def dynamicMmioBase : UInt64 := 0xFFFFFFFFF0000000

/-- `DEVICE_MANAGER_DYNAMIC_MMIO_LIMIT`. -/
def dynamicMmioLimit : UInt64 := 0xFFFFFFFFFFFBFFFF

/-- An element of `bar_sizes` with that of `bar_alignments`. -/
structure BarRequest where
  size : UInt64
  alignment : UInt64
  deriving DecidableEq

/-- `VmDeviceDescriptor`, without the fields that only describe the device. -/
structure VmDeviceDescriptor where
  abiVersion : Nat
  structSize : Nat
  bars : List BarRequest
  irqCount : Nat
  deriving DecidableEq

/-- An element of `bar_bases` with that of `bar_sizes`. -/
structure Bar where
  base : UInt64
  size : UInt64
  deriving DecidableEq

/-- `VmDeviceResources`. -/
structure VmDeviceResources where
  structSize : Nat
  bars : List Bar
  irqs : List Nat
  deriving DecidableEq

/-- `VmDeviceModule`, with the callbacks that are not NULL. -/
structure VmDeviceModule where
  abiVersion : Nat
  structSize : Nat
  descriptor : VmDeviceDescriptor
  create : Bool
  destroy : Bool
  read : Bool
  write : Bool
  deriving DecidableEq

/-- `DeviceManagerSlot`, without the module's own state. -/
structure DeviceManagerSlot where
  present : Bool
  external : Bool
  descriptor : VmDeviceDescriptor
  resources : VmDeviceResources
  module : Option VmDeviceModule
  deriving DecidableEq

/-- `(DeviceManagerSlot){0}`. -/
def DeviceManagerSlot.zero : DeviceManagerSlot := ⟨false, false, ⟨0, 0, [], 0⟩, ⟨0, [], []⟩, none⟩

/-- `DeviceManager` with its bus. -/
structure DeviceManager where
  slots : Fin maxSlots → DeviceManagerSlot
  presentCount : Nat
  irqUsed : Nat → Bool
  bus : Bus

/-- `device_manager_init`. -/
def deviceManagerInit (bus : Bus) : DeviceManager := ⟨fun _ => .zero, 0, fun _ => false, bus⟩

/-! ## Checks -/

/-- The checks of `descriptor_valid` on a BAR. -/
def BarRequest.valid (r : BarRequest) : Bool :=
  !decide (r.size = 0 ∨ r.alignment = 0 ∨ r.alignment &&& (r.alignment - 1) ≠ 0)

/-- `descriptor_valid`. -/
def descriptorValid (d : VmDeviceDescriptor) : Bool :=
  !decide (d.abiVersion ≠ abiVersion ∨ d.structSize < sizeofDescriptor ∨
    d.bars.length > maxBars ∨ d.irqCount > maxIrqs) && d.bars.all BarRequest.valid

/-- `module_valid`. -/
def moduleValid (m : VmDeviceModule) : Bool :=
  m.abiVersion == abiVersion && sizeofModule ≤ m.structSize && descriptorValid m.descriptor &&
    m.descriptor.bars.length != 0 && m.create && m.destroy && (m.read || m.write)

/-- `free_slot_index`. -/
def DeviceManager.freeSlotIndex (m : DeviceManager) : Option (Fin maxSlots) :=
  (List.finRange maxSlots).find? fun i => !(m.slots i).present

/-! ## Interrupt lines -/

/-- `allocate_irq`: the first line from 2 on that is not used. -/
def allocateIrq (irqUsed : Nat → Bool) : Option Nat :=
  (List.range' 2 (externalLineCount - 2)).find? fun line => !irqUsed line

/-- `release_irq`. -/
def releaseIrq (irqUsed : Nat → Bool) (irq : Nat) : Nat → Bool :=
  if irq ≥ externalLineCount then irqUsed else Function.update irqUsed irq false

/-- The loop in `attach_module_locked` that allocates lines: whether all were allocated, and the
    lines. -/
def allocateIrqs : Nat → List Nat → (Nat → Bool) → Bool × List Nat × (Nat → Bool)
  | 0, irqs, irqUsed => (true, irqs, irqUsed)
  | n + 1, irqs, irqUsed =>
    match allocateIrq irqUsed with
    | none => (false, irqs, irqUsed)
    | some line => allocateIrqs n (irqs ++ [line]) (Function.update irqUsed line true)

/-- The loops that release lines. -/
def releaseIrqs (irqUsed : Nat → Bool) (irqs : List Nat) : Nat → Bool :=
  irqs.foldl releaseIrq irqUsed

/-! ## BARs -/

/-- The last address of a BAR. -/
def Bar.last (b : Bar) : UInt64 := b.base + b.size - 1

/-- `align_address`. -/
def alignAddress (value alignment : UInt64) : Option UInt64 :=
  let mask := alignment - 1
  if value.toNat > uint64Max - mask.toNat then none else some ((value + mask) &&& ~~~mask)

/-- The BARs of the slots that are present. -/
def DeviceManager.presentBars (m : DeviceManager) : List Bar :=
  (List.finRange maxSlots).flatMap fun i =>
    if (m.slots i).present then (m.slots i).resources.bars else []

/-- `conflicting_bar_end`: the greatest end of a BAR that overlaps the range. -/
def conflictingBarEnd (bars : List Bar) (base size : UInt64) : Option UInt64 :=
  bars.foldl (fun greatestEnd bar =>
    if rangesOverlap base size bar.base bar.size then
      match greatestEnd with
      | none => some bar.last
      | some greatest => if bar.last > greatest then some bar.last else some greatest
    else greatestEnd) none

/-- The outcome of the search for a BAR. -/
inductive Search where
  | found (base : UInt64)
  | exhausted
  | outOfFuel
  deriving DecidableEq

/-- One round of the inner loop of `allocate_bars`: an outcome, or the next candidate. -/
def searchRound (bars : List Bar) (request : BarRequest) (candidate : UInt64) :
    Search ⊕ UInt64 :=
  match alignAddress candidate request.alignment with
  | none => .inl .exhausted
  | some base =>
    if ¬ rangeValid base request.size ∨ base + request.size - 1 > dynamicMmioLimit then
      .inl .exhausted
    else
      match conflictingBarEnd bars base request.size with
      | none => .inl (.found base)
      | some conflictEnd =>
        if conflictEnd.toNat = uint64Max then .inl .exhausted else .inr (conflictEnd + 1)

/-- The inner loop of `allocate_bars`, for at most `fuel` rounds. -/
def searchBar (bars : List Bar) (request : BarRequest) : Nat → UInt64 → Search
  | 0, _ => .outOfFuel
  | fuel + 1, candidate =>
    match searchRound bars request candidate with
    | .inl outcome => outcome
    | .inr next => searchBar bars request fuel next

/-- A number of rounds that is enough for the search among some BARs. -/
def searchFuel (bars : List Bar) : Nat := bars.length + 1

/-- `allocate_bars`, with the BARs allocated so far. -/
def allocateBars (present : List Bar) : List BarRequest → List Bar → Option (List Bar)
  | [], pending => some pending
  | request :: requests, pending =>
    let bars := present ++ pending
    match searchBar bars request (searchFuel bars) dynamicMmioBase with
    | .found base => allocateBars present requests (pending ++ [⟨base, request.size⟩])
    | _ => none

/-! ## The bus mappings of a module -/

/-- The device that a module's BAR is on the bus. -/
def barDevice (slot bar : Nat) : BusDevice := ⟨.bar slot bar, true, true, bar = 0, bar = 0⟩

/-- The loop that maps the BARs from number `bar` on: the number of mapped BARs. -/
def mapBars (slot : Nat) : Nat → List Bar → Bus → Nat × Bus
  | bar, [], bus => (bar, bus)
  | bar, b :: bars, bus =>
    match busMapDevice b.base b.size (barDevice slot bar) bus with
    | none => (bar, bus)
    | some bus => mapBars slot (bar + 1) bars bus

/-- One `bus_unmap_device` whose result is ignored. -/
def unmapBar (bus : Bus) (b : Bar) : Bus := (busUnmapDevice b.base b.size bus).getD bus

/-- The loop that unmaps BARs and ignores the results. -/
def unmapBars (bus : Bus) (bars : List Bar) : Bus := bars.foldl unmapBar bus

/-- The loop of `detach_module_locked` that unmaps BARs until one fails. -/
def detachBars : Nat → List Bar → Bus → Nat × Bus
  | bar, [], bus => (bar, bus)
  | bar, b :: bars, bus =>
    match busUnmapDevice b.base b.size bus with
    | none => (bar, bus)
    | some bus => detachBars (bar + 1) bars bus

/-- The loop of `detach_module_locked` that maps BARs again and ignores the results. -/
def remapBars (slot : Nat) (bus : Bus) (bars : List Bar) : Bus :=
  bars.zipIdx.foldl (fun bus (b, bar) =>
    (busMapDevice b.base b.size (barDevice slot bar) bus).getD bus) bus

/-! ## Operations -/

/-- `publish_slot`. -/
def DeviceManager.publishSlot (m : DeviceManager) (i : Fin maxSlots) (slot : DeviceManagerSlot) :
    DeviceManager :=
  { m with
    slots := Function.update m.slots i { slot with present := true }
    presentCount := m.presentCount + 1 }

/-- The checks of `publish_fixed_locked` on the interrupt lines. -/
def irqsFree (irqUsed : Nat → Bool) : List Nat → List Nat → Bool
  | _, [] => true
  | previous, irq :: irqs =>
    !decide (irq ≥ externalLineCount ∨ irqUsed irq = true) && !previous.contains irq &&
      irqsFree irqUsed (previous ++ [irq]) irqs

/-- The checks of `publish_fixed_locked` on a BAR. -/
def barFixed (b : Bar) (r : BarRequest) : Bool :=
  b.size == r.size && b.base &&& (r.alignment - 1) == 0 && rangeValid b.base b.size

/-- `publish_fixed_locked`: the slot, if it succeeds. -/
def publishFixed (d : VmDeviceDescriptor) (r : VmDeviceResources) (m : DeviceManager) :
    Option (Fin maxSlots) × DeviceManager :=
  if ¬ descriptorValid d ∨ r.structSize < sizeofResources ∨ r.bars.length ≠ d.bars.length ∨
      r.irqs.length ≠ d.irqCount then (none, m)
  else
    match m.freeSlotIndex with
    | none => (none, m)
    | some i =>
      if ¬ irqsFree m.irqUsed [] r.irqs then (none, m)
      else if ¬ (r.bars.zip d.bars).all fun (b, q) => barFixed b q then (none, m)
      else
        let m := { m with
          irqUsed := r.irqs.foldl (fun used irq => Function.update used irq true) m.irqUsed }
        (some i, m.publishSlot i ⟨false, false, d, r, none⟩)

/-- `attach_module_locked`: the slot, if it succeeds.  `created` says whether the module's `create`
    returns a device. -/
def attachModule (module : VmDeviceModule) (created : Bool) (m : DeviceManager) :
    Option (Fin maxSlots) × DeviceManager :=
  if ¬ moduleValid module then (none, m)
  else
    match m.freeSlotIndex with
    | none => (none, m)
    | some i =>
      match allocateBars m.presentBars module.descriptor.bars [] with
      | none => (none, m)
      | some bars =>
        let (allocated, irqs, irqUsed) := allocateIrqs module.descriptor.irqCount [] m.irqUsed
        if ¬ allocated then (none, { m with irqUsed := releaseIrqs irqUsed irqs })
        else if ¬ created then
          (none, { m with
            irqUsed := releaseIrqs irqUsed irqs
            slots := Function.update m.slots i .zero })
        else
          let (mapped, bus) := mapBars i 0 bars m.bus
          if mapped ≠ bars.length then
            (none, { m with
              bus := unmapBars bus (bars.take mapped)
              irqUsed := releaseIrqs irqUsed irqs
              slots := Function.update m.slots i .zero })
          else
            let m := { m with bus := bus, irqUsed := irqUsed }
            (some i, m.publishSlot i ⟨false, true, module.descriptor, ⟨sizeofResources, bars, irqs⟩,
              some module⟩)

/-- The end of `detach_module_locked`: the slot's lines are released and the slot is cleared. -/
def DeviceManager.clearSlot (m : DeviceManager) (i : Fin maxSlots) : DeviceManager :=
  { m with
    irqUsed := releaseIrqs m.irqUsed (m.slots i).resources.irqs
    slots := Function.update m.slots i .zero
    presentCount := m.presentCount - 1 }

/-- `detach_module_locked`: whether it succeeds. -/
def detachModule (slotIndex : Nat) (m : DeviceManager) : Bool × DeviceManager :=
  if h : slotIndex < maxSlots then
    let i : Fin maxSlots := ⟨slotIndex, h⟩
    let slot := m.slots i
    if ¬ slot.present ∨ ¬ slot.external ∨ slot.module = none then (false, m)
    else
      let (unmapped, bus) := detachBars 0 slot.resources.bars m.bus
      if unmapped ≠ slot.resources.bars.length then
        (false, { m with bus := remapBars i bus (slot.resources.bars.take unmapped) })
      else
        (true, { m with bus := bus }.clearSlot i)
  else (false, m)

/-! ## Runs -/

/-- The calls that change the slots or the bus. -/
inductive Action where
  | publishFixed (d : VmDeviceDescriptor) (r : VmDeviceResources)
  | attachModule (module : VmDeviceModule) (created : Bool)
  | detachModule (slotIndex : Nat)
  /-- The machine maps a device of its own. -/
  | mapMachine (base size : UInt64) (id : Nat)
  | mapRom (base size : UInt64)

/-- One call. -/
def step (m : DeviceManager) : Action → Option DeviceManager
  | .publishFixed d r => some (publishFixed d r m).2
  | .attachModule module created => some (attachModule module created m).2
  | .detachModule slotIndex => some (detachModule slotIndex m).2
  | .mapMachine base size id =>
    some { m with
      bus := (busMapDevice base size ⟨.machine id, true, true, true, true⟩ m.bus).getD m.bus }
  | .mapRom base size => some { m with bus := (busMapRom base size m.bus).getD m.bus }

end RiscMv.Device
