import Mathlib.Algebra.Order.Group.Nat
import Mathlib.Data.List.FinRange
import RiscMv.ForStd.Table

/-!
# The mappings of the bus (`bus.c`)

`bus_map_device`, `bus_unmap_device` and `bus_map_rom`.  Each holds the table's lock for its whole
body.  A device on the bus is given by its context and by which callbacks it has.
-/

namespace RiscMv.Device

/-- `UINT64_MAX`. -/
def uint64Max : Nat := 2 ^ 64 - 1

/-- `range_valid`, `range_end`: a range of addresses that does not wrap around. -/
def rangeValid (base size : UInt64) : Bool :=
  !decide (size = 0 ∨ base.toNat > uint64Max - (size - 1).toNat)

/-- `ranges_overlap`. -/
def rangesOverlap (firstBase firstSize secondBase secondSize : UInt64) : Bool :=
  let firstEnd := firstBase + firstSize - 1
  let secondEnd := secondBase + secondSize - 1
  firstBase ≤ secondEnd && secondBase ≤ firstEnd

/-- The context pointer of a device on the bus. -/
inductive BusContext where
  /-- NULL. -/
  | null
  /-- The adapter of a module's BAR. -/
  | bar (slot bar : Nat)
  /-- A device of the machine. -/
  | machine (id : Nat)
  deriving DecidableEq

/-- `BusDevice`, with the callbacks that are not NULL. -/
structure BusDevice where
  context : BusContext
  read : Bool
  write : Bool
  tick : Bool
  reset : Bool
  deriving DecidableEq

/-- `(BusDevice){0}`. -/
def BusDevice.zero : BusDevice := ⟨.null, false, false, false, false⟩

/-- `BusMapping`. -/
structure BusMapping where
  present : Bool
  base : UInt64
  size : UInt64
  device : BusDevice
  deriving DecidableEq

/-- A mapping that is not in use. -/
def BusMapping.zero : BusMapping := ⟨false, 0, 0, .zero⟩

/-- `BUS_MAX_DEVICES`. -/
def busMaxDevices : Nat := 64

/-- `Bus`; the ROM is given by its base and size. -/
structure Bus where
  ramSize : UInt64
  rom : Option (UInt64 × UInt64)
  mappings : Fin busMaxDevices → BusMapping
  mappingCount : Nat

/-- `bus_init`. -/
def busInit (ramSize : UInt64) : Bus := ⟨ramSize, none, fun _ => .zero, 0⟩

/-- Whether a range overlaps the ROM. -/
def Bus.romOverlaps (bus : Bus) (base size : UInt64) : Bool :=
  match bus.rom with
  | none => false
  | some (romBase, romSize) => rangesOverlap base size romBase romSize

/-- Whether a range overlaps the memory. -/
def Bus.ramOverlaps (bus : Bus) (base size : UInt64) : Bool :=
  bus.ramSize != 0 && rangesOverlap base size 0 bus.ramSize

/-- Whether a range overlaps a mapping. -/
def Bus.mappingOverlaps (bus : Bus) (base size : UInt64) : Bool :=
  (List.finRange busMaxDevices).any fun i =>
    (bus.mappings i).present &&
      rangesOverlap base size (bus.mappings i).base (bus.mappings i).size

/-- The first entry of the table that is free. -/
def Bus.freeIndex (bus : Bus) : Option (Fin busMaxDevices) :=
  (List.finRange busMaxDevices).find? fun i => !(bus.mappings i).present

/-- The bus with one more mapping, at a free entry of the table. -/
def Bus.insert (bus : Bus) (i : Fin busMaxDevices) (base size : UInt64) (device : BusDevice) :
    Bus :=
  { bus with
    mappings := Function.update bus.mappings i ⟨true, base, size, device⟩
    mappingCount := bus.mappingCount + 1 }

/-- The bus without the mapping at an entry of the table. -/
def Bus.remove (bus : Bus) (i : Fin busMaxDevices) : Bus :=
  { bus with
    mappings := Function.update bus.mappings i .zero
    mappingCount := bus.mappingCount - 1 }

/-- `bus_map_device`. -/
def busMapDevice (base size : UInt64) (device : BusDevice) (bus : Bus) : Option Bus :=
  if ¬ rangeValid base size ∨
      ¬ (device.read ∨ device.write ∨ device.tick ∨ device.reset) then none
  else if bus.ramOverlaps base size then none
  else if bus.mappingCount ≥ busMaxDevices then none
  else if bus.romOverlaps base size then none
  else if bus.mappingOverlaps base size then none
  else bus.freeIndex.map fun i => bus.insert i base size device

/-- `bus_map_rom`. -/
def busMapRom (base size : UInt64) (bus : Bus) : Option Bus :=
  if size = 0 ∨ ¬ rangeValid base size ∨ bus.ramOverlaps base size then none
  else if bus.rom.isSome then none
  else if bus.mappingOverlaps base size then none
  else some { bus with rom := some (base, size) }

/-- The first entry of the table with a given range. -/
def Bus.indexOf (bus : Bus) (base size : UInt64) : Option (Fin busMaxDevices) :=
  (List.finRange busMaxDevices).find? fun i => (bus.mappings i).present &&
    (bus.mappings i).base == base && (bus.mappings i).size == size

/-- `bus_unmap_device`. -/
def busUnmapDevice (base size : UInt64) (bus : Bus) : Option Bus :=
  if ¬ rangeValid base size then none
  else (bus.indexOf base size).map bus.remove

/-! ## Ranges -/

variable {base size base' size' : UInt64}

/-- The last address of a valid range. -/
theorem rangeValid_iff : rangeValid base size = true ↔
    size.toNat ≠ 0 ∧ base.toNat + (size.toNat - 1) < 2 ^ 64 := by
  have hsize : size = 0 ↔ size.toNat = 0 := by
    rw [← UInt64.toNat_inj]
    rfl
  have hlt := size.toNat_lt
  have hbase := base.toNat_lt
  simp only [rangeValid, Bool.not_eq_true', decide_eq_false_iff_not, not_or, hsize]
  refine and_congr_right fun hne => ?_
  have hone : (1 : UInt64) ≤ size := by
    rw [UInt64.le_iff_toNat_le]
    have : (1 : UInt64).toNat = 1 := rfl
    omega
  have hpred : (size - 1).toNat = size.toNat - 1 := UInt64.toNat_sub_of_le _ _ hone
  rw [hpred, uint64Max]
  omega

theorem toNat_last (h : rangeValid base size = true) :
    (base + size - 1).toNat = base.toNat + (size.toNat - 1) := by
  obtain ⟨hne, hlt⟩ := rangeValid_iff.mp h
  have hsize := size.toNat_lt
  rw [UInt64.toNat_sub, UInt64.toNat_add]
  have hone : (1 : UInt64).toNat = 1 := rfl
  rw [hone]
  omega

/-- Two valid ranges overlap if they share an address. -/
theorem rangesOverlap_iff (h : rangeValid base size = true) (h' : rangeValid base' size' = true) :
    rangesOverlap base size base' size' = true ↔
      base.toNat ≤ base'.toNat + (size'.toNat - 1) ∧
        base'.toNat ≤ base.toNat + (size.toNat - 1) := by
  simp only [rangesOverlap, Bool.and_eq_true, decide_eq_true_eq, UInt64.le_iff_toNat_le,
    toNat_last h, toNat_last h']

/-! ## The table -/

/-- An entry that is not in use is cleared, and one that is has a range. -/
structure BusMapping.Ok (e : BusMapping) : Prop where
  absent : e.present = false → e = .zero
  valid : e.present = true → rangeValid e.base e.size = true

/-- Two entries in use do not overlap. -/
def BusMapping.Apart (e e' : BusMapping) : Prop :=
  e.present = true → e'.present = true → rangesOverlap e.base e.size e'.base e'.size = false

theorem BusMapping.Apart.symm {e e' : BusMapping} (h : e.Apart e') : e'.Apart e := by
  intro hp' hp
  have hno := h hp hp'
  simp only [rangesOverlap] at hno ⊢
  rw [Bool.and_comm]
  exact hno

theorem BusMapping.zero_ok : BusMapping.zero.Ok := ⟨fun _ => rfl, Bool.noConfusion⟩

theorem BusMapping.zero_apart (e : BusMapping) : BusMapping.zero.Apart e := Bool.noConfusion

/-- The entries of the table are all right, and mappings do not overlap. -/
structure BusOk (bus : Bus) : Prop where
  entry : ∀ i, (bus.mappings i).Ok
  apart : Pairwise fun i j => (bus.mappings i).Apart (bus.mappings j)

theorem busInit_ok (ramSize : UInt64) : BusOk (busInit ramSize) where
  entry _ := BusMapping.zero_ok
  apart _ _ _ := BusMapping.zero_apart _

variable {bus bus' : Bus} {device : BusDevice} {i j : Fin busMaxDevices}

@[simp] theorem insert_self : (bus.insert i base size device).mappings i =
    ⟨true, base, size, device⟩ := Function.update_self ..

@[simp] theorem remove_self : (bus.remove i).mappings i = .zero := Function.update_self ..

theorem remove_ne (h : j ≠ i) : (bus.remove i).mappings j = bus.mappings j :=
  Function.update_of_ne h ..

/-- What a successful `bus_map_device` does. -/
theorem busMapDevice_spec (h : busMapDevice base size device bus = some bus') :
    ∃ i, bus' = bus.insert i base size device ∧ (bus.mappings i).present = false ∧
      rangeValid base size = true ∧ ∀ j, (bus.mappings j).present = true →
        rangesOverlap base size (bus.mappings j).base (bus.mappings j).size = false := by
  unfold busMapDevice at h
  split at h
  · cases h
  · next hvalid =>
    split at h
    · cases h
    · split at h
      · cases h
      · split at h
        · cases h
        · split at h
          · cases h
          · next hfree =>
            obtain ⟨i, hi, rfl⟩ := Option.map_eq_some_iff.mp h
            have habsent := List.find?_some hi
            simp only [not_or, not_not] at hvalid
            refine ⟨i, rfl, by simpa using habsent, hvalid.1, fun j hj => ?_⟩
            simp only [Bus.mappingOverlaps, List.any_eq_true, not_exists, not_and] at hfree
            have hno := hfree j (List.mem_finRange j)
            simpa [hj] using hno

theorem BusOk.insert (h : BusOk bus) (hvalid : rangeValid base size = true)
    (hfree : ∀ j, (bus.mappings j).present = true →
      rangesOverlap base size (bus.mappings j).base (bus.mappings j).size = false) :
    BusOk (bus.insert i base size device) where
  entry := (Function.forall_update_iff bus.mappings fun _ e => e.Ok).mpr
    ⟨⟨Bool.noConfusion, fun _ => hvalid⟩, fun j _ => h.entry j⟩
  apart := pairwise_update h.apart .symm fun j _ _ hj => hfree j hj

theorem BusOk.remove (h : BusOk bus) (i : Fin busMaxDevices) : BusOk (bus.remove i) where
  entry := (Function.forall_update_iff bus.mappings fun _ e => e.Ok).mpr
    ⟨BusMapping.zero_ok, fun j _ => h.entry j⟩
  apart := pairwise_update h.apart .symm fun _ _ => BusMapping.zero_apart _

theorem BusOk.map (h : BusOk bus) (hmap : busMapDevice base size device bus = some bus') :
    BusOk bus' := by
  obtain ⟨i, rfl, -, hvalid, hfree⟩ := busMapDevice_spec hmap
  exact h.insert hvalid hfree

/-- A valid range overlaps itself. -/
theorem rangesOverlap_self (h : rangeValid base size = true) :
    rangesOverlap base size base size = true := by
  rw [rangesOverlap_iff h h]
  omega

/-- A mapped range is found at its own entry. -/
theorem BusOk.indexOf (h : BusOk bus)
    (hi : bus.mappings i = ⟨true, base, size, device⟩) : bus.indexOf base size = some i := by
  have hmem : ∃ j, bus.indexOf base size = some j := by
    rw [← Option.isSome_iff_exists, Bus.indexOf, List.find?_isSome]
    exact ⟨i, List.mem_finRange i, by simp [hi]⟩
  obtain ⟨j, hj⟩ := hmem
  have hfound := List.find?_some hj
  simp only [Bool.and_eq_true, beq_iff_eq] at hfound
  obtain ⟨⟨hpresent, hbase⟩, hsize⟩ := hfound
  -- any other entry with that range would overlap it
  by_cases hne : j = i
  · rw [hj, hne]
  · have hno := h.apart hne hpresent (by rw [hi])
    have hvalid := (h.entry i).valid (by rw [hi])
    rw [hi] at hno hvalid
    rw [hbase, hsize, rangesOverlap_self hvalid] at hno
    cases hno

/-- A mapped range can be unmapped. -/
theorem BusOk.unmap (h : BusOk bus) (hi : bus.mappings i = ⟨true, base, size, device⟩) :
    busUnmapDevice base size bus = some (bus.remove i) := by
  have hvalid := (h.entry i).valid (by rw [hi])
  rw [hi] at hvalid
  rw [busUnmapDevice, h.indexOf hi]
  simp [hvalid]

/-- Unmapping what was just mapped. -/
theorem BusOk.remove_insert (h : BusOk bus) (hi : (bus.mappings i).present = false) :
    (bus.insert i base size device).remove i = bus := by
  unfold Bus.remove Bus.insert
  dsimp only
  rw [Function.update_idem, ← (h.entry i).absent hi, Function.update_eq_self, Nat.add_sub_cancel]

end RiscMv.Device
