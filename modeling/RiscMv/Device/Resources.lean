import Mathlib.Data.Fintype.Card
import RiscMv.Device.Search
import RiscMv.ForStd.Run

/-!
# Resources of the device manager

In every state that calls of the manager reach, the BARs of the attached modules are apart,
aligned, inside the window and exactly the ones that are mapped for modules; the interrupt lines in
use are exactly those of the slots that are present, each of one slot; and a call that fails leaves
everything as it was.

## Key results
- `mapBars_restore`: unmapping what was mapped restores the bus
- `Managed.attach`, `Managed.detach`, `Managed.publish`: one call
- `device_manager_resources`: every run
-/

namespace RiscMv.Device

open Interrupt (externalLineCount)

/-! ## Mapping the BARs of a module -/

variable {bus bus' : Bus} {b : Bar} {bars : List Bar} {i j : Fin maxSlots}
  {slot : DeviceManagerSlot}

theorem unmapBar_of_mapped {i : Fin busMaxDevices} {device : BusDevice} (h : BusOk bus)
    (hi : bus.mappings i = ⟨true, b.base, b.size, device⟩) : unmapBar bus b = bus.remove i := by
  rw [unmapBar, h.unmap hi]
  rfl

theorem unmapBar_ok (h : BusOk bus) (b : Bar) : BusOk (unmapBar bus b) := by
  unfold unmapBar busUnmapDevice
  split
  · exact h
  · cases hidx : bus.indexOf b.base b.size with
    | none => exact h
    | some i => exact h.remove i

/-- The result of `unmapBar`: the entry with the range is cleared, if there is one. -/
theorem unmapBar_cases (h : BusOk bus) (b : Bar) :
    (unmapBar bus b = bus ∧ ∀ i device, bus.mappings i ≠ ⟨true, b.base, b.size, device⟩) ∨
      ∃ i device, bus.mappings i = ⟨true, b.base, b.size, device⟩ ∧
        unmapBar bus b = bus.remove i := by
  by_cases hmapped : ∃ i device, bus.mappings i = ⟨true, b.base, b.size, device⟩
  · obtain ⟨i, device, hi⟩ := hmapped
    exact .inr ⟨i, device, hi, unmapBar_of_mapped h hi⟩
  · have hnone : ∀ i device, bus.mappings i ≠ ⟨true, b.base, b.size, device⟩ :=
      fun i device hi => hmapped ⟨i, device, hi⟩
    refine .inl ⟨?_, hnone⟩
    unfold unmapBar busUnmapDevice
    split
    · rfl
    · cases hidx : bus.indexOf b.base b.size with
      | none => rfl
      | some i =>
        have hfound := List.find?_some hidx
        simp only [Bool.and_eq_true, beq_iff_eq] at hfound
        obtain ⟨⟨hpresent, hbase⟩, hsize⟩ := hfound
        refine absurd ?_ (hnone i (bus.mappings i).device)
        rw [← hpresent, ← hbase, ← hsize]

theorem remove_comm (bus : Bus) {i j : Fin busMaxDevices} (h : i ≠ j) :
    (bus.remove i).remove j = (bus.remove j).remove i := by
  unfold Bus.remove
  dsimp only
  rw [Function.update_comm h]

/-- A BAR that is not mapped is not mapped after an entry was cleared either. -/
theorem unmapBar_remove (h : BusOk bus) (j : Fin busMaxDevices)
    (hno : ∀ i device, bus.mappings i ≠ ⟨true, b.base, b.size, device⟩) :
    unmapBar (bus.remove j) b = bus.remove j := by
  rcases unmapBar_cases (h.remove j) b with ⟨heq, -⟩ | ⟨i, d, hi, -⟩
  · exact heq
  · by_cases hij : i = j
    · subst hij
      rw [remove_self] at hi
      cases hi
    · rw [remove_ne hij] at hi
      exact absurd hi (hno i d)

/-- Different BARs can be unmapped in any order. -/
theorem unmapBar_comm (h : BusOk bus) {a b : Bar} (hab : a ≠ b) :
    unmapBar (unmapBar bus a) b = unmapBar (unmapBar bus b) a := by
  rcases unmapBar_cases h a with ⟨ha, hnoa⟩ | ⟨i, d, hi, ha⟩
  · rcases unmapBar_cases h b with ⟨hb, -⟩ | ⟨j, d', -, hb⟩
    · rw [ha, hb, ha]
    · rw [ha, hb, unmapBar_remove h j hnoa]
  · rcases unmapBar_cases h b with ⟨hb, hnob⟩ | ⟨j, d', hj, hb⟩
    · rw [ha, hb, ha, unmapBar_remove h i hnob]
    · have hij : i ≠ j := by
        rintro rfl
        rw [hi] at hj
        cases a
        cases b
        cases hj
        exact hab rfl
      rw [ha, hb, unmapBar_of_mapped (h.remove i) ((remove_ne hij.symm).trans hj),
        unmapBar_of_mapped (h.remove j) ((remove_ne hij).trans hi), remove_comm bus hij]

theorem unmapBars_ok (h : BusOk bus) (bars : List Bar) : BusOk (unmapBars bus bars) := by
  induction bars generalizing bus with
  | nil => exact h
  | cons b bars ih => exact ih (unmapBar_ok h b)

theorem unmapBars_comm (h : BusOk bus) (hb : b ∉ bars) :
    unmapBars (unmapBar bus b) bars = unmapBar (unmapBars bus bars) b := by
  induction bars generalizing bus with
  | nil => rfl
  | cons a bars ih =>
    rw [List.mem_cons, not_or] at hb
    have hstep : unmapBars (unmapBar bus b) (a :: bars) =
        unmapBars (unmapBar (unmapBar bus b) a) bars := rfl
    rw [hstep, unmapBar_comm h hb.1, ih (unmapBar_ok h a) hb.2]
    rfl

/-- Unmapping the BARs that were mapped restores the bus. -/
theorem mapBars_restore {slot bar mapped : Nat} (h : BusOk bus) (hnodup : bars.Nodup)
    (hmap : mapBars slot bar bars bus = (mapped, bus')) :
    BusOk bus' ∧ bar ≤ mapped ∧ unmapBars bus' (bars.take (mapped - bar)) = bus := by
  induction bars generalizing bar bus with
  | nil =>
    cases hmap
    exact ⟨h, Nat.le_refl _, by simp [unmapBars]⟩
  | cons b bars ih =>
    rw [mapBars] at hmap
    split at hmap
    · cases hmap
      exact ⟨h, Nat.le_refl _, by simp [unmapBars]⟩
    · next bus₁ hone =>
      obtain ⟨i, rfl, hfree, hvalid, hapart⟩ := busMapDevice_spec hone
      have hok : BusOk (bus.insert i b.base b.size (barDevice slot bar)) := h.insert hvalid hapart
      have hnodup' := List.nodup_cons.mp hnodup
      obtain ⟨hok', hle, hrest⟩ := ih hok hnodup'.2 hmap
      refine ⟨hok', by omega, ?_⟩
      have htake : (b :: bars).take (mapped - bar) = b :: bars.take (mapped - (bar + 1)) := by
        have hsucc : mapped - bar = mapped - (bar + 1) + 1 := by omega
        rw [hsucc, List.take_succ_cons]
      have hstep : unmapBars bus' (b :: bars.take (mapped - (bar + 1))) =
          unmapBars (unmapBar bus' b) (bars.take (mapped - (bar + 1))) := rfl
      rw [htake, hstep, unmapBars_comm hok' fun hmem => hnodup'.1 (List.mem_of_mem_take hmem),
        hrest, unmapBar_of_mapped hok insert_self,
        h.remove_insert hfree]

/-- The bus maps a range to a device. -/
def Bus.Maps (bus : Bus) (base size : UInt64) (device : BusDevice) : Prop :=
  ∃ i, bus.mappings i = ⟨true, base, size, device⟩

variable {base size : UInt64} {device device' : BusDevice}

theorem maps_insert {i : Fin busMaxDevices} {base' size' : UInt64}
    (hi : (bus.mappings i).present = false) :
    (bus.insert i base' size' device').Maps base size device ↔
      bus.Maps base size device ∨ base = base' ∧ size = size' ∧ device = device' := by
  refine (Function.exists_update_iff bus.mappings fun _ e => e = ⟨true, base, size, device⟩).trans
    (or_comm.trans (or_congr ⟨fun hj => hj.imp fun _ => And.right, ?_⟩ ?_))
  · rintro ⟨j, hj⟩
    refine ⟨j, ?_, hj⟩
    rintro rfl
    rw [hj] at hi
    cases hi
  · simp [eq_comm]

theorem maps_unmapBar (h : BusOk bus) :
    (unmapBar bus b).Maps base size device ↔ bus.Maps base size device ∧ ⟨base, size⟩ ≠ b := by
  rcases unmapBar_cases h b with ⟨heq, hnone⟩ | ⟨i, device', hi, heq⟩
  · rw [heq]
    refine ⟨fun hmaps => ⟨hmaps, ?_⟩, fun hmaps => hmaps.1⟩
    rintro rfl
    obtain ⟨j, hj⟩ := hmaps
    exact hnone j device hj
  · rw [heq]
    refine (Function.exists_update_iff bus.mappings fun _ e =>
      e = ⟨true, base, size, device⟩).trans ⟨?_, ?_⟩
    · rintro (hzero | ⟨j, hji, hj⟩)
      · cases hzero
      refine ⟨⟨j, hj⟩, ?_⟩
      rintro rfl
      -- another entry with that range would overlap
      have hidx := (h.indexOf hi).symm.trans (h.indexOf hj)
      exact hji (Option.some.inj hidx).symm
    · rintro ⟨⟨j, hj⟩, hne⟩
      refine .inr ⟨j, ?_, hj⟩
      rintro rfl
      rw [hi] at hj
      cases hj
      exact hne rfl

theorem maps_unmapBars (h : BusOk bus) :
    (unmapBars bus bars).Maps base size device ↔
      bus.Maps base size device ∧ ⟨base, size⟩ ∉ bars := by
  induction bars generalizing bus with
  | nil => simp [unmapBars]
  | cons b bars ih =>
    have hstep : unmapBars bus (b :: bars) = unmapBars (unmapBar bus b) bars := rfl
    rw [hstep, ih (unmapBar_ok h b), maps_unmapBar h, List.mem_cons, not_or, and_assoc]

/-- When all BARs are mapped, the bus has them and what it had before. -/
theorem mapBars_maps {slot bar : Nat}
    (hmap : mapBars slot bar bars bus = (bar + bars.length, bus')) :
    bus'.Maps base size device ↔ bus.Maps base size device ∨
      ∃ k, bars[k]? = some ⟨base, size⟩ ∧ device = barDevice slot (bar + k) := by
  induction bars generalizing bar bus with
  | nil =>
    cases hmap
    simp
  | cons b bars ih =>
    rw [mapBars] at hmap
    split at hmap
    · have hcount := congrArg Prod.fst hmap
      simp at hcount
    · next bus₁ hone =>
      obtain ⟨i, rfl, hfree, -, -⟩ := busMapDevice_spec hone
      rw [List.length_cons, ← Nat.add_assoc, Nat.add_right_comm] at hmap
      rw [ih hmap, maps_insert hfree, or_assoc]
      apply or_congr_right
      constructor
      · rintro (⟨rfl, rfl, rfl⟩ | ⟨k, hk, rfl⟩)
        · exact ⟨0, rfl, rfl⟩
        · exact ⟨k + 1, hk, by rw [Nat.add_assoc, Nat.add_comm 1]⟩
      · rintro ⟨k, hk, rfl⟩
        cases k with
        | zero =>
          cases Option.some.inj hk
          exact .inl ⟨rfl, rfl, rfl⟩
        | succ k => exact .inr ⟨k, hk, by rw [Nat.add_assoc, Nat.add_comm 1]⟩

/-- BARs that are mapped are all unmapped. -/
theorem detachBars_eq {bar : Nat} (h : BusOk bus) (hnodup : bars.Nodup)
    (hmapped : ∀ b ∈ bars, ∃ device, bus.Maps b.base b.size device) :
    detachBars bar bars bus = (bar + bars.length, unmapBars bus bars) := by
  induction bars generalizing bar bus with
  | nil => rfl
  | cons b bars ih =>
    have hnodup' := List.nodup_cons.mp hnodup
    obtain ⟨device, i, hi⟩ := hmapped b List.mem_cons_self
    have hone : unmapBar bus b = bus.remove i := unmapBar_of_mapped h hi
    rw [detachBars, h.unmap hi]
    dsimp only
    rw [← hone, ih (unmapBar_ok h b) hnodup'.2, List.length_cons, Nat.add_assoc,
      Nat.add_comm 1]
    · rfl
    · intro b' hb'
      obtain ⟨device', hmaps⟩ := hmapped b' (List.mem_cons_of_mem b hb')
      refine ⟨device', (maps_unmapBar h).mpr ⟨hmaps, ?_⟩⟩
      rintro rfl
      exact hnodup'.1 hb'

/-! ## Invariant -/

/-- The number of slots that are present. -/
def DeviceManager.presentSlots (m : DeviceManager) : Nat :=
  (Finset.univ.filter fun i => (m.slots i).present = true).card

/-- A slot of the manager between calls. -/
structure DeviceManagerSlot.Ok (slot : DeviceManagerSlot) (bus : Bus) (i : Fin maxSlots) :
    Prop where
  absent : slot.present = false → slot = .zero
  valid : ∀ b ∈ slot.resources.bars, b.Valid
  fits : slot.external = true → List.Forall₂ (fun r b => b.size = r.size ∧ Fits r b.base)
    slot.descriptor.bars slot.resources.bars
  apart : slot.external = true → slot.resources.bars.Pairwise Bar.Apart
  mapped : ∀ k b, slot.external = true → slot.resources.bars[k]? = some b →
    bus.Maps b.base b.size (barDevice i k)
  irqExternal : ∀ line ∈ slot.resources.irqs, line < externalLineCount

/-- Two slots share neither an address nor a line. -/
structure DeviceManagerSlot.Apart (slot slot' : DeviceManagerSlot) : Prop where
  bars : slot.external = true → slot'.external = true →
    ∀ a ∈ slot.resources.bars, ∀ b ∈ slot'.resources.bars, a.Apart b
  irqs : ∀ line ∈ slot.resources.irqs, line ∉ slot'.resources.irqs

theorem DeviceManagerSlot.Apart.symm {slot' : DeviceManagerSlot} (h : slot.Apart slot') :
    slot'.Apart slot :=
  ⟨fun hext' hext a ha b hb => (h.bars hext hext' b hb a ha).symm,
    fun line hline' hline => h.irqs line hline hline'⟩

theorem DeviceManagerSlot.zero_ok (bus : Bus) (i : Fin maxSlots) :
    DeviceManagerSlot.zero.Ok bus i := by
  refine ⟨fun _ => rfl, fun _ hb => ?_, Bool.noConfusion, Bool.noConfusion,
    fun _ _ => Bool.noConfusion, fun _ hline => ?_⟩
  · cases hb
  · cases hline

theorem DeviceManagerSlot.zero_apart (slot : DeviceManagerSlot) :
    DeviceManagerSlot.zero.Apart slot := by
  refine ⟨Bool.noConfusion, fun _ hline => ?_⟩
  cases hline

/-- The state of the device manager between calls. -/
structure Managed (m : DeviceManager) : Prop where
  bus : BusOk m.bus
  slot : ∀ i, (m.slots i).Ok m.bus i
  apart : Pairwise fun i j => (m.slots i).Apart (m.slots j)
  owned : ∀ base size device slot bar, m.bus.Maps base size device →
    device.context = .bar slot bar → ∃ i : Fin maxSlots, i = slot ∧ device = barDevice i bar ∧
      (m.slots i).external = true ∧ (m.slots i).resources.bars[bar]? = some ⟨base, size⟩
  irqUsed : ∀ line, m.irqUsed line = true ↔ ∃ i, line ∈ (m.slots i).resources.irqs
  count : m.presentCount = m.presentSlots

variable {m m' : DeviceManager}

theorem deviceManagerInit_managed (ramSize : UInt64) :
    Managed (deviceManagerInit (busInit ramSize)) where
  bus := busInit_ok ramSize
  slot _ := DeviceManagerSlot.zero_ok _ _
  apart _ _ _ := DeviceManagerSlot.zero_apart _
  owned _ _ _ _ _ h := by
    obtain ⟨i, hi⟩ := h
    cases hi
  irqUsed line := by
    constructor
    · intro h
      cases h
    · rintro ⟨i, hi⟩
      cases hi
  count := by simp [DeviceManager.presentSlots, deviceManagerInit, DeviceManagerSlot.zero]

theorem Managed.present_of_external (h : Managed m) (hi : (m.slots i).external = true) :
    (m.slots i).present = true := by
  by_contra hno
  rw [(h.slot i).absent (by simpa using hno)] at hi
  cases hi

/-- A slot gets a device. -/
theorem presentSlots_publish (hi : (m.slots i).present = false) :
    (m.publishSlot i slot).presentSlots = m.presentSlots + 1 := by
  have hset : (Finset.univ.filter fun j => ((m.publishSlot i slot).slots j).present = true) =
      insert i (Finset.univ.filter fun j => (m.slots j).present = true) := by
    ext j
    simp only [Finset.mem_filter, Finset.mem_univ, true_and, Finset.mem_insert]
    by_cases hji : j = i
    · subst hji
      simp [DeviceManager.publishSlot]
    · simp [DeviceManager.publishSlot, hji]
  rw [DeviceManager.presentSlots, hset, Finset.card_insert_of_notMem]
  · rfl
  · simp [hi]

/-- A slot loses its device. -/
theorem presentSlots_clear (hi : (m.slots i).present = true) :
    (m.clearSlot i).presentSlots = m.presentSlots - 1 := by
  -- putting the device back gives the old table
  have hback : ((m.clearSlot i).publishSlot i (m.slots i)).slots = m.slots := by
    simp [DeviceManager.publishSlot, DeviceManager.clearSlot, ← hi]
  have hcount : ((m.clearSlot i).publishSlot i (m.slots i)).presentSlots = _ :=
    presentSlots_publish (by simp [DeviceManager.clearSlot, DeviceManagerSlot.zero])
  rw [DeviceManager.presentSlots, hback] at hcount
  exact (Nat.eq_sub_of_add_eq hcount.symm)

theorem Managed.valid_presentBars (h : Managed m) : ∀ b ∈ m.presentBars, b.Valid := by
  intro b hb
  obtain ⟨i, -, hb⟩ := List.mem_flatMap.mp hb
  split at hb
  · exact (h.slot i).valid b hb
  · cases hb

theorem Managed.mem_presentBars (h : Managed m) {b : Bar} (hi : (m.slots i).external = true)
    (hb : b ∈ (m.slots i).resources.bars) : b ∈ m.presentBars := by
  refine List.mem_flatMap.mpr ⟨i, List.mem_finRange i, ?_⟩
  rw [if_pos (h.present_of_external hi)]
  exact hb

/-- BARs that are apart are different. -/
theorem nodup_of_apart (hvalid : ∀ b ∈ bars, b.Valid) (h : bars.Pairwise Bar.Apart) :
    bars.Nodup := by
  refine List.Pairwise.imp_of_mem ?_ h
  rintro a b ha hb hapart rfl
  unfold Bar.Apart at hapart
  rw [rangesOverlap_self (hvalid a ha)] at hapart
  cases hapart

/-! ## A slot gets a device -/

/-- A device that may be put into a slot. -/
structure Installs (m : DeviceManager) (i : Fin maxSlots) (slot : DeviceManagerSlot) (bus' : Bus)
    (irqUsed' : Nat → Bool) : Prop where
  bus : BusOk bus'
  valid : ∀ b ∈ slot.resources.bars, b.Valid
  fits : slot.external = true → List.Forall₂ (fun r b => b.size = r.size ∧ Fits r b.base)
    slot.descriptor.bars slot.resources.bars
  apart : slot.external = true → slot.resources.bars.Pairwise Bar.Apart
  others : slot.external = true → ∀ j, (m.slots j).external = true →
    ∀ a ∈ slot.resources.bars, ∀ b ∈ (m.slots j).resources.bars, a.Apart b
  maps : ∀ base size device, bus'.Maps base size device ↔ m.bus.Maps base size device ∨
    slot.external = true ∧ ∃ k, slot.resources.bars[k]? = some ⟨base, size⟩ ∧
      device = barDevice i k
  irqUsed : ∀ line, irqUsed' line = (m.irqUsed line || decide (line ∈ slot.resources.irqs))
  irqFree : ∀ line ∈ slot.resources.irqs, m.irqUsed line = false
  irqExternal : ∀ line ∈ slot.resources.irqs, line < externalLineCount

theorem Managed.install (h : Managed m) {bus' : Bus} {irqUsed' : Nat → Bool}
    (hi : (m.slots i).present = false) (hs : Installs m i slot bus' irqUsed') :
    Managed ({ m with bus := bus', irqUsed := irqUsed' }.publishSlot i slot) where
  bus := hs.bus
  slot := by
    refine (Function.forall_update_iff m.slots fun j s => s.Ok bus' j).mpr ⟨?_, fun j _ => ?_⟩
    · exact ⟨Bool.noConfusion, hs.valid, hs.fits, hs.apart,
        fun k b hext hk => (hs.maps _ _ _).mpr (.inr ⟨hext, k, hk, rfl⟩), hs.irqExternal⟩
    · exact { h.slot j with
        mapped := fun k b hext hk => (hs.maps _ _ _).mpr (.inl ((h.slot j).mapped k b hext hk)) }
  apart := by
    refine pairwise_update h.apart .symm fun j _ =>
      ⟨fun hext hj => hs.others hext j hj, fun line hnew hold => ?_⟩
    have hused := (h.irqUsed line).mpr ⟨j, hold⟩
    rw [hs.irqFree line hnew] at hused
    cases hused
  owned base size device slotIndex bar hmaps hcontext := by
    refine (Function.exists_update_iff m.slots fun j s => (j : Nat) = slotIndex ∧
      device = barDevice j bar ∧ s.external = true ∧
      s.resources.bars[bar]? = some ⟨base, size⟩).mpr ?_
    rcases (hs.maps base size device).mp hmaps with hold | ⟨hexternal, k, hk, rfl⟩
    · obtain ⟨j, hj⟩ := h.owned base size device slotIndex bar hold hcontext
      refine .inr ⟨j, ?_, hj⟩
      rintro rfl
      rw [(h.slot j).absent hi] at hj
      cases hj.2.2.1
    · cases hcontext
      exact .inl ⟨rfl, rfl, hexternal, hk⟩
  irqUsed line := by
    refine Iff.trans ?_ (Function.exists_update_iff m.slots fun _ s =>
      line ∈ s.resources.irqs).symm
    have hused : irqUsed' line = true ↔
        m.irqUsed line = true ∨ line ∈ slot.resources.irqs := by
      rw [hs.irqUsed line, Bool.or_eq_true, decide_eq_true_eq]
    refine hused.trans (or_comm.trans (or_congr_right ?_))
    rw [h.irqUsed line]
    refine ⟨?_, fun hj => hj.imp fun _ => And.right⟩
    rintro ⟨j, hj⟩
    refine ⟨j, ?_, hj⟩
    rintro rfl
    rw [(h.slot j).absent hi] at hj
    cases hj
  count := by
    have hcount : ({ m with bus := bus', irqUsed := irqUsed' }.publishSlot i slot).presentSlots =
        m.presentSlots + 1 := presentSlots_publish hi
    exact (congrArg (· + 1) h.count).trans hcount.symm

theorem freeSlotIndex_spec (h : m.freeSlotIndex = some i) : (m.slots i).present = false := by
  have hfound := List.find?_some h
  simpa using hfound

/-! ## Calls -/

theorem irqsFree_spec {irqUsed : Nat → Bool} {previous irqs : List Nat}
    (h : irqsFree irqUsed previous irqs = true) :
    ∀ line ∈ irqs, irqUsed line = false ∧ line < externalLineCount := by
  induction irqs generalizing previous with
  | nil => nofun
  | cons irq irqs ih =>
    simp only [irqsFree, Bool.and_eq_true, Bool.not_eq_true', decide_eq_false_iff_not,
      not_or] at h
    obtain ⟨⟨⟨hlt, hfree⟩, -⟩, hrest⟩ := h
    intro line hline
    rcases List.mem_cons.mp hline with rfl | hline
    · exact ⟨by simpa using hfree, by omega⟩
    · exact ih hrest line hline

theorem foldl_used (irqUsed : Nat → Bool) (irqs : List Nat) (line : Nat) :
    irqs.foldl (fun used irq => Function.update used irq true) irqUsed line =
      (irqUsed line || decide (line ∈ irqs)) := by
  induction irqs generalizing irqUsed with
  | nil => simp
  | cons irq irqs ih =>
    rw [List.foldl_cons, ih]
    by_cases heq : line = irq
    · subst heq
      simp
    · simp [heq]

theorem Managed.publish (h : Managed m) (d : VmDeviceDescriptor) (r : VmDeviceResources) :
    Managed (publishFixed d r m).2 := by
  unfold publishFixed
  split
  · exact h
  · next hdata =>
    split
    · exact h
    · next i hfree =>
      have hi := freeSlotIndex_spec hfree
      split
      · exact h
      · next hirqs =>
        split
        · exact h
        · next hbars =>
          simp only [not_not] at hirqs hbars
          have hline := irqsFree_spec hirqs
          refine h.install hi {
            bus := h.bus
            valid := ?_
            fits := nofun
            apart := nofun
            others := nofun
            maps := fun base size device => by simp
            irqUsed := foldl_used m.irqUsed r.irqs
            irqFree := fun line hmem => (hline line hmem).1
            irqExternal := fun line hmem => (hline line hmem).2 }
          intro b hb
          simp only [not_or, not_not] at hdata
          have hfst : (r.bars.zip d.bars).map Prod.fst = r.bars :=
            List.map_fst_zip (Nat.le_of_eq hdata.2.2.1)
          rw [← hfst] at hb
          obtain ⟨⟨b', q⟩, hmem, rfl⟩ := List.mem_map.mp hb
          have hfixed := List.all_eq_true.mp hbars (b', q) hmem
          simp only [barFixed, Bool.and_eq_true] at hfixed
          exact hfixed.2

theorem requests_valid {module : VmDeviceModule} (h : moduleValid module = true) :
    ∀ r ∈ module.descriptor.bars, r.valid = true := by
  simp only [moduleValid, descriptorValid, Bool.and_eq_true, List.all_eq_true] at h
  exact h.1.1.1.1.2.2

theorem AllocatedBars.valid {others bars : List Bar} {requests : List BarRequest}
    (h : AllocatedBars others requests bars) : ∀ b ∈ bars, b.Valid := by
  have hfits := h.fits
  clear h
  induction hfits with
  | nil => nofun
  | cons hone _ ih =>
    intro b hb
    rcases List.mem_cons.mp hb with rfl | hb
    · have hvalid := hone.2.valid
      rw [← hone.1] at hvalid
      exact hvalid
    · exact ih b hb

/-- `attach_module` keeps the invariant, and changes nothing if it fails. -/
theorem Managed.attach (h : Managed m) (module : VmDeviceModule) (created : Bool) :
    Managed (attachModule module created m).2 ∧
      ((attachModule module created m).1 = none → (attachModule module created m).2 = m) := by
  unfold attachModule
  split
  · exact ⟨h, fun _ => rfl⟩
  · next hmodule =>
    simp only [not_not] at hmodule
    split
    · exact ⟨h, fun _ => rfl⟩
    · next i hfree =>
      have hi := freeSlotIndex_spec hfree
      have hzero : Function.update m.slots i .zero = m.slots := by
        rw [← (h.slot i).absent hi, Function.update_eq_self]
      split
      · exact ⟨h, fun _ => rfl⟩
      · next bars hbars =>
        obtain ⟨bars', rfl, hall⟩ := allocateBars_spec (requests_valid hmodule)
          (by simpa using h.valid_presentBars) hbars
        rw [List.append_nil] at hall
        rcases hirq : allocateIrqs module.descriptor.irqCount [] m.irqUsed with
          ⟨allocated, irqs, irqUsed'⟩
        obtain ⟨lines, rfl, hlines⟩ := allocateIrqs_spec hirq
        have hrelease := releaseIrqs_allocated hlines
        dsimp only [List.nil_append]
        split
        · -- the lines are given back
          rw [hrelease]
          exact ⟨h, fun _ => rfl⟩
        · split
          · rw [hrelease, hzero]
            exact ⟨h, fun _ => rfl⟩
          · rcases hmap : mapBars i 0 bars m.bus with ⟨mapped, bus'⟩
            have hnodup := nodup_of_apart hall.valid hall.apart
            obtain ⟨hok, -, hrestore⟩ := mapBars_restore h.bus hnodup hmap
            rw [Nat.sub_zero] at hrestore
            dsimp only
            split
            · rw [hrestore, hrelease, hzero]
              exact ⟨h, fun _ => rfl⟩
            · next hmapped =>
              rw [not_not] at hmapped
              subst hmapped
              refine ⟨h.install hi {
                bus := hok
                valid := hall.valid
                fits := fun _ => hall.fits
                apart := fun _ => hall.apart
                others := fun _ j hj a ha b hb => hall.others a ha b (h.mem_presentBars hj hb)
                maps := fun base size device => ?_
                irqUsed := hlines.used
                irqFree := hlines.free
                irqExternal := hlines.external }, nofun⟩
              have hmap' : mapBars i 0 bars m.bus = (0 + bars.length, bus') := by
                rw [Nat.zero_add]
                exact hmap
              rw [mapBars_maps hmap']
              simp

/-! ## A slot loses its device -/

/-- Its BARs are unmapped and its lines are free again. -/
theorem Managed.clear (h : Managed m) (hi : (m.slots i).external = true) :
    Managed ({ m with bus := unmapBars m.bus (m.slots i).resources.bars }.clearSlot i) where
  bus := unmapBars_ok h.bus _
  slot := by
    refine (Function.forall_update_iff m.slots fun j s => s.Ok (unmapBars m.bus _) j).mpr
      ⟨DeviceManagerSlot.zero_ok _ i, fun j hji => ?_⟩
    refine { h.slot j with mapped := fun k b hj hk => ?_ }
    refine (maps_unmapBars h.bus).mpr ⟨(h.slot j).mapped k b hj hk, fun hmem => ?_⟩
    -- the BARs of the other slots are not touched
    have hb := List.mem_of_getElem? hk
    have hapart := (h.apart hji).bars hj hi b hb b hmem
    unfold Bar.Apart at hapart
    rw [rangesOverlap_self ((h.slot j).valid b hb)] at hapart
    cases hapart
  apart := pairwise_update h.apart .symm fun _ _ => DeviceManagerSlot.zero_apart _
  owned base size device slot bar hmaps hcontext := by
    refine (Function.exists_update_iff m.slots fun j s => (j : Nat) = slot ∧
      device = barDevice j bar ∧ s.external = true ∧
      s.resources.bars[bar]? = some ⟨base, size⟩).mpr (.inr ?_)
    obtain ⟨hold, hnotin⟩ := (maps_unmapBars h.bus).mp hmaps
    obtain ⟨j, hj⟩ := h.owned base size device slot bar hold hcontext
    refine ⟨j, ?_, hj⟩
    rintro rfl
    exact hnotin (List.mem_of_getElem? hj.2.2.2)
  irqUsed line := by
    refine Iff.trans ?_ (Function.exists_update_iff m.slots fun _ s =>
      line ∈ s.resources.irqs).symm
    have hfree : releaseIrqs m.irqUsed (m.slots i).resources.irqs line = true ↔
        (∃ j, line ∈ (m.slots j).resources.irqs) ∧
          ¬ (line ∈ (m.slots i).resources.irqs ∧ line < externalLineCount) := by
      rw [releaseIrqs_apply, Bool.and_eq_true, Bool.not_eq_true', decide_eq_false_iff_not,
        h.irqUsed line]
    refine hfree.trans ⟨?_, ?_⟩
    · rintro ⟨⟨j, hj⟩, hnotin⟩
      refine .inr ⟨j, ?_, hj⟩
      rintro rfl
      exact hnotin ⟨hj, (h.slot j).irqExternal line hj⟩
    · rintro (hnew | ⟨j, hji, hj⟩)
      · cases hnew
      · exact ⟨⟨j, hj⟩, fun hboth => (h.apart hji).irqs line hj hboth.1⟩
  count := by
    have hcount := presentSlots_clear (h.present_of_external hi)
    exact (congrArg (· - 1) h.count).trans hcount.symm

/-- `detach_module` keeps the invariant, and changes nothing if it fails. -/
theorem Managed.detach (h : Managed m) (slotIndex : Nat) :
    Managed (detachModule slotIndex m).2 ∧
      ((detachModule slotIndex m).1 = false → (detachModule slotIndex m).2 = m) := by
  unfold detachModule
  split
  · next hlt =>
    dsimp only
    split
    · exact ⟨h, fun _ => rfl⟩
    · next hslot =>
      simp only [not_or, not_not] at hslot
      have hexternal := hslot.2.1
      have hnodup := nodup_of_apart (h.slot ⟨slotIndex, hlt⟩).valid ((h.slot _).apart hexternal)
      -- every BAR is mapped, so no `bus_unmap_device` fails
      rw [detachBars_eq h.bus hnodup, Nat.zero_add]
      · rw [if_neg (by simp)]
        exact ⟨h.clear hexternal, nofun⟩
      · intro b hb
        obtain ⟨k, hk⟩ := List.mem_iff_getElem?.mp hb
        exact ⟨_, (h.slot _).mapped k b hexternal hk⟩
  · exact ⟨h, fun _ => rfl⟩

/-- The bus changes, but not the mappings of modules. -/
theorem Managed.rebus (h : Managed m) {bus' : Bus} (hok : BusOk bus')
    (hmaps : ∀ base size slot bar device, device.context = .bar slot bar →
      (bus'.Maps base size device ↔ m.bus.Maps base size device)) :
    Managed { m with bus := bus' } where
  bus := hok
  slot i := { h.slot i with
    mapped := fun k b hi hk => (hmaps _ _ i k _ rfl).mpr ((h.slot i).mapped k b hi hk) }
  apart := h.apart
  owned base size device slot bar hm hcontext :=
    h.owned base size device slot bar ((hmaps _ _ slot bar _ hcontext).mp hm) hcontext
  irqUsed := h.irqUsed
  count := h.count

theorem busMapRom_eq (h : busMapRom base size bus = some bus') :
    bus'.mappings = bus.mappings := by
  unfold busMapRom at h
  split at h
  · cases h
  · split at h
    · cases h
    · split at h
      · cases h
      · cases h
        rfl

theorem Managed.step {a : Action} (h : Managed m) (hstep : step m a = some m') :
    Managed m' := by
  cases a with
  | publishFixed d r =>
    cases hstep
    exact h.publish d r
  | attachModule module created =>
    cases hstep
    exact (h.attach module created).1
  | detachModule slotIndex =>
    cases hstep
    exact (h.detach slotIndex).1
  | mapMachine base size id =>
    cases hstep
    cases hmap : busMapDevice base size ⟨.machine id, true, true, true, true⟩ m.bus with
    | none => exact h
    | some bus' =>
      obtain ⟨i, rfl, hfree, -, -⟩ := busMapDevice_spec hmap
      refine h.rebus (h.bus.map hmap) fun base' size' slot bar device hcontext => ?_
      rw [Option.getD_some, maps_insert hfree]
      refine or_iff_left ?_
      rintro ⟨-, -, rfl⟩
      cases hcontext
  | mapRom base size =>
    cases hstep
    cases hmap : busMapRom base size m.bus with
    | none => exact h
    | some bus' =>
      have heq := busMapRom_eq hmap
      refine h.rebus ⟨?_, ?_⟩ fun base' size' slot bar device _ => ?_
      · rw [Option.getD_some, heq]
        exact h.bus.entry
      · rw [Option.getD_some, heq]
        exact h.bus.apart
      · rw [Option.getD_some, Bus.Maps, Bus.Maps, heq]

/-! ## Every run -/

/-- An address inside a BAR. -/
def Bar.Contains (b : Bar) (address : Nat) : Prop :=
  b.base.toNat ≤ address ∧ address < b.base.toNat + b.size.toNat

/-- `b` is BAR number `k` of a module in slot `i`. -/
def DeviceManager.ExternalBar (m : DeviceManager) (i : Fin maxSlots) (k : Nat) (b : Bar) : Prop :=
  (m.slots i).present = true ∧ (m.slots i).external = true ∧
    (m.slots i).resources.bars[k]? = some b

/-- A slot that is present owns an interrupt line. -/
def DeviceManager.OwnsIrq (m : DeviceManager) (i : Fin maxSlots) (line : Nat) : Prop :=
  (m.slots i).present = true ∧ line ∈ (m.slots i).resources.irqs

/-- The resources of the devices. -/
structure ResourcesOk (m : DeviceManager) : Prop where
  disjoint : ∀ i k a j l b, m.ExternalBar i k a → m.ExternalBar j l b → (i, k) ≠ (j, l) →
    ∀ address, ¬ (a.Contains address ∧ b.Contains address)
  requested : ∀ i k b, m.ExternalBar i k b → ∃ r, (m.slots i).descriptor.bars[k]? = some r ∧
    b.size = r.size ∧ r.alignment.toNat ∣ b.base.toNat ∧
    dynamicMmioBase.toNat ≤ b.base.toNat ∧
    b.base.toNat + (b.size.toNat - 1) ≤ dynamicMmioLimit.toNat
  mapped : ∀ base size slot bar, (∃ device, m.bus.Maps base size device ∧
      device.context = .bar slot bar) ↔
    ∃ i : Fin maxSlots, i = slot ∧ m.ExternalBar i bar ⟨base, size⟩
  irqUsed : ∀ line, m.irqUsed line = true ↔ ∃ i, m.OwnsIrq i line
  irqOnce : ∀ i j line, m.OwnsIrq i line → m.OwnsIrq j line → i = j
  count : m.presentCount = m.presentSlots

theorem Bar.Apart.disjoint {a b : Bar} (ha : a.Valid) (hb : b.Valid) (h : a.Apart b)
    (address : Nat) : ¬ (a.Contains address ∧ b.Contains address) := by
  have hsizes := (rangeValid_iff.mp ha).1
  have hsizes' := (rangeValid_iff.mp hb).1
  have hno : ¬ rangesOverlap a.base a.size b.base b.size = true := by
    unfold Bar.Apart at h
    simp [h]
  rw [rangesOverlap_iff ha hb] at hno
  unfold Bar.Contains
  omega

theorem Managed.resources (h : Managed m) : ResourcesOk m where
  disjoint i k a j l b ha hb hne := by
    have hmemA := List.mem_of_getElem? ha.2.2
    have hmemB := List.mem_of_getElem? hb.2.2
    apply Bar.Apart.disjoint ((h.slot i).valid a hmemA) ((h.slot j).valid b hmemB)
    by_cases hij : i = j
    · subst hij
      -- two BARs of one module
      have hkl : k ≠ l := fun heq => hne (by rw [heq])
      have hpair := (h.slot i).apart ha.2.1
      obtain ⟨hk, rfl⟩ := List.getElem?_eq_some_iff.mp ha.2.2
      obtain ⟨hl, rfl⟩ := List.getElem?_eq_some_iff.mp hb.2.2
      rcases Nat.lt_or_gt_of_ne hkl with hlt | hlt
      · exact List.pairwise_iff_getElem.mp hpair k l hk hl hlt
      · exact (List.pairwise_iff_getElem.mp hpair l k hl hk hlt).symm
    · exact (h.apart hij).bars ha.2.1 hb.2.1 a hmemA b hmemB
  requested i k b hb := by
    obtain ⟨hk, hget⟩ := List.getElem?_eq_some_iff.mp hb.2.2
    have hfits := (h.slot i).fits hb.2.1
    have hlen := hfits.length_eq
    have hk' : k < (m.slots i).descriptor.bars.length := by omega
    have hone := (List.forall₂_iff_get.mp hfits).2 k hk' hk
    simp only [List.get_eq_getElem, hget] at hone
    obtain ⟨hsize, haligned, hvalid, habove, hbelow⟩ := hone
    refine ⟨(m.slots i).descriptor.bars[k], List.getElem?_eq_getElem hk', hsize, haligned,
      UInt64.le_iff_toNat_le.mp habove, ?_⟩
    have hle := UInt64.le_iff_toNat_le.mp hbelow
    rw [toNat_last hvalid] at hle
    rw [hsize]
    exact hle
  mapped base size slot bar := by
    constructor
    · rintro ⟨device, hmaps, hcontext⟩
      obtain ⟨i, rfl, -, hi, hbar⟩ := h.owned base size device slot bar hmaps hcontext
      exact ⟨i, rfl, h.present_of_external hi, hi, hbar⟩
    · rintro ⟨i, rfl, -, hi, hbar⟩
      exact ⟨barDevice i bar, (h.slot i).mapped bar _ hi hbar, rfl⟩
  irqUsed line := by
    rw [h.irqUsed line]
    constructor
    · rintro ⟨i, hi⟩
      refine ⟨i, ?_, hi⟩
      by_contra hno
      rw [(h.slot i).absent (by simpa using hno)] at hi
      cases hi
    · rintro ⟨i, -, hi⟩
      exact ⟨i, hi⟩
  irqOnce i j line hi hj := not_not.mp fun hij => (h.apart hij).irqs line hi.2 hj.2
  count := h.count

/-- In every state that is reached from an empty manager, the resources are as they should be, a
    call that fails changes nothing, and the search for a BAR ends and fails only if there is no
    place for it. -/
theorem device_manager_resources (ramSize : UInt64) (m : DeviceManager)
    (hrun : Run step (fun _ _ => True) (deviceManagerInit (busInit ramSize)) m) :
    ResourcesOk m ∧
      (∀ module created, (attachModule module created m).1 = none →
        (attachModule module created m).2 = m) ∧
      (∀ slotIndex, (detachModule slotIndex m).1 = false → (detachModule slotIndex m).2 = m) ∧
      ∀ module, moduleValid module = true →
        (∀ before r after earlier, module.descriptor.bars = before ++ r :: after →
          allocateBars m.presentBars before [] = some earlier →
          searchBar (m.presentBars ++ earlier) r (searchFuel (m.presentBars ++ earlier))
            dynamicMmioBase ≠ .outOfFuel) ∧
        (allocateBars m.presentBars module.descriptor.bars [] = none →
          ∃ before r after earlier, module.descriptor.bars = before ++ r :: after ∧
            allocateBars m.presentBars before [] = some earlier ∧
            ∀ base, Fits r base → Conflicts (m.presentBars ++ earlier) r base) := by
  have h : Managed m := hrun.invariant (I := Managed) (deviceManagerInit_managed ramSize)
    fun _ _ _ hu _ hstep => hu.step hstep
  refine ⟨h.resources, fun module created => (h.attach module created).2,
    fun slotIndex => (h.detach slotIndex).2, fun module hmodule => ⟨?_, ?_⟩⟩
  · intro before r after earlier hbars hearlier
    have hvalid := requests_valid hmodule
    rw [hbars] at hvalid
    have hbefore : ∀ q ∈ before, q.valid = true := fun q hq => hvalid q (by simp [hq])
    obtain ⟨bars, rfl, hall⟩ := allocateBars_spec hbefore
      (by simpa using h.valid_presentBars) hearlier
    apply searchBar_ends (hvalid r (by simp))
    · intro b hb
      rcases List.mem_append.mp hb with hb | hb
      · exact h.valid_presentBars b hb
      · exact hall.valid b hb
    · exact UInt64.le_refl _
    · exact Nat.lt_succ_of_le (List.length_filter_le _ _)
  · exact allocateBars_none (requests_valid hmodule) (by simpa using h.valid_presentBars)

/-- A module is attached next to a fixed device that stands at the start of the window. -/
theorem device_manager_resources_attached : ∃ m : DeviceManager, m.presentCount = 2 ∧
    (m.slots ⟨1, by decide⟩).resources =
      ⟨sizeofResources, [⟨dynamicMmioBase + 0x2000, 0x100⟩], [2, 4]⟩ ∧
    ResourcesOk m := by
  obtain ⟨m, hrun, hm⟩ := Run.exists_of_runList step (deviceManagerInit (busInit 0x100000))
    [.publishFixed ⟨1, 168, [⟨0x1001, 0x1000⟩], 1⟩ ⟨96, [⟨dynamicMmioBase, 0x1001⟩], [3]⟩,
      .attachModule ⟨1, 224, ⟨1, 168, [⟨0x100, 0x1000⟩], 2⟩, true, true, true, false⟩ true]
    (fun m => m.presentCount == 2 && (m.slots ⟨1, by decide⟩).resources ==
      ⟨sizeofResources, [⟨dynamicMmioBase + 0x2000, 0x100⟩], [2, 4]⟩) (by decide +kernel)
  simp only [Bool.and_eq_true, beq_iff_eq] at hm
  exact ⟨m, hm.1, hm.2, (device_manager_resources _ m hrun).1⟩

end RiscMv.Device
