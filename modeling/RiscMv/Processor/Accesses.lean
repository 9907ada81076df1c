import RiscMv.Processor.Translation

/-!
# What the accesses of the processor do

A word is read and written byte by byte through the translation, whether it lies in one page or in
two.

## Key results
- `memoryRead_spec`: the word that is read
- `memoryWrite_spec`: the bytes that are written, and that no other byte changes
-/

namespace RiscMv.Processor

open RiscMv.Paging (Access MmuResult pageSize)

variable {s t : Machine} {access : Access} {exception : Exception} {report : Bool}
  {va width turns remaining cursor off : Nat} {segments : List MemorySegment} {f : Nat → Nat}
  {value result : Word}

theorem setException_ne_some {α : Type} {a : α} {badaddr einfo : Word} :
    setException exception badaddr einfo s ≠ (some a, t) := by
  intro h
  unfold setException at h
  split at h <;> cases h

/-- A reported failure is a failure. -/
theorem failAccess_ne_some {α : Type} {a : α} {address : Nat} {r : MmuResult} :
    failAccess report exception address access r s ≠ (some a, t) := by
  rw [failAccess]
  split
  · exact setException_ne_some
  · intro h
    cases h

theorem translateAddress_eq_some {p : Nat} (h : translateAddress va access report s = (some p, t)) :
    t = s ∧ s.physical access va = some p := by
  simp only [translateAddress] at h
  split at h
  · next hoff =>
    cases h
    exact ⟨rfl, Machine.physical_off (by simpa using hoff)⟩
  · next hon =>
    split at h
    · next q hq =>
      cases h
      exact ⟨rfl, (Machine.physical_on (by simpa using hon)).mpr hq⟩
    · exact absurd h failAccess_ne_some

/-! ## Segments -/

/-- The segments hold the bytes from `off` to `width` of a range, byte `i` at the place `f i`. -/
def Placed (f : Nat → Nat) (width : Nat) : Nat → List MemorySegment → Prop
  | off, [] => off = width
  | off, segment :: rest => segment.byteOffset = off ∧ off + segment.width ≤ width ∧
    (∀ i < segment.width, f (off + i) = segment.physicalAddress + i) ∧
    Placed f width (off + segment.width) rest

/-- The place of byte `i` from `va` on. -/
def Machine.place (s : Machine) (access : Access) (va i : Nat) : Nat :=
  (s.physical access (va + i)).getD 0

theorem segmentLoop_spec
    (h : segmentLoop access report turns remaining (va + off) off s = (some segments, t)) :
    t = s ∧
      (∀ i, off ≤ i → i < off + remaining →
        s.physical access (va + i) = some (s.place access va i)) ∧
      Placed (s.place access va) (off + remaining) off segments := by
  induction turns generalizing remaining off segments with
  | zero =>
    cases remaining with
    | zero =>
      simp only [segmentLoop, Attempt.pure_apply, Prod.mk.injEq, Option.some.injEq] at h
      obtain ⟨rfl, rfl⟩ := h
      exact ⟨rfl, fun i hle hlt => by omega, rfl⟩
    | succ remaining => simp [segmentLoop] at h
  | succ turns ih =>
    cases remaining with
    | zero =>
      simp only [segmentLoop, Attempt.pure_apply, Prod.mk.injEq, Option.some.injEq] at h
      obtain ⟨rfl, rfl⟩ := h
      exact ⟨rfl, fun i hle hlt => by omega, rfl⟩
    | succ remaining =>
      rw [segmentLoop] at h
      generalize hchunk : min (remaining + 1) (pageSize - (va + off) % pageSize) = chunk at h
      obtain ⟨p, s₁, htranslate, hloop⟩ := Attempt.bind_eq_some h
      obtain ⟨rfl, hp⟩ := translateAddress_eq_some htranslate
      obtain ⟨rest, s₂, hrest, hpure⟩ := Attempt.bind_eq_some hloop
      rw [Nat.add_assoc] at hrest
      cases hpure
      obtain ⟨rfl, hphysical, hplaced⟩ := ih hrest
      -- the bytes of this segment lie in the page of the cursor
      have hfirst : ∀ i < chunk, t.physical access (va + (off + i)) = some (p + i) := by
        intro i hi
        rw [← Nat.add_assoc]
        exact Machine.physical_add (by omega) hp
      have hend : off + chunk + (remaining + 1 - chunk) = off + (remaining + 1) := by omega
      rw [hend] at hphysical hplaced
      refine ⟨rfl, ?_, rfl, by dsimp only; omega, ?_, hplaced⟩
      · intro i hle hlt
        by_cases hi : i < off + chunk
        · have hbyte := hfirst (i - off) (by omega)
          rw [Nat.add_sub_cancel' hle] at hbyte
          rw [Machine.place, hbyte, Option.getD_some]
        · exact hphysical i (by omega) hlt
      · intro i hi
        rw [Machine.place, hfirst i hi, Option.getD_some]

theorem buildMemorySegments_spec
    (h : buildMemorySegments va width access exception report s = (some segments, t)) :
    t = s ∧ 0 < width ∧ va + width ≤ 2 ^ 64 ∧
      (∀ i < width, s.physical access (va + i) = some (s.place access va i)) ∧
      Placed (s.place access va) width 0 segments := by
  simp only [buildMemorySegments] at h
  split at h
  · split at h <;> exact absurd h failAccess_ne_some
  next hrange =>
    have hfits : 0 < width ∧ va + width ≤ 2 ^ 64 := by
      simp only [vectorRegisterSize] at hrange
      omega
    split at h
    · next hoff =>
      cases h
      have hplace : ∀ i, s.physical access (va + i) = some (va + i) :=
        fun i => Machine.physical_off (by simpa using hoff)
      refine ⟨rfl, hfits.1, hfits.2, ?_, rfl, by dsimp only; omega, ?_,
        by dsimp only [Placed]; omega⟩
      · intro i _
        rw [Machine.place, hplace, Option.getD_some]
      · intro i _
        rw [Machine.place, hplace, Option.getD_some, Nat.zero_add]
    · have hloop : segmentLoop access report 2 width (va + 0) 0 s = (some segments, t) := h
      obtain ⟨rfl, hphysical, hplaced⟩ := segmentLoop_spec hloop
      rw [Nat.zero_add] at hphysical hplaced
      exact ⟨rfl, hfits.1, hfits.2, fun i hi => hphysical i (Nat.zero_le i) hi, hplaced⟩

theorem checkSegments_eq_some
    (h : checkSegments access exception report segments s = (some (), t)) : t = s := by
  induction segments with
  | nil =>
    cases h
    rfl
  | cons segment rest ih =>
    simp only [checkSegments] at h
    split at h
    · exact absurd h failAccess_ne_some
    · exact ih h

/-! ## Reading -/

theorem ramRead_eq_some {address v : Nat} (h : ramRead s address width = some v) :
    v = loadLE s.bytes address width := by
  rw [ramRead] at h
  split at h
  · cases h
  · exact (Option.some.inj h).symm

/-- The bytes of one more segment, above those that were read. -/
theorem or_shiftLeft (m : ByteMemory) (off n : Nat) :
    BitVec.ofNat 64 (loadLE m 0 off) ||| BitVec.ofNat 64 (loadLE m off n) <<< (off * 8) =
      BitVec.ofNat 64 (loadLE m 0 (off + n)) := by
  have hpow : 256 ^ off = 2 ^ (off * 8) := by
    rw [Nat.mul_comm, Nat.pow_mul]
  have hlow : loadLE m 0 off < 2 ^ (off * 8) := hpow ▸ loadLE_lt m 0 off
  have hsum : loadLE m 0 (off + n) = loadLE m off n <<< (off * 8) ||| loadLE m 0 off := by
    rw [loadLE_add, Nat.zero_add, hpow, Nat.add_comm, Nat.shiftLeft_eq,
      Nat.mul_comm (loadLE m off n), Nat.two_pow_add_eq_or_of_lt hlow]
  have hshift : BitVec.ofNat 64 (loadLE m off n) <<< (off * 8) =
      BitVec.ofNat 64 (loadLE m off n <<< (off * 8)) := by
    apply BitVec.eq_of_toNat_eq
    simp [Nat.shiftLeft_eq]
  rw [hshift, hsum, BitVec.or_comm]
  apply BitVec.eq_of_toNat_eq
  simp

theorem readSegments_spec (hplaced : Placed f width off segments)
    (h : readSegments access exception report segments
      (BitVec.ofNat 64 (loadLE (s.bytes ∘ f) 0 off)) s = (some value, t)) :
    t = s ∧ value = BitVec.ofNat 64 (loadLE (s.bytes ∘ f) 0 width) := by
  induction segments generalizing off with
  | nil =>
    cases hplaced
    cases h
    exact ⟨rfl, rfl⟩
  | cons segment rest ih =>
    obtain ⟨hoff, -, hbytes, hrest⟩ := hplaced
    simp only [readSegments] at h
    split at h
    · exact absurd h failAccess_ne_some
    · next part hpart =>
      have hload : part = loadLE (s.bytes ∘ f) off segment.width := by
        rw [ramRead_eq_some hpart]
        apply loadLE_of_bytes
        intro i hi
        rw [Function.comp_apply, hbytes i hi]
      rw [hload, hoff, or_shiftLeft] at h
      exact ih hrest h

/-- `memory_read` returns the number in the bytes of the range. -/
theorem memoryRead_spec (h : memoryRead va width access exception report s = (some value, t)) :
    t = s ∧ (∀ i < width, s.physical access (va + i) = some (s.place access va i)) ∧
      value = BitVec.ofNat 64 (loadLE (s.bytes ∘ s.place access va) 0 width) := by
  obtain ⟨segments, s₁, hbuild, hread⟩ := Attempt.bind_eq_some h
  obtain ⟨rfl, -, -, hphysical, hplaced⟩ := buildMemorySegments_spec hbuild
  obtain ⟨rfl, hvalue⟩ := readSegments_spec hplaced hread
  exact ⟨rfl, hphysical, hvalue⟩

/-! ## Writing -/

theorem ramWrite_eq_some {address v : Nat} (h : ramWrite s address width v = some t) :
    t = { s with bytes := storeLE s.bytes address width v } := by
  rw [ramWrite] at h
  split at h
  · cases h
  · exact (Option.some.inj h).symm

/-- What a write leaves: byte `i` of `value` at `f i`, and every other byte as it was. -/
structure Written (f : Nat → Nat) (value : Word) (off width : Nat) (s t : Machine) : Prop where
  cpu : t.cpu = s.cpu
  ramSize : t.ramSize = s.ramSize
  rom : t.rom = s.rom
  bytes : ∀ i, off ≤ i → i < width → t.bytes (f i) = UInt8.ofNat (value.toNat / 256 ^ i)
  others : ∀ p, (∀ i, off ≤ i → i < width → p ≠ f i) → t.bytes p = s.bytes p

theorem writeSegments_spec (hplaced : Placed f width off segments)
    (hinj : ∀ i < width, ∀ j < width, f i = f j → i = j)
    (h : writeSegments access exception report value segments s = (some (), t)) :
    Written f value off width s t := by
  induction segments generalizing off s with
  | nil =>
    cases hplaced
    cases h
    exact ⟨rfl, rfl, rfl, fun i hle hlt => absurd hlt (Nat.not_lt.mpr hle), fun _ _ => rfl⟩
  | cons segment rest ih =>
    obtain ⟨hoff, hwidth, hbytes, hrest⟩ := hplaced
    simp only [writeSegments] at h
    split at h
    · exact absurd h failAccess_ne_some
    · next s₁ hwrite =>
      have hs₁ := ramWrite_eq_some hwrite
      have hw := ih hrest h
      have hmem : s₁.bytes = storeLE s.bytes segment.physicalAddress segment.width
          (value >>> (segment.byteOffset * 8)).toNat := by rw [hs₁]
      refine ⟨hw.cpu.trans (by rw [hs₁]), hw.ramSize.trans (by rw [hs₁]),
        hw.rom.trans (by rw [hs₁]), ?_, ?_⟩
      · intro i hle hlt
        by_cases hi : i < off + segment.width
        · -- a byte of this segment: the later ones do not touch it
          have hfi := hbytes (i - off) (by omega)
          rw [Nat.add_sub_cancel' hle] at hfi
          have hkeep : t.bytes (f i) = s₁.bytes (f i) := by
            apply hw.others
            intro j hj hjw heq
            have hij := hinj i hlt j hjw heq
            omega
          have hpow : 2 ^ (off * 8) * 256 ^ (i - off) = 256 ^ i := by
            rw [Nat.mul_comm off, Nat.pow_mul, ← Nat.pow_add, Nat.add_sub_cancel' hle]
          rw [hkeep, hmem, hfi, storeLE, if_pos (by omega), Nat.add_sub_cancel_left, hoff,
            BitVec.toNat_ushiftRight, Nat.shiftRight_eq_div_pow, Nat.div_div_eq_div_mul, hpow]
        · exact hw.bytes i (by omega) hlt
      · intro p hp
        rw [hw.others p fun i hle hlt => hp i (by omega) hlt, hmem]
        apply storeLE_of_not
        rintro ⟨hle, hlt⟩
        have hfi := hbytes (p - segment.physicalAddress) (by omega)
        exact hp (off + (p - segment.physicalAddress)) (by omega) (by omega) (by omega)

/-- The bytes of a range within a page length have places of their own. -/
theorem place_injective (hwidth : width ≤ pageSize)
    (hphysical : ∀ i < width, s.physical access (va + i) = some (s.place access va i)) :
    ∀ i < width, ∀ j < width, s.place access va i = s.place access va j → i = j := by
  intro i hi j hj heq
  have hmodi := Machine.mod_of_physical (hphysical i hi)
  have hmodj := Machine.mod_of_physical (hphysical j hj)
  rw [heq] at hmodi
  simp only [pageSize] at *
  omega

/-- `memory_write` writes the bytes of the range and nothing else. -/
theorem memoryWrite_spec (hwidth : width ≤ pageSize)
    (h : memoryWrite va width access exception report value s = (some (), t)) :
    (∀ i < width, s.physical access (va + i) = some (s.place access va i)) ∧
      Written (s.place access va) value 0 width s t := by
  obtain ⟨segments, s₁, hbuild, hloops⟩ := Attempt.bind_eq_some h
  obtain ⟨rfl, -, -, hphysical, hplaced⟩ := buildMemorySegments_spec hbuild
  obtain ⟨_, s₂, hcheck, hwrite⟩ := Attempt.bind_eq_some hloops
  have hs₂ := checkSegments_eq_some hcheck
  subst hs₂
  exact ⟨hphysical, writeSegments_spec hplaced (place_injective hwidth hphysical) hwrite⟩

theorem ramWriteAccessible_eq_some (h : ramWriteAccessible va width report s = (some (), t)) :
    t = s := by
  obtain ⟨segments, s₁, hbuild, hcheck⟩ := Attempt.bind_eq_some h
  obtain ⟨rfl, -⟩ := buildMemorySegments_spec hbuild
  exact checkSegments_eq_some hcheck

end RiscMv.Processor
