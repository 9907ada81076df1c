import RiscMv.Interrupt.Router
import RiscMv.Processor.Accesses

/-!
# Traps (`src/cpu.c`)

An interrupt, an exception or a system call saves the return address, the flags and, from user mode,
the stack pointer in a frame on the supervisor stack; `IRET` takes them from there.  The frame may
cross a page, and it may lie anywhere, even in the page tables: what comes back is then right
because the tables have not changed.

## Key results
- `enterPrivilegedHandler_spec`: what a trap saves and what it leaves alone
- `WritesWords.held`: a frame that nobody touches is read back as it was written
- `executeIret_spec`: what `IRET` restores from a frame
- `trap_iret_identity`: a trap followed by `IRET`
-/

namespace RiscMv.Processor

open RiscMv.Paging (Access MmuResult TableEntry pageSize isValid isLeaf)

/-! ## The frame -/

/-- `CPU_SAVED_FLAG_USER_MODE`. -/
def savedFlagUserMode : Word := 1 <<< 62

/-- `CPU_SAVED_FLAG_EXCEPTION_FRAME`. -/
def savedFlagExceptionFrame : Word := 1 <<< 63

/-- `make_saved_flags`. -/
def makeSavedFlags (c : Cpu) (exceptionFrame : Bool) : Word :=
  c.flags.bits &&& flagMask ||| (if c.mode = .user then savedFlagUserMode else 0) |||
    (if exceptionFrame then savedFlagExceptionFrame else 0)

/-- `stack_top` of `enter_privileged_handler`. -/
def stackTop (c : Cpu) : Word := if c.mode = .user then c.ksp else c.sp

/-- `frame_size` of `enter_privileged_handler`. -/
def frameSize (c : Cpu) : Nat := if c.mode = .user then 24 else 16

/-- `ram_contains` or the ROM: where `bus_fetch` finds a byte. -/
def busFetch (s : Machine) (address width : Nat) : Option Nat :=
  if width = 0 ∨ width > 8 then none
  else if ramRangeValid s address width then ramRead s address width
  else if s.rom.present ∧ s.rom.base ≤ address ∧ address - s.rom.base < s.rom.size ∧
      width ≤ s.rom.size - (address - s.rom.base) then
    some (loadLE s.rom.data (address - s.rom.base) width)
  else none

/-- `instruction_address_valid_for_mode`. -/
def instructionAddressValidForMode (address : Nat) (mode : Mode) (reportFault : Bool) :
    Attempt Machine Unit := fun s =>
  let fetch (physical : Nat) : Option Unit × Machine :=
    if (busFetch s physical 1).isNone then
      failAccess reportFault .instructionAccess address .execute (.ok 0) s
    else (some (), s)
  if !s.cpu.mmuEnabled then fetch address
  else match Paging.translate s.ram s.cpu.ptbr.toNat (mode = .user) address .execute with
    | .ok physical => fetch physical
    | result => failAccess reportFault .instructionPageFault address .execute result s

/-- `CPU_VECTOR_EXCEPTION_BASE`. -/
def vectorExceptionBase : Nat := Interrupt.lineCount

/-- `CPU_EXCEPTION_COUNT`. -/
def exceptionCount : Nat := 12

/-- `CPU_VECTOR_SYSCALL`. -/
def vectorSyscall : Nat := vectorExceptionBase + exceptionCount

/-- `CPU_VECTOR_ENTRY_COUNT`. -/
def vectorEntryCount : Nat := vectorSyscall + 1

/-- `read_vector`. -/
def readVector (vectorIndex : Nat) : Attempt Machine Word := fun s =>
  if !s.cpu.vbrEnabled ∨ vectorIndex ≥ vectorEntryCount then (none, s)
  else
    let offset := vectorIndex * 8
    if s.cpu.vbr.toNat > 2 ^ 64 - 1 - offset then (none, s)
    else match ramRead s (s.cpu.vbr.toNat + offset) 8 with
      | none => (none, s)
      | some handler =>
        if handler = 2 ^ 64 - 1 then (none, s)
        else (do
          instructionAddressValidForMode handler .supervisor false
          return BitVec.ofNat 64 handler : Attempt Machine Word) s

/-- The part of `enter_privileged_handler` that checks and writes the frame. -/
def writeFrame (fromUser : Bool) (frame : Nat) (returnAddress savedFlags previousSp : Word) :
    Attempt Machine Unit := do
  ramWriteAccessible frame 8 false
  ramWriteAccessible (frame + 8) 8 false
  if fromUser then ramWriteAccessible (frame + 16) 8 false
  memoryWrite frame 8 .write .stackFault false returnAddress
  memoryWrite (frame + 8) 8 .write .stackFault false savedFlags
  if fromUser then memoryWrite (frame + 16) 8 .write .stackFault false previousSp

/-- `enter_privileged_handler`. -/
def enterPrivilegedHandler (handler returnAddress : Word) (exceptionFrame : Bool) :
    Attempt Machine Unit := fun s =>
  let previousMode := s.cpu.mode
  let previousSp := s.cpu.sp
  let savedFlags := makeSavedFlags s.cpu exceptionFrame
  if (stackTop s.cpu).toNat < frameSize s.cpu then
    setAccessException .stackFault (stackTop s.cpu).toNat .write (.ok 0) s
  else
    let frame := (stackTop s.cpu).toNat - frameSize s.cpu
    match writeFrame (previousMode = .user) frame returnAddress savedFlags previousSp
        (s.setMode .supervisor) with
    | (none, s) =>
      setAccessException .stackFault frame .write (.ok 0)
        { s with cpu := { s.cpu.setSp previousSp with mode := previousMode } }
    | (some (), s) =>
      (some (), { s with
        cpu := { s.cpu.setSp (BitVec.ofNat 64 frame) with
          flags := Flags.ofWord (s.cpu.flags.bits &&& ~~~flagInterruptEnable)
          pc := handler
          waiting := false } })

/-! ## Entries -/

/-- The cause that `deliver_exception` goes by, and leaves in ECAUSE. -/
def exceptionCause (c : Cpu) : Word :=
  if 0 < c.ecause.toNat ∧ c.ecause.toNat < exceptionCount then c.ecause
  else Exception.illegalInstruction.code

/-- `deliver_exception`. -/
def deliverException : Attempt Machine Unit := fun s =>
  let ecause := exceptionCause s.cpu
  let s := { s with cpu := { s.cpu with ecause } }
  if s.cpu.exceptionActive then (none, s)
  else (do
    let handler ← readVector (vectorExceptionBase + ecause.toNat)
    enterPrivilegedHandler handler s.cpu.epc true
    modify fun s =>
      { s with cpu := { s.cpu with exceptionPending := false, exceptionActive := true } }
      : Attempt Machine Unit) s

/-- `execute_syscall`. -/
def executeSyscall : Attempt Machine Unit := fun s =>
  match readVector vectorSyscall s with
  | (none, s) => setException .illegalInstruction 0 0 s
  | (some handler, s) => enterPrivilegedHandler handler s.cpu.pc false s

/-- `cpu_check_interrupt` once `interrupt_controller_take_next` has returned a line. -/
def takeInterrupt (line : Nat) : Attempt Machine Unit := fun s =>
  match readVector line s with
  | (none, s) => (none, s)
  | (some handler, s) => enterPrivilegedHandler handler s.cpu.pc false s

/-- The ways into a handler. -/
inductive Entry where
  | interrupt (line : Nat)
  | exception
  | systemCall
  deriving DecidableEq, Repr

namespace Entry

def enter : Entry → Attempt Machine Unit
  | interrupt line => takeInterrupt line
  | exception => deliverException
  | systemCall => executeSyscall

/-- The address an entry saves: an exception returns to the instruction that raised it. -/
def returnAddress (entry : Entry) (c : Cpu) : Word :=
  if entry = exception then c.epc else c.pc

end Entry

/-- `return_mode` of `execute_iret`. -/
def returnMode (savedFlags : Word) : Mode :=
  if savedFlags &&& savedFlagUserMode ≠ 0 then .user else .supervisor

/-- The part of `execute_iret` that reads the stack pointer of user mode. -/
def readUserSp (sp : Nat) (savedFlags : Word) : Attempt Machine Word :=
  if returnMode savedFlags = .supervisor then pure 0
  else if sp > 2 ^ 64 - 1 - 24 then failure
  else memoryRead (sp + 16) 8 .read .stackFault true

/-- The registers that `execute_iret` sets from a frame. -/
def restored (c : Cpu) (returnAddress savedFlags savedUserSp : Word) : Cpu :=
  let switched :=
    if returnMode savedFlags = .user then { c.setSp savedUserSp with ksp := c.sp + 24 }
    else c.setSp (c.sp + 16)
  { switched with
    pc := returnAddress
    flags := Flags.ofWord savedFlags
    mode := returnMode savedFlags
    exceptionActive :=
      if savedFlags &&& savedFlagExceptionFrame ≠ 0 then false else c.exceptionActive }

/-- `execute_iret`. -/
def executeIret : Attempt Machine Unit := fun s =>
  let sp := s.cpu.sp.toNat
  if s.cpu.mode ≠ .supervisor then setException .privilegeViolation 0 0 s
  else if sp > 2 ^ 64 - 1 - 8 then (none, s)
  else (do
    let returnAddress ← memoryRead sp 8 .read .stackFault true
    let savedFlags ← memoryRead (sp + 8) 8 .read .stackFault true
    let savedUserSp ← readUserSp sp savedFlags
    if returnMode savedFlags = .supervisor ∧ sp > 2 ^ 64 - 1 - 16 then
      setAccessException .stackFault sp .read (.ok 0)
    else
      instructionAddressValidForMode returnAddress.toNat (returnMode savedFlags) true
      modify fun s => { s with cpu := restored s.cpu returnAddress savedFlags savedUserSp }
    : Attempt Machine Unit) s

/-! ## The saved flags -/

variable {s s₁ t t' u : Machine} {c : Cpu} {exceptionFrame : Bool}

private theorem and_or_or (a b d m : Word) :
    (a ||| b ||| d) &&& m = a &&& m ||| b &&& m ||| d &&& m := by
  rw [BitVec.and_comm, BitVec.and_or_distrib_left, BitVec.and_or_distrib_left,
    BitVec.and_comm m a, BitVec.and_comm m b, BitVec.and_comm m d]

/-- The bits of the frame that are none of the flags. -/
theorem makeSavedFlags_and {mask : Word} (h : flagMask &&& mask = 0) :
    makeSavedFlags c exceptionFrame &&& mask =
      0 ||| (if c.mode = .user then savedFlagUserMode else 0) &&& mask |||
        (if exceptionFrame then savedFlagExceptionFrame else 0) &&& mask := by
  rw [makeSavedFlags, and_or_or, BitVec.and_assoc, h, show c.flags.bits &&& 0 = 0 from
    BitVec.and_zero]

/-- The frame remembers the mode. -/
theorem makeSavedFlags_user :
    makeSavedFlags c exceptionFrame &&& savedFlagUserMode ≠ 0 ↔ c.mode = .user := by
  rw [makeSavedFlags_and (by decide)]
  by_cases hmode : c.mode = .user <;> cases exceptionFrame <;> simp only [hmode] <;> decide

/-- The frame remembers whether the entry was an exception. -/
theorem makeSavedFlags_exceptionFrame :
    makeSavedFlags c exceptionFrame &&& savedFlagExceptionFrame ≠ 0 ↔ exceptionFrame = true := by
  rw [makeSavedFlags_and (by decide)]
  by_cases hmode : c.mode = .user <;> cases exceptionFrame <;> simp only [hmode] <;> decide

/-- The frame remembers the flags. -/
theorem ofWord_makeSavedFlags : Flags.ofWord (makeSavedFlags c exceptionFrame) = c.flags := by
  apply Flags.ext
  have hmask : c.flags.bits &&& flagMask &&& flagMask = c.flags.bits := by
    rw [BitVec.and_assoc, BitVec.and_self, c.flags.masked]
  have hmode : (if c.mode = .user then savedFlagUserMode else 0) &&& flagMask = 0 := by
    split <;> decide
  have hframe : (if exceptionFrame then savedFlagExceptionFrame else 0) &&& flagMask = 0 := by
    split <;> decide
  show makeSavedFlags c exceptionFrame &&& flagMask = c.flags.bits
  rw [makeSavedFlags, and_or_or, hmask, hmode, hframe]
  simp

/-! ## Writing the frame -/

/-- Words that were written one after the other from `va` on. -/
inductive WritesWords : Machine → Nat → List Word → Machine → Prop
  | nil (s : Machine) (va : Nat) : WritesWords s va [] s
  | cons {s t u : Machine} {va : Nat} {w : Word} {ws : List Word}
      (write : memoryWrite va 8 .write .stackFault false w s = (some (), t))
      (rest : WritesWords t (va + 8) ws u) : WritesWords s va (w :: ws) u

/-- The processor reads the word `w` at `va`. -/
def Holds (t : Machine) (va : Nat) (w : Word) : Prop :=
  ∀ i < 8, ∃ p, t.physical .read (va + i) = some p ∧
    t.bytes p = UInt8.ofNat (w.toNat / 256 ^ i)

variable {report : Bool}

theorem Holds.read {va : Nat} {v w : Word} {exception : Exception} (h : Holds t va w)
    (hread : memoryRead va 8 .read exception report t = (some v, t')) : t' = t ∧ v = w := by
  obtain ⟨rfl, hphysical, hv⟩ := memoryRead_spec hread
  have hbytes : ∀ i < 8, (t'.bytes ∘ t'.place .read va) (0 + i) =
      UInt8.ofNat (w.toNat / 256 ^ i) := by
    intro i hi
    obtain ⟨p, hp, hbyte⟩ := h i hi
    rw [Nat.zero_add, Function.comp_apply, Machine.place, hp, Option.getD_some, hbyte]
  have hlt : w.toNat < 256 ^ 8 := w.isLt
  rw [loadLE_of_eq_bytes hbytes, Nat.mod_eq_of_lt hlt, BitVec.ofNat_toNat, BitVec.setWidth_eq] at hv
  exact ⟨rfl, hv⟩

namespace WritesWords

variable {va : Nat} {ws : List Word}

theorem frame (h : WritesWords s va ws u) :
    u.cpu = s.cpu ∧ u.ramSize = s.ramSize ∧ u.rom = s.rom := by
  induction h with
  | nil s va => exact ⟨rfl, rfl, rfl⟩
  | cons write rest ih =>
    obtain ⟨-, hw⟩ := memoryWrite_spec (by decide) write
    obtain ⟨hcpu, hsize, hrom⟩ := ih
    exact ⟨hcpu.trans hw.cpu, hsize.trans hw.ramSize, hrom.trans hw.rom⟩

/-- A byte with another offset in its page is not written. -/
theorem others (h : WritesWords s va ws u) {p : Nat}
    (hp : ∀ i < 8 * ws.length, p % pageSize ≠ (va + i) % pageSize) : u.bytes p = s.bytes p := by
  induction h with
  | nil s va => rfl
  | @cons s t u va w ws write rest ih =>
    rw [List.length_cons] at hp
    obtain ⟨hphysical, hw⟩ := memoryWrite_spec (by decide) write
    have hrest : u.bytes p = t.bytes p := by
      apply ih
      intro i hi
      rw [Nat.add_assoc]
      exact hp (8 + i) (by omega)
    rw [hrest]
    apply hw.others
    intro i _ hi heq
    apply hp i (by omega)
    rw [heq, Machine.mod_of_physical (hphysical i hi)]

/-- Bytes that are still as they were written have not changed a table, if the table has not changed
    in the end. -/
theorem sameTables_of_written {w : Word} (htables : SameTables s u)
    (hw : Written (s.place .write va) w 0 8 s t)
    (hkept : ∀ i < 8, u.bytes (s.place .write va i) = t.bytes (s.place .write va i)) :
    SameTables s t where
  ramSize := hw.ramSize
  mmuEnabled := by rw [hw.cpu]
  ptbr := by rw [hw.cpu]
  entries hmmu entry hentry := by
    have hword := htables.entries hmmu entry hentry
    apply loadLE_congr
    intro x hle hlt
    by_cases hx : ∃ i < 8, x = s.place .write va i
    · obtain ⟨i, hi, rfl⟩ := hx
      -- a byte of the table that was written: it is the same in the end, so it was the same before
      have hbyte := byte_loadLE u.bytes entry (n := 8) (i := s.place .write va i - entry) (by omega)
      have hbefore := byte_loadLE s.bytes entry (n := 8) (i := s.place .write va i - entry)
        (by omega)
      rw [Nat.add_sub_cancel' hle] at hbyte hbefore
      rw [← hkept i hi, ← hbyte, ← hbefore]
      exact congrArg (fun v => UInt8.ofNat (v / 256 ^ (s.place .write va i - entry))) hword
    · apply hw.others
      intro i _ hi heq
      exact hx ⟨i, hi, heq⟩

/-- Words in less than a page whose bytes nobody changes, under tables that nobody changes, are read
    back as they were written. -/
theorem held (h : WritesWords s va ws u) (hlen : 8 * ws.length ≤ pageSize)
    (htables : SameTables s t)
    (hmode : t.cpu.mode = s.cpu.mode)
    (hkept : ∀ i < 8 * ws.length, ∀ p, t.physical .read (va + i) = some p →
      t.bytes p = u.bytes p) :
    ∀ k (hk : k < ws.length), Holds t (va + 8 * k) ws[k] := by
  induction h with
  | nil s va => exact fun k hk => absurd hk (Nat.not_lt_zero k)
  | @cons s s' u va w ws write rest ih =>
    rw [List.length_cons] at hlen hkept
    obtain ⟨hphysical, hw⟩ := memoryWrite_spec (by decide) write
    have hread : ∀ i < 8, t.physical .read (va + i) = some (s.place .write va i) := by
      intro i hi
      rw [htables.physical_eq hmode]
      exact Machine.physical_read_of_write (hphysical i hi)
    -- the later words have other offsets in their pages
    have hfirst : ∀ i < 8, t.bytes (s.place .write va i) = s'.bytes (s.place .write va i) := by
      intro i hi
      rw [hkept i (by omega) _ (hread i hi)]
      apply rest.others
      intro j hj
      rw [Machine.mod_of_physical (hphysical i hi)]
      simp only [pageSize] at hlen ⊢
      omega
    have hnext : SameTables s' t := (sameTables_of_written htables hw hfirst).of_common htables
    intro k hk
    cases k with
    | zero =>
      intro i hi
      exact ⟨s.place .write va i, hread i hi, by
        rw [hfirst i hi]; exact hw.bytes i (Nat.zero_le i) hi⟩
    | succ k =>
      have hmode' : t.cpu.mode = s'.cpu.mode := by rw [hmode, hw.cpu]
      have hholds := ih (by omega) hnext hmode'
        (fun i hi p hp => hkept (8 + i) (by omega) p (by rwa [← Nat.add_assoc]))
        k (by simpa using hk)
      rw [show va + 8 * (k + 1) = va + 8 + 8 * k by omega]
      exact hholds

end WritesWords

/-! ## Entering a handler -/

/-- The words of a frame. -/
def frameWords (c : Cpu) (returnAddress : Word) (exceptionFrame : Bool) : List Word :=
  [returnAddress, makeSavedFlags c exceptionFrame] ++ if c.mode = .user then [c.sp] else []

variable {returnAddress handler : Word}

theorem frameWords_length :
    8 * (frameWords c returnAddress exceptionFrame).length = frameSize c := by
  rw [frameWords, frameSize]
  split <;> rfl

/-- The registers with which `enter_privileged_handler` goes to the handler: the stack pointer, the
    PC, the flags, the mode and the waiting flag are set, and nothing else. -/
def handlerCpu (c : Cpu) (handler sp : Word) : Cpu :=
  { c.setSp sp with
    pc := handler
    flags := Flags.ofWord (c.flags.bits &&& ~~~flagInterruptEnable)
    mode := .supervisor
    waiting := false }

/-- The registers that an entry goes to the handler with: only an exception touches those of
    exceptions. -/
def Entry.taken (entry : Entry) (c : Cpu) (handler sp : Word) : Cpu :=
  if entry = .exception then
    { handlerCpu c handler sp with
      ecause := exceptionCause c
      exceptionPending := false
      exceptionActive := true }
  else handlerCpu c handler sp

/-- What an entry does: it writes a frame below the top of the supervisor stack. -/
structure Entered (returnAddress : Word) (exceptionFrame : Bool) (s s₁ : Machine) : Prop where
  room : frameSize s.cpu ≤ (stackTop s.cpu).toNat
  sp : s₁.cpu.sp.toNat = (stackTop s.cpu).toNat - frameSize s.cpu
  written : ∃ b u, SameTables s b ∧ b.cpu.mode = .supervisor ∧
    WritesWords b s₁.cpu.sp.toNat (frameWords s.cpu returnAddress exceptionFrame) u ∧
    s₁.bytes = u.bytes

theorem SameTables.of_bytes (hsize : t.ramSize = s.ramSize)
    (hmmu : t.cpu.mmuEnabled = s.cpu.mmuEnabled) (hptbr : t.cpu.ptbr = s.cpu.ptbr)
    (hbytes : t.bytes = s.bytes) : SameTables s t where
  ramSize := hsize
  mmuEnabled := hmmu
  ptbr := hptbr
  entries _ entry _ := by rw [Machine.ram, Machine.ram, hbytes]

theorem writeFrame_eq_some {fromUser : Bool} {frame : Nat} {savedFlags sp : Word}
    (h : writeFrame fromUser frame returnAddress savedFlags sp s = (some (), u)) :
    WritesWords s frame ([returnAddress, savedFlags] ++ if fromUser then [sp] else []) u := by
  obtain ⟨_, s₁, hcheck, h₁⟩ := Attempt.bind_eq_some h
  obtain ⟨_, s₂, hcheck', h₂⟩ := Attempt.bind_eq_some h₁
  have hs₁ := ramWriteAccessible_eq_some hcheck
  have hs₂ := ramWriteAccessible_eq_some hcheck'
  subst hs₁ hs₂
  cases fromUser with
  | false =>
    obtain ⟨_, s₃, hfirst, h₃⟩ := Attempt.bind_eq_some h₂
    obtain ⟨_, s₄, hsecond, h₄⟩ := Attempt.bind_eq_some h₃
    cases h₄
    exact .cons hfirst (.cons hsecond (.nil _ _))
  | true =>
    obtain ⟨_, s₃, hcheck'', h₃⟩ := Attempt.bind_eq_some h₂
    have hs₃ := ramWriteAccessible_eq_some hcheck''
    subst hs₃
    obtain ⟨_, s₄, hfirst, h₄⟩ := Attempt.bind_eq_some h₃
    obtain ⟨_, s₅, hsecond, hthird⟩ := Attempt.bind_eq_some h₄
    exact .cons hfirst (.cons hsecond (.cons hthird (.nil _ _)))

theorem enterPrivilegedHandler_spec
    (h : enterPrivilegedHandler handler returnAddress exceptionFrame s = (some (), s₁)) :
    Entered returnAddress exceptionFrame s s₁ ∧
      s₁.cpu = handlerCpu s.cpu handler s₁.cpu.sp := by
  simp only [enterPrivilegedHandler] at h
  split at h
  · exact absurd h setException_ne_some
  next hroom =>
    split at h
    · exact absurd h setException_ne_some
    next u hwrite =>
      have hwords := writeFrame_eq_some hwrite
      obtain ⟨hcpu, hsize, hrom⟩ := hwords.frame
      have hlt : (stackTop s.cpu).toNat < 2 ^ 64 := (stackTop s.cpu).isLt
      have hsp : (BitVec.ofNat 64 ((stackTop s.cpu).toNat - frameSize s.cpu)).toNat =
          (stackTop s.cpu).toNat - frameSize s.cpu := by
        rw [BitVec.toNat_ofNat, Nat.mod_eq_of_lt (by omega)]
      cases h
      have hframe :
          (u.cpu.setSp (BitVec.ofNat 64 ((stackTop s.cpu).toNat - frameSize s.cpu))).sp.toNat =
            (stackTop s.cpu).toNat - frameSize s.cpu := by rw [Cpu.sp_setSp, hsp]
      refine ⟨⟨Nat.le_of_not_lt hroom, hframe, s.setMode .supervisor, u, ?_, rfl, ?_, rfl⟩, ?_⟩
      · exact SameTables.of_bytes rfl rfl rfl rfl
      · have hwords' : WritesWords (s.setMode .supervisor)
            ((stackTop s.cpu).toNat - frameSize s.cpu)
            (frameWords s.cpu returnAddress exceptionFrame) u := by
          simpa only [frameWords, decide_eq_true_eq] using hwords
        rw [← hframe] at hwords'
        exact hwords'
      · simp [hcpu, handlerCpu, Cpu.setSp, Cpu.sp, Machine.setMode]

theorem instructionAddressValidForMode_eq_some {address : Nat} {mode : Mode}
    (h : instructionAddressValidForMode address mode report s = (some (), t)) : t = s := by
  have hfetch : ∀ p, (if (busFetch s p 1).isNone then
      failAccess report .instructionAccess address .execute (.ok 0) s
      else (some (), s)) = (some (), t) → t = s := by
    intro p hp
    split at hp
    · exact absurd hp failAccess_ne_some
    · cases hp
      rfl
  simp only [instructionAddressValidForMode] at h
  split at h
  · exact hfetch _ h
  split at h
  · exact hfetch _ h
  · exact absurd h failAccess_ne_some

theorem readVector_eq_some {index : Nat} (h : readVector index s = (some handler, t)) : t = s := by
  simp only [readVector] at h
  split at h
  · cases h
  split at h
  · cases h
  split at h
  · cases h
  split at h
  · cases h
  · obtain ⟨_, s₁, hvalid, hpure⟩ := Attempt.bind_eq_some h
    cases hpure
    exact instructionAddressValidForMode_eq_some hvalid

variable {entry : Entry}

/-- Every entry writes its frame, and only an exception marks it. -/
theorem Entry.enter_spec (h : entry.enter s = (some (), s₁)) :
    Entered (entry.returnAddress s.cpu) (entry = .exception) s s₁ ∧
      ∃ handler, s₁.cpu = entry.taken s.cpu handler s₁.cpu.sp := by
  cases entry with
  | interrupt line =>
    simp only [Entry.enter, takeInterrupt] at h
    split at h
    · cases h
    · next handler s' hvector =>
      have hs' := readVector_eq_some hvector
      subst hs'
      obtain ⟨hentered, hcpu⟩ := enterPrivilegedHandler_spec h
      exact ⟨hentered, handler, hcpu⟩
  | systemCall =>
    simp only [Entry.enter, executeSyscall] at h
    split at h
    · exact absurd h setException_ne_some
    · next handler s' hvector =>
      have hs' := readVector_eq_some hvector
      subst hs'
      obtain ⟨hentered, hcpu⟩ := enterPrivilegedHandler_spec h
      exact ⟨hentered, handler, hcpu⟩
  | exception =>
    simp only [Entry.enter, deliverException] at h
    split at h
    · cases h
    · obtain ⟨handler, s', hvector, henter⟩ := Attempt.bind_eq_some h
      have hs' := readVector_eq_some hvector
      subst hs'
      obtain ⟨_, s'', hframe, hmodify⟩ := Attempt.bind_eq_some henter
      obtain ⟨⟨hroom, hsp, b, u, htables, hmode, hwords, hbytes⟩, hcpu⟩ :=
        enterPrivilegedHandler_spec hframe
      cases hmodify
      -- the cause register is not part of the frame
      refine ⟨⟨hroom, hsp, b, u, ?_, hmode, hwords, hbytes⟩, handler, ?_⟩
      · exact ⟨htables.ramSize, htables.mmuEnabled, htables.ptbr, htables.entries⟩
      · exact congrArg
          (fun c : Cpu => { c with exceptionPending := false, exceptionActive := true }) hcpu

/-! ## Returning -/

theorem executeIret_mode (h : executeIret t = (some (), t')) : t.cpu.mode = .supervisor := by
  simp only [executeIret] at h
  split at h
  · exact absurd h setException_ne_some
  · next hmode => exact Decidable.not_not.mp hmode

/-- `IRET` restores the words of the frame at the stack pointer. -/
theorem executeIret_spec {savedFlags savedSp : Word}
    (hreturn : Holds t t.cpu.sp.toNat returnAddress)
    (hflags : Holds t (t.cpu.sp.toNat + 8) savedFlags)
    (hsp : returnMode savedFlags = .user → Holds t (t.cpu.sp.toNat + 16) savedSp)
    (h : executeIret t = (some (), t')) :
    t' = { t with cpu := restored t.cpu returnAddress savedFlags savedSp } := by
  simp only [executeIret] at h
  split at h
  · exact absurd h setException_ne_some
  split at h
  · cases h
  obtain ⟨v, t₁, hread, h₁⟩ := Attempt.bind_eq_some h
  obtain ⟨rfl, rfl⟩ := hreturn.read hread
  obtain ⟨w, t₂, hread', h₂⟩ := Attempt.bind_eq_some h₁
  obtain ⟨rfl, rfl⟩ := hflags.read hread'
  obtain ⟨x, t₃, hread'', h₃⟩ := Attempt.bind_eq_some h₂
  -- the third word is read, and used, in user mode only
  have hthird : t₃ = t₂ ∧ restored t₂.cpu v w x = restored t₂.cpu v w savedSp := by
    rw [readUserSp] at hread''
    cases hmode : returnMode w with
    | supervisor =>
      rw [if_pos hmode] at hread''
      cases hread''
      exact ⟨rfl, by simp [restored, hmode]⟩
    | user =>
      rw [if_neg (by simp [hmode])] at hread''
      split at hread''
      · cases hread''
      obtain ⟨rfl, rfl⟩ := (hsp hmode).read hread''
      exact ⟨rfl, rfl⟩
  obtain ⟨rfl, hrestored⟩ := hthird
  split at h₃
  · exact absurd h₃ setException_ne_some
  obtain ⟨_, t₄, hvalid, hmodify⟩ := Attempt.bind_eq_some h₃
  have ht₄ := instructionAddressValidForMode_eq_some hvalid
  subst ht₄
  rw [← hrestored]
  cases hmodify
  rfl

/-- The handler executes `IRET` in the state `t`: with the stack pointer it was given, with the
    bytes of the frame as the entry left them, and with the page tables from before the entry. -/
structure Returns (s s₁ t : Machine) : Prop where
  sp : t.cpu.sp = s₁.cpu.sp
  tables : SameTables s t
  frame : ∀ i < frameSize s.cpu, ∀ p, t.physical .read (s₁.cpu.sp.toNat + i) = some p →
    t.bytes p = s₁.bytes p

/-- The registers after a trap and `IRET`, from those before the trap and those at the `IRET`. -/
def resumed (entry : Entry) (before atIret : Cpu) : Cpu :=
  { atIret.setSp before.sp with
    pc := entry.returnAddress before
    flags := before.flags
    mode := before.mode
    ksp := if before.mode = .user then before.ksp else atIret.ksp
    exceptionActive := if entry = .exception then false else atIret.exceptionActive }

theorem returnMode_makeSavedFlags : returnMode (makeSavedFlags c exceptionFrame) = c.mode := by
  rw [returnMode]
  split
  · next h => exact (makeSavedFlags_user.mp h).symm
  · next h =>
    cases hmode : c.mode with
    | user => exact absurd (makeSavedFlags_user.mpr hmode) h
    | supervisor => rfl

/-- Above the frame is the stack as it was. -/
theorem restored_makeSavedFlags {d : Cpu} (hroom : frameSize c ≤ (stackTop c).toNat)
    (hsp : d.sp.toNat = (stackTop c).toNat - frameSize c) :
    restored d (entry.returnAddress c) (makeSavedFlags c (entry = .exception)) c.sp =
      resumed entry c d := by
  have htop : d.sp + BitVec.ofNat 64 (frameSize c) = stackTop c := by
    apply BitVec.eq_of_toNat_eq
    have hlt := (stackTop c).isLt
    rw [BitVec.toNat_add, BitVec.toNat_ofNat, hsp]
    omega
  have hactive : (if makeSavedFlags c (entry = .exception) &&& savedFlagExceptionFrame ≠ 0 then
      false else d.exceptionActive) = if entry = .exception then false else d.exceptionActive := by
    simp only [makeSavedFlags_exceptionFrame, decide_eq_true_eq]
  rw [restored, resumed, ofWord_makeSavedFlags, returnMode_makeSavedFlags, hactive]
  cases hmode : c.mode with
  | user =>
    have hksp : d.sp + 24#64 = c.ksp := by simpa [frameSize, stackTop, hmode] using htop
    simp [hksp]
  | supervisor =>
    have hold : d.sp + 16#64 = c.sp := by simpa [frameSize, stackTop, hmode] using htop
    simp [hold, Cpu.setSp]

/-- The registers after a trap and `IRET` if the handler leaves them alone: those from before the
    trap, with the return address in the PC. -/
def returned (entry : Entry) (c : Cpu) : Cpu :=
  if entry = .exception then
    { c with
      pc := c.epc
      waiting := false
      ecause := exceptionCause c
      exceptionPending := false
      exceptionActive := false }
  else { c with waiting := false }

theorem resumed_taken {sp : Word} :
    resumed entry c (entry.taken c handler sp) = returned entry c := by
  have hregisters : Function.update (Function.update c.registers registerSp sp) registerSp c.sp =
      c.registers := by
    rw [Function.update_idem]
    exact Function.update_eq_self registerSp c.registers
  by_cases hentry : entry = .exception <;>
    simp [resumed, returned, Entry.taken, handlerCpu, Cpu.setSp, Entry.returnAddress, hentry,
      hregisters]

/-- A trap followed by `IRET` is the identity: the return address, the stack pointer, the flags, the
    mode and, from user mode, the supervisor stack pointer are those from before the trap, every
    other register is as the handler left it, and the handler got it as it was before the trap.  If
    the handler changes no register, the registers are those from before the trap. -/
theorem trap_iret_identity {entry : Entry} {s s₁ t t' : Machine}
    (henter : entry.enter s = (some (), s₁)) (hreturns : Returns s s₁ t)
    (hiret : executeIret t = (some (), t')) :
    t' = { t with cpu := resumed entry s.cpu t.cpu } ∧
      (∃ handler, s₁.cpu = entry.taken s.cpu handler s₁.cpu.sp) ∧
      (t.cpu = s₁.cpu → t'.cpu = returned entry s.cpu) := by
  obtain ⟨⟨hroom, hsp, b, u, htables, hmode, hwords, hbytes⟩, handler, htaken⟩ :=
    Entry.enter_spec henter
  suffices hresumed : t' = { t with cpu := resumed entry s.cpu t.cpu } by
    refine ⟨hresumed, ⟨handler, htaken⟩, fun hcpu => ?_⟩
    rw [hresumed, hcpu, htaken]
    exact resumed_taken
  have hlen := @frameWords_length s.cpu (entry = .exception) (entry.returnAddress s.cpu)
  have hholds := hwords.held (t := t) (by rw [hlen, frameSize]; split <;> decide)
    (htables.of_common hreturns.tables) (by rw [executeIret_mode hiret, hmode])
    (fun i hi p hp => by rw [← hbytes]; exact hreturns.frame i (by rwa [← hlen]) p hp)
  rw [← restored_makeSavedFlags hroom (hreturns.sp ▸ hsp)]
  rw [← hreturns.sp] at hholds
  apply executeIret_spec
  · exact hholds 0 (by simp [frameWords])
  · exact hholds 1 (by simp [frameWords])
  · intro huser
    rw [returnMode_makeSavedFlags] at huser
    have hthird := hholds 2 (by simp [frameWords, huser])
    simpa [frameWords, huser] using hthird
  · exact hiret

/-- User mode at a system call: the first GiB is mapped onto itself, and the frame crosses a
    page. -/
def callingUser : Machine where
  cpu :=
    { registers := fun r => if r = registerSp then 0x9000 else 7
      vectorRegisters := fun _ => 0
      pc := 0x8001
      flags := Flags.ofWord 0x13
      fpStatus := 0
      vbr := 0x3000
      ptbr := 0x1000
      ksp := 0x600C
      epc := 0
      ecause := 0
      badaddr := 0
      einfo := 0
      instructionPc := 0x8000
      mode := .user
      waiting := false
      vbrEnabled := true
      mmuEnabled := true
      exceptionPending := false
      exceptionActive := false }
  ramSize := 2 ^ 30
  bytes := storeLE (storeLE (fun _ => 0) 0x1000 8 31) (0x3000 + vectorSyscall * 8) 8 0x4000
  rom := ⟨0, 0, fun _ => 0, false⟩

/-- The table of `callingUser` has one leaf and refers to no other table. -/
theorem callingUser_entry {entry : Nat} (h : TableEntry callingUser.ram 0x1000 entry) :
    ∃ i : Fin 512, entry = 0x1000 + i * 8 := by
  obtain ⟨va, hva⟩ := h
  have hends : ∀ i : Fin 512, (isValid (callingUser.ram.word (0x1000 + i * 8)) &&
      !isLeaf (callingUser.ram.word (0x1000 + i * 8))) = false := by
    decide +kernel
  have hlt : Paging.tableIndex va 30 < 512 := Nat.mod_lt _ (by decide)
  have hend := hends ⟨Paging.tableIndex va 30, hlt⟩
  rw [Paging.entriesRead, if_neg] at hva
  · exact ⟨⟨Paging.tableIndex va 30, hlt⟩, List.mem_singleton.mp hva⟩
  · simp only [Bool.and_eq_false_iff] at hend
    simp only [Bool.and_eq_true]
    rintro ⟨⟨⟨⟨hv, -⟩, hl⟩, -⟩, -⟩
    obtain h | h := hend
    · exact Bool.noConfusion (hv.symm.trans h)
    · exact Bool.noConfusion (hl.symm.trans h)

theorem trap_iret_identity_call :
    ∃ s₁ t', Entry.systemCall.enter callingUser = (some (), s₁) ∧ Returns callingUser s₁ s₁ ∧
      executeIret s₁ = (some (), t') ∧ s₁.cpu.sp = 0x5FF4 ∧
      t' = { s₁ with cpu := resumed .systemCall callingUser.cpu s₁.cpu } ∧
      t'.cpu = returned .systemCall callingUser.cpu := by
  have henter : (Entry.systemCall.enter callingUser).1 = some () := by decide +kernel
  have hiret : (executeIret (Entry.systemCall.enter callingUser).2).1 = some () := by decide +kernel
  have hwords : ∀ i : Fin 512,
      (Entry.systemCall.enter callingUser).2.ram.word (0x1000 + i * 8) =
        callingUser.ram.word (0x1000 + i * 8) := by
    decide +kernel
  have hsp : (Entry.systemCall.enter callingUser).2.cpu.sp = 0x5FF4 := by decide +kernel
  have hreturns : Returns callingUser (Entry.systemCall.enter callingUser).2
      (Entry.systemCall.enter callingUser).2 := by
    refine ⟨rfl, ⟨by decide +kernel, by decide +kernel, by decide +kernel, ?_⟩, fun _ _ _ _ => rfl⟩
    intro _ entry hentry
    obtain ⟨i, rfl⟩ := callingUser_entry hentry
    exact hwords i
  have henter' : Entry.systemCall.enter callingUser =
      (some (), (Entry.systemCall.enter callingUser).2) := Prod.ext henter rfl
  have hiret' : executeIret (Entry.systemCall.enter callingUser).2 =
      (some (), (executeIret (Entry.systemCall.enter callingUser).2).2) := Prod.ext hiret rfl
  obtain ⟨hresumed, -, hsame⟩ := trap_iret_identity henter' hreturns hiret'
  exact ⟨_, _, henter', hreturns, hiret', hsp, hresumed, hsame rfl⟩

end RiscMv.Processor
