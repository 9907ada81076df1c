import Mathlib.Algebra.Ring.Nat
import Mathlib.Data.Fintype.Pi

/-!
# Processor state seen by the kernel

The part of a logical processor that the trap wrappers of `kernel.s` and the scheduler
depend on: the user-visible context, the trap frame that `enter_privileged_handler` and the
wrappers build below KSP, and the registers KSP, PTBR and `exception_active`.

Kernel stacks are separate allocations, so an address inside one is a stack and a distance
below its top; addresses in different stacks never overlap.
-/

namespace RiscMv.Kernel

/-- A `KernelThread *`. -/
abbrev ThreadRef := Nat

/-- A `KernelProcess *`. -/
abbrev ProcessRef := Nat

/-- A `KernelAddressSpace *`, standing for its page table root as well. -/
abbrev SpaceRef := Nat

/-- Logical processor number; the boot processor is 0. -/
abbrev CpuId := Nat

/-- The kernel stacks: one per thread and one permanent stack per processor. -/
inductive StackId where
  | thread (t : ThreadRef)
  | cpu (c : CpuId)
  deriving DecidableEq, Repr

/-- An address in a kernel stack, as the number of bytes below the stack's top. -/
structure StackAddr where
  stack : StackId
  below : Nat
  deriving DecidableEq, Repr

/-- The address `n` bytes lower. -/
def StackAddr.down (a : StackAddr) (n : Nat) : StackAddr := { a with below := a.below + n }

/-- The address `n` bytes higher. -/
def StackAddr.up (a : StackAddr) (n : Nat) : StackAddr := { a with below := a.below - n }

/-- `thread->kernel_stack_top`. -/
def kernelStackTop (t : ThreadRef) : StackAddr := ⟨.thread t, 0⟩

/-- The defined bits of the FLAGS register (`CPU_FLAG_MASK`). -/
structure Flags where
  zero : Bool
  negative : Bool
  carry : Bool
  overflow : Bool
  interruptEnable : Bool
  unordered : Bool
  deriving DecidableEq, Repr

/-- The condition flags Z, N, C and V. -/
def Flags.condition (f : Flags) : Bool × Bool × Bool × Bool :=
  (f.zero, f.negative, f.carry, f.overflow)

/-- A saved FLAGS word: the register bits and bits 62 (`USER_MODE`) and 63
    (`EXCEPTION_FRAME`). -/
structure SavedFlags extends Flags where
  userMode : Bool
  exceptionFrame : Bool
  deriving DecidableEq, Repr

instance neZero_fifteen : NeZero 15 := ⟨Nat.succ_ne_zero 14⟩

/-- What a user thread sees of the processor: R0 to R14, PC, SP and FLAGS. -/
structure UserContext where
  registers : Fin 15 → UInt64
  pc : UInt64
  stackPointer : UInt64
  flags : Flags
  deriving DecidableEq

/-- `context` with R0 replaced. -/
def UserContext.setR0 (ctx : UserContext) (v : UInt64) : UserContext :=
  { ctx with registers := Function.update ctx.registers 0 v }

/-- The 19 words of a trap frame taken from user mode: `TRAP_REGISTER(frame, reg)`
    (`frame[15 - reg]`), `TRAP_PC`, `TRAP_FLAGS` and `TRAP_USER_SP`. -/
structure TrapFrame where
  registers : Fin 15 → UInt64
  pc : UInt64
  flags : SavedFlags
  userSp : UInt64
  deriving DecidableEq

/-- The frame built on a trap from user mode: `enter_privileged_handler` stores PC, the
    saved flags of `make_saved_flags` and SP, and the wrapper pushes R0 to R14. -/
def TrapFrame.ofUser (ctx : UserContext) (exceptionFrame : Bool) : TrapFrame where
  registers := ctx.registers
  pc := ctx.pc
  flags := { ctx.flags with userMode := true, exceptionFrame }
  userSp := ctx.stackPointer

/-- The user context a frame returns to: `kernel_trap_restore` pops R0 to R14 and IRET
    takes PC, the masked FLAGS and SP. -/
def TrapFrame.toContext (f : TrapFrame) : UserContext where
  registers := f.registers
  pc := f.pc
  stackPointer := f.userSp
  flags := f.flags.toFlags

/-- `frame` with `TRAP_REGISTER(frame, 0)` replaced. -/
def TrapFrame.setR0 (f : TrapFrame) (v : UInt64) : TrapFrame :=
  { f with registers := Function.update f.registers 0 v }

@[simp] theorem TrapFrame.toContext_ofUser (ctx : UserContext) (e : Bool) :
    (TrapFrame.ofUser ctx e).toContext = ctx := rfl

@[simp] theorem TrapFrame.toContext_setR0 (f : TrapFrame) (v : UInt64) :
    (f.setR0 v).toContext = f.toContext.setR0 v := rfl

/-- Bytes the processor pushes on entry from user mode: PC, FLAGS and SP. -/
def cpuFrameBytes : Nat := 24

/-- Bytes the wrappers push: R0 to R14 and one padding word. -/
def wrapperBytes : Nat := 15 * 8 + 8

/-- The frame pointer a handler gets when the trap was taken with this KSP. -/
def trapFramePointer (ksp : StackAddr) : StackAddr := ksp.down (cpuFrameBytes + wrapperBytes)

/-- KSP after the IRET that ends a handler with this frame pointer: the wrapper releases
    its words, and a return to user mode sets KSP to SP + 24 (`execute_iret`). -/
def iretKsp (framePointer : StackAddr) : StackAddr :=
  (framePointer.up wrapperBytes).up cpuFrameBytes

/-- IRET undoes the entry: it puts KSP back to the value the trap started from, whatever
    the handler stored in KSP meanwhile. -/
@[simp] theorem iretKsp_trapFramePointer (ksp : StackAddr) :
    iretKsp (trapFramePointer ksp) = ksp := by
  simp [iretKsp, trapFramePointer, StackAddr.up, StackAddr.down, cpuFrameBytes, wrapperBytes]

/-- A kernel stack that IRET leaves, having popped a three-word frame pushed at its top:
    KSP ends at that top. -/
@[simp] theorem up_down_cpuFrameBytes (top : StackAddr) :
    (top.down cpuFrameBytes).up cpuFrameBytes = top := by
  simp [StackAddr.up, StackAddr.down]

end RiscMv.Kernel
