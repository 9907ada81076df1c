import RiscMv.Kernel.System

/-!
# Waiting for an interrupt (`kernel.s`, `scheduler.c`, `cpu.c`)

`kernel_idle_wait` is EI, WAIT, DI, RET.  In `System` a processor that waits is at one point of the
kernel; here it executes the instructions one by one, and an interrupt can be taken after each of
them.  The handler first waits for the big kernel lock, so other processors go on between the
interrupt and its section.

Every other transition is one of `System`.
-/

namespace RiscMv.Kernel

/-- The labels of `kernel_idle_wait`, as values of PC. -/
inductive IdlePc where
  /-- `kernel_idle_wait`, at EI. -/
  | enter
  /-- `kernel_idle_wait_instruction`, at WAIT. -/
  | instruction
  /-- `kernel_idle_wait_resume`, at DI. -/
  | resume
  /-- At RET. -/
  | ret
  deriving DecidableEq, Repr

/-- The handler of an interrupt that was taken in `kernel_idle_wait`, with PC in its frame. -/
inductive IdleHandler where
  | none
  /-- About to take the big kernel lock. -/
  | entered (i : IdleInterrupt) (pc : IdlePc)
  /-- Lock released, about to return. -/
  | left (pc : IdlePc)

/-- A processor in `kernel_idle_wait`. -/
structure IdleCpu where
  pc : IdlePc
  interruptEnable : Bool
  waiting : Bool
  handler : IdleHandler

/-- `kernel_scheduler_interrupt_return`, on PC of the frame. -/
def schedulerInterruptReturn (pc : IdlePc) : IdlePc :=
  if pc = .instruction then .resume else pc

namespace IdleCpu

/-- `kernel_idle_wait` is called, with interrupts off. -/
def call : IdleCpu := ⟨.enter, false, false, .none⟩

/-- `cpu_step` for EI, WAIT and DI; a processor that waits executes nothing. -/
def execute (p : IdleCpu) : Option IdleCpu :=
  match p.handler, p.waiting, p.pc with
  | .none, false, .enter => some { p with pc := .instruction, interruptEnable := true }
  | .none, false, .instruction => some { p with pc := .resume, waiting := true }
  | .none, false, .resume => some { p with pc := .ret, interruptEnable := false }
  | _, _, _ => none

/-- `cpu_check_interrupt` and `enter_privileged_handler`. -/
def interrupt (i : IdleInterrupt) (p : IdleCpu) : Option IdleCpu :=
  match p.handler, p.interruptEnable with
  | .none, true =>
    some { p with interruptEnable := false, waiting := false, handler := .entered i p.pc }
  | _, _ => none

/-- IRET of a handler, to a frame with interrupts enabled. -/
def iret (p : IdleCpu) : Option IdleCpu :=
  match p.handler with
  | .left pc => some ⟨pc, true, false, .none⟩
  | _ => none

/-- Whether `kernel_idle_wait` is about to return. -/
def returns (p : IdleCpu) : Bool :=
  match p.handler with
  | .none => !p.waiting && p.pc = .ret
  | _ => false

end IdleCpu

/-- Whether a processor is in `kernel_idle_wait`. -/
def Phase.isIdle : Phase → Bool
  | .idle _ _ _ | .mainIdle _ => true
  | _ => false

/-- An interrupt was taken in `kernel_idle_wait`. -/
def Phase.wake : Phase → Phase
  | .idle p fp _ => .idle p fp true
  | .mainIdle _ => .mainIdle true
  | phase => phase

/-- The state of the system, with the instruction of each processor in `kernel_idle_wait`. -/
structure WaitState where
  sys : State
  idle : CpuId → IdleCpu

namespace WaitState

variable (w : WaitState)

/-- Whether a processor is in the hardware WAIT state of `kernel_idle_wait`. -/
def waits (c : CpuId) : Bool := (w.sys.cpu c).phase.isIdle && (w.idle c).waiting

/-- The state after a transition of processor `c`, which may have called `kernel_idle_wait`. -/
def after (c : CpuId) (sys : State) : WaitState where
  sys := sys
  idle := if (sys.cpu c).phase.isIdle then Function.update w.idle c .call else w.idle

/-- Replaces what a processor does in `kernel_idle_wait`. -/
def setIdle (c : CpuId) (p : IdleCpu) : WaitState :=
  { w with idle := Function.update w.idle c p }

end WaitState

/-- An IPI that is taken is not pending any more. -/
def State.takeIpi (s : State) (c : CpuId) : IdleInterrupt → State
  | .ipi => { s with sched := { s.sched with
      ipiPending := Function.update s.sched.ipiPending c false } }
  | _ => s

/-- The work of the handler of an interrupt in its section.  That of an IPI has none: it was
    acknowledged when it was taken. -/
def IdleInterrupt.work : IdleInterrupt → IdleInterrupt
  | .ipi => .device .none
  | i => i

/-- The transitions of processors, with those in `kernel_idle_wait`. -/
inductive WaitAction where
  /-- A transition outside `kernel_idle_wait`. -/
  | system (a : Action)
  /-- The next instruction of `kernel_idle_wait`. -/
  | execute (c : CpuId)
  /-- An interrupt is taken in `kernel_idle_wait`. -/
  | interrupt (c : CpuId) (i : IdleInterrupt)
  /-- The section of its handler. -/
  | handler (c : CpuId) (copyToUser : SpaceRef → UInt64 → Bool)
  | iret (c : CpuId)
  /-- `kernel_idle_wait` returns; in `scheduler_dequeue_or_idle` the next round follows. -/
  | ret (c : CpuId) (copyToUser : SpaceRef → UInt64 → Bool)
  /-- `kernel_secondary_main` finds that the scheduler has ended, and waits. -/
  | ended (c : CpuId)

/-- Whether a transition of the system is one that `WaitAction` replaces. -/
def Input.inIdleWait : Input → Bool
  | .interrupt _ | .wake => true
  | _ => false

/-- One transition. -/
def waitStep (w : WaitState) : WaitAction → Option WaitState
  | .system a =>
    if a.input.inIdleWait then none else (step w.sys a).map (w.after a.cpu)
  | .execute c =>
    if (w.sys.cpu c).phase.isIdle then (w.idle c).execute.map (w.setIdle c) else none
  | .interrupt c i =>
    if (w.sys.cpu c).phase.isIdle ∧ irqPending w.sys c i then
      ((w.idle c).interrupt i).map fun p => { w.setIdle c p with sys := w.sys.takeIpi c i }
    else none
  | .handler c copyToUser =>
    match (w.idle c).handler with
    | .entered i pc =>
      (step w.sys ⟨c, .interrupt i.work, copyToUser⟩).map fun sys =>
        { w.setIdle c { w.idle c with handler := .left (schedulerInterruptReturn pc) } with sys }
    | _ => none
  | .iret c =>
    if (w.sys.cpu c).phase.isIdle then (w.idle c).iret.map (w.setIdle c) else none
  | .ret c copyToUser =>
    if (w.idle c).returns then
      (step (w.sys.modCpu c fun p => { p with phase := p.phase.wake })
        ⟨c, .wake, copyToUser⟩).map (w.after c)
    else none
  | .ended c =>
    match (w.sys.cpu c).phase with
    | .main =>
      if w.sys.sched.active then none
      else some { w.setIdle c .call with
        sys := { w.sys.modCpu c ({ · with phase := .mainIdle false }) with
          sched := idleEnter ⟨c, fun _ _ => true⟩ w.sys.sched } }
    | _ => none

end RiscMv.Kernel
