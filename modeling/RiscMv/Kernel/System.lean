import RiscMv.ForStd.Run
import RiscMv.Kernel.Syscalls

/-!
# The kernel on its processors

A state is the scheduler, the processors with the point of the kernel each one is at
(`Phase`), and the kernel stacks.  A transition is one user instruction, one trap entry, one
big-kernel-lock section, or one of the assembly sequences of `kernel.s` that run after the
lock was released; transitions of different processors interleave in any order.

Interrupts are off in the kernel except in `kernel_idle_wait`.
-/

namespace RiscMv.Kernel

/-- Why a processor left user mode. -/
inductive TrapKind where
  | syscall
  | exception (cause address info : UInt64)
  | timer
  | device
  | ipi

/-- Whether the trap is a synchronous exception. -/
def TrapKind.isException : TrapKind → Bool
  | .exception _ _ _ => true
  | _ => false

/-- Whether the trap is a system call. -/
def TrapKind.isSyscall : TrapKind → Bool
  | .syscall => true
  | _ => false

/-- The C frames of a thread suspended in `kernel_scheduler_block_kernel`: its local
    variable `waiter` and the frame pointer of `kernel_syscall_dispatch`. -/
structure Kont where
  waiter : ThreadRef
  framePointer : StackAddr
  deriving DecidableEq

/-- Where a processor is.  `fp` is the address of the trap frame of the handler it runs,
    so SP lies in the stack `fp.stack`. -/
inductive Phase where
  | user
  /-- Frame pushed, about to take the big kernel lock. -/
  | trap (k : TrapKind) (fp : StackAddr)
  /-- Lock released, about to run `kernel_trap_restore`. -/
  | restore (fp : StackAddr)
  /-- In `kernel_idle_wait`; `woken` once an interrupt has been taken there. -/
  | idle (p : Pending) (fp : StackAddr) (woken : Bool)
  /-- In a rendezvous loop; `left` once the loop condition was seen false. -/
  | spin (r : Rendezvous) (fp : StackAddr) (left : Bool)
  /-- About to run `kernel_suspend_to_user` or `kernel_switch_continuation`. -/
  | suspend (waiter next : ThreadRef) (depth : Nat) (sp : Option StackAddr) (fp : StackAddr)
  /-- About to run `kernel_resume_continuation(sp)`. -/
  | resume (sp : StackAddr) (stack : StackId)
  /-- Back in `kernel_scheduler_block_kernel`, about to take the big kernel lock. -/
  | reacquire (k : Kont)
  /-- In `kernel_secondary_retire_entry`, still on the stack it trapped on. -/
  | retire (fp : StackAddr)
  /-- In `kernel_secondary_main`, about to call `kernel_scheduler_secondary_start`. -/
  | main
  /-- In the `kernel_idle_wait` of `kernel_secondary_main`. -/
  | mainIdle (woken : Bool)
  /-- About to run `kernel_start_user` for `t`. -/
  | start (t : ThreadRef)
  | halted
  /-- Running from a stack whose contents were overwritten. -/
  | wild

/-- A logical processor; `ctx` holds the user-visible registers in user mode. -/
structure Cpu where
  ctx : UserContext
  ksp : StackAddr
  ptbr : SpaceRef
  exceptionActive : Bool
  phase : Phase

/-- A kernel stack: the trap frame at its top, and the suspended continuation below it with
    its distance from the top.  Code running on the stack overwrites the continuation. -/
structure Stack where
  frame : TrapFrame
  kont : Option (Nat × Kont)

/-- The state of the system.  `lockHeld` is set when a processor halts inside a section, so
    that the big kernel lock stays taken; `stopped` when `deliver_exception` refuses an
    exception, which ends the machine. -/
structure State where
  sched : Sched
  cpu : CpuId → Cpu
  stack : StackId → Stack
  lockHeld : Bool
  stopped : Bool

namespace State

/-- Updates processor `c`. -/
def modCpu (s : State) (c : CpuId) (f : Cpu → Cpu) : State :=
  { s with cpu := Function.update s.cpu c (f (s.cpu c)) }

/-- Updates a stack. -/
def modStack (s : State) (i : StackId) (f : Stack → Stack) : State :=
  { s with stack := Function.update s.stack i (f (s.stack i)) }

end State

/-- The inputs of one transition of processor `c`. -/
inductive Input where
  /-- A user instruction with this effect on the context. -/
  | user (ctx : UserContext)
  /-- A trap, interrupt or exception in user mode. -/
  | trap (k : TrapKind)
  /-- The handler's section; `script` and `event` are used by file system calls and device
      interrupts. -/
  | dispatch (script : Script) (event : DeviceEvent)
  | iret
  /-- An interrupt taken in `kernel_idle_wait`. -/
  | interrupt (i : IdleInterrupt)
  /-- `kernel_idle_wait` returns. -/
  | wake
  /-- The rendezvous loop condition is false. -/
  | spinLeave
  /-- The section after the rendezvous loop. -/
  | rendezvous
  /-- The assembly sequence the processor is about to run. -/
  | switch
  /-- The section of a resumed continuation, which goes on with `script`. -/
  | resumed (script : Script)
  | retire
  | secondaryStart

/-- A transition label: processor, input and the outcome of `kernel_copy_to_user`. -/
structure Action where
  cpu : CpuId
  input : Input
  copyToUser : SpaceRef → UInt64 → Bool

/-- The environment of the action's section. -/
def Action.env (a : Action) : Env := ⟨a.cpu, a.copyToUser⟩

@[simp] theorem Action.env_cpu (a : Action) : a.env.cpu = a.cpu := rfl

/-! ## Sections -/

/-- The section data at the start of a section with frame pointer `fp`. -/
def Sect.enter (s : State) (e : Env) (fp : StackAddr) : Sect where
  sched := lockTaken e s.sched
  frame := (s.stack fp.stack).frame
  ptbr := (s.cpu e.cpu).ptbr
  ksp := (s.cpu e.cpu).ksp

/-- The handler of a trap. -/
def trapHandler (e : Env) (k : TrapKind) (fp : StackAddr) (script : Script)
    (event : DeviceEvent) (x : Sect) : Sect × Exit :=
  match k with
  | .syscall => kernelSyscallDispatch e fp script x
  | .exception cause address info => kernelExceptionDispatch e cause address info x
  | .timer => kernelSchedulerTimer e x
  | .device => kernelDevicesInterrupt e event x
  | .ipi => kernelSchedulerIpi e x

/-- The section of a processor woken in `scheduler_dequeue_or_idle`. -/
def idleWake (e : Env) (fp : StackAddr) (p : Pending) (x : Sect) : Sect × Exit :=
  dequeueThen e (x.on fun s => schedulerReapDeferred (idleLeave e s)) (pendingDequeued e fp p)

/-- The section after a rendezvous loop. -/
def rendezvousSection (e : Env) (fp : StackAddr) (r : Rendezvous) (x : Sect) : Sect × Exit :=
  match r with
  | .exec thread p image => execRendezvous e fp thread p image x
  | .fault previous p => faultRendezvous e previous p x

/-- The section of a resumed continuation. -/
def resumedSection (e : Env) (k : Kont) (script : Script) (x : Sect) : Sect × Exit :=
  runScript e k.framePointer script (x.modThread k.waiter ({ · with kernelWaitResult := 0 }))

/-- The section that an input runs in a state, with its frame pointer. -/
def runSection (s : State) (a : Action) : Option (StackAddr × Sect × Exit) :=
  match a.input, (s.cpu a.cpu).phase with
  | .dispatch script event, .trap k fp =>
    some (fp, trapHandler a.env k fp script event (.enter s a.env fp))
  | .wake, .idle p fp true => some (fp, idleWake a.env fp p (.enter s a.env fp))
  | .rendezvous, .spin r fp true => some (fp, rendezvousSection a.env fp r (.enter s a.env fp))
  | .resumed script, .reacquire k =>
    some (k.framePointer, resumedSection a.env k script (.enter s a.env k.framePointer))
  | _, _ => none

/-- The phase after a section. -/
def Exit.phase (fp : StackAddr) : Exit → Phase
  | .restore => .restore fp
  | .load _ => .restore fp
  | .resume sp => .resume sp fp.stack
  | .suspend waiter next depth sp => .suspend waiter next depth sp fp
  | .idle p => .idle p fp false
  | .spin r => .spin r fp false
  | .retire => .retire fp
  | .halt => .halted

/-- Whether the section ends in `cvm_halt`, with the big kernel lock held. -/
def Exit.isHalt : Exit → Bool
  | .halt => true
  | _ => false

/-- The state after a section. -/
def applySection (s : State) (c : CpuId) (fp : StackAddr) (x : Sect) (e : Exit) : State :=
  { (s.modStack fp.stack ({ · with frame := x.frame })).modCpu c fun p =>
      { p with ptbr := x.ptbr, ksp := x.ksp, phase := e.phase fp } with
    sched := x.sched
    lockHeld := e.isHalt }

/-! ## Assembly sequences and the processor -/

/-- History: the current thread of `c` leaves user mode. -/
def recordExit (c : CpuId) (l : UserExit) (s : Sched) : Sched :=
  match s.current c with
  | some t => { s with lastUser := Function.update s.lastUser t l }
  | none => s

/-- A trap taken in user mode: `enter_privileged_handler` and the wrapper's pushes, then C
    code that overwrites whatever lay below the frame. -/
def takeTrap (s : State) (c : CpuId) (k : TrapKind) : State :=
  let cpu := s.cpu c
  let exception := k.isException
  if exception && cpu.exceptionActive then { s with stopped := true }
  else
    let s := s.modStack cpu.ksp.stack fun _ =>
      { frame := .ofUser cpu.ctx exception, kont := none }
    let s := s.modCpu c fun p => { p with
      exceptionActive := p.exceptionActive || exception
      phase := .trap k (trapFramePointer cpu.ksp) }
    { s with sched := recordExit c ⟨cpu.ctx, k.isSyscall, none⟩ s.sched }

/-- `kernel_trap_restore` and IRET. -/
def trapRestore (s : State) (c : CpuId) (fp : StackAddr) : State :=
  let frame := (s.stack fp.stack).frame
  s.modCpu c fun p =>
    let p := { p with exceptionActive := p.exceptionActive && !frame.flags.exceptionFrame }
    if frame.flags.userMode then
      { p with ctx := frame.toContext, ksp := iretKsp fp, phase := .user }
    else { p with phase := .retire fp }

/-- The flags word 0x4000000000000010 that `kernel_suspend_to_user` and `kernel_start_user`
    push: user mode with interrupts enabled. -/
def startFlags : SavedFlags :=
  { clearFlags with interruptEnable := true, userMode := true, exceptionFrame := false }

/-- `kernel_start_user` for thread `t`, also the second half of `kernel_suspend_to_user`:
    SETPTBR, SETKSP, three words pushed at the top of the thread's kernel stack, R0 to R14
    loaded, IRET. -/
def startUser (s : State) (c : CpuId) (t : ThreadRef) : State :=
  let th := s.sched.thread t
  let top := kernelStackTop t
  let s := s.modStack top.stack fun k => { k with
    frame := { k.frame with
      pc := th.ctx.pc, flags := startFlags, userSp := th.ctx.stackPointer } }
  let frame := (s.stack top.stack).frame
  s.modCpu c fun p => { p with
    ctx := { registers := th.ctx.registers, pc := frame.pc, stackPointer := frame.userSp,
             flags := frame.flags.toFlags }
    ksp := (top.down cpuFrameBytes).up cpuFrameBytes
    ptbr := (s.sched.process th.process).addressSpace
    exceptionActive := p.exceptionActive && !frame.flags.exceptionFrame
    phase := .user }

/-- `kernel_resume_continuation(sp)`, also the second half of `kernel_switch_continuation`:
    the saved registers are popped and RET enters the C frames above them. -/
def resumeContinuation (s : State) (c : CpuId) (sp : StackAddr) : State :=
  match (s.stack sp.stack).kont with
  | some (below, k) =>
    if below = sp.below then
      (s.modStack sp.stack ({ · with kont := none })).modCpu c
        ({ · with phase := .reacquire k })
    else s.modCpu c ({ · with phase := .wild })
  | none => s.modCpu c ({ · with phase := .wild })

/-- The first half of `kernel_suspend_to_user` and `kernel_switch_continuation`: the
    registers are pushed and SP is stored in `waiter->kernel_resume_sp`. -/
def saveContinuation (s : State) (fp : StackAddr) (waiter : ThreadRef) (depth : Nat) : State :=
  let sp := fp.down depth
  { s.modStack fp.stack ({ · with kont := some (sp.below, ⟨waiter, fp⟩) }) with
    sched := s.sched.modThread waiter ({ · with kernelResumeSp := some sp }) }

/-- `kernel_scheduler_secondary_start`. -/
def secondaryStart (s : State) (e : Env) : State :=
  let sched := lockTaken e s.sched
  let idle (sched : Sched) : State :=
    { s.modCpu e.cpu ({ · with phase := .mainIdle false }) with sched := idleEnter e sched }
  if !sched.active then idle sched
  else
    match schedulerDequeue e (schedulerReapDeferred sched) with
    | (none, sched) =>
      if isBootCpu e && !schedulerHasBlockedThread sched && !hasRunningThread sched then
        { s.modCpu e.cpu ({ · with phase := .halted }) with
          sched := schedulerReapDeferred { sched with active := false }
          lockHeld := true }
      else idle sched
    | (some next, sched) =>
      let sched := setCurrent e (some next) sched
      match (sched.thread next).kernelResumeSp with
      | some sp =>
        { s.modCpu e.cpu fun p => { p with
            ptbr := (sched.process (sched.thread next).process).addressSpace
            ksp := kernelStackTop next
            phase := .resume sp (.cpu e.cpu) } with
          sched := sched.modThread next ({ · with kernelResumeSp := none }) }
      | none => { s.modCpu e.cpu ({ · with phase := .start next }) with sched := sched }

/-! ## Transitions -/

/-- Whether an interrupt of this kind can be taken now: an IPI needs one to be pending. -/
def irqPending (s : State) (c : CpuId) : IdleInterrupt → Bool
  | .ipi => s.sched.ipiPending c
  | _ => true

/-- Transitions of the processor that are not big-kernel-lock sections of a handler. -/
def machineStep (s : State) (a : Action) : Option State :=
  let c := a.cpu
  match a.input, (s.cpu c).phase with
  | .user ctx, .user =>
    if ctx.flags.interruptEnable = (s.cpu c).ctx.flags.interruptEnable then
      some (s.modCpu c ({ · with ctx := ctx }))
    else none
  | .trap .ipi, .user =>
    if s.sched.ipiPending c then
      some (takeTrap { s with sched := { s.sched with
        ipiPending := Function.update s.sched.ipiPending c false } } c .ipi)
    else none
  | .trap k, .user => some (takeTrap s c k)
  | .iret, .restore fp => some (trapRestore s c fp)
  | .interrupt i, .idle p fp _ =>
    if irqPending s c i then
      some { s.modCpu c ({ · with phase := .idle p fp true }) with
        sched := idleInterrupt a.env i (lockTaken a.env s.sched) }
    else none
  | .interrupt i, .mainIdle _ =>
    if irqPending s c i then
      some { s.modCpu c ({ · with phase := .mainIdle true }) with
        sched := idleInterrupt a.env i (lockTaken a.env s.sched) }
    else none
  | .wake, .mainIdle true =>
    some { s.modCpu c ({ · with phase := .main }) with sched := idleLeave a.env s.sched }
  | .spinLeave, .spin r fp false =>
    if processOtherThreadActive s.sched r.process r.thread then none
    else some (s.modCpu c ({ · with phase := .spin r fp true }))
  | .switch, .suspend waiter next depth sp fp =>
    let s := saveContinuation s fp waiter depth
    some (match sp with
      | some sp => resumeContinuation s c sp
      | none => startUser s c next)
  | .switch, .resume sp _ => some (resumeContinuation s c sp)
  | .switch, .start t => some (startUser s c t)
  | .retire, .retire _ =>
    some { s.modCpu c ({ · with phase := .main }) with
      sched := retireFinalize a.env (lockTaken a.env s.sched) }
  | .secondaryStart, .main => some (secondaryStart s a.env)
  | _, _ => none

/-- Whether the transition takes the big kernel lock. -/
def Input.takesLock : Input → Bool
  | .dispatch _ _ | .interrupt _ | .wake | .rendezvous | .resumed _ | .retire
  | .secondaryStart => true
  | .user _ | .trap _ | .iret | .spinLeave | .switch => false

/-- One transition. -/
def step (s : State) (a : Action) : Option State :=
  if s.stopped ∨ s.sched.cpuCount ≤ a.cpu ∨ (s.lockHeld ∧ a.input.takesLock) then none
  else match runSection s a with
    | some (fp, x, e) => some (applySection s a.cpu fp x e)
    | none => machineStep s a

end RiscMv.Kernel
