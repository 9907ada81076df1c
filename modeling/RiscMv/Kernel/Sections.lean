import RiscMv.Kernel.Queues

/-!
# Big-kernel-lock sections (`scheduler.c`, `syscall.c`, `exception.c`, `devices.c`)

A section is the code a processor runs from taking the big kernel lock to releasing it.  It
works on the scheduler, on the trap frame it was entered with and on the registers PTBR and
KSP, and it ends in one of the ways listed in `Exit`: by returning through the frame, by
jumping to a suspended continuation, by waiting in the middle of a function (`Pending`,
`Rendezvous` hold that function's local variables), or by suspending itself.

What a file system call does between its calls of `kernel_scheduler_block_kernel` is given
by a `Script`: any number of gate releases, reclamations and blocking waits, then a result.
-/

namespace RiscMv.Kernel

/-- The new image and startup context that `kernel_scheduler_exec` has prepared. -/
structure NewImage where
  addressSpace : SpaceRef
  ctx : UserContext

/-- The behaviour of a file system call, as far as the scheduler sees it.  `depth` is the
    size of the C frames below the trap frame when the thread is suspended. -/
inductive Script where
  | done (result : Int64)
  | gateUnlock (k : Script)
  | reap (k : Script)
  | block (q : WaitQueue) (ticks : UInt64) (timeoutResult : Int64) (depth : Nat) (k : Script)
  | blockRead (address size : UInt64)
  | present
  | exec (image : NewImage)

/-- The functions that call `kernel_scheduler_block_current`. -/
inductive BlockCaller where
  | sleep
  | read
  | present
  deriving DecidableEq

/-- A function waiting in `scheduler_dequeue_or_idle`, with its local variables. -/
inductive Pending where
  | blockCurrent (waiter : ThreadRef) (caller : BlockCaller)
  | blockKernel (waiter : ThreadRef) (depth : Nat) (k : Script)
  | waitpid (waiter : ThreadRef)
  | join (waiter target : ThreadRef)
  | exit (previous : ThreadRef)
  | fault (previous : ThreadRef)

/-- A function spinning in `kernel_smp_process_other_thread_active`. -/
inductive Rendezvous where
  | exec (thread : ThreadRef) (process : ProcessRef) (image : NewImage)
  | fault (previous : ThreadRef) (process : ProcessRef)

/-- The thread that waits in the function. -/
def Pending.waiter : Pending → ThreadRef
  | .blockCurrent w _ => w
  | .blockKernel w _ _ => w
  | .waitpid w => w
  | .join w _ => w
  | .exit w => w
  | .fault w => w

/-- The thread that runs the rendezvous loop. -/
def Rendezvous.thread : Rendezvous → ThreadRef
  | .exec t _ _ => t
  | .fault t _ => t

/-- The process whose other threads have to leave the processors. -/
def Rendezvous.process : Rendezvous → ProcessRef
  | .exec _ p _ => p
  | .fault _ p => p

/-- How a section ends. -/
inductive Exit where
  /-- Return through the wrapper with the frame of the thread that trapped, or with the
      frame rewritten for `kernel_secondary_retire_entry`. -/
  | restore
  /-- Return through the wrapper after `scheduler_load` rewrote the frame for `t`. -/
  | load (t : ThreadRef)
  /-- `kernel_resume_continuation(sp)`. -/
  | resume (sp : StackAddr)
  /-- `kernel_suspend_to_user` (`sp = none`) or `kernel_switch_continuation` from `waiter`
      to `next`, saving the continuation `depth` bytes below the trap frame. -/
  | suspend (waiter next : ThreadRef) (depth : Nat) (sp : Option StackAddr)
  | idle (p : Pending)
  | spin (r : Rendezvous)
  /-- `kernel_smp_secondary_retire` called directly. -/
  | retire
  /-- `kernel_exception_panic` or `cvm_halt`. -/
  | halt

/-- The data a section works on. -/
structure Sect where
  sched : Sched
  frame : TrapFrame
  ptbr : SpaceRef
  ksp : StackAddr

namespace Sect

/-- Applies a scheduler function. -/
def on (x : Sect) (f : Sched → Sched) : Sect := { x with sched := f x.sched }

/-- Updates a thread record. -/
def modThread (x : Sect) (t : ThreadRef) (f : KernelThread → KernelThread) : Sect :=
  x.on (·.modThread t f)

/-- The address space of thread `t`. -/
def space (x : Sect) (t : ThreadRef) : SpaceRef :=
  (x.sched.process (x.sched.thread t).process).addressSpace

end Sect

/-! ## Saving and loading contexts -/

/-- `scheduler_save`. -/
def schedulerSave (t : ThreadRef) (x : Sect) : Sect :=
  x.modThread t ({ · with ctx := x.frame.toContext })

/-- `cvm_set_ptbr`, done only if the address space changes. -/
def switchSpace (previous : Option ThreadRef) (t : ThreadRef) (x : Sect) : Sect :=
  match previous with
  | some p => if x.space p ≠ x.space t then { x with ptbr := x.space t } else x
  | none => { x with ptbr := x.space t }

@[simp] theorem switchSpace_sched (previous : Option ThreadRef) (t : ThreadRef) (x : Sect) :
    (switchSpace previous t x).sched = x.sched := by
  unfold switchSpace
  split
  · split <;> rfl
  · rfl

/-- The frame `scheduler_load` leaves for a thread without a suspended continuation. -/
def loadedFrame (ctx : UserContext) (frame : TrapFrame) : TrapFrame where
  registers := ctx.registers
  pc := ctx.pc
  flags := { ctx.flags with
    interruptEnable := true, userMode := true, exceptionFrame := frame.flags.exceptionFrame }
  userSp := ctx.stackPointer

/-- `scheduler_load`. -/
def schedulerLoad (previous : Option ThreadRef) (t : ThreadRef) (x : Sect) : Sect × Exit :=
  match (x.sched.thread t).kernelResumeSp with
  | some sp =>
    let x := switchSpace previous t (x.modThread t ({ · with kernelResumeSp := none }))
    ({ x with ksp := kernelStackTop t }, .resume sp)
  | none =>
    let x := { x with frame := loadedFrame (x.sched.thread t).ctx x.frame }
    ({ switchSpace previous t x with ksp := kernelStackTop t }, .load t)

/-- `scheduler_reschedule`. -/
def schedulerReschedule (e : Env) (previous : ThreadRef) (x : Sect) : Sect × Exit :=
  let x := (schedulerSave previous x).modThread previous ({ · with state := .runnable })
  match schedulerEnqueue previous x.sched with
  | (_, false) => (x, .restore)
  | (s, true) =>
    match schedulerDequeue e s with
    | (none, s) => ({ x with sched := s }, .restore)
    | (some next, s) =>
      schedulerLoad (some previous) next { x with sched := setCurrent e (some next) s }

/-- The constant address of `kernel_secondary_retire_entry`. -/
def kernelSecondaryRetireEntry : UInt64 := 0

/-- FLAGS with every bit clear. -/
def clearFlags : Flags where
  zero := false
  negative := false
  carry := false
  overflow := false
  interruptEnable := false
  unordered := false

/-- `scheduler_prepare_retire_frame`. -/
def prepareRetireFrame (frame : TrapFrame) : TrapFrame :=
  { frame with
    pc := kernelSecondaryRetireEntry
    flags := { clearFlags with
      userMode := false, exceptionFrame := frame.flags.exceptionFrame } }

/-- `kernel_scheduler_current_space`. -/
def currentSpace (e : Env) (s : Sched) : Option ThreadRef :=
  match s.current e.cpu with
  | some t => if s.active ∧ (s.thread t).state = .running then some t else none
  | none => none

/-- `kernel_scheduler_stop_current`: `some` if the current thread has to stop. -/
def stopCurrent (e : Env) (x : Sect) : Option Sect :=
  match x.sched.current e.cpu with
  | none => none
  | some t =>
    let p := x.sched.process (x.sched.thread t).process
    if !p.stopRequested ∨ p.stopOwner = some t then none
    else
      let x := ((schedulerSave t x).on (schedulerDetachWait t)).modThread t fun th =>
        { th with exitStatus := if p.faulted then p.exitStatus else 0, state := .zombie }
      some { x with frame := prepareRetireFrame x.frame }

/-- `scheduler_dequeue_or_idle`, and the rest of its caller. -/
def dequeueThen (e : Env) (x : Sect) (rest : Sect → Dequeued → Sect × Exit) : Sect × Exit :=
  rest { x with sched := (schedulerDequeueOrIdle e x.sched).1 }
    (schedulerDequeueOrIdle e x.sched).2

/-! ## Exit and fault -/

/-- `scheduler_complete_or_wait` and, on the boot processor, `scheduler_finish`. -/
def schedulerCompleteOrWait (e : Env) (x : Sect) : Sect × Exit :=
  let x := x.on (setCurrent e none)
  if isBootCpu e then (x.on fun s => schedulerReapDeferred { s with active := false }, .halt)
  else (x, .retire)

/-- The end of `kernel_scheduler_exit` and `kernel_scheduler_fault`, after
    `scheduler_dequeue_or_idle`. -/
def exitDequeued (e : Env) (previous : ThreadRef) (p : Pending) (x : Sect) (d : Dequeued) :
    Sect × Exit :=
  match d with
  | .idle => (x, .idle p)
  | .none => schedulerCompleteOrWait e x
  | .next next => schedulerLoad (some previous) next (x.on (setCurrent e (some next)))

/-- `scheduler_retire_secondary_frame` and what follows it in `kernel_scheduler_exit` and
    `kernel_scheduler_fault`. -/
def exitTail (e : Env) (previous : ThreadRef) (p : Pending) (x : Sect) : Sect × Exit :=
  if isBootCpu e then dequeueThen e x (exitDequeued e previous p)
  else
    let x := x.on (setCurrent e none)
    ({ x with frame := prepareRetireFrame x.frame }, .restore)

/-- The bookkeeping of `kernel_scheduler_exit` on the process of the exiting thread. -/
def exitProcess (e : Env) (p : ProcessRef) (s : Sched) : Sched :=
  if (s.process p).liveThreadCount = 0 then
    schedulerRecordProcessCompletion e p (s.modProcess p fun q => { q with
      exitStatus := if q.exitStatus = -1 then 0 else q.exitStatus, state := .zombie })
  else s

/-- `kernel_scheduler_exit`. -/
def kernelSchedulerExit (e : Env) (status : Int64) (x : Sect) : Sect × Exit :=
  match currentSpace e x.sched with
  | none => (x, .restore)
  | some previous =>
    let x := schedulerSave previous (x.on schedulerReapDeferred)
    let x := x.modThread previous fun th => { th with
      exitStatus := status, waitPid := 0, waitStatusAddress := 0, waitTid := 0,
      joinStatusAddress := 0, state := .zombie }
    let p := (x.sched.thread previous).process
    let x := x.on fun s => s.modProcess p fun q => { q with
      exitStatus := if status ≠ 0 ∧ q.exitStatus ≤ 0 then status else q.exitStatus
      liveThreadCount := q.liveThreadCount - 1 }
    let x := x.on fun s => exitProcess e p (schedulerNotifyJoiner e previous s)
    exitTail e previous (.exit previous) x

/-- Releases the joiner of `t`, whose target is about to disappear. -/
def dropJoiner (t : ThreadRef) (s : Sched) : Sched :=
  match (s.thread t).joinWaiter with
  | some w => (s.modThread w ({ · with waitTid := 0, joinStatusAddress := 0 })).modThread t
      ({ · with joinWaiter := none })
  | none => s

/-- Marks a thread of a faulting process as a zombie. -/
def faultZombie (status : Int64) (t : ThreadRef) (s : Sched) : Sched :=
  if (s.thread t).state ≠ .dead then
    s.modThread t fun th => { th with
      exitStatus := status, waitPid := 0, waitStatusAddress := 0, state := .zombie }
  else s

/-- What `kernel_scheduler_fault` does to each thread of the process. -/
def faultThread (p : ProcessRef) (status : Int64) (t : ThreadRef) (s : Sched) : Sched :=
  faultZombie status t (schedulerDetachWait t (leaveRunQueue t (dropJoiner t (unlinkJoin p t s))))

/-- The loop of `kernel_scheduler_fault` over the threads of the process. -/
def faultThreads (p : ProcessRef) (status : Int64) : List ThreadRef → Sched → Sched
  | [], s => s
  | t :: rest, s => faultThreads p status rest (faultThread p status t s)

/-- Records the fault in the process and makes its threads stop. -/
def recordFault (p : ProcessRef) (cause address info : UInt64) (s : Sched) : Sched :=
  s.modProcess p fun q => { q with
    liveThreadCount := 0, exitStatus := -cause.toInt64, faultCause := cause,
    faultAddress := address, faultInfo := info, faulted := true, stopOwner := none,
    stopRequested := true }

/-- `kernel_scheduler_fault` up to its rendezvous loop. -/
def kernelSchedulerFault (e : Env) (cause address info : UInt64) (previous : ThreadRef)
    (x : Sect) : Sect × Exit :=
  let x := x.on schedulerReapDeferred
  let p := (x.sched.thread previous).process
  let x := schedulerSave previous x
  let x := x.on fun s => faultThreads p (-cause.toInt64) (s.process p).threads s
  (x.on fun s => rescheduleOthers e (recordFault p cause address info s),
    .spin (.fault previous p))

/-- `kernel_scheduler_fault` after its rendezvous loop. -/
def faultRendezvous (e : Env) (previous : ThreadRef) (p : ProcessRef) (x : Sect) :
    Sect × Exit :=
  let x := x.on fun s => schedulerRecordProcessCompletion e p
    (s.modProcess p ({ · with state := .zombie }))
  exitTail e previous (.fault previous) x

/-- `kernel_exception_dispatch` for a synchronous exception raised in user mode. -/
def kernelExceptionDispatch (e : Env) (cause address info : UInt64) (x : Sect) :
    Sect × Exit :=
  match stopCurrent e x with
  | some x => (x, .restore)
  | none =>
    match currentSpace e x.sched with
    | some previous => kernelSchedulerFault e cause address info previous x
    -- `kernel_handle_page_fault` refuses a user address, so the wrapper panics
    | none => (x, .halt)

/-! ## Interrupts -/

/-- `kernel_scheduler_timer` for an interrupt taken in user mode. -/
def kernelSchedulerTimer (e : Env) (x : Sect) : Sect × Exit :=
  match stopCurrent e x with
  | some x => (x, .restore)
  | none =>
    let x := x.on fun s => schedulerExpireTimeouts e { s with timerCount := s.timerCount + 1 }
    if (x.sched.cpu e.cpu).idleActive then (x, .restore)
    else match currentSpace e x.sched with
      | none => (x, .restore)
      | some previous => schedulerReschedule e previous (x.on schedulerReapDeferred)

/-- `kernel_scheduler_ipi` for an interrupt taken in user mode. -/
def kernelSchedulerIpi (e : Env) (x : Sect) : Sect × Exit :=
  match stopCurrent e x with
  | some x => (x, .restore)
  | none =>
    if (x.sched.cpu e.cpu).idleActive then (x, .restore)
    else match currentSpace e x.sched with
      | none => (x, .restore)
      | some previous => schedulerReschedule e previous (x.on schedulerReapDeferred)

/-- What a device interrupt wakes. -/
inductive DeviceEvent where
  | wakeOne (q : WaitQueue) (result : Int64)
  | wakeAll (q : WaitQueue) (result : Int64)
  | keyboard (size : UInt64)
  | none

/-- The wake-ups of a device handler (`handle_block_interrupt` and its siblings). -/
def deviceEvent (e : Env) (d : DeviceEvent) (s : Sched) : Sched :=
  match d with
  | .wakeOne q result => (waitQueueWakeOne e q result s).1
  | .wakeAll q result => waitQueueWakeAll e q result s
  | .keyboard size => waitQueueWakeReadOne e .keyboard size s
  | .none => s

/-- `kernel_devices_interrupt` for an interrupt taken in user mode. -/
def kernelDevicesInterrupt (e : Env) (d : DeviceEvent) (x : Sect) : Sect × Exit :=
  let x := x.on (deviceEvent e d)
  match stopCurrent e x with
  | some x => (x, .restore)
  | none => (x, .restore)

/-- The handlers' work for an interrupt taken in `kernel_idle_wait`, where no thread is
    current and the frame returns to kernel mode. -/
inductive IdleInterrupt where
  | timer
  | device (d : DeviceEvent)
  | ipi

/-- An interrupt taken in `kernel_idle_wait`. -/
def idleInterrupt (e : Env) (i : IdleInterrupt) (s : Sched) : Sched :=
  match i with
  | .timer => schedulerExpireTimeouts e { s with timerCount := s.timerCount + 1 }
  | .device d => deviceEvent e d s
  | .ipi => { s with ipiPending := Function.update s.ipiPending e.cpu false }

end RiscMv.Kernel
