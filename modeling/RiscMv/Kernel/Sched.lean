import RiscMv.Kernel.Rings

/-!
# Scheduler data

The kernel objects of `kernel_runtime.h` and the static variables of `scheduler.c`.  The lists of
threads that the scheduler moves threads between are kept twice: as lists of references, which the
code is modelled with, and as the rings of nodes that the list functions change.  The other lists
are lists of references.  An object keeps its record after it was freed (a stale pointer still
reads the old words); `freed` records that the allocation is gone.

The big kernel lock is not a field: every section between taking and releasing it is one
transition, see `RiscMv.Kernel.System`.
-/

namespace RiscMv.Kernel

/-- `KernelThreadState`. -/
inductive ThreadState where
  | new
  | runnable
  | running
  | blocked
  | zombie
  | dead
  deriving DecidableEq, Repr

/-- `KernelProcessState`. -/
inductive ProcessState where
  | new
  | active
  | zombie
  deriving DecidableEq, Repr

/-- History only: the operation in which a thread became `BLOCKED`. -/
inductive BlockReason where
  | queue (q : WaitQueue)
  | join (tid : UInt64)
  | waitpid (pid : UInt64)
  deriving DecidableEq, Repr

/-- History only: how a thread last left user mode: its context, whether it left by a system
    call, and the result of that call once it is known. -/
structure UserExit where
  ctx : UserContext
  syscall : Bool
  result : Option UInt64

/-- Records the result of the system call. -/
def UserExit.setResult (u : UserExit) (r : UInt64) : UserExit := { u with result := some r }

/-- `KernelThread`.  `ctx` groups `registers`, `pc`, `flags` and `stack_pointer`; a zero
    `kernel_resume_sp` and null pointers are `none`. -/
structure KernelThread where
  process : ProcessRef
  ctx : UserContext
  tid : UInt64
  exitStatus : Int64
  writeCount : UInt64
  waitPid : UInt64
  waitStatusAddress : UInt64
  waitTid : UInt64
  joinStatusAddress : UInt64
  joinWaiter : Option ThreadRef
  waitQueue : Option WaitQueue
  waitDeadline : UInt64
  waitTimeoutResult : Int64
  waitBufferAddress : UInt64
  waitBufferSize : UInt64
  kernelResumeSp : Option StackAddr
  activeTrapFrame : Option StackAddr
  kernelWaitResult : Int64
  /-- 0 for a thread no processor has dispatched yet, else the logical number plus one. -/
  cpuAffinity : Nat
  state : ThreadState
  queued : Bool
  reapQueued : Bool
  timeoutQueued : Bool
  /-- History: the object and its kernel stack were given back to the heap. -/
  freed : Bool
  /-- History: the reason of the last transition to `BLOCKED`. -/
  blockedIn : Option BlockReason

/-- `KernelProcess`, without the framebuffer and the FD table. -/
structure KernelProcess where
  threads : List ThreadRef
  children : List ProcessRef
  parent : Option ProcessRef
  stopOwner : Option ThreadRef
  addressSpace : SpaceRef
  pid : UInt64
  threadCount : Nat
  liveThreadCount : Nat
  exitStatus : Int64
  faultCause : UInt64
  faultAddress : UInt64
  faultInfo : UInt64
  state : ProcessState
  faulted : Bool
  registered : Bool
  reapQueued : Bool
  stopRequested : Bool
  /-- History: the object was given back to the heap. -/
  freed : Bool

/-- `KernelCpuLocal`: what the scheduler records about a processor. -/
structure KernelCpuLocal where
  currentThread : Option ThreadRef
  currentProcess : Option ProcessRef
  kernelStackThread : Option ThreadRef
  kernelStackProcess : Option ProcessRef
  idleActive : Bool
  deriving DecidableEq

/-- The state of the scheduler, shared by all processors under the big kernel lock. -/
structure Sched where
  thread : ThreadRef → KernelThread
  process : ProcessRef → KernelProcess
  processes : List ProcessRef
  runQueue : List ThreadRef
  reapQueue : List ProcessRef
  threadReapQueue : List ThreadRef
  timeoutQueue : List ThreadRef
  waiters : WaitQueue → List ThreadRef
  /-- The nodes and the counts of the run queue, the timeout queue, the wait queues and the queue
      of threads to be reaped. -/
  rings : Rings
  initProcess : Option ProcessRef
  timerCount : UInt64
  active : Bool
  completionError : Bool
  cpuCount : Nat
  cpu : CpuId → KernelCpuLocal
  ipiPending : CpuId → Bool
  /-- History: the address spaces destroyed so far. -/
  destroyedSpaces : List SpaceRef
  /-- History: how each thread last left user mode. -/
  lastUser : ThreadRef → UserExit
  /-- History: the threads woken because a child terminated or was collected, with what
      they were blocked in. -/
  childWakes : List (ThreadRef × Option BlockReason)
  /-- History: the children collected, as the child's pid and the pid requested by the
      `waitpid` on whose behalf it was collected (`none` if there was none). -/
  collected : List (UInt64 × Option UInt64)

/-- What a big-kernel-lock section reads from outside the scheduler: the processor it runs
    on and whether `kernel_copy_to_user` succeeds at an address of an address space. -/
structure Env where
  cpu : CpuId
  copyToUser : SpaceRef → UInt64 → Bool

namespace Sched

/-- Updates the record of thread `t`. -/
def modThread (s : Sched) (t : ThreadRef) (f : KernelThread → KernelThread) : Sched :=
  { s with thread := Function.update s.thread t (f (s.thread t)) }

/-- Updates the record of process `p`. -/
def modProcess (s : Sched) (p : ProcessRef) (f : KernelProcess → KernelProcess) : Sched :=
  { s with process := Function.update s.process p (f (s.process p)) }

/-- Updates the record of processor `c`. -/
def modCpu (s : Sched) (c : CpuId) (f : KernelCpuLocal → KernelCpuLocal) : Sched :=
  { s with cpu := Function.update s.cpu c (f (s.cpu c)) }

/-- The threads in a list. -/
def queue (s : Sched) : ThreadList → List ThreadRef
  | .run => s.runQueue
  | .timeout => s.timeoutQueue
  | .reap => s.threadReapQueue
  | .wait q => s.waiters q

/-- `kernel_smp_current_thread` on processor `c`. -/
def current (s : Sched) (c : CpuId) : Option ThreadRef := (s.cpu c).currentThread

end Sched

/-! ## Error numbers (`rarchm64_syscall.h`) -/

def kernelErrorNoChild : Int64 := 10
def kernelErrorAgain : Int64 := 11
def kernelErrorFault : Int64 := 14
def kernelErrorBusy : Int64 := 16
def kernelErrorInvalid : Int64 := 22
def kernelErrorDeadlock : Int64 := 35
def kernelErrorNotImplemented : Int64 := 38

/-- `UINT64_MAX`. -/
def uint64Max : UInt64 := 0xFFFFFFFFFFFFFFFF

/-- `INT64_MAX` as an unsigned word. -/
def int64Max : UInt64 := 0x7FFFFFFFFFFFFFFF

/-! ## Processors (`smp.c`) -/

/-- `kernel_smp_set_current_thread`. -/
def setCurrent (e : Env) (t : Option ThreadRef) (s : Sched) : Sched :=
  s.modCpu e.cpu fun l =>
    { l with currentThread := t, currentProcess := t.map fun t => (s.thread t).process }

/-- `kernel_smp_thread_active`. -/
def threadActive (s : Sched) (t : ThreadRef) : Bool :=
  (List.range s.cpuCount).any fun c =>
    (s.cpu c).currentThread == some t || (s.cpu c).kernelStackThread == some t

/-- `kernel_smp_process_active`. -/
def processActive (s : Sched) (p : ProcessRef) : Bool :=
  (List.range s.cpuCount).any fun c =>
    (s.cpu c).currentProcess == some p || (s.cpu c).kernelStackProcess == some p

/-- `kernel_smp_process_other_thread_active`. -/
def processOtherThreadActive (s : Sched) (p : ProcessRef) (owner : ThreadRef) : Bool :=
  (List.range s.cpuCount).any fun c =>
    ((s.cpu c).currentProcess == some p && (s.cpu c).currentThread != some owner) ||
      ((s.cpu c).kernelStackProcess == some p && (s.cpu c).kernelStackThread != some owner)

/-- `kernel_smp_has_running_thread`. -/
def hasRunningThread (s : Sched) : Bool :=
  (List.range s.cpuCount).any fun c =>
    match (s.cpu c).currentThread with
    | some t => (s.thread t).state == .running
    | none => false

/-- `kernel_smp_is_boot_cpu`. -/
def isBootCpu (e : Env) : Bool := e.cpu == 0

/-- `smp_send_ipi`.  It selects the target in the registers of the core control device and then
    writes the command: one step, because the processors do so under the kernel lock.  The IPIs that
    `kernel_smp_kick_secondaries` sends without it are pending in the initial states. -/
def sendIpi (c : CpuId) (s : Sched) : Sched :=
  { s with ipiPending := Function.update s.ipiPending c true }

/-- `kernel_smp_wake_logical`. -/
def wakeLogical (e : Env) (c : CpuId) (s : Sched) : Sched :=
  if c = e.cpu then s else sendIpi c s

/-- `kernel_smp_wake_idle_other`: an IPI to the first other idle processor. -/
def wakeIdleOther (e : Env) (s : Sched) : Sched :=
  match (List.range s.cpuCount).find? fun c => c != e.cpu && (s.cpu c).idleActive with
  | some c => sendIpi c s
  | none => s

/-- `kernel_smp_reschedule_others`. -/
def rescheduleOthers (e : Env) (s : Sched) : Sched :=
  { s with ipiPending := fun c => s.ipiPending c || (c < s.cpuCount && c != e.cpu) }

/-- `kernel_smp_idle_enter`. -/
def idleEnter (e : Env) (s : Sched) : Sched :=
  s.modCpu e.cpu fun l => { l with idleActive := true }

/-- `kernel_smp_idle_leave`. -/
def idleLeave (e : Env) (s : Sched) : Sched :=
  s.modCpu e.cpu fun l => { l with idleActive := false }

/-- The bookkeeping of `kernel_smp_trap_enter` and `kernel_smp_switch_reacquire` once the
    big kernel lock is taken. -/
def lockTaken (e : Env) (s : Sched) : Sched :=
  s.modCpu e.cpu fun l =>
    { l with kernelStackThread := l.currentThread, kernelStackProcess := l.currentProcess }

/-- `kernel_smp_retire_finalize`. -/
def retireFinalize (e : Env) (s : Sched) : Sched :=
  let s := s.modCpu e.cpu fun _ =>
    { currentThread := none, currentProcess := none, kernelStackThread := none,
      kernelStackProcess := none, idleActive := false }
  if isBootCpu e then s else sendIpi 0 s

end RiscMv.Kernel
