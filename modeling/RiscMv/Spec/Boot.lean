import RiscMv.Kernel.System
import RiscMv.Spec.Moves

/-!
# Initial states

`kernel_scheduler_self_test` registers the processes, dequeues the first thread on the boot
processor, sends an IPI to the others, which idle in `kernel_secondary_main`, and calls
`kernel_start_user` for the thread.  `Boot` describes that state for any processes and threads;
`BootConfig.state` builds one.
-/

namespace RiscMv.Kernel

/-- The record of a thread that has not run yet: `kernel_thread_create` on zeroed memory. -/
structure FreshThread (th : KernelThread) : Prop where
  flags : th.ctx.flags = { clearFlags with interruptEnable := true }
  waitPid : th.waitPid = 0
  waitTid : th.waitTid = 0
  joinWaiter : th.joinWaiter = none
  waitQueue : th.waitQueue = none
  kernelResumeSp : th.kernelResumeSp = none
  activeTrapFrame : th.activeTrapFrame = none
  reapQueued : th.reapQueued = false
  timeoutQueued : th.timeoutQueued = false
  freed : th.freed = false
  blockedIn : th.blockedIn = none

/-- The record of a process that runs normally. -/
structure FreshProcess (q : KernelProcess) : Prop where
  stopOwner : q.stopOwner = none
  stopRequested : q.stopRequested = false
  faulted : q.faulted = false
  reapQueued : q.reapQueued = false
  active : q.state = .active
  freed : q.freed = false

/-- The boot processor is about to start thread `t`; every other thread of a registered process
    is in the run queue. -/
structure Boot (s : State) (t : ThreadRef) : Prop where
  unlocked : s.lockHeld = false
  running : s.stopped = false
  active : s.sched.active = true
  online : 0 < s.sched.cpuCount
  boot : (s.cpu 0).phase = .start t
  bootCpu : s.sched.cpu 0 = ⟨some t, some (s.sched.thread t).process, none, none, false⟩
  secondary : ∀ c, c ≠ 0 → (s.cpu c).phase = .main ∨ ∃ woken, (s.cpu c).phase = .mainIdle woken
  secondaryCpu : ∀ c, c ≠ 0 → (s.sched.cpu c).currentThread = none ∧
    (s.sched.cpu c).currentProcess = none ∧ (s.sched.cpu c).kernelStackThread = none ∧
    (s.sched.cpu c).kernelStackProcess = none
  exceptionActive : ∀ c, (s.cpu c).exceptionActive = false
  thread : ∀ u, FreshThread (s.sched.thread u)
  first : (s.sched.thread t).state = .running ∧ (s.sched.thread t).queued = false ∧
    (s.sched.thread t).cpuAffinity = 1
  other : ∀ u, u ≠ t → (s.sched.thread u).cpuAffinity = 0 ∧
    ((s.sched.thread u).state = .runnable ∧ (s.sched.thread u).queued = true ∨
      (s.sched.thread u).state = .new ∧ (s.sched.thread u).queued = false)
  runQueue : RunQueueOk s.sched
  process : ∀ p, FreshProcess (s.sched.process p)
  listed : ∀ p u, u ∈ (s.sched.process p).threads → (s.sched.thread u).process = p
  waiters : ∀ q, s.sched.waiters q = []
  reapQueues : s.sched.reapQueue = [] ∧ s.sched.threadReapQueue = []
  lastUser : ∀ u, s.sched.lastUser u = ⟨(s.sched.thread u).ctx, false, none⟩
  history : s.sched.destroyedSpaces = [] ∧ s.sched.childWakes = [] ∧ s.sched.collected = []

/-- What differs between initial states: the number of processors, the process of each thread
    in the order of registration, and the parents of the processes. -/
structure BootConfig where
  cpuCount : Nat
  owner : List ProcessRef
  parent : ProcessRef → Option ProcessRef

namespace BootConfig

variable (cfg : BootConfig)

/-- The context a thread starts with. -/
def context : UserContext where
  registers := fun _ => 0
  pc := 0x400000
  stackPointer := 0x7FFFF000
  flags := { clearFlags with interruptEnable := true }

/-- The record of thread `t`. -/
def thread (t : ThreadRef) : KernelThread where
  process := cfg.owner.getD t 0
  ctx := context
  tid := t.toUInt64 + 1
  exitStatus := -1
  writeCount := 0
  waitPid := 0
  waitStatusAddress := 0
  waitTid := 0
  joinStatusAddress := 0
  joinWaiter := none
  waitQueue := none
  waitDeadline := 0
  waitTimeoutResult := 0
  waitBufferAddress := 0
  waitBufferSize := 0
  kernelResumeSp := none
  activeTrapFrame := none
  kernelWaitResult := 0
  cpuAffinity := if t = 0 then 1 else 0
  state := if t = 0 then .running else if t < cfg.owner.length then .runnable else .new
  queued := t != 0 && t < cfg.owner.length
  reapQueued := false
  timeoutQueued := false
  freed := false
  blockedIn := none

/-- The threads of process `p`. -/
def threads (p : ProcessRef) : List ThreadRef :=
  (List.range cfg.owner.length).filter fun t => cfg.owner.getD t 0 == p

/-- The record of process `p`. -/
def process (p : ProcessRef) : KernelProcess where
  threads := cfg.threads p
  children := cfg.owner.dedup.filter fun q => cfg.parent q == some p
  parent := cfg.parent p
  stopOwner := none
  addressSpace := p
  pid := p.toUInt64 + 1
  threadCount := (cfg.threads p).length
  liveThreadCount := (cfg.threads p).length
  exitStatus := -1
  faultCause := 0
  faultAddress := 0
  faultInfo := 0
  state := .active
  faulted := false
  registered := true
  reapQueued := false
  stopRequested := false
  freed := false

/-- The threads that registration has queued, without the first. -/
def runQueue : List ThreadRef := (List.range cfg.owner.length).filter (· != 0)

/-- The scheduler after registration and the first dequeue. -/
def sched : Sched where
  thread := cfg.thread
  process := cfg.process
  processes := cfg.owner.dedup
  runQueue := cfg.runQueue
  reapQueue := []
  threadReapQueue := []
  timeoutQueue := []
  waiters := fun _ => []
  rings := ((List.range cfg.owner.length).foldl (·.pushBack .run) Rings.init).popFront .run
  initProcess := some 0
  timerCount := 0
  active := true
  completionError := false
  cpuCount := cfg.cpuCount
  cpu := fun c => if c = 0 then ⟨some 0, some (cfg.owner.getD 0 0), none, none, false⟩
    else ⟨none, none, none, none, false⟩
  ipiPending := fun c => c != 0
  destroyedSpaces := []
  lastUser := fun t => ⟨(cfg.thread t).ctx, false, none⟩
  childWakes := []
  collected := []

/-- The initial state. -/
def state : State where
  sched := cfg.sched
  cpu := fun c =>
    { ctx := context, ksp := ⟨.cpu c, 0⟩, ptbr := 0, exceptionActive := false
      phase := if c = 0 then .start 0 else .main }
  stack := fun _ => { frame := .ofUser context false, kont := none }
  lockHeld := false
  stopped := false

theorem state_boot (hcpu : 0 < cfg.cpuCount) : Boot cfg.state 0 where
  unlocked := rfl
  running := rfl
  active := rfl
  online := hcpu
  boot := rfl
  bootCpu := rfl
  secondary c hc := .inl (by simp [state, hc])
  secondaryCpu c hc := by simp [state, sched, hc]
  exceptionActive _ := rfl
  thread _ := ⟨rfl, rfl, rfl, rfl, rfl, rfl, rfl, rfl, rfl, rfl, rfl⟩
  first := ⟨rfl, rfl, rfl⟩
  other u hu := by
    by_cases hlen : u < cfg.owner.length <;> simp [state, sched, thread, hu, hlen]
  runQueue := by
    refine ⟨List.nodup_range.filter _, fun u => ?_⟩
    simp [state, sched, runQueue, thread, and_comm]
  process _ := ⟨rfl, rfl, rfl, rfl, rfl, rfl⟩
  listed p u hu := by
    simp only [state, sched, process, threads, List.mem_filter, beq_iff_eq] at hu
    exact hu.2
  waiters _ := rfl
  reapQueues := ⟨rfl, rfl⟩
  lastUser _ := rfl
  history := ⟨rfl, rfl, rfl⟩

end BootConfig

/-- One processor and two threads of one process. -/
def twoThreads : BootConfig := ⟨1, [0, 0], fun _ => none⟩

/-- One processor and two processes of one thread each. -/
def twoProcesses : BootConfig := ⟨1, [0, 1], fun _ => none⟩

/-- One processor, a process and its child, of one thread each. -/
def parentAndChild : BootConfig := ⟨1, [0, 1], fun p => if p = 1 then some 0 else none⟩

/-- Two processors and three threads of one process. -/
def threeThreads : BootConfig := ⟨2, [0, 0, 0], fun _ => none⟩

/-- The initial context with other flags Z and R0. -/
def userContext (zero : Bool) (r0 : UInt64) : UserContext :=
  { BootConfig.context with
    flags := { BootConfig.context.flags with zero }
    registers := Function.update BootConfig.context.registers 0 r0 }

/-- An action of the boot processor. -/
def bootAct (i : Input) : Action := ⟨0, i, fun _ _ => true⟩

/-- An action of the other processor. -/
def secondAct (i : Input) : Action := ⟨1, i, fun _ _ => true⟩

/-- A load page fault at address 0. -/
def nullLoad : TrapKind := .exception loadPageFault 0 einfoOriginUser

/-- Whether the processor runs user code. -/
def Phase.isUser : Phase → Bool
  | .user => true
  | _ => false

theorem Phase.eq_user_of_isUser {ph : Phase} (h : ph.isUser = true) : ph = .user := by
  cases ph with
  | user => rfl
  | _ => cases h

end RiscMv.Kernel
