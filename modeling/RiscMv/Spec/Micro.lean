import RiscMv.Kernel.System

/-!
# Scheduler functions as sequences of small changes

Every scheduler function that works on other threads than the one it serves is a sequence of
the changes listed in `Micro`.  A relation between scheduler states that is reflexive,
transitive and holds for each small change therefore holds for every such function
(`MicroSteps.lift`).

The parameter `π` says which of the changes the code makes; a function that makes fewer of
them is covered for more `π`.

## Key results
- `schedulerReapDeferred_micro`, `schedulerWakeWaiter_micro` and their siblings
-/

namespace RiscMv.Kernel

/-- The part of a thread record that small changes leave alone: its identity, its context and
    its scheduling state. -/
structure ThreadCore where
  process : ProcessRef
  ctx : UserContext
  tid : UInt64
  kernelResumeSp : Option StackAddr
  activeTrapFrame : Option StackAddr
  cpuAffinity : Nat
  state : ThreadState
  queued : Bool
  freed : Bool
  waitPid : UInt64
  blockedIn : Option BlockReason

/-- The core of a thread record. -/
def KernelThread.core (th : KernelThread) : ThreadCore :=
  ⟨th.process, th.ctx, th.tid, th.kernelResumeSp, th.activeTrapFrame, th.cpuAffinity, th.state,
    th.queued, th.freed, th.waitPid, th.blockedIn⟩

/-- The part of a process record that small changes leave alone: the stop request, the fault
    record, the address space, the identity and the state. -/
structure ProcessCore where
  freed : Bool
  stopOwner : Option ThreadRef
  stopRequested : Bool
  faulted : Bool
  addressSpace : SpaceRef
  pid : UInt64
  state : ProcessState

/-- The core of a process record. -/
def KernelProcess.core (q : KernelProcess) : ProcessCore :=
  ⟨q.freed, q.stopOwner, q.stopRequested, q.faulted, q.addressSpace, q.pid, q.state⟩

/-- The scheduler without the lists other than the run queue and without the counters. -/
structure SchedCore where
  thread : ThreadRef → KernelThread
  process : ProcessRef → KernelProcess
  runQueue : List ThreadRef
  cpu : CpuId → KernelCpuLocal
  cpuCount : Nat
  active : Bool
  initProcess : Option ProcessRef
  ipiPending : CpuId → Bool
  lastUser : ThreadRef → UserExit
  destroyedSpaces : List SpaceRef
  childWakes : List (ThreadRef × Option BlockReason)
  collected : List (UInt64 × Option UInt64)

/-- The core of a scheduler state. -/
def Sched.core (s : Sched) : SchedCore :=
  ⟨s.thread, s.process, s.runQueue, s.cpu, s.cpuCount, s.active, s.initProcess, s.ipiPending,
    s.lastUser, s.destroyedSpaces, s.childWakes, s.collected⟩

/-- What a piece of code may do to other threads, and a section to its own. -/
structure Perm where
  /-- The threads it may kill or free whatever the processors do. -/
  kill : ThreadRef → Prop
  /-- The processors on which it may wake threads. -/
  wake : CpuId → Prop
  /-- The threads it may wake because of a child. -/
  child : ThreadRef → Prop
  /-- Whether it may withdraw the stop request of its process and destroy its address space. -/
  clear : Prop
  /-- Whether it may leave its thread without the result of a system call. -/
  quiet : Prop
  /-- Whether it may load another thread into the trap frame. -/
  load : Prop
  /-- Whether it serves a system call. -/
  call : Prop
  /-- Whether it may record a fault of its process. -/
  fault : Prop

/-- Permissions that allow nothing but small changes to records. -/
def Perm.nothing : Perm :=
  ⟨fun _ => False, fun _ => False, fun _ => False, False, False, False, False, False⟩

/-- One small change. -/
inductive Micro (π : Perm) : Sched → Sched → Prop
  | thread (s : Sched) (t : ThreadRef) (f : KernelThread → KernelThread)
      (h : (f (s.thread t)).core = (s.thread t).core) : Micro π s (s.modThread t f)
  | process (s : Sched) (p : ProcessRef) (f : KernelProcess → KernelProcess)
      (h : (f (s.process p)).core = (s.process p).core)
      (hthreads : (f (s.process p)).threads ⊆ (s.process p).threads)
      (hparent : ∀ q, (f (s.process p)).parent = some q →
        (s.process p).parent = some q ∨ s.initProcess = some q) :
      Micro π s (s.modProcess p f)
  | other (s s' : Sched) (h : s'.core = s.core) : Micro π s s'
  | wake (s : Sched) {c : CpuId} (t : ThreadRef) (result : Int64) (hw : π.wake c)
      (h : (s.thread t).state = .blocked) : Micro π s (storeWake t result s)
  /-- Another processor that the thread is pinned to has been sent an IPI. -/
  | push (s : Sched) {c : CpuId} (t : ThreadRef) (hq : (s.thread t).queued = false)
      (hr : (s.thread t).state = .runnable) (hw : π.wake c)
      (hipi : s.active = true → ∀ d, d ≠ c → (s.thread t).cpuAffinity = d + 1 →
        s.ipiPending d = true) : Micro π s (pushRunQueue t s)
  | erase (s : Sched) (t : ThreadRef) : Micro π s (eraseRunQueue t s)
  | kill (s : Sched) (t : ThreadRef) (f : KernelThread → KernelThread)
      (hk : π.kill t ∨ π.call ∧ threadActive s t = false)
      (h : ∃ w, (f (s.thread t)).core =
        { (s.thread t).core with state := .zombie, waitPid := w }) :
      Micro π s (s.modThread t f)
  | free (s : Sched) (t : ThreadRef)
      (h : π.kill t ∨ threadActive s t = false ∨
        ∃ p, t ∈ (s.process p).threads ∧ processActive s p = false) :
      Micro π s (freeThread t s)
  | destroy (s : Sched) (p : ProcessRef) (h : processActive s p = false) :
      Micro π s (freeProcess p s)
  | unregister (s : Sched) (p : ProcessRef) : Micro π s (unregisterProcess p s)
  /-- IPIs are sent, or taken by the processor that runs the code. -/
  | ipi (s : Sched) (pending : CpuId → Bool)
      (h : ∀ d, s.ipiPending d = true → pending d = true ∨ π.wake d) :
      Micro π s { s with ipiPending := pending }
  | childWake (s : Sched) (t : ThreadRef) (hc : π.child t) (hb : (s.thread t).state = .blocked) :
      Micro π s { s with childWakes := (t, (s.thread t).blockedIn) :: s.childWakes }
  | collect (s : Sched) (t : ThreadRef) (childPid : UInt64) (hc : π.child t)
      (hb : (s.thread t).state = .blocked)
      (hm : schedulerWaitMatches (s.thread t).waitPid childPid = true) :
      Micro π s { s with collected := (childPid, (s.thread t).waitRequest) :: s.collected }
  | collectNow (s : Sched) (childPid pid : UInt64)
      (hm : schedulerWaitMatches pid childPid = true) :
      Micro π s { s with collected := (childPid, some pid) :: s.collected }

/-- Sequences of small changes. -/
inductive MicroSteps (π : Perm) (s : Sched) : Sched → Prop
  | refl : MicroSteps π s s
  | tail {s' s'' : Sched} (h : MicroSteps π s s') (h' : Micro π s' s'') : MicroSteps π s s''

variable {π : Perm} {s s' s'' : Sched} {t : ThreadRef} {p : ProcessRef} {e : Env}

/-- A preorder that contains the small changes contains their sequences. -/
theorem MicroSteps.lift {R : Sched → Sched → Prop} (h : MicroSteps π s s')
    (refl : ∀ s, R s s) (trans : ∀ {s s' s''}, R s s' → R s' s'' → R s s'')
    (micro : ∀ {s s'}, Micro π s s' → R s s') : R s s' := by
  induction h with
  | refl => exact refl s
  | tail _ h' ih => exact trans ih (micro h')

theorem Micro.steps (h : Micro π s s') : MicroSteps π s s' := .tail .refl h

theorem MicroSteps.trans (h : MicroSteps π s s') (h' : MicroSteps π s' s'') :
    MicroSteps π s s'' := by
  induction h' with
  | refl => exact h
  | tail _ h'' ih => exact .tail ih h''

/-- Code that touches none of the core fields. -/
theorem MicroSteps.other (h : s'.core = s.core) : MicroSteps π s s' :=
  (Micro.other s s' h).steps

/-- A small change of a thread record, after one outside the core. -/
theorem MicroSteps.thread {f : KernelThread → KernelThread} (h : s'.core = s.core)
    (hf : (f (s'.thread t)).core = (s'.thread t).core) : MicroSteps π s (s'.modThread t f) :=
  (MicroSteps.other h).tail (.thread s' t f hf)

/-- A small change of a process record that removes no thread and keeps the parent or clears
    it, after one outside the core. -/
theorem MicroSteps.process {f : KernelProcess → KernelProcess} (h : s'.core = s.core)
    (hf : (f (s'.process p)).core = (s'.process p).core)
    (hthreads : (f (s'.process p)).threads = (s'.process p).threads)
    (hparent : (f (s'.process p)).parent = (s'.process p).parent ∨
      (f (s'.process p)).parent = none) :
    MicroSteps π s (s'.modProcess p f) :=
  (MicroSteps.other h).tail (.process s' p f hf (by rw [hthreads]; exact List.Subset.refl _)
    fun q hq => by
      rcases hparent with hp | hp
      · exact .inl (hp ▸ hq)
      · cases hp.symm.trans hq)

/-! ## Queues and wake-ups -/

theorem leaveRunQueue_micro (t : ThreadRef) (s : Sched) : MicroSteps π s (leaveRunQueue t s) := by
  unfold leaveRunQueue
  split
  · exact (Micro.erase s t).steps
  · exact .refl

theorem schedulerQueueReap_micro (p : ProcessRef) (s : Sched) :
    MicroSteps π s (schedulerQueueReap p s) := by
  unfold schedulerQueueReap
  split
  · exact .refl
  · exact MicroSteps.process rfl rfl rfl (.inl rfl)

theorem leaveWaitQueue_micro (t : ThreadRef) (s : Sched) :
    MicroSteps π s (leaveWaitQueue t s) := by
  unfold leaveWaitQueue
  split
  · exact MicroSteps.thread rfl rfl
  · exact .refl

theorem leaveTimeoutQueue_micro (t : ThreadRef) (s : Sched) :
    MicroSteps π s (leaveTimeoutQueue t s) := by
  unfold leaveTimeoutQueue
  split
  · exact MicroSteps.thread rfl rfl
  · exact .refl

theorem schedulerDetachWait_micro (t : ThreadRef) (s : Sched) :
    MicroSteps π s (schedulerDetachWait t s) :=
  ((leaveWaitQueue_micro t s).trans (leaveTimeoutQueue_micro t _)).trans
    (MicroSteps.thread rfl rfl)

theorem sendIpi_pending {c d : CpuId} (h : s.ipiPending d = true) :
    (sendIpi c s).ipiPending d = true := by
  simp only [sendIpi, Function.update_apply]
  split
  · rfl
  · exact h

theorem sendIpi_micro (c : CpuId) (s : Sched) : MicroSteps π s (sendIpi c s) :=
  (Micro.ipi s _ fun _ h => .inl (sendIpi_pending h)).steps

theorem rescheduleOthers_micro (e : Env) (s : Sched) : MicroSteps π s (rescheduleOthers e s) :=
  (Micro.ipi s _ fun d h => .inl (by simp [h])).steps

/-- At most an IPI is sent to a processor for a woken thread. -/
theorem wakeProcessorFor_eq (e : Env) (t : ThreadRef) (s : Sched) : ∃ pending,
    (∀ d, s.ipiPending d = true → pending d = true) ∧
      wakeProcessorFor e t s = { s with ipiPending := pending } := by
  unfold wakeProcessorFor wakeLogical wakeIdleOther
  repeat' split
  all_goals first
    | exact ⟨_, fun _ => id, rfl⟩
    | exact ⟨_, fun d => sendIpi_pending, rfl⟩

/-- The processor that a woken thread is pinned to is told. -/
theorem wakeProcessorFor_pending {d : CpuId} (hact : s.active = true) (hd : d ≠ e.cpu)
    (haff : (s.thread t).cpuAffinity = d + 1) : (wakeProcessorFor e t s).ipiPending d = true := by
  simp [wakeProcessorFor, hact, haff, wakeLogical, hd, sendIpi]

/-- Whether the thread is queued before or after a processor is told makes no difference. -/
theorem wakeProcessorFor_push (e : Env) (t : ThreadRef) (s : Sched) :
    wakeProcessorFor e t (pushRunQueue t s) = pushRunQueue t (wakeProcessorFor e t s) := by
  have haff : ((pushRunQueue t s).thread t).cpuAffinity = (s.thread t).cpuAffinity := by
    simp [pushRunQueue, Sched.modThread]
  have hact : (pushRunQueue t s).active = s.active := rfl
  unfold wakeProcessorFor
  rw [haff, hact]
  split
  · split
    · unfold wakeLogical
      split <;> rfl
    · have hidle : (List.range (pushRunQueue t s).cpuCount).find?
          (fun c => c != e.cpu && ((pushRunQueue t s).cpu c).idleActive) =
          (List.range s.cpuCount).find? fun c => c != e.cpu && (s.cpu c).idleActive := rfl
      unfold wakeIdleOther
      rw [hidle]
      split <;> rfl
  · rfl

theorem enqueueWoken_micro (hw : π.wake e.cpu) (t : ThreadRef) (s : Sched) :
    MicroSteps π s (enqueueWoken e t s) := by
  unfold enqueueWoken schedulerEnqueue
  split
  · next heq =>
    split at heq
    · cases heq
      exact .other rfl
    · cases heq
  · next heq =>
    split at heq
    · cases heq
    · next hcond =>
      cases heq
      simp only [not_or, Bool.not_eq_true, not_not] at hcond
      have htold := fun d => wakeProcessorFor_pending (s := s) (t := t) (e := e) (d := d)
      obtain ⟨pending, hsent, heq⟩ := wakeProcessorFor_eq e t s
      rw [wakeProcessorFor_push, heq]
      rw [heq] at htold
      exact (Micro.ipi s pending fun d h => .inl (hsent d h)).steps.tail
        (.push _ t hcond.1 hcond.2 hw fun hact d hd haff => htold d hact hd haff)

/-- `scheduler_detach_wait` keeps the state of the thread it detaches. -/
theorem schedulerDetachWait_state (t : ThreadRef) (s : Sched) :
    ((schedulerDetachWait t s).thread t).state = (s.thread t).state := by
  unfold schedulerDetachWait leaveTimeoutQueue leaveWaitQueue
  repeat' split
  all_goals simp [Sched.modThread]

theorem schedulerWakeWaiter_micro (hw : π.wake e.cpu) (t : ThreadRef) (result : Int64)
    (s : Sched) : MicroSteps π s (schedulerWakeWaiter e t result s) := by
  unfold schedulerWakeWaiter
  split
  · exact .refl
  · next hb =>
    refine ((schedulerDetachWait_micro t s).trans (Micro.wake _ t result hw ?_).steps).trans
      (enqueueWoken_micro hw t _)
    rw [schedulerDetachWait_state]
    exact not_not.mp hb

/-- A property of the scheduler that wake-ups keep, with what is done around them. -/
structure WakeRules (e : Env) (P : Sched → Prop) : Prop where
  wake : ∀ {s} (t : ThreadRef) (result : Int64), P s → P (schedulerWakeWaiter e t result s)
  error : ∀ {s}, P s → P { s with completionError := true }
  tick : ∀ {s}, P s → P { s with timerCount := s.timerCount + 1 }
  ipi : ∀ {s}, P s → P { s with ipiPending := Function.update s.ipiPending e.cpu false }
  unjoin : ∀ {s} (t : ThreadRef), P s → P (s.modThread t ({ · with joinWaiter := none }))
  queueReap : ∀ {s} (t : ThreadRef), P s → P (schedulerQueueThreadReap t s)

namespace WakeRules

variable {P : Sched → Prop} (W : WakeRules e P)

include W

theorem wakeOne (q : WaitQueue) (result : Int64) (h : P s) :
    P (waitQueueWakeOne e q result s).1 := by
  unfold waitQueueWakeOne
  repeat' split
  · exact h
  · exact W.error h
  · exact W.wake _ result h

theorem wakeAllLoop (q : WaitQueue) (result : Int64) (fuel : Nat) (h : P s) :
    P (waitQueueWakeAllLoop e q result fuel s) := by
  induction fuel generalizing s with
  | zero => exact h
  | succ fuel ih =>
    have hone := W.wakeOne q result h
    unfold waitQueueWakeAllLoop
    split
    · exact h
    · split
      · next heq => rw [heq] at hone; exact ih hone
      · next heq => rw [heq] at hone; exact W.error hone

theorem wakeReadOne (q : WaitQueue) (size : UInt64) (h : P s) :
    P (waitQueueWakeReadOne e q size s) := by
  unfold waitQueueWakeReadOne
  split
  · exact h
  · split
    · exact h
    · split
      · exact W.error h
      · exact W.wake _ _ h

theorem expireLoop (ts : List ThreadRef) (h : P s) : P (schedulerExpireLoop e ts s) := by
  induction ts generalizing s with
  | nil => exact h
  | cons t rest ih =>
    unfold schedulerExpireLoop
    split
    · exact ih (W.wake t _ h)
    · exact ih h

theorem idleInterrupt (i : IdleInterrupt) (h : P s) : P (idleInterrupt e i s) := by
  cases i with
  | timer => exact W.expireLoop _ (W.tick h)
  | ipi => exact W.ipi h
  | device d =>
    cases d with
    | wakeOne q result => exact W.wakeOne q result h
    | wakeAll q result => exact W.wakeAllLoop q result _ h
    | keyboard size => exact W.wakeReadOne .keyboard size h
    | none => exact h

theorem notifyJoiner (target : ThreadRef) (h : P s) : P (schedulerNotifyJoiner e target s) := by
  unfold schedulerNotifyJoiner
  split
  · exact h
  · next waiter _ =>
    have hclear := W.unjoin target h
    dsimp only
    split
    · exact W.error hclear
    · split
      · exact W.wake waiter _ hclear
      · exact W.wake waiter _ (W.queueReap target hclear)

end WakeRules

theorem schedulerQueueThreadReap_micro (t : ThreadRef) (s : Sched) :
    MicroSteps π s (schedulerQueueThreadReap t s) := by
  unfold schedulerQueueThreadReap
  split
  · exact MicroSteps.other rfl
  · exact MicroSteps.thread rfl rfl

section

variable (hw : π.wake e.cpu)
include hw

theorem MicroSteps.wakes (s : Sched) : WakeRules e (MicroSteps π s) where
  wake t result h := h.trans (schedulerWakeWaiter_micro hw t result _)
  error h := h.trans (.other rfl)
  tick h := h.trans (.other rfl)
  ipi {s} h := h.tail (.ipi s _ fun d hd => by
    by_cases hc : d = e.cpu
    · exact .inr (hc ▸ hw)
    · exact .inl (by rwa [Function.update_of_ne hc]))
  unjoin _ h := h.trans (.thread rfl rfl)
  queueReap t h := h.trans (schedulerQueueThreadReap_micro t _)

theorem waitQueueWakeOne_micro (q : WaitQueue) (result : Int64) (s : Sched) :
    MicroSteps π s (waitQueueWakeOne e q result s).1 :=
  (MicroSteps.wakes hw s).wakeOne q result .refl

theorem idleInterrupt_micro (i : IdleInterrupt) (s : Sched) :
    MicroSteps π s (idleInterrupt e i s) :=
  (MicroSteps.wakes hw s).idleInterrupt i .refl

theorem schedulerNotifyJoiner_micro (target : ThreadRef) (s : Sched) :
    MicroSteps π s (schedulerNotifyJoiner e target s) :=
  (MicroSteps.wakes hw s).notifyJoiner target .refl

end

/-! ## Join -/

theorem leaveThreadReapQueue_micro (t : ThreadRef) (s : Sched) :
    MicroSteps π s (leaveThreadReapQueue t s) := by
  unfold leaveThreadReapQueue
  split
  · exact MicroSteps.thread rfl rfl
  · exact .refl

theorem unlinkJoin_micro (p : ProcessRef) (t : ThreadRef) (s : Sched) :
    MicroSteps π s (unlinkJoin p t s) := by
  unfold unlinkJoin
  repeat' split
  · exact (MicroSteps.thread rfl rfl)
  · exact .refl
  · exact .refl

/-! ## Reclamation -/

theorem threadDestroy_micro (h : threadActive s t = false) :
    MicroSteps π s (threadDestroy t s) := by
  unfold threadDestroy
  dsimp only
  split
  · exact MicroSteps.other rfl
  · exact MicroSteps.tail (Micro.steps (.process s _ _ rfl List.erase_subset fun _ => .inl))
      (.free _ t (.inr (.inl h)))

theorem clearParents_micro (ps : List ProcessRef) (s : Sched) :
    MicroSteps π s (clearParents ps s) := by
  induction ps generalizing s with
  | nil => exact .refl
  | cons child rest ih => exact (MicroSteps.process rfl rfl rfl (.inr rfl)).trans (ih _)

theorem freeThreads_micro (ts : List ThreadRef) (s : Sched)
    (hts : ts ⊆ (s.process p).threads) (hp : processActive s p = false) :
    MicroSteps π s (freeThreads ts s) := by
  induction ts generalizing s with
  | nil => exact .refl
  | cons t rest ih =>
    have ht : t ∈ (s.process p).threads := hts (List.mem_cons_self ..)
    exact (Micro.free s t (.inr (.inr ⟨p, ht, hp⟩))).steps.trans
      (ih (freeThread t s) (List.subset_of_cons_subset hts) hp)

/-- The processors' records decide whether a process is active. -/
theorem processActive_congr (hcpu : s'.cpu = s.cpu) (hcount : s'.cpuCount = s.cpuCount)
    (p : ProcessRef) : processActive s' p = processActive s p := by
  rw [processActive, processActive, hcpu, hcount]

/-- Small changes do not touch the processors' records. -/
theorem MicroSteps.cpu_eq (h : MicroSteps π s s') : s'.cpu = s.cpu ∧ s'.cpuCount = s.cpuCount :=
  h.lift (R := fun s s' => s'.cpu = s.cpu ∧ s'.cpuCount = s.cpuCount) (fun _ => ⟨rfl, rfl⟩)
    (fun h h' => ⟨h'.1.trans h.1, h'.2.trans h.2⟩) fun h => by
      cases h with
      | other _ h => exact ⟨congrArg SchedCore.cpu h, congrArg SchedCore.cpuCount h⟩
      | _ => exact ⟨rfl, rfl⟩

theorem leaveParent_micro (p : ProcessRef) (s : Sched) : MicroSteps π s (leaveParent p s) := by
  unfold leaveParent
  split
  · exact (MicroSteps.process rfl rfl rfl (.inl rfl)).trans
      (MicroSteps.process rfl rfl rfl (.inr rfl))
  · exact .refl

theorem processDestroy_micro (hp : processActive s p = false) :
    MicroSteps π s (processDestroy p s) := by
  unfold processDestroy
  dsimp only
  have hclear := (leaveParent_micro (π := π) p s).trans
    (clearParents_micro ((leaveParent p s).process p).children _)
  generalize clearParents ((leaveParent p s).process p).children (leaveParent p s) = u
    at hclear ⊢
  have hu : processActive u p = false :=
    (processActive_congr hclear.cpu_eq.1 hclear.cpu_eq.2 p).trans hp
  have hfree := hclear.trans (freeThreads_micro _ u (List.Subset.refl _) hu)
  exact hfree.tail (.destroy _ p ((processActive_congr hfree.cpu_eq.1 hfree.cpu_eq.2 p).trans hp))

theorem unregisterProcess_micro (p : ProcessRef) (s : Sched) :
    MicroSteps π s (unregisterProcess p s) :=
  (Micro.unregister s p).steps

theorem reapThreadsLoop_micro (ts : List ThreadRef) (s : Sched) :
    MicroSteps π s (reapThreadsLoop ts s).1 := by
  induction ts generalizing s with
  | nil => exact .refl
  | cons t rest ih =>
    have hpop : MicroSteps π s (popThreadReapQueue t rest s) := MicroSteps.thread rfl rfl
    refine hpop.trans ?_
    unfold reapThreadsLoop
    dsimp only
    split
    · dsimp only
      exact MicroSteps.thread rfl rfl
    · next hact => exact (threadDestroy_micro (Bool.eq_false_iff.mpr hact)).trans (ih _)

theorem reapProcessesLoop_micro (ps : List ProcessRef) (s : Sched) :
    MicroSteps π s (reapProcessesLoop ps s) := by
  induction ps generalizing s with
  | nil => exact .refl
  | cons p rest ih =>
    have hpop : MicroSteps π s (({ s with reapQueue := rest } : Sched).modProcess p
        ({ · with reapQueued := false })) := MicroSteps.process rfl rfl rfl (.inl rfl)
    refine hpop.trans ?_
    unfold reapProcessesLoop
    dsimp only
    split
    · exact MicroSteps.process rfl rfl rfl (.inl rfl)
    · next hact =>
      refine ((unregisterProcess_micro p _).trans (processDestroy_micro ?_)).trans (ih _)
      exact Bool.eq_false_iff.mpr hact

theorem schedulerReapDeferred_micro (s : Sched) : MicroSteps π s (schedulerReapDeferred s) := by
  have hthreads := reapThreadsLoop_micro (π := π) s.threadReapQueue s
  unfold schedulerReapDeferred
  split
  · next heq => rw [heq] at hthreads; exact hthreads
  · next heq => rw [heq] at hthreads; exact hthreads.trans (reapProcessesLoop_micro _ _)

/-! ## Stopping a process -/

theorem dropJoiner_micro (t : ThreadRef) (s : Sched) : MicroSteps π s (dropJoiner t s) := by
  unfold dropJoiner
  split
  · exact (MicroSteps.thread rfl rfl).trans (MicroSteps.thread rfl rfl)
  · exact .refl

theorem faultThread_micro (hk : π.kill t) (p : ProcessRef) (status : Int64) (s : Sched) :
    MicroSteps π s (faultThread p status t s) := by
  have hrest := (((unlinkJoin_micro (π := π) p t s).trans (dropJoiner_micro t _)).trans
    (leaveRunQueue_micro t _)).trans (schedulerDetachWait_micro t _)
  unfold faultThread faultZombie
  split
  · exact hrest.tail (.kill _ t _ (.inl hk) ⟨_, rfl⟩)
  · exact hrest

theorem faultThreads_micro (ts : List ThreadRef) (hk : ∀ t ∈ ts, π.kill t) (p : ProcessRef)
    (status : Int64) (s : Sched) : MicroSteps π s (faultThreads p status ts s) := by
  induction ts generalizing s with
  | nil => exact .refl
  | cons t rest ih =>
    exact (faultThread_micro (hk t (List.mem_cons_self ..)) p status s).trans
      (ih (fun u hu => hk u (List.mem_cons_of_mem _ hu)) _)

theorem requestStopThread_micro (hcall : π.call) (t : ThreadRef) (s : Sched) :
    MicroSteps π s (requestStopThread t s) := by
  have hrest := ((leaveRunQueue_micro (π := π) t s).trans (leaveThreadReapQueue_micro t _)).trans
    (schedulerDetachWait_micro t _)
  unfold requestStopThread stopZombie
  split
  · next h => exact hrest.tail (.kill _ t _ (.inr ⟨hcall, by simpa using h.1⟩) ⟨_, rfl⟩)
  · exact hrest

theorem requestStopThreads_micro (hcall : π.call) (owner : ThreadRef) (ts : List ThreadRef)
    (s : Sched) : MicroSteps π s (requestStopThreads owner ts s) := by
  induction ts generalizing s with
  | nil => exact .refl
  | cons t rest ih =>
    unfold requestStopThreads
    split
    · exact ih s
    · exact (requestStopThread_micro hcall t s).trans (ih _)

theorem discardThread_micro (hk : π.kill t) (p : ProcessRef) (s : Sched) :
    MicroSteps π s (discardThread p t s) := by
  have hrest := (((leaveRunQueue_micro (π := π) t s).trans (leaveThreadReapQueue_micro t _)).trans
    (schedulerDetachWait_micro t _)).trans (unlinkJoin_micro p t _)
  unfold discardThread
  exact ((hrest.tail (.process _ p _ rfl List.erase_subset fun _ => .inl)).trans
    (MicroSteps.thread rfl rfl)).tail (.free _ t (.inl hk))

theorem discardThreads_micro (p : ProcessRef) (current : ThreadRef) (ts : List ThreadRef)
    (hk : ∀ t ∈ ts, t ≠ current → π.kill t) (s : Sched) :
    MicroSteps π s (discardThreads p current ts s) := by
  induction ts generalizing s with
  | nil => exact .refl
  | cons t rest ih =>
    have hrest := ih (fun u hu => hk u (List.mem_cons_of_mem _ hu))
    unfold discardThreads
    split
    · exact hrest s
    · next hne =>
      exact (discardThread_micro (hk t (List.mem_cons_self ..) hne) p s).trans (hrest _)

end RiscMv.Kernel
