import RiscMv.Spec.Outcome

/-!
# The outcome of system calls and of continued sections

A blocking function gives up the processor with its thread saved and `BLOCKED`
(`Left.block`), or finds nothing to wait for and runs on (`waiterRuns_busy`).  `callRules` is what
the walk through the system calls needs of their pieces.

## Key results
- `kernelSyscallDispatch_outcome`, `trapHandler_outcome`
- `idleWake_outcome`, `rendezvousSection_outcome`, `resumedSection_outcome`
-/

namespace RiscMv.Kernel

variable {π : Perm} {e : Env} {c : CpuId} {t n : ThreadRef} {p : ProcessRef}
  {s s' : Sched} {x y : Sect} {fp : StackAddr}

/-! ## Blocking -/

/-- The section's thread becomes `BLOCKED`. -/
theorem Left.block {f : KernelThread → KernelThread} (hcall : π.call) (h : Serving π e t x y)
    (home : SameHome (y.sched.thread t) (f (y.sched.thread t)))
    (hq : (f (y.sched.thread t)).queued = (y.sched.thread t).queued)
    (hctx : (f (y.sched.thread t)).ctx = x.frame.toContext)
    (hb : (f (y.sched.thread t)).state = .blocked)
    (hreq : ∀ pid, (f (y.sched.thread t)).blockedIn = some (.waitpid pid) →
      (f (y.sched.thread t)).waitPid = pid) :
    Left π e t x (y.modThread t f).sched where
  acts := h.acts.tail (.self _ f home hq fun _ _ => hreq)
  pinned := h.ready.toPinned.self home hq
  last := h.last
  signals := h.signals
  parked := by
    have hnot := h.ready.notWaiting
    simp only [KernelThread.Waiting, not_or, Bool.not_eq_true] at hnot
    refine .blocked hcall ?_ ?_ ?_ <;> simp only [Sect.modThread, Sect.on, modThread_thread_self]
    · exact hctx
    · exact hb
    · exact hq.trans hnot.2.2

/-- Changes outside the core of the thread keep it parked. -/
theorem Left.inert (h : Left π e t x s) (hm : MicroSteps π s s')
    (hcore : (s'.thread t).core = (s.thread t).core) (hlast : s'.lastUser = s.lastUser) :
    Left π e t x s' where
  acts := h.acts.trans hm.acts
  pinned := hm.pinned h.pinned
  last := by rw [hlast]; exact h.last
  signals p := (hm.signals_eq p).trans (h.signals p)
  parked := by
    have hctx : (s'.thread t).ctx = (s.thread t).ctx := congrArg ThreadCore.ctx hcore
    have hstate : (s'.thread t).state = (s.thread t).state := congrArg ThreadCore.state hcore
    have hq : (s'.thread t).queued = (s.thread t).queued := congrArg ThreadCore.queued hcore
    rcases h.parked with hw | ⟨hR, hc, hr⟩ | ⟨hcall, hc, hb, hq'⟩ | hm
    · exact .finished (by simpa only [KernelThread.Waiting, hstate, hq] using hw)
    · exact .yielded hR (hctx.trans hc) (hstate.trans hr)
    · exact .blocked hcall (hctx.trans hc) (hstate.trans hb) (hq.trans hq')
    · exact .waited (hm.trans (by rw [hlast]; exact (Inert.of_core hcore).threadMoves _))

theorem enterWaitQueue_left (hcall : π.call) (h : Serving π e t x y)
    (hctx : (y.sched.thread t).ctx = x.frame.toContext) (q : WaitQueue) (ticks : UInt64)
    (timeoutResult : Int64) :
    Left π e t x (enterWaitQueue t q ticks timeoutResult y.sched) := by
  have hqueue := h.trans (Serving.micro (f := fun s =>
    { s with
      waiters := Function.update s.waiters q (s.waiters q ++ [t])
      rings := s.rings.pushBack (.wait q) t }) h.ready
    (MicroSteps.other rfl))
  have hblock := Left.block (f := fun th => { th with
      state := .blocked, waitQueue := some q, blockedIn := some (.queue q) })
    hcall hqueue ⟨rfl, rfl, rfl⟩ rfl hctx rfl nofun
  unfold enterWaitQueue
  dsimp only
  split
  · refine hblock.inert (MicroSteps.thread rfl rfl) ?_ rfl
    simp [KernelThread.core, Sect.on, Sect.modThread]
  · exact hblock

/-- With no thread for this processor in the run queue, the waiting thread runs on. -/
theorem waiterRuns_busy (hacts : Acts π e t x.sched y.sched) (hpin : Pinned e.cpu t y.sched)
    (hlast : y.sched.lastUser t = x.sched.lastUser t)
    (hsignals : ∀ p, (y.sched.process p).signals = (x.sched.process p).signals)
    (hf : y.frame = x.frame) (hptbr : y.ptbr = x.ptbr)
    (hq : (y.sched.thread t).queued = false) : Busy π e t x (waiterRuns e t y) where
  acts := (hacts.setCurrent (some t)).tail
    (.self _ ({ · with state := .running }) ⟨rfl, rfl, rfl⟩ rfl fun _ => nofun)
  ready := by
    refine ⟨Pinned.self (s := setCurrent e (some t) y.sched) (f := ({ · with state := .running }))
      ⟨hpin.online, hpin.listed, hpin.affinity, ⟨hpin.queue.nodup, hpin.queue.queued⟩⟩
      ⟨rfl, rfl, rfl⟩ rfl, ?_, ?_, ?_⟩
    · simp [waiterRuns, Sect.modThread, Sect.on, setCurrent, Sched.current, Sched.modCpu]
    · simp [waiterRuns, Sect.modThread, Sect.on, setCurrent, Sched.modCpu]
    · simp [waiterRuns, Sect.modThread, Sect.on, setCurrent, Sched.modCpu, KernelThread.Waiting,
        hq]
  frame := hf
  ptbr := hptbr
  last := hlast
  signals := hsignals
  state := .inr (by simp [waiterRuns, Sect.modThread, Sect.on])

/-- A pinned thread that no run queue entry for this processor names is not queued. -/
theorem Pinned.not_queued (h : Pinned c t s)
    (hall : Vacant c s) :
    (s.thread t).queued = false := by
  by_contra hq
  exact hall t ((h.queue.queued t).mpr (by simpa using hq)) h.affinity

theorem Left.waiterRuns (h : Left π e t x y.sched) (hf : y.frame = x.frame)
    (hptbr : y.ptbr = x.ptbr)
    (hall : Vacant e.cpu y.sched) :
    Busy π e t x (Kernel.waiterRuns e t y) :=
  waiterRuns_busy h.acts h.pinned h.last h.signals hf hptbr (h.pinned.not_queued hall)

/-- `scheduler_detach_wait` keeps the thread out of the run queue. -/
theorem schedulerDetachWait_queued (t : ThreadRef) (s : Sched) :
    ((schedulerDetachWait t s).thread t).queued = (s.thread t).queued := by
  unfold schedulerDetachWait leaveTimeoutQueue leaveWaitQueue
  repeat' split
  all_goals simp [Sched.modThread]

theorem Left.detached (h : Left π e t x y.sched) (hf : y.frame = x.frame)
    (hptbr : y.ptbr = x.ptbr)
    (hall : Vacant e.cpu y.sched) :
    Busy π e t x (Kernel.waiterRuns e t (y.on (schedulerDetachWait t))) := by
  have hdetach := schedulerDetachWait_micro (π := π) t y.sched
  have hlast := (schedulerDetachWait_micro (π := .nothing) t y.sched).lastUser_eq fun _ => id
  refine waiterRuns_busy (h.acts.trans hdetach.acts) (hdetach.pinned h.pinned) ?_
    (fun p => (hdetach.signals_eq p).trans (h.signals p)) hf hptbr ?_
  · simp only [Sect.on, hlast]
    exact h.last
  · exact (schedulerDetachWait_queued t y.sched).trans (h.pinned.not_queued hall)

/-- The waiting thread itself was woken: it goes on. -/
theorem Left.redispatch (h : Left π e t x y.sched) (hf : y.frame = x.frame)
    (hptbr : y.ptbr = x.ptbr) (hd : Dequeue e t y.sched s') :
    Busy π e t x ({ y with sched := s' }.on (setCurrent e (some t))) where
  acts := (h.acts.tail (.redispatch hd h.pinned.affinity)).setCurrent (some t)
  ready := by
    have hqueue := hd.runQueueOk h.pinned.queue
    obtain ⟨queue, _, _, _, rfl⟩ := hd.eq
    refine ⟨⟨h.pinned.online, ?_, ?_, ⟨hqueue.nodup, hqueue.queued⟩⟩, ?_, ?_, ?_⟩
    · simpa [Sect.on, setCurrent, Sched.modCpu] using h.pinned.listed
    · simp [Sect.on, setCurrent, Sched.modCpu]
    · simp [Sect.on, setCurrent, Sched.modCpu, Sched.current]
    · simp [Sect.on, setCurrent, Sched.modCpu]
    · simp [Sect.on, setCurrent, Sched.modCpu, KernelThread.Waiting]
  frame := hf
  ptbr := hptbr
  last := by
    simp only [Sect.on, setCurrent, Sched.modCpu, hd.lastUser]
    exact h.last
  signals p := by
    obtain ⟨queue, _, _, _, rfl⟩ := hd.eq
    exact h.signals p
  state := by
    obtain ⟨queue, _, _, _, rfl⟩ := hd.eq
    exact .inr (by simp [Sect.on, setCurrent, Sched.modCpu])

theorem blockKernelSwitch_outcome (hcall : π.call) (h : Left π e t x y.sched)
    (hd : Dequeue e n y.sched s') (hne : n ≠ t) (hf : y.frame = x.frame) (depth : Nat) :
    Outcome π e t x
      (blockKernelSwitch t n depth ({ y with sched := s' }.on (setCurrent e (some n)))) := by
  have hsp : (({ y with sched := s' }.on (setCurrent e (some n))).sched.thread n).kernelResumeSp =
      (y.sched.thread n).kernelResumeSp := hd.resumeSp
  unfold blockKernelSwitch
  rw [hsp]
  split
  · next hn =>
    refine .switch depth hcall h hd hne hn ?_ (by simpa [Sect.modThread, Sect.on] using hf)
    simp [Sect.modThread, Sect.on]
  · next hn => exact .suspend depth hcall h hd hne hn rfl hf

theorem execStop_outcome (hcall : π.call) (h : Ready e.cpu t x.sched) (image : NewImage) :
    Outcome π e t x (execStop e image t x) := by
  let p := (x.sched.thread t).process
  let s := x.sched.modProcess p ({ · with stopOwner := some t, stopRequested := true })
  have hreq : Acts π e t x.sched s := (Act.process _ p _ rfl rfl rfl
    (.inr fun u hu _ => ⟨rfl, fun heq => hu (Option.some.inj heq).symm⟩) .inl).acts
  have hready : Ready e.cpu t s := h.process_mod rfl
  have hstop := (requestStopThreads_micro (π := π) hcall t (s.process p).threads s).trans
    (rescheduleOthers_micro e _)
  refine .spin rfl hcall (hstop.moves.home t).process.symm
    ⟨hreq.trans hstop.acts, hstop.ready hready⟩
    rfl ((hstop.moves.thread t nofun).kept hready.not_blocked).2 fun u hu => ?_
  have hsignals : _ = (true, some t) := (congrArg Prod.snd (hstop.signals_eq p)).trans
    (by simp [s, Sched.modProcess, KernelProcess.signals])
  simp only [KernelProcess.signals, Prod.mk.injEq] at hsignals
  exact ⟨hsignals.1, fun heq => hu (Option.some.inj (heq.symm.trans hsignals.2))⟩

/-- A change of a thread that `t` waits for keeps `t` parked. -/
theorem Left.joins (h : Left π e t x s) (target : ThreadRef) :
    Left π e t x (s.modThread target ({ · with joinWaiter := some t })) :=
  h.inert (Micro.thread _ target _ rfl).steps
    (modThread_proj KernelThread.core rfl t) rfl

/-- The children that a thread collects. -/
theorem Busy.collect {y : Sect} {zombie : ProcessRef} {pid : UInt64} (hπ : π.Calls t)
    (hc : π.Collects t x.sched) (h : Busy π e t x y)
    (hm : schedulerWaitMatches pid (y.sched.process zombie).pid = true) :
    Busy π e t x ((y.on fun s => { s with
      collected := ((y.sched.process zombie).pid, some pid) :: s.collected }).on fun s =>
        schedulerWakeStaleWaiters e (y.sched.thread t).process (y.sched.process zombie).pid
          (schedulerCollectChild (y.sched.thread t).process zombie s)) := by
  have hcollect := (Micro.collectNow (π := π) y.sched (y.sched.process zombie).pid pid hm).steps
  have hdetach := hcollect.trans (schedulerCollectChild_micro (y.sched.thread t).process zombie _)
  have hwatch := hdetach.watches (h.ready.watches (h.acts.collects hc))
  exact h.trans (.micro (f := fun s => schedulerWakeStaleWaiters e (y.sched.thread t).process
    (y.sched.process zombie).pid (schedulerCollectChild (y.sched.thread t).process zombie
      { s with collected := ((y.sched.process zombie).pid, some pid) :: s.collected })) h.ready
    (hdetach.trans (schedulerWakeStaleWaiters_micro (hπ.wake _) _ hwatch)) hπ.kill)

/-- The pieces of a system call, as work for its thread. -/
theorem callRules (fp : StackAddr) (hπ : π.Calls t) (hX : π.MayExit t x.sched) :
    CallRules e fp t (Busy π e t x)
      (fun y => Left π e t x y.sched ∧ y.frame = x.frame ∧ y.ptbr = x.ptbr) (Outcome π e t x)
      π.load (π.Collects t x.sched) where
  current h hu := Option.some.inj (hu.symm.trans h.ready.current)
  self _ h hf := h.trans (.self h.ready hf.home (congrArg Prod.fst hf.flags) hf.state)
  unjoin u h := h.trans (.micro h.ready (Micro.thread _ u _ rfl).steps hπ.kill)
  reap h := h.trans (.micro h.ready (schedulerReapDeferred_micro _) hπ.kill)
  queueReap u h := h.trans (.micro h.ready (schedulerQueueThreadReap_micro u _) hπ.kill)
  wakeGate h := h.trans (.micro (f := fun s => (waitQueueWakeOne e .gate 0 s).1) h.ready
    (waitQueueWakeOne_micro (hπ.wake _) .gate 0 _) hπ.kill)
  collect hc _ _ _ h _ hm _ := h.collect hπ hc hm
  finish result h := .after h (syscallFinish_outcome hπ h.ready (h.mayExit hX) result)
  stop image h := .after h (execStop_outcome hπ.call h.ready image)
  block q ticks timeoutResult h _ hctx _ :=
    ⟨enterWaitQueue_left hπ.call h.toServing (hctx.trans (congrArg _ h.frame)) q ticks
      timeoutResult, h.frame, h.ptbr⟩
  waitChild h _ hctx _ _ := ⟨.block hπ.call h.toServing ⟨rfl, rfl, rfl⟩ rfl
    (hctx.trans (congrArg _ h.frame)) rfl
    fun _ hpid => BlockReason.waitpid.inj (Option.some.inj hpid), h.frame, h.ptbr⟩
  waitThread target h _ hctx := ⟨.joins (.block hπ.call h.toServing ⟨rfl, rfl, rfl⟩ rfl
    (hctx.trans (congrArg _ h.frame)) rfl fun _ hpid => by cases hpid) target, h.frame, h.ptbr⟩
  next hl _ _ _ h hd := h.1.load hl (some t) h.2.1 hd
  switch depth h hd hne := blockKernelSwitch_outcome hπ.call h.1 hd hne h.2.1 depth
  again h hd := h.1.redispatch h.2.1 h.2.2 hd
  turn h hs := ⟨h.1.turn hs, h.2⟩
  idle {_ q} h hq _ := by
    cases q with
    | exit => cases hq
    | fault => cases hq
    | _ => exact h.1.idle h.2.1 (Option.some.inj hq) hπ.call
  runs h hall _ := h.1.waiterRuns h.2.1 h.2.2 hall
  detach h hall _ := h.1.detached h.2.1 h.2.2 hall

/-! ## yield -/

theorem kernelSchedulerYield_outcome (hπ : π.Calls t) (hR : π.quiet) (hl : π.load)
    (h : Ready e.cpu t x.sched) :
    Outcome π e t x (kernelSchedulerYield e x) := by
  unfold kernelSchedulerYield
  split
  · exact .kept hR (.refl h)
  · next previous hprev =>
    obtain rfl := h.currentSpace hprev
    have hreap := Busy.micro h (schedulerReapDeferred_micro x.sched) hπ.kill
    exact .after hreap (schedulerReschedule_outcome (hπ.wake _) hR hl hreap.ready)

/-! ## Dispatch -/

theorem currentSpace_syscallEnter (h : Ready e.cpu t x.sched) :
    currentSpace e (syscallEnter e fp x).sched = currentSpace e x.sched := by
  have hc : (syscallEnter e fp x).sched.current e.cpu = some t := by
    rw [(syscallEnter_busy (π := .nothing) h fp).ready.current]
  unfold currentSpace
  rw [hc, h.current]
  simp [syscallEnter, h.current, Sect.modThread, Sect.on, Sched.modThread]

theorem currentSpace_syscallLeave (h : Ready e.cpu t x.sched) :
    currentSpace e (syscallLeave e fp x).sched = currentSpace e x.sched := by
  have hc : (syscallLeave e fp x).sched.current e.cpu = some t := by
    rw [(syscallLeave_busy (π := .nothing) h fp).ready.current]
  unfold currentSpace
  rw [hc, h.current]
  simp only [syscallLeave, h.current]
  split <;> simp [Sect.modThread, Sect.on, Sched.modThread]

/-- Whether a system call of `t` may return without a result: yield does, and so does a
    thread that has to terminate or no longer runs. -/
def quietSyscall (e : Env) (t : ThreadRef) (x : Sect) : Prop :=
  ¬ (x.sched.process (x.sched.thread t).process).Stops t ∧
    (x.frame.registers 0 = 3 ∨ currentSpace e x.sched = none ∨
      (x.sched.process (x.sched.thread t).process).faulted = true)

theorem stopCurrent_none (h : Ready e.cpu t x.sched) (hs : stopCurrent e x = none) :
    ¬ (x.sched.process (x.sched.thread t).process).Stops t := by
  unfold stopCurrent at hs
  rw [h.current] at hs
  dsimp only at hs
  split at hs
  · next hno => simpa [KernelProcess.Stops, or_iff_not_imp_left] using hno
  · cases hs

/-- The threads told about the end of the process of `t`: those of its parent, and those of the
    init process, which adopts orphans. -/
def ParentThread (t : ThreadRef) (s : Sched) (u : ThreadRef) : Prop :=
  u ≠ t ∧ ∃ q, ((s.process (s.thread t).process).parent = some q ∨ s.initProcess = some q) ∧
    u ∈ (s.process q).threads

/-- The other threads of the process of `t`. -/
def SiblingThread (t : ThreadRef) (s : Sched) (u : ThreadRef) : Prop :=
  u ≠ t ∧ u ∈ (s.process (s.thread t).process).threads

theorem kernelSyscallDispatch_outcome (hπ : π.Calls t) (h : Ready e.cpu t x.sched)
    (script : Script) (hR : quietSyscall e t x → π.quiet) (hl : loadSyscall script x → π.load)
    (hexit : x.frame.registers 0 = 0 → π.Notifies t x.sched)
    (hwait : x.frame.registers 0 ∈ [5, 6] → π.Collects t x.sched)
    (hX : ¬ (x.sched.process (x.sched.thread t).process).Stops t → π.MayExit t x.sched) :
    Outcome π e t x (kernelSyscallDispatch e fp script x) := by
  cases hstop : stopCurrent e x with
  | some y =>
    unfold kernelSyscallDispatch
    rw [hstop]
    exact stopCurrent_outcome h hstop
  | none =>
    have hns := stopCurrent_none h hstop
    cases hspace : currentSpace e x.sched with
    | none =>
      unfold kernelSyscallDispatch
      rw [hstop, hspace]
      exact .kept (hR ⟨hns, .inr (.inl hspace)⟩) (.refl h)
    | some u =>
      have rules := callRules (e := e) fp hπ (hX hns)
      have hleave := rules.leave (rules.enter (.refl h))
      have hsome : currentSpace e (syscallLeave e fp (syscallEnter e fp x)).sched = some u := by
        rw [currentSpace_syscallLeave (syscallEnter_busy (π := π) h fp).ready,
          currentSpace_syscallEnter h, hspace]
      refine rules.dispatch (.refl h) hstop hspace hl hwait (fun hn status => ?_) fun hn => ?_
      · exact .after hleave (kernelSchedulerExit_outcome hπ (hleave.acts.notifies (hexit hn))
          (hl (.inl (by simp [hn]))) hleave.ready (by simp [hsome]) status)
      · exact .after hleave (kernelSchedulerYield_outcome hπ (hR ⟨hns, .inl hn⟩)
          (hl (.inl (by simp [hn]))) hleave.ready)

/-- Whether the handler of a trap may return without a result. -/
def quietTrap (e : Env) (k : TrapKind) (t : ThreadRef) (x : Sect) : Prop :=
  k.isSyscall = true → quietSyscall e t x

/-- Whether the handler of a trap may load another thread. -/
def loadTrap (k : TrapKind) (script : Script) (t : ThreadRef) (x : Sect) : Prop :=
  match k with
  | .syscall => loadSyscall script x ∨
      (x.sched.process (x.sched.thread t).process).faulted = true
  | .timer | .ipi => True
  | .exception _ _ _ | .device => False

/-- The threads that the handler of a trap may wake because of a child: exit may complete the
    process, as may any system call of a faulted process, and wait and waitpid may collect a
    child. -/
def childTrap (k : TrapKind) (t : ThreadRef) (x : Sect) (u : ThreadRef) : Prop :=
  match k with
  | .syscall =>
    (x.frame.registers 0 = 0 ∨ (x.sched.process (x.sched.thread t).process).faulted = true) ∧
        ParentThread t x.sched u ∨
      x.frame.registers 0 ∈ [5, 6] ∧ SiblingThread t x.sched u
  | _ => False

theorem trapHandler_outcome {k : TrapKind} {script : Script}
    (hπ : k.isException = false → π.Allows t) (hcall : k.isSyscall = true → π.call)
    (hk : k.isException = true → stopCurrent e x = none → currentSpace e x.sched = some t →
      π.fault ∧ ∀ u ∈ (x.sched.process (x.sched.thread t).process).threads, π.kill u)
    (hR : quietTrap e k t x → π.quiet) (hl : loadTrap k script t x → π.load)
    (hc : ∀ u, childTrap k t x u → π.child u) (h : Ready e.cpu t x.sched) (event : DeviceEvent) :
    Outcome π e t x (trapHandler e k fp script event x) := by
  cases k with
  | syscall =>
    exact kernelSyscallDispatch_outcome ⟨hπ rfl, hcall rfl⟩ h script (fun hq => hR fun _ => hq)
      (fun hs => hl (.inl hs))
      (fun hn q hq u hu hut => hc u (.inl ⟨.inl hn, hut, q, hq, hu⟩))
      (fun hn u hu hut => hc u (.inr ⟨hn, hut, hu⟩))
      fun hns hf => ⟨fun q hq u hu hut => hc u (.inl ⟨.inr hf, hut, q, hq, hu⟩),
        hR fun _ => ⟨hns, .inr (.inr hf)⟩, hl (.inr hf)⟩
  | exception cause address info =>
    exact kernelExceptionDispatch_outcome h (hk rfl) cause address info
  | timer => exact kernelSchedulerTimer_outcome (hπ rfl) (hR nofun) (hl trivial) h
  | device => exact kernelDevicesInterrupt_outcome (hπ rfl) (hR nofun) h event
  | ipi => exact kernelSchedulerIpi_outcome (hπ rfl) (hR nofun) (hl trivial) h

/-! ## Continued sections -/

theorem idleWake_outcome {q : Pending} (hπ : π.Allows t) (hcall : q.Allowed π)
    (hl : q.loads = true → π.load) (hq : q.waiter = t) (hpin : Pinned e.cpu t x.sched)
    (hX : π.MayExit t x.sched) :
    Outcome π e t x (idleWake e fp q x) := by
  have hreap := schedulerReapDeferred_micro (π := π) (idleLeave e x.sched)
  have hlast := (schedulerReapDeferred_micro (π := .nothing) (idleLeave e x.sched)).lastUser_eq
    fun _ => id
  have hpin' : Pinned e.cpu t (idleLeave e x.sched) :=
    ⟨hpin.online, hpin.listed, hpin.affinity, ⟨hpin.queue.nodup, hpin.queue.queued⟩⟩
  have hleft : Left π e t x (x.on fun s => schedulerReapDeferred (idleLeave e s)).sched :=
    { acts := (Act.cpu x.sched _).acts.trans hreap.acts
      pinned := hreap.pinned hpin'
      last := by simp only [Sect.on, hlast]; rfl
      signals := hreap.signals_eq
      parked := .waited (hreap.moves.thread t nofun) }
  subst hq
  cases q with
  | exit w | fault w => exact exitDequeued_outcome (hl rfl) rfl hcall hleft rfl
  | _ => exact (callRules fp ⟨hπ, hcall⟩ hX).pending rfl hl ⟨hleft, rfl, rfl⟩

theorem resumedSection_outcome {k : Kont} {script : Script} (hπ : π.Calls t)
    (hl : script.blocksCurrent = true → π.load) (hk : k.waiter = t)
    (h : Ready e.cpu t x.sched)
    (hX : π.MayExit t x.sched) :
    Outcome π e t x (resumedSection e k script x) := by
  subst hk
  have hset := Busy.self (π := π) (f := ({ · with kernelWaitResult := 0 })) h
    ⟨rfl, rfl, rfl⟩ rfl rfl
  exact (callRules k.framePointer hπ hX).runScript script hl hset

theorem execRendezvous_outcome (hπ : π.Allows t) (hclear : π.clear)
    (hk : ∀ u ∈ (x.sched.process p).threads, u ≠ t → π.kill u) (h : Ready e.cpu t x.sched)
    (hp : (x.sched.thread t).process = p) (image : NewImage) :
    Outcome π e t x (execRendezvous e fp t p image x) := by
  have hdiscard := discardThreads_micro (π := π) p t (x.sched.process p).threads hk x.sched
  have hcount := hdiscard.trans (MicroSteps.process (p := p)
    (f := ({ · with threadCount := 1, liveThreadCount := 1 })) rfl rfl rfl (.inl rfl))
  have hproc : ((schedulerExecDiscardOtherThreads p t x.sched).thread t).process = p :=
    (hcount.moves.home t).process.trans hp
  have hready := hcount.ready h
  change MicroSteps π x.sched (schedulerExecDiscardOtherThreads p t x.sched) at hcount
  change Ready e.cpu t (schedulerExecDiscardOtherThreads p t x.sched) at hready
  unfold execRendezvous
  dsimp only [Sect.on]
  generalize schedulerExecDiscardOtherThreads p t x.sched = s at hcount hproc hready ⊢
  have hprocess : Acts π e t x.sched (execProcess p image s) :=
    hcount.acts.tail (.process s p _ hproc rfl rfl (.inl hclear) nofun)
  have hready : Ready e.cpu t (execProcess p image s) := hready.process_mod rfl
  generalize execProcess p image s = s at hprocess hready ⊢
  have hthread : Acts π e t x.sched (execThread t image s) :=
    hprocess.tail (.self s _ ⟨rfl, rfl, rfl⟩ rfl fun _ => nofun)
  have hready : Ready e.cpu t (execThread t image s) :=
    hready.self ⟨rfl, rfl, rfl⟩ rfl (by
      rintro (hw | hw | hw)
      · cases hw
      · cases hw
      · exact hready.notWaiting (.inr (.inr hw)))
  have hrunning : ((execThread t image s).thread t).state = .running := by simp [execThread]
  generalize execThread t image s = s at hthread hready hrunning ⊢
  have hspace : Acts π e t x.sched
      (destroySpace (x.sched.process p).addressSpace (execHistory t image s)) :=
    (hthread.tail (.history s _)).tail (.destroySpace _ _ hclear)
  have hready : Ready e.cpu t
      (destroySpace (x.sched.process p).addressSpace (execHistory t image s)) :=
    ⟨⟨hready.online, hready.listed, hready.affinity, ⟨hready.queue.nodup, hready.queue.queued⟩⟩,
      hready.current, hready.process, hready.notWaiting⟩
  have hlast : (destroySpace (x.sched.process p).addressSpace (execHistory t image s)).lastUser t =
      ⟨image.startContext, false, none⟩ := by simp [destroySpace, execHistory]
  have hrunning : ((destroySpace (x.sched.process p).addressSpace
      (execHistory t image s)).thread t).state = .running := hrunning
  generalize destroySpace (x.sched.process p).addressSpace (execHistory t image s) = s
    at hspace hready hlast hrunning ⊢
  let y : Sect := ⟨s, execFrame image x.frame, image.addressSpace, kernelStackTop t⟩
  have hwake := Busy.micro (π := π) (x := y)
    (f := fun s => (waitQueueWakeOne e .gate 0 (rescheduleOthers e s)).1) hready
    ((rescheduleOthers_micro e s).trans (waitQueueWakeOne_micro (hπ.wake _) .gate 0 _)) hπ.kill
  have hleave := hwake.trans (syscallLeave_busy hwake.ready fp)
  refine .exec image.startContext hclear ⟨hspace.trans hleave.acts, hleave.ready⟩
    (congrArg TrapFrame.toContext hleave.frame) ⟨congrArg (·.flags.userMode) hleave.frame,
      congrArg (·.flags.exceptionFrame) hleave.frame⟩ (hleave.last.trans hlast) ?_
  rcases hleave.state with ⟨_, hs⟩ | hs
  · exact hs.trans hrunning
  · exact hs

end RiscMv.Kernel
