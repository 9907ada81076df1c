import RiscMv.Spec.SyscallOutcome
import RiscMv.Spec.TidyStops

/-!
# Sections keep the scheduler tidy

If a section starts in a tidy state for a thread that runs, it ends in a tidy state; for system
calls, this is `tidyRules`.  A section that works for a running thread finds the process of the
thread neither ended nor faulted, so the paths for those cases are not taken.

## Key results
- `trapHandler_tidy`, `idleWake_tidy`, `execRendezvous_tidy`, `faultRendezvous_tidy`,
  `resumedSection_tidy`
-/

namespace RiscMv.Kernel

variable {w : Prop} {e : Env} {c : CpuId} {t n : ThreadRef} {p : ProcessRef} {s s' : Sched}
  {x y : Sect} {fp : StackAddr} {π : Perm} {f : KernelThread → KernelThread} {X : ProcessRef → Prop}
  {q : Pending}

/-- A processor works for `t`, which runs, in a tidy state. -/
structure Serves (w : Prop) (c : CpuId) (t : ThreadRef) (s : Sched) : Prop
    extends Ready c t s where
  running : (s.thread t).state = .running
  tidy : Tidy noProcess w s

theorem Serves.active (h : Serves w c t s) : (s.thread t).state.isActive = true := by
  rw [h.running]
  rfl

/-- The process of a thread that takes part in scheduling goes on. -/
theorem Tidy.not_over (h : Tidy X w s) (ha : (s.thread t).state.isActive = true) :
    ¬ (s.process (s.thread t).process).Over :=
  fun ho => ThreadState.not_isActive (h.ends _ ho t (h.member t ha)) ha

theorem Tidy.not_faulted (h : Tidy X w s) (ha : (s.thread t).state.isActive = true) :
    (s.process (s.thread t).process).faulted = false :=
  Bool.eq_false_iff.mpr fun hf => h.not_over ha (.inr hf)

/-- Code that works for other threads leaves the served one alone. -/
theorem Serves.micro (h : Serves w c t s) (hm : MicroSteps π s s') (hk : ¬ π.kill t)
    (htidy : Tidy noProcess w s') : Serves w c t s' :=
  ⟨hm.ready h.toReady, (hm.state_eq h.toReady hk).trans h.running, htidy⟩

/-- A change of the served thread outside what matters. -/
theorem Serves.modThread (h : Serves w c t x.sched)
    (hf : Neutral (x.sched.thread t) (f (x.sched.thread t))) :
    Serves w c t (x.modThread t f).sched := by
  have hrun := hf.state.trans h.running
  have hflags := hf.flags
  simp only [KernelThread.flags, Prod.mk.injEq] at hflags
  obtain ⟨hq, _, hwait, hreap⟩ := hflags
  have hok := h.tidy.status t
  have hready : Ready c t (x.sched.modThread t f) := by
    refine h.toReady.self hf.home hq ?_
    simpa only [KernelThread.Waiting, hf.state, hq] using h.notWaiting
  refine ⟨hready, by simpa [Sect.modThread, Sect.on] using hrun,
    h.tidy.toQueuesOk.modThread hf.flags ?_, h.tidy.toLives.modThread hf.home.process ?_ ?_,
    h.tidy.toKin.modThread, fun hw => (h.tidy.waits hw).modThread_of_ne hf.home.process ?_⟩
  · refine ⟨?_, ?_, ?_⟩
    · rw [hq, hf.state]; exact hok.queued
    · rw [hwait, hf.state]; exact hok.waiting
    · rw [hreap, hf.state]; exact hok.reaped
  · rw [hf.state]
  · rw [hf.state]; exact id
  · rw [hrun]; exact ThreadState.noConfusion

theorem Tidy.modThread {u : ThreadRef} (h : Tidy noProcess w x.sched)
    (hst : (f (x.sched.thread u)).standing = (x.sched.thread u).standing)
    (hflags : (f (x.sched.thread u)).flags = (x.sched.thread u).flags) :
    Tidy noProcess w (x.modThread u f).sched :=
  h.inert hst hflags

/-- A change outside what matters and outside the processors' records. -/
theorem Serves.congr (h : Serves w c t s) (hs : s'.status = s.status) (hcpu : s'.cpu = s.cpu)
    (hcount : s'.cpuCount = s.cpuCount) : Serves w c t s' := by
  have htidy := h.tidy.congr hs
  simp only [Sched.status, SchedStatus.mk.injEq] at hs
  refine ⟨⟨⟨?_, ?_, ?_, ?_⟩, ?_, ?_, ?_⟩, ?_, htidy⟩
  · rw [hcount]; exact h.online
  · rw [hs.1, hs.2.1]; exact h.listed
  · rw [hs.1]; exact h.affinity
  · exact htidy.toQueuesOk.runQueueOk
  · rw [Sched.current, hcpu]; exact h.current
  · rw [hcpu, hs.1]; exact h.process
  · rw [hs.1]; exact h.notWaiting
  · rw [hs.1]; exact h.running

theorem Serves.reap (h : Serves w c t s) : Serves w c t (schedulerReapDeferred s) :=
  h.micro (schedulerReapDeferred_micro (π := .telling) s) id (schedulerReapDeferred_tidy h.tidy)

theorem Serves.wakeGate (h : Serves w c t s) (e : Env) :
    Serves w c t (waitQueueWakeOne e .gate 0 s).1 :=
  h.micro (waitQueueWakeOne_micro (π := .telling) (e := e) trivial .gate 0 s) id
    ((Tidy.wakes e).wakeOne .gate 0 h.tidy)

/-! ## The end of a system call -/

theorem setCurrent_tidy (h : Tidy noProcess w s) (e : Env) (o : Option ThreadRef) :
    Tidy noProcess w (setCurrent e o s) :=
  h.congr rfl

theorem schedulerSave_serves (h : Serves w c t x.sched) : Serves w c t (schedulerSave t x).sched :=
  h.modThread ⟨⟨rfl, rfl, rfl⟩, rfl, rfl⟩

theorem syscallLeave_tidy (h : Tidy noProcess w x.sched) (e : Env) (fp : StackAddr) :
    Tidy noProcess w (syscallLeave e fp x).sched := by
  unfold syscallLeave
  repeat' split
  · exact h.modThread rfl rfl
  · exact h
  · exact h

/-- A system call of a running thread returns its result. -/
theorem syscallFinish_tidy (h : Serves w e.cpu t x.sched) (fp : StackAddr) (result : Int64) :
    Tidy noProcess w (syscallFinish e fp result x).1.sched := by
  have hnone : terminationRequested e x.sched = none := by
    unfold terminationRequested
    rw [h.current]
    simp [h.tidy.not_faulted h.active]
  have hstore : Tidy noProcess w (storeResult e result x).sched := by
    unfold storeResult
    dsimp only
    split
    · exact h.tidy.congr rfl
    · exact h.tidy
  unfold syscallFinish
  rw [hnone]
  exact syscallLeave_tidy hstore e fp

/-! ## Dispatching the next thread -/

theorem schedulerLoad_tidy (h : Tidy noProcess w y.sched) (previous : Option ThreadRef)
    (n : ThreadRef) : Tidy noProcess w (schedulerLoad previous n y).1.sched := by
  unfold schedulerLoad
  split
  · simp only [switchSpace_sched]
    exact h.modThread rfl rfl
  · simpa only [switchSpace_sched] using h

/-- A thread that runs gives up the processor. -/
theorem schedulerReschedule_tidy (h : Serves w e.cpu t x.sched) :
    Tidy noProcess w (schedulerReschedule e t x).1.sched := by
  have hsave := schedulerSave_serves h
  have hnot := hsave.notWaiting
  simp only [KernelThread.Waiting, not_or, Bool.not_eq_true] at hnot
  have hok := hsave.tidy.status t
  have hyield : Tidy noProcess w
      ((schedulerSave t x).sched.modThread t ({ · with state := .runnable })) := by
    refine hsave.tidy.move ⟨rfl, rfl, rfl, rfl⟩ rfl (by rw [hsave.running]; rfl)
      (fun _ => hsave.active) (fun _ => ThreadState.noConfusion) id (.stay Iff.rfl) (.stay Iff.rfl)
      (fun _ => .stay Iff.rfl) (.stay Iff.rfl) ⟨fun _ => rfl, fun q hq => ?_, fun hr => ?_⟩
    · cases hsave.running.symm.trans (hok.waiting q hq)
    · cases hsave.running.symm.trans (hok.reaped hr)
  have hq : (((schedulerSave t x).modThread t
      ({ · with state := .runnable })).sched.thread t).queued = false := by
    simpa [Sect.modThread, Sect.on] using hnot.2.2
  have hr : (((schedulerSave t x).modThread t
      ({ · with state := .runnable })).sched.thread t).state = .runnable := by
    simp [Sect.modThread, Sect.on]
  unfold schedulerReschedule
  dsimp only
  rw [show (schedulerSave t x).sched.modThread t ({ · with state := .runnable }) =
    ((schedulerSave t x).modThread t ({ · with state := .runnable })).sched from rfl] at hyield
  generalize (schedulerSave t x).modThread t ({ · with state := .runnable }) = y at hyield hq hr ⊢
  have henq : schedulerEnqueue t y.sched = (pushRunQueue t y.sched, true) := by
    simp [schedulerEnqueue, hq, hr]
  have hpush := pushRunQueue_tidy hyield hq hr
  rw [henq]
  dsimp only
  split
  · next heq =>
    exact (schedulerDequeue_none heq).1.tidy hpush
  · next n s' heq =>
    exact schedulerLoad_tidy (setCurrent_tidy ((schedulerDequeue_some heq).tidy hpush) e _) _ n

/-- A blocked thread is found by `scheduler_has_blocked_thread`. -/
theorem Tidy.hasBlockedThread (h : Tidy X w s) (hb : (s.thread t).state = .blocked) :
    schedulerHasBlockedThread s = true := by
  have ha : (s.thread t).state.isActive = true := by rw [hb]; rfl
  unfold schedulerHasBlockedThread
  rw [List.any_eq_true]
  refine ⟨_, h.registered t ha, ?_⟩
  rw [List.any_eq_true]
  exact ⟨t, h.member t ha, by simp [hb]⟩

/-! ## Blocking -/

/-- A processor has given up `t`, which waits or is about to be dispatched again. -/
structure Awaits (w : Prop) (c : CpuId) (t : ThreadRef) (s : Sched) : Prop
    extends Pinned c t s where
  active : (s.thread t).state.isActive = true
  tidy : Tidy noProcess w s

/-- The waiting thread runs on. -/
theorem waiterRuns_serves (h : Awaits w e.cpu t y.sched)
    (hq : (y.sched.thread t).queued = false) (hb : (y.sched.thread t).state ≠ .blocked) :
    Serves w e.cpu t (waiterRuns e t y).sched := by
  have hbusy := waiterRuns_busy (π := .nothing) (x := y) .refl h.toPinned rfl (fun _ => rfl) rfl rfl
    hq
  refine ⟨hbusy.ready, by simp [waiterRuns, Sect.modThread, Sect.on], ?_⟩
  have hcur : Tidy noProcess w (setCurrent e (some t) y.sched) := setCurrent_tidy h.tidy e _
  have hok := h.tidy.status t
  have hrun : Tidy noProcess w
      ((setCurrent e (some t) y.sched).modThread t ({ · with state := .running })) := by
    refine hcur.move ⟨rfl, rfl, rfl, rfl⟩ rfl (ThreadState.isLive_of_isActive h.active).symm
      (fun _ => h.active) (fun _ => ThreadState.noConfusion) id (.stay Iff.rfl) (.stay Iff.rfl)
      (fun _ => .stay Iff.rfl) (.stay Iff.rfl)
      ⟨fun hqueued => ?_, fun q hwait => ?_, fun hreap => ?_⟩
    · cases hq.symm.trans hqueued
    · exact absurd (hok.waiting q hwait) hb
    · have ha := h.active
      rw [hok.reaped hreap] at ha
      cases ha
  exact hrun

/-- With nothing to wait for, the waiting thread was woken or never blocked. -/
theorem Awaits.not_blocked (h : Awaits w c t s) (hno : schedulerHasBlockedThread s = false) :
    (s.thread t).state ≠ .blocked := by
  intro hb
  rw [h.tidy.hasBlockedThread hb] at hno
  cases hno

section

variable (h : Awaits w e.cpu t y.sched) (hall : Vacant e.cpu y.sched)
  (hno : schedulerHasBlockedThread y.sched = false)
include h hall hno

theorem Awaits.waiterRuns : Serves w e.cpu t (Kernel.waiterRuns e t y).sched :=
  waiterRuns_serves h (h.toPinned.not_queued hall) (h.not_blocked hno)

theorem Awaits.detached :
    Serves w e.cpu t (Kernel.waiterRuns e t (y.on (schedulerDetachWait t))).sched := by
  have hstate : ((y.on (schedulerDetachWait t)).sched.thread t).state =
      (y.sched.thread t).state := (schedulerDetachWait_standing t y.sched).state t
  refine waiterRuns_serves ⟨(schedulerDetachWait_micro (π := .nothing) t _).pinned h.toPinned, ?_,
    schedulerDetachWait_tidy h.tidy t⟩ ?_ ?_
  · rw [hstate]
    exact h.active
  · exact (schedulerDetachWait_queued t y.sched).trans (h.toPinned.not_queued hall)
  · rw [hstate]
    exact h.not_blocked hno

end

/-- A thread taken from the run queue is served from now on. -/
theorem Dequeue.serves (hd : Dequeue e n s s') (h : Tidy noProcess w s)
    (honline : e.cpu < s.cpuCount) : Serves w e.cpu n (setCurrent e (some n) s') := by
  have htidy := hd.tidy h
  have hqueue := htidy.toQueuesOk.runQueueOk
  obtain ⟨queue, _, _, _, rfl⟩ := hd.eq
  refine ⟨⟨⟨honline, fun p hp => (h.listed p n hp).symm ▸ ?_, ?_, ⟨hqueue.nodup, hqueue.queued⟩⟩,
    ?_, ?_, ?_⟩, ?_, setCurrent_tidy htidy e _⟩
  · simp [setCurrent, Sched.modCpu]
  · simp [setCurrent, Sched.modCpu]
  · simp [setCurrent, Sched.modCpu, Sched.current]
  · simp [setCurrent, Sched.modCpu]
  · simp [setCurrent, Sched.modCpu, KernelThread.Waiting]
  · simp [setCurrent, Sched.modCpu]

/-- A change outside what matters keeps a thread waiting. -/
theorem Awaits.inert (h : Awaits w c t x.sched) (u : ThreadRef) (f : KernelThread → KernelThread)
    (hcore : (f (x.sched.thread u)).core = (x.sched.thread u).core)
    (hst : (f (x.sched.thread u)).standing = (x.sched.thread u).standing)
    (hflags : (f (x.sched.thread u)).flags = (x.sched.thread u).flags) :
    Awaits w c t (x.modThread u f).sched := by
  have hstate := modThread_proj (s := x.sched) (·.state) (congrArg ThreadStanding.state hst) t
  refine ⟨(Micro.thread (π := .nothing) _ u f hcore).steps.pinned h.toPinned, ?_,
    h.tidy.modThread hst hflags⟩
  have ha := h.active
  rw [← hstate] at ha
  exact ha

/-- The served thread blocks. -/
theorem Serves.block (h : Serves w c t s) (home : SameHome (s.thread t) (f (s.thread t)))
    (hq : (f (s.thread t)).queued = (s.thread t).queued)
    (hb : (f (s.thread t)).state = .blocked) (htidy : Tidy noProcess w (s.modThread t f)) :
    Awaits w c t (s.modThread t f) :=
  ⟨h.toPinned.self home hq, by rw [modThread_thread_self, hb]; rfl, htidy⟩

/-- A running thread blocks in a wait queue. -/
theorem enterWaitQueue_tidy (h : Tidy noProcess w s) (ht : (s.thread t).state = .running)
    (htimeout : (s.thread t).timeoutQueued = false) (q : WaitQueue) (ticks : UInt64)
    (timeoutResult : Int64) : Tidy noProcess w (enterWaitQueue t q ticks timeoutResult s) := by
  have hok := h.status t
  have hwait : (s.thread t).waitQueue = none := Option.eq_none_iff_forall_ne_some.mpr fun q hq => by
    cases ht.symm.trans (hok.waiting q hq)
  have hblock : Tidy noProcess w ({ s with
      waiters := Function.update s.waiters q (s.waiters q ++ [t])
      rings := s.rings.pushBack (.wait q) t }.modThread t
      ({ · with state := .blocked, waitQueue := some q, blockedIn := some (.queue q) })) := by
    refine h.move ⟨rfl, rfl, rfl, rfl⟩ rfl (by rw [ht]; rfl) (fun _ => by rw [ht]; rfl)
      (fun _ _ => nofun) (fun hold => ?_) (.stay Iff.rfl) (.stay Iff.rfl) (fun r => ?_)
      (.stay Iff.rfl) ⟨fun hqueued => ?_, fun _ _ => rfl, fun hreap => ?_⟩
    -- a running thread is in no wait queue, so its node is free
    · rw [queue_wait]
      refine hold.pushBack fun l hl hmem => ?_
      cases l with
      | wait r => cases hwait.symm.trans (((h.wait r).mem t).mp hmem)
      | _ => cases hl
    · dsimp only
      by_cases hr : r = q
      · subst hr
        rw [Function.update_self]
        exact .push (by simp [hwait]) rfl
      · rw [Function.update_of_ne hr]
        exact .stay (by simp [hwait, Ne.symm hr])
    · cases ht.symm.trans (hok.queued hqueued)
    · cases ht.symm.trans (hok.reaped hreap)
  unfold enterWaitQueue
  dsimp only
  split
  · have hok' := hblock.status t
    have hfree : ¬ (({ s with
        waiters := Function.update s.waiters q (s.waiters q ++ [t])
        rings := s.rings.pushBack (.wait q) t }.modThread t
        ({ · with state := .blocked, waitQueue := some q,
                  blockedIn := some (.queue q) })).thread t).timeoutQueued = true := by
      simp [htimeout]
    refine hblock.move ⟨rfl, rfl, rfl, rfl⟩ rfl rfl id (fun _ _ _ => rfl) (fun hold => ?_)
      (.stay Iff.rfl) (.push hfree rfl) (fun _ => .stay Iff.rfl) (.stay Iff.rfl)
      ⟨hok'.queued, hok'.waiting, hok'.reaped⟩
    rw [queue_timeout]
    exact hold.pushBack (not_mem_of_node nofun fun hmem => hfree ((hblock.timeout.mem t).mp hmem))
  · exact hblock

theorem enterWaitQueue_state (t : ThreadRef) (q : WaitQueue) (ticks : UInt64)
    (timeoutResult : Int64) (s : Sched) :
    ((enterWaitQueue t q ticks timeoutResult s).thread t).state = .blocked := by
  unfold enterWaitQueue
  dsimp only
  split <;> simp

theorem blockKernelSwitch_tidy (h : Tidy noProcess w y.sched) (t n : ThreadRef) (depth : Nat) :
    Tidy noProcess w (blockKernelSwitch t n depth y).1.sched := by
  unfold blockKernelSwitch
  split
  · simp only [switchSpace_sched]
    exact h.modThread rfl rfl
  · exact h

theorem execStop_tidy (h : Serves w e.cpu t x.sched) (image : NewImage) :
    Tidy noProcess w (execStop e image t x).1.sched := by
  have hstop := schedulerRequestProcessStop_tidy h.tidy (h.tidy.not_faulted h.active) t
  exact hstop.congr rfl

/-- A child that has ended is collected for the served thread. -/
theorem Serves.collect {parent zombie : ProcessRef} (h : Serves w c t s)
    (hz : (s.process zombie).state = .zombie) (hparent : (s.process zombie).parent = some parent)
    (e : Env) : Serves w c t (schedulerWakeStaleWaiters e parent (s.process zombie).pid
      (schedulerCollectChild parent zombie s)) := by
  have hcollect := schedulerCollectChild_micro (π := .telling) parent zombie s
  have hstale := schedulerWakeStaleWaiters_micro (π := .telling) (p := parent)
    (s := schedulerCollectChild parent zombie s) (e := e) trivial (s.process zombie).pid
    fun _ _ _ => trivial
  have hchild : Tidy noProcess False (schedulerCollectChild parent zombie s) :=
    schedulerCollectChild_tidy h.tidy.forget hz
  have htidy := wakeStaleLoop_tidy e parent (s.process zombie).pid
    ((schedulerCollectChild parent zombie s).process parent).threads hchild
  exact h.micro (hcollect.trans hstale) id (htidy.withWaits fun hw =>
    schedulerWakeStaleWaiters_waits e parent fun t =>
      schedulerCollectChild_waitOk h.tidy.forget hparent (h.tidy.waits hw t).but)

/-- A thread starts to wait for a child, of which it has one but none that has ended. -/
theorem Tidy.waitChild {pid : UInt64} (h : Tidy noProcess w s) (statusAddress : UInt64)
    (ht : (s.thread t).state = .running)
    (hchild : ∃ c ∈ (s.process (s.thread t).process).children,
      schedulerWaitMatches pid (s.process c).pid = true)
    (hz : ∀ c ∈ (s.process (s.thread t).process).children,
      schedulerWaitMatches pid (s.process c).pid = true → (s.process c).state ≠ .zombie) :
    Tidy noProcess w (s.modThread t fun th => { th with
      waitPid := pid, waitStatusAddress := statusAddress, state := .blocked,
      blockedIn := some (.waitpid pid) }) := by
  have hok := h.status t
  refine ⟨h.toQueuesOk.modThread rfl ⟨fun hq => ?_, fun _ _ => rfl, fun hr => ?_⟩,
    h.toLives.modThread rfl (by rw [ht]; rfl) fun _ => by rw [ht]; rfl, h.toKin.modThread,
    fun hw => (h.waits hw).modThread rfl fun pid' _ hin => .inr ?_⟩
  · cases ht.symm.trans (hok.queued hq)
  · cases ht.symm.trans (hok.reaped hr)
  · obtain rfl := BlockReason.waitpid.inj (Option.some.inj hin)
    exact ⟨rfl, hchild, hz⟩

/-- The same for a thread that starts to wait for another thread. -/
theorem Tidy.waitThread {tid : UInt64} (h : Tidy noProcess w s) (statusAddress : UInt64)
    (ht : (s.thread t).state = .running) : Tidy noProcess w (s.modThread t fun th => { th with
      waitTid := tid, joinStatusAddress := statusAddress, state := .blocked,
      blockedIn := some (.join tid) }) := by
  have hok := h.status t
  refine h.move ⟨rfl, rfl, rfl, rfl⟩ rfl (by rw [ht]; rfl) (fun _ => by rw [ht]; rfl)
    (fun _ _ => nofun) id (.stay Iff.rfl) (.stay Iff.rfl) (fun _ => .stay Iff.rfl) (.stay Iff.rfl)
    ⟨fun hq => ?_, fun _ _ => rfl, fun hr => ?_⟩
  · cases ht.symm.trans (hok.queued hq)
  · cases ht.symm.trans (hok.reaped hr)

/-- The pieces of a system call keep the scheduler tidy. -/
theorem tidyRules (e : Env) (fp : StackAddr) : CallRules e fp t (fun x => Serves w e.cpu t x.sched)
    (fun y => Awaits w e.cpu t y.sched) (fun r => Tidy noProcess w r.1.sched) True True where
  current h hu := Option.some.inj (hu.symm.trans h.current)
  self _ h hf := h.modThread hf
  unjoin {x} u h := by
    have hm := Micro.thread (π := .nothing) x.sched u ({ · with joinWaiter := none }) rfl
    exact h.micro hm.steps id (h.tidy.modThread rfl rfl)
  reap h := h.reap
  queueReap u h := h.micro (schedulerQueueThreadReap_micro (π := .nothing) u _) id
    (schedulerQueueThreadReap_tidy h.tidy u)
  wakeGate h := h.wakeGate e
  collect _ x zombie pid h hmem _ hz := by
    have hnote : Serves w e.cpu t { x.sched with
        collected := ((x.sched.process zombie).pid, some pid) :: x.sched.collected } :=
      h.congr rfl rfl rfl
    exact hnote.collect hz (((h.tidy.children _).mem zombie).mp hmem) e
  finish result h := syscallFinish_tidy h fp result
  stop image h := execStop_tidy h image
  block q ticks timeoutResult h _ hctx htimeout := by
    have hleft := enterWaitQueue_left (π := { Perm.telling with call := True }) trivial
      (.refl h.toReady) hctx q ticks timeoutResult
    refine ⟨hleft.pinned, ?_, enterWaitQueue_tidy h.tidy h.running htimeout q ticks timeoutResult⟩
    exact congrArg ThreadState.isActive (enterWaitQueue_state t q ticks timeoutResult _)
  waitChild h _ _ hchild hz :=
    h.block ⟨rfl, rfl, rfl⟩ rfl rfl (h.tidy.waitChild _ h.running hchild hz)
  waitThread target h _ _ := Awaits.inert (x := Sect.modThread _ t _)
    (h.block ⟨rfl, rfl, rfl⟩ rfl rfl (h.tidy.waitThread _ h.running)) target _ rfl rfl rfl
  next _ _ _ _ h hd := schedulerLoad_tidy (setCurrent_tidy (hd.tidy h.tidy) e _) _ _
  switch depth h hd _ := blockKernelSwitch_tidy (setCurrent_tidy (hd.tidy h.tidy) e _) _ _ depth
  again h hd := hd.serves h.tidy h.online
  turn h hs := ⟨(hs.micro (π := .nothing)).pinned h.toPinned, by cases hs; exact h.active,
    hs.tidy h.tidy⟩
  idle h _ _ := h.tidy.congr rfl
  runs h hall hno := h.waiterRuns hall hno
  detach h hall hno := h.detached hall hno

theorem kernelSchedulerYield_tidy (h : Serves w e.cpu t x.sched) :
    Tidy noProcess w (kernelSchedulerYield e x).1.sched := by
  unfold kernelSchedulerYield
  split
  · exact h.tidy
  · next previous hprev =>
    obtain rfl := h.toReady.currentSpace hprev
    have hreap : Serves w e.cpu previous (x.on schedulerReapDeferred).sched := h.reap
    exact schedulerReschedule_tidy hreap

/-! ## Stopping, exit and fault -/

/-- A thread of a process that is told to stop ends. -/
theorem stopCurrent_tidy (h : Ready e.cpu t x.sched) (htidy : Tidy noProcess w x.sched)
    (hy : stopCurrent e x = some y) : Tidy noProcess w y.sched := by
  unfold stopCurrent at hy
  rw [h.current] at hy
  dsimp only at hy
  split at hy
  · cases hy
  · next hstop =>
    simp only [not_or, Bool.not_eq_true', Bool.not_eq_false] at hstop
    cases hy
    have hsave : Tidy noProcess w (schedulerSave t x).sched := htidy.modThread rfl rfl
    have hdetach : Tidy noProcess w (schedulerDetachWait t (schedulerSave t x).sched) :=
      schedulerDetachWait_tidy hsave t
    have hstand := schedulerDetachWait_standing t (schedulerSave t x).sched
    have hself := schedulerDetachWait_thread_self t (schedulerSave t x).sched
    have hnot := h.notWaiting
    simp only [KernelThread.Waiting, not_or, Bool.not_eq_true] at hnot
    have hq : ((schedulerSave t x).sched.thread t).queued = false := by
      simpa [schedulerSave, Sect.modThread, Sect.on] using hnot.2.2
    have hproc : ((schedulerSave t x).sched.thread t).process = (x.sched.thread t).process := by
      simp [schedulerSave, Sect.modThread, Sect.on]
    have hend : Tidy noProcess w ((schedulerDetachWait t (schedulerSave t x).sched).modThread t
        fun th => { th with
          exitStatus := if (x.sched.process (x.sched.thread t).process).faulted
            then (x.sched.process (x.sched.thread t).process).exitStatus else 0
          state := .zombie }) := by
      refine hdetach.kill rfl rfl (.inr ?_) rfl ⟨fun hqueued => ?_, fun q hwait => ?_, fun _ => rfl⟩
      · rw [hstand.process, hstand.owner, hproc]
        exact hstop.1
      · rw [hself] at hqueued
        cases hq.symm.trans hqueued
      · rw [hself] at hwait
        cases hwait
    exact hend

theorem schedulerCompleteOrWait_tidy (h : Tidy noProcess w y.sched) :
    Tidy noProcess w (schedulerCompleteOrWait e y).1.sched := by
  have hcur : Tidy noProcess w (setCurrent e none y.sched) := setCurrent_tidy h e none
  unfold schedulerCompleteOrWait
  dsimp only
  split
  · have hoff : Tidy noProcess w { setCurrent e none y.sched with active := false } :=
      hcur.congr rfl
    exact schedulerReapDeferred_tidy hoff
  · exact hcur

theorem exitDequeued_tidy (h : Tidy noProcess w y.sched) (t : ThreadRef) :
    Tidy noProcess w (dequeueThen e y (exitDequeued e t q)).1.sched :=
  @dequeueThen_cases _ _ _ (fun r => Tidy noProcess w r.1.sched)
    (fun n _ hd => schedulerLoad_tidy (setCurrent_tidy (hd.tidy h) e _) _ n)
    (fun _ hs _ => (hs.tidy h).congr rfl)
    fun s' hs _ _ => schedulerCompleteOrWait_tidy (y := { y with sched := s' }) (hs.tidy h)

theorem exitTail_tidy (h : Tidy noProcess w y.sched) (t : ThreadRef) :
    Tidy noProcess w (exitTail e t q y).1.sched := by
  unfold exitTail
  split
  · exact exitDequeued_tidy h t
  · exact setCurrent_tidy h e none

/-- Thread `t` may exit: its process is not told to stop, and the children it leaves behind if it
    is the last thread can be adopted. -/
structure MayEnd (w : Prop) (t : ThreadRef) (s : Sched) : Prop where
  calm : (s.process (s.thread t).process).stopRequested = false
  adopts : w → (s.process (s.thread t).process).liveThreadCount ≤ 1 →
    AdoptsNoEnded (s.thread t).process s

theorem MayEnd.micro (h : MayEnd w t s) (hm : MicroSteps π s s') (hf : FamilyShrinks s s') :
    MayEnd w t s' := by
  have hproc := (hm.moves.home t).process
  have hsignals := hm.signals_eq (s.thread t).process
  simp only [KernelProcess.signals, Prod.mk.injEq] at hsignals
  refine ⟨?_, ?_⟩
  · rw [hproc, hsignals.2.1]
    exact h.calm
  · rw [hproc, (hf _).2]
    exact fun hw hlive => (h.adopts hw hlive).micro hm (hf _).1

/-- A change of `t` that keeps its standing. -/
theorem MayEnd.modThread (h : MayEnd w t x.sched)
    (hst : (f (x.sched.thread t)).standing = (x.sched.thread t).standing) :
    MayEnd w t (x.modThread t f).sched := by
  have hproc := modThread_proj (s := x.sched) (·.process) (congrArg ThreadStanding.process hst)
  have hstate := modThread_proj (s := x.sched) (·.state) (congrArg ThreadStanding.state hst)
  have hin := modThread_proj (s := x.sched) (·.blockedIn) (congrArg ThreadStanding.blockedIn hst)
  change MayEnd w t (x.sched.modThread t f)
  refine ⟨?_, ?_⟩
  · rw [hproc, modThread_process]
    exact h.calm
  · rw [hproc, modThread_process]
    exact fun hw hlive => (h.adopts hw hlive).mono
      (fun u hb => ⟨(hstate u).symm.trans hb, hin u, hproc u⟩) (List.Subset.refl _)
      (fun _ => ⟨rfl, rfl⟩) fun _ => id

/-- The records after the stores of `kernel_scheduler_exit` into those of `t` and its process. -/
theorem MayEnd.exit {g : KernelProcess → KernelProcess} (h : Serves w c t s) (hend : MayEnd w t s)
    (hp : (s.thread t).process = p) (hproc : (f (s.thread t)).process = (s.thread t).process)
    (hz : (f (s.thread t)).state = .zombie)
    (hflags : (f (s.thread t)).flags = (s.thread t).flags)
    (hg : (g (s.process p)).status = { (s.process p).status with
      liveThreadCount := (s.process p).liveThreadCount - 1 }) (e : Env) :
    Tidy noProcess w (exitProcess e p
      (schedulerNotifyJoiner e t ((s.modThread t f).modProcess p g))) := by
  subst hp
  have hexit := h.tidy.exit h.running rfl hend.calm hproc hz hflags hg
  have hrec := congrFun (schedulerNotifyJoiner_process e t
    ((s.modThread t f).modProcess (s.thread t).process g)) (s.thread t).process
  have hmicro := schedulerNotifyJoiner_micro (π := .telling) (e := e) trivial t
    ((s.modThread t f).modProcess (s.thread t).process g)
  rw [modProcess_process_self, modThread_process] at hrec
  simp only [KernelProcess.status, ProcessStatus.mk.injEq] at hg
  obtain ⟨-, hchildren, -, -, -, hlive, -, -, hreq⟩ := hg
  refine exitProcess_tidy ((Tidy.wakes e).notifyJoiner t hexit) ?_ (fun hw hzero => ?_) e
  · rw [hrec, hreq]
    exact hend.calm
  · rw [hrec, hlive] at hzero
    -- the thread that has ended waits for nothing
    have hadopt : AdoptsNoEnded (s.thread t).process (s.modThread t f) :=
      (hend.adopts hw (by omega)).mono (forall_modThread
        (P := fun u th => th.state = .blocked → (s.thread u).state = .blocked ∧
          th.blockedIn = (s.thread u).blockedIn ∧ th.process = (s.thread u).process)
        (fun hb => by cases hz.symm.trans hb) fun _ _ hb => ⟨hb, rfl, rfl⟩)
        (List.Subset.refl _) (fun _ => ⟨rfl, rfl⟩) fun _ => id
    refine (hadopt.modProcess hchildren).micro hmicro ?_
    rw [hrec, modProcess_process_self]
    exact List.Subset.refl _

theorem syscallEnter_mayEnd (h : Ready e.cpu t x.sched) (hend : MayEnd w t x.sched)
    (fp : StackAddr) : MayEnd w t (syscallEnter e fp x).sched := by
  unfold syscallEnter
  rw [h.current]
  exact hend.modThread rfl

theorem syscallLeave_mayEnd (h : Ready e.cpu t x.sched) (hend : MayEnd w t x.sched)
    (fp : StackAddr) : MayEnd w t (syscallLeave e fp x).sched := by
  unfold syscallLeave
  rw [h.current]
  dsimp only
  split
  · exact hend.modThread rfl
  · exact hend

/-- One thread exits, and with it its process if it was the last. -/
theorem kernelSchedulerExit_tidy (h : Serves w e.cpu t x.sched) (hend : MayEnd w t x.sched)
    (status : Int64) : Tidy noProcess w (kernelSchedulerExit e status x).1.sched := by
  unfold kernelSchedulerExit
  split
  · exact h.tidy
  · next previous hprev =>
    obtain rfl := h.toReady.currentSpace hprev
    have hreap : Serves w e.cpu previous (x.on schedulerReapDeferred).sched := h.reap
    have hend : MayEnd w previous (x.on schedulerReapDeferred).sched :=
      hend.micro (schedulerReapDeferred_micro (π := .telling) _) (schedulerReapDeferred_family _)
    have hsave := schedulerSave_serves hreap
    have hend : MayEnd w previous (schedulerSave previous (x.on schedulerReapDeferred)).sched :=
      hend.modThread rfl
    generalize schedulerSave previous (x.on schedulerReapDeferred) = y at hsave hend ⊢
    refine exitTail_tidy ?_ previous
    dsimp only [Sect.modThread, Sect.on]
    exact hend.exit hsave (by simp) rfl rfl rfl rfl e

theorem kernelSchedulerFault_tidy (h : Serves w e.cpu t x.sched) (cause address info : UInt64) :
    Tidy noProcess w (kernelSchedulerFault e cause address info t x).1.sched := by
  have hreap : Serves w e.cpu t (x.on schedulerReapDeferred).sched := h.reap
  have hsave := schedulerSave_serves hreap
  have hproc : ((schedulerSave t (x.on schedulerReapDeferred)).sched.thread t).process =
      ((x.on schedulerReapDeferred).sched.thread t).process := by
    simp [schedulerSave, Sect.modThread, Sect.on]
  unfold kernelSchedulerFault
  dsimp only
  generalize schedulerSave t (x.on schedulerReapDeferred) = y at hsave hproc ⊢
  rw [← hproc]
  obtain ⟨htidy, hprocess, hend⟩ := faultThreads_tidy (X := (· = (y.sched.thread t).process))
    (-cause.toInt64) (y.sched.process (y.sched.thread t).process).threads
    (hsave.tidy.mono fun _ hno => hno.elim) rfl (hsave.tidy.listed _)
  have hrecord := recordFault_tidy htidy (by rw [hprocess]; exact fun u hu => hend u (.inl hu))
    cause address info
  exact hrecord.congr rfl

/-- The process of a fault ends once no other processor works for it. -/
theorem faultRendezvous_tidy (h : Tidy noProcess w x.sched)
    (hf : (x.sched.process p).faulted = true) (hadopt : w → AdoptsNoEnded p x.sched)
    (e : Env) (t : ThreadRef) : Tidy noProcess w (faultRendezvous e t p x).1.sched :=
  exitTail_tidy (h.endProcess (h.ends p (.inr hf)) (h.stops p hf).2.2 hadopt rfl e) t

/-! ## Handlers -/

/-- A thread whose address space is current runs. -/
theorem Ready.serves (h : Ready e.cpu t s) (htidy : Tidy noProcess w s)
    (hn : Kernel.currentSpace e s = some n) : n = t ∧ Serves w e.cpu t s := by
  obtain rfl := h.currentSpace hn
  refine ⟨rfl, h, ?_, htidy⟩
  unfold Kernel.currentSpace at hn
  rw [h.current] at hn
  dsimp only at hn
  split at hn
  · next hcond => exact hcond.2
  · cases hn

section

variable (h : Ready e.cpu t x.sched) (htidy : Tidy noProcess w x.sched)
include h htidy

theorem kernelExceptionDispatch_tidy (cause address info : UInt64) :
    Tidy noProcess w (kernelExceptionDispatch e cause address info x).1.sched := by
  unfold kernelExceptionDispatch
  split
  · next hstop => exact stopCurrent_tidy h htidy hstop
  · split
    · next hn =>
      obtain ⟨rfl, hserves⟩ := h.serves htidy hn
      exact kernelSchedulerFault_tidy hserves cause address info
    · exact htidy

/-- The end of the handlers of the timer and of interrupts between processors. -/
theorem reschedule_tidy (hn : Kernel.currentSpace e x.sched = some n) :
    Tidy noProcess w (schedulerReschedule e n (x.on schedulerReapDeferred)).1.sched := by
  obtain ⟨rfl, hserves⟩ := h.serves htidy hn
  have hreap : Serves w e.cpu n (x.on schedulerReapDeferred).sched := hserves.reap
  exact schedulerReschedule_tidy hreap

theorem kernelSchedulerTimer_tidy : Tidy noProcess w (kernelSchedulerTimer e x).1.sched := by
  unfold kernelSchedulerTimer
  split
  · next hstop => exact stopCurrent_tidy h htidy hstop
  · have hexpire := (Tidy.wakes e).idleInterrupt .timer htidy
    have hready :=
      (idleInterrupt_micro (π := .telling) (e := e) trivial .timer x.sched).ready h
    dsimp only
    split
    · exact hexpire
    split
    · exact hexpire
    · next hn => exact reschedule_tidy hready hexpire hn

theorem kernelSchedulerIpi_tidy : Tidy noProcess w (kernelSchedulerIpi e x).1.sched := by
  unfold kernelSchedulerIpi
  split
  · next hstop => exact stopCurrent_tidy h htidy hstop
  split
  · exact htidy
  split
  · exact htidy
  · next hn => exact reschedule_tidy h htidy hn

theorem kernelDevicesInterrupt_tidy (d : DeviceEvent) :
    Tidy noProcess w (kernelDevicesInterrupt e d x).1.sched := by
  have hevent : Tidy noProcess w (x.on (deviceEvent e d)).sched :=
    (Tidy.wakes e).idleInterrupt (.device d) htidy
  have hready : Ready e.cpu t (x.on (deviceEvent e d)).sched :=
    (idleInterrupt_micro (π := .telling) (e := e) trivial (.device d) x.sched).ready h
  unfold kernelDevicesInterrupt
  dsimp only
  split
  · next hstop => exact stopCurrent_tidy hready hevent hstop
  · exact hevent

/-- A system call of a thread that is not the one for which its process stops. -/
theorem kernelSyscallDispatch_tidy
    (howner : (x.sched.process (x.sched.thread t).process).stopOwner ≠ some t)
    (hadopt : w → x.frame.registers 0 = 0 →
      (x.sched.process (x.sched.thread t).process).liveThreadCount ≤ 1 →
      AdoptsNoEnded (x.sched.thread t).process x.sched)
    (script : Script) : Tidy noProcess w (kernelSyscallDispatch e fp script x).1.sched := by
  cases hstop : stopCurrent e x with
  | some y =>
    unfold kernelSyscallDispatch
    rw [hstop]
    exact stopCurrent_tidy h htidy hstop
  | none =>
    have hcalm : (x.sched.process (x.sched.thread t).process).stopRequested = false :=
      Bool.eq_false_iff.mpr fun hreq => stopCurrent_none h hstop ⟨hreq, howner⟩
    cases hspace : currentSpace e x.sched with
    | none =>
      unfold kernelSyscallDispatch
      rw [hstop, hspace]
      exact htidy
    | some n =>
      obtain ⟨rfl, hserves⟩ := h.serves htidy hspace
      have henter := (tidyRules e fp).enter hserves
      have hleave := (tidyRules e fp).leave henter
      refine (tidyRules e fp).dispatch hserves hstop hspace (fun _ => trivial) (fun _ => trivial)
        (fun hnumber status => ?_) fun _ => kernelSchedulerYield_tidy hleave
      exact kernelSchedulerExit_tidy hleave (syscallLeave_mayEnd henter.toReady
        (syscallEnter_mayEnd h ⟨hcalm, fun hw => hadopt hw hnumber⟩ fp) fp) status

theorem trapHandler_tidy {k : TrapKind}
    (howner : (x.sched.process (x.sched.thread t).process).stopOwner ≠ some t)
    (hadopt : w → k.isSyscall = true → x.frame.registers 0 = 0 →
      (x.sched.process (x.sched.thread t).process).liveThreadCount ≤ 1 →
      AdoptsNoEnded (x.sched.thread t).process x.sched)
    (script : Script) (event : DeviceEvent) :
    Tidy noProcess w (trapHandler e k fp script event x).1.sched := by
  cases k with
  | syscall => exact kernelSyscallDispatch_tidy h htidy howner (fun hw => hadopt hw rfl) script
  | exception cause address info => exact kernelExceptionDispatch_tidy h htidy cause address info
  | timer => exact kernelSchedulerTimer_tidy h htidy
  | device => exact kernelDevicesInterrupt_tidy h htidy event
  | ipi => exact kernelSchedulerIpi_tidy h htidy

end

/-! ## Continued sections -/

/-- Whether the thread that waits in the function goes on with its system call: it does if there
    is nothing to wait for, and in `kernel_scheduler_block_kernel` if it is dispatched again. -/
def Pending.goesOn (q : Pending) (d : Dequeued) : Bool :=
  match q, d with
  | .exit _, _ | .fault _, _ => false
  | _, .none => true
  | .blockKernel v _ _, .next n => n = v
  | _, _ => false

theorem schedulerDequeueOrIdle_tidy (h : Tidy noProcess w s) (e : Env) :
    Tidy noProcess w (schedulerDequeueOrIdle e s).1 := by
  unfold schedulerDequeueOrIdle
  split
  · next heq => exact (schedulerDequeue_some heq).tidy h
  · next heq =>
    have hturn := (schedulerDequeue_none heq).1.tidy h
    split
    · exact hturn
    · exact hturn.congr rfl

/-- A function whose thread does not go on dispatches another one, idles or ends. -/
theorem pendingDequeued_tidy {d : Dequeued} (h : Tidy noProcess w y.sched)
    (hd : q.goesOn d = false) :
    Tidy noProcess w (pendingDequeued e fp q y d).1.sched := by
  have hload : ∀ prev n, Tidy noProcess w
      (schedulerLoad prev n (y.on (setCurrent e (some n)))).1.sched := fun prev n =>
    schedulerLoad_tidy (setCurrent_tidy h e _) prev n
  have hexit : ∀ v, Tidy noProcess w (exitDequeued e v q y d).1.sched := by
    intro v
    cases d with
    | next n => exact hload _ n
    | none => exact schedulerCompleteOrWait_tidy h
    | idle => exact h
  cases q with
  | exit v => exact hexit v
  | fault v => exact hexit v
  | blockKernel v depth k =>
    cases d with
    | next n =>
      have hn : n ≠ v := by simpa [Pending.goesOn] using hd
      simp only [pendingDequeued, blockKernelDequeued, if_pos hn]
      exact blockKernelSwitch_tidy (setCurrent_tidy h e _) v n depth
    | none => cases hd
    | idle => exact h
  | blockCurrent v caller | waitpid v | join v target =>
    cases d with
    | next n => exact hload _ n
    | none => cases hd
    | idle => exact h

theorem idleWake_tidy (htidy : Tidy noProcess w x.sched) (hpin : Pinned e.cpu q.waiter x.sched)
    (hactive : q.goesOn (schedulerDequeueOrIdle e
        (schedulerReapDeferred (idleLeave e x.sched))).2 = true →
      (x.sched.thread q.waiter).state.isActive = true) :
    Tidy noProcess w (idleWake e fp q x).1.sched := by
  have hleave : Tidy noProcess w (idleLeave e x.sched) := htidy.congr rfl
  have hreap : Tidy noProcess w (x.on fun s => schedulerReapDeferred (idleLeave e s)).sched :=
    schedulerReapDeferred_tidy hleave
  unfold idleWake
  by_cases hgo : q.goesOn (schedulerDequeueOrIdle e
      (schedulerReapDeferred (idleLeave e x.sched))).2 = true
  · have ha := hactive hgo
    have hpin' : Pinned e.cpu q.waiter (idleLeave e x.sched) :=
      ⟨hpin.online, hpin.listed, hpin.affinity, ⟨hpin.queue.nodup, hpin.queue.queued⟩⟩
    have hmicro := schedulerReapDeferred_micro (π := .nothing) (idleLeave e x.sched)
    have hstate := schedulerReapDeferred_liveKept hleave q.waiter
      (ThreadState.isLive_of_isActive ha)
    have hawaits : Awaits w e.cpu q.waiter
        (x.on fun s => schedulerReapDeferred (idleLeave e s)).sched :=
      ⟨hmicro.pinned hpin', (congrArg ThreadState.isActive hstate).trans ha, hreap⟩
    have hreturns : q.returns = some q.waiter := by
      cases q with
      | exit v | fault v => cases hgo
      | blockCurrent v caller | blockKernel v depth k | waitpid v | join v target => rfl
    exact (tidyRules e fp).pending hreturns (fun _ => trivial) hawaits
  · rw [Bool.not_eq_true] at hgo
    exact pendingDequeued_tidy (schedulerDequeueOrIdle_tidy hreap e) hgo

/-- A thread that is current and takes part in scheduling runs. -/
theorem Ready.running (h : Ready c t s) (ha : (s.thread t).state.isActive = true) :
    (s.thread t).state = .running := by
  have hnot := h.notWaiting
  simp only [KernelThread.Waiting, not_or] at hnot
  cases hst : (s.thread t).state with
  | running => rfl
  | runnable => exact absurd hst hnot.1
  | blocked => exact absurd hst hnot.2.1
  | _ => rw [hst] at ha; cases ha

theorem resumedSection_tidy {k : Kont} (h : Ready e.cpu k.waiter x.sched)
    (htidy : Tidy noProcess w x.sched)
    (hactive : (x.sched.thread k.waiter).state.isActive = true) (script : Script) :
    Tidy noProcess w (resumedSection e k script x).1.sched := by
  have hserves : Serves w e.cpu k.waiter x.sched := ⟨h, h.running hactive, htidy⟩
  exact (tidyRules e k.framePointer).runScript script (fun _ => trivial)
    (hserves.modThread ⟨⟨rfl, rfl, rfl⟩, rfl, rfl⟩)

theorem execRendezvous_tidy (h : Ready e.cpu t x.sched) (htidy : Tidy noProcess w x.sched)
    (hactive : (x.sched.thread t).state.isActive = true) (hp : (x.sched.thread t).process = p)
    (image : NewImage) : Tidy noProcess w (execRendezvous e fp t p image x).1.sched := by
  have himage := execImage_tidy htidy (h.running hactive) hp image
  unfold execRendezvous
  dsimp only [Sect.on]
  refine syscallLeave_tidy ?_ e fp
  dsimp only
  generalize execThread t image (execProcess p image
    (schedulerExecDiscardOtherThreads p t x.sched)) = s at himage ⊢
  have hafter : Tidy noProcess w (rescheduleOthers e
      (destroySpace (x.sched.process p).addressSpace (execHistory t image s))) := himage.congr rfl
  exact (Tidy.wakes e).wakeOne .gate 0 hafter

end RiscMv.Kernel
