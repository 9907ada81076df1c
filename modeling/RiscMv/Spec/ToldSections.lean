import RiscMv.Spec.Calls
import RiscMv.Spec.Children
import RiscMv.Spec.Told

/-!
# Sections tell the other processors

Every big-kernel-lock section tells the other processors of the threads it queues for them, and
a section that ends in `kernel_idle_wait` has found no thread for its own processor.

## Key results
- `trapHandler_ending`, `idleWake_ending`, `rendezvousSection_ending`, `resumedSection_ending`
-/

namespace RiscMv.Kernel

/-- How a section on processor `c` that starts with scheduler state `s` ends. -/
structure Ending (c : CpuId) (s : Sched) (r : Sect × Exit) : Prop where
  tells : Tells c s r.1.sched
  active : r.2.isHalt = false → s.active = true → r.1.sched.active = true
  empty : ∀ p, r.2 = .idle p → ∀ t ∈ r.1.sched.runQueue,
    (r.1.sched.thread t).cpuAffinity ≠ c + 1
  waiter : ∀ p, r.2 = .idle p → ∀ t, p.returns = some t →
    (r.1.sched.thread t).cpuAffinity = c + 1

variable {c : CpuId} {e : Env} {s s' s'' : Sched} {x y : Sect} {r : Sect × Exit} {t n w : ThreadRef}
  {p : ProcessRef} {fp : StackAddr} {q : Pending}

theorem Ending.after (h' : Ending c s' r) (h : Told c s s') : Ending c s r :=
  ⟨.of_told h h'.tells, fun hex hact => h'.active hex (h.active hact), h'.empty, h'.waiter⟩

/-- A section that does not wait. -/
theorem Ending.leaves {ex : Exit} (h : Told c s x.sched) (hex : ∀ p, ex ≠ .idle p) :
    Ending c s (x, ex) :=
  ⟨h.toTells, fun _ => h.active, fun p hp => absurd hp (hex p), fun p hp => absurd hp (hex p)⟩

/-- A section that waits in `kernel_idle_wait`. -/
theorem Ending.idle (hempty : Vacant e.cpu x.sched)
    (hw : ∀ t, q.returns = some t → (x.sched.thread t).cpuAffinity = e.cpu + 1) :
    Ending e.cpu x.sched
      ({ x with sched := idleEnter e (setCurrent e none x.sched) }, .idle q) where
  tells := by
    have hcur : Told e.cpu x.sched (setCurrent e none x.sched) := setCurrent_told nofun
    exact (hcur.trans (idleEnter_told e _)).toTells
  active _ := id
  empty _ _ := hempty
  waiter p hp t ht := by
    cases hp
    exact hw t ht

theorem Told.keeps (h : Told c s s') (ht : (s.thread t).cpuAffinity = c + 1) :
    (s'.thread t).cpuAffinity = c + 1 := by
  rw [h.pinned t (by omega), ht]

theorem Told.keep_on (h : Told c s s') (ht : (s'.thread t).cpuAffinity = c + 1)
    (h' : Told c s' s'') : Told c s s'' ∧ (s''.thread t).cpuAffinity = c + 1 :=
  ⟨h.trans h', h'.keeps ht⟩

theorem reap_told (c : CpuId) (s : Sched) : Told c s (schedulerReapDeferred s) :=
  (schedulerReapDeferred_micro s).told

theorem idleInterrupt_told (e : Env) (i : IdleInterrupt) (s : Sched) :
    Told e.cpu s (idleInterrupt e i s) :=
  (idleInterrupt_micro (π := .everything e.cpu) rfl i s).told

theorem wakeGate_micro (e : Env) (s : Sched) :
    MicroSteps (.everything e.cpu) s (waitQueueWakeOne e .gate 0 s).1 :=
  waitQueueWakeOne_micro rfl .gate 0 s

theorem schedulerRecordProcessCompletion_told (e : Env) (p : ProcessRef) (s : Sched) :
    Told e.cpu s (schedulerRecordProcessCompletion e p s) :=
  (schedulerRecordProcessCompletion_micro (π := .everything e.cpu) rfl
    fun _ _ _ _ _ => trivial).told

/-! ## Dispatching -/

theorem OwnsCurrent.currentSpace (h : OwnsCurrent e.cpu s) (ht : currentSpace e s = some t) :
    (s.thread t).cpuAffinity = e.cpu + 1 := by
  unfold Kernel.currentSpace at ht
  split at ht
  · next hcur =>
    split at ht
    · cases ht
      exact h t hcur
    · cases ht
  · cases ht

theorem schedulerSave_view (t : ThreadRef) (x : Sect) :
    (schedulerSave t x).sched.view = x.sched.view := modThread_view rfl

theorem schedulerLoad_ending (o : Option ThreadRef) (t : ThreadRef) (x : Sect) :
    Ending c x.sched (schedulerLoad o t x) := by
  unfold schedulerLoad
  split
  · refine .leaves ?_ nofun
    dsimp only
    rw [switchSpace_sched]
    exact .of_view (modThread_view rfl)
  · refine .leaves ?_ nofun
    dsimp only
    rw [switchSpace_sched]
    exact .refl c _

theorem Turned.view (h : Turned s s') : s'.view = s.view := by
  cases h
  rfl

theorem Turned.told (h : Turned s s') : Told c s s' := .of_view h.view

theorem Dequeue.pinned (h : Dequeue e n s s') : (s'.thread n).cpuAffinity = e.cpu + 1 := by
  obtain ⟨queue, _, _, _, rfl⟩ := h.eq
  simp

theorem Dequeue.told (h : Dequeue e n s s') : Told e.cpu s s' := by
  have haff := h.affinity
  have hself := h.pinned
  have hold : ∀ u d, d ≠ e.cpu → (s'.thread u).cpuAffinity = d + 1 →
      (s.thread u).cpuAffinity = d + 1 := by
    intro u d hd hu
    by_cases hun : u = n
    · rw [hun, hself] at hu
      exact absurd (Nat.succ.inj hu).symm hd
    · rwa [h.thread_ne hun] at hu
  have hpin : ∀ u, (s.thread u).cpuAffinity ≠ 0 →
      (s'.thread u).cpuAffinity = (s.thread u).cpuAffinity := by
    intro u hu
    by_cases hun : u = n
    · subst hun
      rw [hself]
      exact (haff.resolve_left hu).symm
    · rw [h.thread_ne hun]
  obtain ⟨queue, _, hperm, _, rfl⟩ := h.eq
  refine ⟨⟨fun _ _ h => h, ?_, hpin, fun _ _ => rfl, ?_⟩, id⟩
  · intro _ d hd u hu haffu
    exact .inr ⟨List.erase_subset (hperm.subset hu), hold u d hd haffu⟩
  · intro hown u hu
    have hu' := hown u hu
    rw [hpin u (by omega), hu']

/-- The dequeued thread is made current and loaded. -/
theorem load_ending (o : Option ThreadRef) (hn : (x.sched.thread n).cpuAffinity = e.cpu + 1) :
    Ending e.cpu x.sched (schedulerLoad o n (x.on (setCurrent e (some n)))) := by
  have hcur : Told e.cpu x.sched (setCurrent e (some n) x.sched) :=
    setCurrent_told fun u hu => by cases hu; exact hn
  exact (schedulerLoad_ending o n _).after hcur

theorem Dequeue.ending (h : Dequeue e n x.sched s') (o : Option ThreadRef) : Ending e.cpu x.sched
    (schedulerLoad o n ({ x with sched := s' }.on (setCurrent e (some n)))) :=
  (load_ending o h.pinned).after h.told

theorem schedulerReschedule_ending (ht : (x.sched.thread t).cpuAffinity = e.cpu + 1) :
    Ending e.cpu x.sched (schedulerReschedule e t x) := by
  have hsave : ((schedulerSave t x).modThread t ({ · with state := .runnable })).sched.view =
      x.sched.view := (modThread_view rfl).trans (schedulerSave_view t x)
  unfold schedulerReschedule
  generalize (schedulerSave t x).modThread t ({ · with state := .runnable }) = y at hsave ⊢
  have henq := schedulerEnqueue_told ((Told.of_view hsave).keeps ht)
  dsimp only
  split
  · exact .leaves (.of_view hsave) nofun
  · next s₁ heq =>
    rw [heq] at henq
    have htold : Told e.cpu x.sched s₁ := henq.after hsave
    split
    · next s₂ hdeq =>
      exact .leaves (htold.trans (schedulerDequeue_none hdeq).1.told) nofun
    · next n s₂ hdeq =>
      exact ((schedulerDequeue_some hdeq).ending (x := { y with sched := s₁ }) _).after htold

theorem stopCurrent_told (h : stopCurrent e x = some y) : Told c x.sched y.sched := by
  unfold stopCurrent at h
  split at h
  · cases h
  · next t _ =>
    dsimp only at h
    split at h
    · cases h
    · cases h
      have hdetach := (schedulerDetachWait_micro t (schedulerSave t x).sched).told (c := c)
      exact (Told.of_view (schedulerSave_view t x)).trans
        (hdetach.trans (.of_view (modThread_view rfl)))

/-! ## Exit and fault -/

/-- `scheduler_finish` ends scheduling and reclaims what is left. -/
theorem finish_tells (s : Sched) :
    Tells c s (schedulerReapDeferred { s with active := false }) := by
  have hreap := (schedulerReapDeferred_micro { s with active := false }).silent
  exact Silent.tells ⟨hreap.queue, hreap.affinity, hreap.pending, hreap.current⟩

theorem schedulerCompleteOrWait_ending (e : Env) (x : Sect) :
    Ending e.cpu x.sched (schedulerCompleteOrWait e x) := by
  have hcur : Told e.cpu x.sched (setCurrent e none x.sched) := setCurrent_told nofun
  unfold schedulerCompleteOrWait
  dsimp only
  split
  · -- the scheduler ends here, and the processor halts with the lock
    exact ⟨.of_told hcur (finish_tells _), nofun, nofun, nofun⟩
  · exact .leaves hcur nofun

theorem exitDequeued_ending (hq : q.returns = none) :
    Ending e.cpu x.sched (dequeueThen e x (exitDequeued e t q)) :=
  dequeueThen_cases (fun _ _ hd => hd.ending _)
    (fun s' hs hall => (Ending.idle (x := { x with sched := s' }) hall
      fun _ hu => by cases hq.symm.trans hu).after hs.told)
    fun s' hs _ _ => (schedulerCompleteOrWait_ending e { x with sched := s' }).after hs.told

theorem exitTail_ending (hq : q.returns = none) : Ending e.cpu x.sched (exitTail e t q x) := by
  unfold exitTail
  split
  · exact exitDequeued_ending hq
  · have hcur : Told e.cpu x.sched (setCurrent e none x.sched) := setCurrent_told nofun
    exact .leaves hcur nofun

theorem exitProcess_told (e : Env) (p : ProcessRef) (s : Sched) :
    Told e.cpu s (exitProcess e p s) := by
  unfold exitProcess
  split
  · exact (schedulerRecordProcessCompletion_told e p _).after (modProcess_view s p _)
  · exact .refl _ s

theorem kernelSchedulerExit_ending (e : Env) (status : Int64) (x : Sect) :
    Ending e.cpu x.sched (kernelSchedulerExit e status x) := by
  unfold kernelSchedulerExit
  split
  · exact .leaves (.refl _ _) nofun
  · next t _ =>
    dsimp only
    refine (exitTail_ending rfl).after ?_
    have hsave := (reap_told e.cpu x.sched).trans
      (.of_view (schedulerSave_view t (x.on schedulerReapDeferred)))
    refine ((hsave.trans ?_).trans (schedulerNotifyJoiner_micro rfl t _).told).trans
      (exitProcess_told e _ _)
    exact .of_view ((modProcess_view _ _ _).trans (modThread_view rfl))

theorem kernelSchedulerFault_ending (e : Env) (cause address info : UInt64) (t : ThreadRef)
    (x : Sect) : Ending e.cpu x.sched (kernelSchedulerFault e cause address info t x) := by
  unfold kernelSchedulerFault
  refine .leaves ?_ nofun
  refine Told.trans ?_ (rescheduleOthers_micro e _).told
  refine Told.trans ?_ (.of_view (modProcess_view _ _ _))
  refine Told.trans ?_ (faultThreads_micro _ (fun _ _ => trivial) _ _ _).told
  exact (reap_told e.cpu x.sched).trans (.of_view (schedulerSave_view t _))

theorem faultRendezvous_ending (e : Env) (t : ThreadRef) (p : ProcessRef) (x : Sect) :
    Ending e.cpu x.sched (faultRendezvous e t p x) := by
  unfold faultRendezvous
  exact (exitTail_ending rfl).after
    ((schedulerRecordProcessCompletion_told e p _).after (modProcess_view _ _ _))

theorem kernelExceptionDispatch_ending (e : Env) (cause address info : UInt64) (x : Sect) :
    Ending e.cpu x.sched (kernelExceptionDispatch e cause address info x) := by
  unfold kernelExceptionDispatch
  split
  · next hstop => exact .leaves (stopCurrent_told hstop) nofun
  · split
    · exact kernelSchedulerFault_ending e cause address info _ x
    · exact .leaves (.refl _ _) nofun

/-! ## Interrupts -/

/-- `scheduler_reap_deferred` and then `scheduler_reschedule`. -/
theorem reapReschedule_ending (h : OwnsCurrent e.cpu x.sched)
    (ht : currentSpace e x.sched = some t) :
    Ending e.cpu x.sched (schedulerReschedule e t (x.on schedulerReapDeferred)) := by
  have hreap := reap_told e.cpu x.sched
  exact (schedulerReschedule_ending (hreap.keeps (h.currentSpace ht))).after hreap

theorem kernelSchedulerTimer_ending (h : OwnsCurrent e.cpu x.sched) :
    Ending e.cpu x.sched (kernelSchedulerTimer e x) := by
  unfold kernelSchedulerTimer
  split
  · next hstop => exact .leaves (stopCurrent_told hstop) nofun
  · have hexp := idleInterrupt_told e .timer x.sched
    dsimp only
    split
    · exact .leaves hexp nofun
    · split
      · exact .leaves hexp nofun
      · next ht => exact (reapReschedule_ending (hexp.own h) ht).after hexp

theorem kernelSchedulerIpi_ending (h : OwnsCurrent e.cpu x.sched) :
    Ending e.cpu x.sched (kernelSchedulerIpi e x) := by
  unfold kernelSchedulerIpi
  split
  · next hstop => exact .leaves (stopCurrent_told hstop) nofun
  · split
    · exact .leaves (.refl _ _) nofun
    · split
      · exact .leaves (.refl _ _) nofun
      · next ht => exact reapReschedule_ending h ht

theorem kernelDevicesInterrupt_ending (e : Env) (d : DeviceEvent) (x : Sect) :
    Ending e.cpu x.sched (kernelDevicesInterrupt e d x) := by
  have hevent := idleInterrupt_told e (.device d) x.sched
  unfold kernelDevicesInterrupt
  dsimp only
  split
  · next hstop => exact .leaves (hevent.trans (stopCurrent_told hstop)) nofun
  · exact .leaves hevent nofun

/-! ## System call entry and return -/

theorem syscallLeave_view (e : Env) (fp : StackAddr) (x : Sect) :
    (syscallLeave e fp x).sched.view = x.sched.view := by
  unfold syscallLeave
  repeat' split
  · exact modThread_view rfl
  · rfl
  · rfl

theorem storeResult_view (e : Env) (result : Int64) (x : Sect) :
    (storeResult e result x).sched.view = x.sched.view := by
  unfold storeResult
  dsimp only
  split <;> rfl

theorem syscallFinish_ending (e : Env) (fp : StackAddr) (result : Int64) (x : Sect) :
    Ending e.cpu x.sched (syscallFinish e fp result x) := by
  unfold syscallFinish
  split
  · exact (kernelSchedulerExit_ending e _ _).after (.of_view (syscallLeave_view e fp x))
  · exact .leaves (.of_view ((syscallLeave_view e fp _).trans (storeResult_view e result x))) nofun

/-! ## Blocking -/

theorem enterWaitQueue_view (t : ThreadRef) (q : WaitQueue) (ticks : UInt64) (result : Int64)
    (s : Sched) : (enterWaitQueue t q ticks result s).view = s.view := by
  have hblock : ({ s with waiters := Function.update s.waiters q (s.waiters q ++ [t]) }.modThread t
      ({ · with state := .blocked, waitQueue := some q, blockedIn := some (.queue q) })).view =
      s.view := modThread_view rfl
  unfold enterWaitQueue
  dsimp only
  split
  · rw [← hblock]
    exact modThread_view rfl
  · exact hblock

theorem blockKernelSwitch_ending (n : ThreadRef) (depth : Nat) (x : Sect) :
    Ending c x.sched (blockKernelSwitch w n depth x) := by
  unfold blockKernelSwitch
  split
  · refine .leaves ?_ nofun
    dsimp only
    rw [switchSpace_sched]
    exact .of_view (modThread_view rfl)
  · exact .leaves (.refl _ _) nofun

/-! ## exec -/

theorem execStop_ending (e : Env) (image : NewImage) (t : ThreadRef) (x : Sect) :
    Ending e.cpu x.sched (execStop e image t x) := by
  unfold execStop
  refine .leaves ?_ nofun
  refine Told.trans ?_ (rescheduleOthers_micro e _).told
  exact (requestStopThreads_micro trivial t _ _).told.after (modProcess_view _ _ _)

theorem execRendezvous_ending (e : Env) (fp : StackAddr) (t : ThreadRef) (p : ProcessRef)
    (image : NewImage) (x : Sect) : Ending e.cpu x.sched (execRendezvous e fp t p image x) := by
  unfold execRendezvous
  refine .leaves ?_ nofun
  refine Told.trans ?_ (.of_view (syscallLeave_view e fp _))
  refine (Told.trans ?_ (rescheduleOthers_micro e _).told).trans (wakeGate_micro e _).told
  refine (discardThreads_micro p t (x.sched.process p).threads (fun _ _ _ => trivial)
    x.sched).told.trans (.of_view ?_)
  -- the new image is a change of the process and of its thread outside the run queue
  have hthread : (execThread t image (execProcess p image
      (schedulerExecDiscardOtherThreads p t x.sched))).view =
      (discardThreads p t (x.sched.process p).threads x.sched).view := modThread_view rfl
  exact hthread

/-! ## System calls -/

/-- A section on processor `c` that started in `s` works for `t`, or for no thread. -/
structure Attends (c : CpuId) (t : ThreadRef) (s s' : Sched) : Prop where
  told : Told c s s'
  owns : OwnsCurrent c s'
  current : ∀ u, s'.current c = some u → u = t

theorem Attends.view (h : Attends c t s s') (hv : s''.view = s'.view) : Attends c t s s'' where
  told := h.told.trans (.of_view hv)
  owns := (Told.of_view hv).own h.owns
  current u hu := h.current u ((congrFun (congrArg SchedView.current hv) c).symm.trans hu)

/-- Code that works on other threads. -/
theorem Attends.micro (h : Attends c t s s') (hm : MicroSteps (.everything c) s' s'') :
    Attends c t s s'' where
  told := h.told.trans hm.told
  owns := hm.told.own h.owns
  current u hu := h.current u (by rwa [Sched.current, hm.cpu_eq.1] at hu)

/-- The thread becomes the one of the processor. -/
theorem setCurrent_attends (h : Told e.cpu s s') (ht : (s'.thread t).cpuAffinity = e.cpu + 1) :
    Attends e.cpu t s (setCurrent e (some t) s') := by
  have hcur : ∀ u, (setCurrent e (some t) s').current e.cpu = some u → u = t := by
    intro u hu
    simpa [setCurrent, Sched.current, Sched.modCpu, eq_comm] using hu
  refine ⟨h.trans (setCurrent_told fun u hu => by cases hu; exact ht), fun u hu => ?_, hcur⟩
  rw [hcur u hu]
  exact ht

/-- At its start, a section works for the thread of its processor. -/
theorem OwnsCurrent.attends (h : OwnsCurrent c s) (t : ThreadRef) :
    Attends c ((s.current c).getD t) s s :=
  ⟨.refl c s, h, fun u hu => by rw [hu]; rfl⟩

/-- The pieces of a system call tell the other processors. -/
theorem toldRules (e : Env) (fp : StackAddr) : CallRules e fp t (fun x => Attends e.cpu t s x.sched)
    (fun y => Told e.cpu s y.sched ∧ (y.sched.thread t).cpuAffinity = e.cpu + 1) (Ending e.cpu s)
    True True where
  current h hu := h.current _ hu
  self _ h hf := h.view (modThread_view hf.home.affinity)
  unjoin _ h := h.view (modThread_view rfl)
  reap h := h.micro (schedulerReapDeferred_micro _)
  queueReap u h := h.micro (schedulerQueueThreadReap_micro u _)
  wakeGate h := h.micro (wakeGate_micro e _)
  collect _ x zombie pid h _ _ _ := by
    have hnote : Attends e.cpu t s { x.sched with
        collected := ((x.sched.process zombie).pid, some pid) :: x.sched.collected } := h.view rfl
    exact (hnote.micro (schedulerCollectChild_micro _ zombie _)).micro
      (schedulerWakeStaleWaiters_micro rfl _ fun _ _ _ => trivial)
  finish result h := (syscallFinish_ending e fp result _).after h.told
  stop image h := (execStop_ending e image t _).after h.told
  block q ticks timeoutResult h hcur _ _ :=
    h.told.keep_on (h.owns t hcur) (.of_view (enterWaitQueue_view t q ticks timeoutResult _))
  waitChild h hcur _ _ _ := h.told.keep_on (h.owns t hcur) (.of_view (modThread_view rfl))
  waitThread _ h hcur _ := h.told.keep_on (h.owns t hcur)
    (.of_view ((modThread_view rfl).trans (modThread_view rfl)))
  next _ _ _ _ h hd := (hd.ending _).after h.1
  switch {_ n _} depth h hd _ := by
    have hcur := setCurrent_told (e := e) (o := some n) fun u hu => by cases hu; exact hd.pinned
    exact (blockKernelSwitch_ending _ depth _).after ((h.1.trans hd.told).trans hcur)
  again h hd := setCurrent_attends (h.1.trans hd.told) hd.pinned
  turn h hs := h.1.keep_on h.2 hs.told
  idle h hq hall := (Ending.idle hall fun u hu => by
    cases hq.symm.trans hu
    exact h.2).after h.1
  runs h _ _ := (setCurrent_attends h.1 h.2).view (modThread_view rfl)
  detach h _ _ := by
    obtain ⟨htold, ht⟩ := h.1.keep_on h.2 (schedulerDetachWait_micro t _).told
    exact (setCurrent_attends htold ht).view (modThread_view rfl)

theorem kernelSchedulerYield_ending (h : OwnsCurrent e.cpu x.sched) :
    Ending e.cpu x.sched (kernelSchedulerYield e x) := by
  unfold kernelSchedulerYield
  split
  · exact .leaves (.refl _ _) nofun
  · next ht => exact reapReschedule_ending h ht

theorem kernelSyscallDispatch_ending (script : Script) (h : OwnsCurrent e.cpu x.sched) :
    Ending e.cpu x.sched (kernelSyscallDispatch e fp script x) := by
  cases hstop : stopCurrent e x with
  | some y =>
    unfold kernelSyscallDispatch
    rw [hstop]
    exact .leaves (stopCurrent_told hstop) nofun
  | none =>
    cases hspace : currentSpace e x.sched with
    | none =>
      unfold kernelSyscallDispatch
      rw [hstop, hspace]
      exact .leaves (.refl _ _) nofun
    | some t =>
      have hstart := h.attends t
      have hleave := (toldRules e fp).leave ((toldRules e fp).enter hstart)
      exact (toldRules e fp).dispatch hstart hstop hspace (fun _ => trivial) (fun _ => trivial)
        (fun _ status => (kernelSchedulerExit_ending e status _).after hleave.told)
        fun _ => (kernelSchedulerYield_ending hleave.owns).after hleave.told

/-! ## Sections -/

theorem trapHandler_ending (k : TrapKind) (script : Script) (event : DeviceEvent)
    (h : OwnsCurrent e.cpu x.sched) :
    Ending e.cpu x.sched (trapHandler e k fp script event x) := by
  cases k with
  | syscall => exact kernelSyscallDispatch_ending script h
  | exception cause address info => exact kernelExceptionDispatch_ending e cause address info x
  | timer => exact kernelSchedulerTimer_ending h
  | device => exact kernelDevicesInterrupt_ending e event x
  | ipi => exact kernelSchedulerIpi_ending h

theorem idleWake_ending
    (hw : ∀ t, q.returns = some t → (x.sched.thread t).cpuAffinity = e.cpu + 1) :
    Ending e.cpu x.sched (idleWake e fp q x) := by
  have hreap : Told e.cpu x.sched (schedulerReapDeferred (idleLeave e x.sched)) :=
    (idleLeave_told e x.sched).trans (reap_told e.cpu _)
  cases hq : q.returns with
  | some t => exact (toldRules e fp).pending hq (fun _ => trivial) ⟨hreap, hreap.keeps (hw t hq)⟩
  | none =>
    cases q with
    | exit v | fault v => exact Ending.after (exitDequeued_ending rfl) hreap
    | blockCurrent v caller | blockKernel v depth k | waitpid v | join v target => cases hq

theorem rendezvousSection_ending (r : Rendezvous) (x : Sect) :
    Ending e.cpu x.sched (rendezvousSection e fp r x) := by
  cases r with
  | exec t p image => exact execRendezvous_ending e fp t p image x
  | fault t p => exact faultRendezvous_ending e t p x

theorem resumedSection_ending (k : Kont) (script : Script) (h : OwnsCurrent e.cpu x.sched) :
    Ending e.cpu x.sched (resumedSection e k script x) := by
  exact (toldRules e k.framePointer).runScript script (fun _ => trivial)
    ((h.attends k.waiter).view (modThread_view rfl))

end RiscMv.Kernel
