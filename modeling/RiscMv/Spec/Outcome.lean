import RiscMv.Spec.Acts
import RiscMv.Spec.Calls

/-!
# The outcome of every section

One lemma per section function: whatever it does, it ends in one of the ways `Outcome` lists.

## Key results
- `trapHandler_outcome`, `idleWake_outcome`, `rendezvousSection_outcome`,
  `resumedSection_outcome`
-/

namespace RiscMv.Kernel

/-- What the sections of thread `t` need: they wake threads, and do not kill `t`. -/
structure Perm.Allows (π : Perm) (t : ThreadRef) : Prop where
  wake : ∀ c, π.wake c
  kill : ¬ π.kill t

/-- What the system calls of thread `t` need. -/
structure Perm.Calls (π : Perm) (t : ThreadRef) : Prop extends π.Allows t where
  call : π.call

/-- What a section of `t` needs that may run into `kernel_scheduler_exit`. -/
structure Perm.Exits (π : Perm) (t : ThreadRef) (s : Sched) : Prop where
  child : π.Notifies t s
  quiet : π.quiet
  load : π.load

/-- What a section of `t` needs that ends in `kernel_scheduler_exit` if its process has
    faulted. -/
def Perm.MayExit (π : Perm) (t : ThreadRef) (s : Sched) : Prop :=
  (s.process (s.thread t).process).faulted = true → π.Exits t s

variable {π : Perm} {e : Env} {c : CpuId} {t n : ThreadRef} {p : ProcessRef} {s s' : Sched}
  {x y : Sect} {fp : StackAddr} {q : Pending} {f : KernelProcess → KernelProcess}

/-- Work for a thread keeps what a section needs to exit. -/
theorem Serving.mayExit (h : Serving π e t x y) (hX : π.MayExit t x.sched) :
    π.MayExit t y.sched := by
  intro hf
  rw [(h.acts.moves.home t).process] at hf
  obtain ⟨hchild, hquiet, hload⟩ := hX ((congrArg Prod.fst (h.signals _)).symm.trans hf)
  exact ⟨h.acts.notifies hchild, hquiet, hload⟩

/-! ## Dispatching the next thread -/

theorem Ready.currentSpace (h : Ready e.cpu t s) (ht : currentSpace e s = some n) : n = t := by
  have hc := h.current
  unfold Kernel.currentSpace at ht
  rw [hc] at ht
  dsimp only at ht
  split at ht
  · exact (Option.some.inj ht).symm
  · cases ht

theorem Acts.setCurrent (h : Acts π e t s s') (o : Option ThreadRef) :
    Acts π e t s (setCurrent e o s') :=
  h.tail (.cpu s' _)

theorem schedulerSave_busy (h : Ready e.cpu t x.sched) :
    Busy π e t x (schedulerSave t x) :=
  .self h ⟨rfl, rfl, rfl⟩ rfl rfl

@[simp] theorem switchSpace_frame (previous : Option ThreadRef) (t : ThreadRef) (x : Sect) :
    (switchSpace previous t x).frame = x.frame := by
  unfold switchSpace
  split
  · split <;> rfl
  · rfl

theorem Dequeue.resumeSp (h : Dequeue e n s s') :
    (s'.thread n).kernelResumeSp = (s.thread n).kernelResumeSp := by
  obtain ⟨queue, _, _, _, rfl⟩ := h.eq
  simp

theorem Dequeue.ctx (h : Dequeue e n s s') : (s'.thread n).ctx = (s.thread n).ctx := by
  obtain ⟨queue, _, _, _, rfl⟩ := h.eq
  simp

theorem schedulerLoad_outcome (hl : π.load) (previous : Option ThreadRef) (h : Left π e t x s)
    (hd : Dequeue e n s s') (hy : y.sched = setCurrent e (some n) s') (hf : y.frame = x.frame) :
    Outcome π e t x (schedulerLoad previous n y) := by
  have hthread : y.sched.thread = s'.thread := by rw [hy]; rfl
  unfold schedulerLoad
  split
  · next sp hsp =>
    rw [hthread, hd.resumeSp] at hsp
    refine .resume h hd hsp ?_ (by simpa [Sect.modThread, Sect.on] using hf)
    simp [Sect.modThread, Sect.on, hy]
  · next hsp =>
    rw [hthread, hd.resumeSp] at hsp
    refine .load hl h hd hsp (by simp [hy]) ?_
    simp [hthread, hd.ctx, hf]

/-- A waiting function without a thread to run dispatches what it finds. -/
theorem Left.load (h : Left π e t x y.sched) (hl : π.load) (previous : Option ThreadRef)
    (hf : y.frame = x.frame) (hd : Dequeue e n y.sched s') :
    Outcome π e t x (schedulerLoad previous n
      ({ y with sched := s' }.on (setCurrent e (some n)))) :=
  schedulerLoad_outcome hl previous h hd rfl hf

theorem Left.turn (h : Left π e t x s) (hs : Turned s s') : Left π e t x s' := by
  have hm := hs.micro (π := π)
  cases hs
  exact ⟨h.acts.trans hm.acts, hm.pinned h.pinned, h.last, h.signals, h.parked.congr rfl rfl⟩

theorem Left.idle (h : Left π e t x y.sched) (hf : y.frame = x.frame) (hq : q.waiter = t)
    (hcall : q.Allowed π) :
    Outcome π e t x ({ y with sched := idleEnter e (setCurrent e none y.sched) }, .idle q) :=
  .idle hq hcall h rfl hf

/-- Work that ends with a thread that has finished. -/
theorem Serving.left (h : Serving π e t x y) : Left π e t x y.sched :=
  ⟨h.acts, h.ready.toPinned, h.last, h.signals, .finished h.ready.notWaiting⟩

/-! ## Rescheduling -/

theorem schedulerReschedule_outcome (hw : π.wake e.cpu) (hR : π.quiet) (hl : π.load)
    (h : Ready e.cpu t x.sched) : Outcome π e t x (schedulerReschedule e t x) := by
  have hsave := schedulerSave_busy (π := π) h
  -- the thread is runnable and not queued, so it is queued now
  let y := (schedulerSave t x).modThread t ({ · with state := .runnable })
  have hq : (y.sched.thread t).queued = false := by
    have := h.notWaiting
    simp only [KernelThread.Waiting, not_or, Bool.not_eq_true] at this
    simp [y, schedulerSave, Sect.modThread, Sect.on, this.2.2]
  have hr : (y.sched.thread t).state = .runnable := by simp [y, Sect.modThread, Sect.on]
  have henq : schedulerEnqueue t y.sched = (pushRunQueue t y.sched, true) := by
    simp [schedulerEnqueue, hq, hr]
  have hpin : Pinned e.cpu t y.sched := hsave.ready.toPinned.self
    (f := ({ · with state := .runnable })) ⟨rfl, rfl, rfl⟩ rfl
  have hpush : MicroSteps π y.sched (pushRunQueue t y.sched) :=
    (Micro.push _ t hq hr hw fun _ d hd haff =>
      absurd (Nat.succ.inj (haff.symm.trans hpin.affinity)) hd).steps
  have hleft : Left π e t x (pushRunQueue t y.sched) := by
    refine ⟨?_, hpush.pinned hpin, rfl, fun _ => rfl, .yielded hR ?_ ?_⟩
    · exact (hsave.acts.tail (.self _ ({ · with state := .runnable }) ⟨rfl, rfl, rfl⟩ rfl
        fun _ => ThreadState.noConfusion)).trans hpush.acts
    · simp [pushRunQueue, y, schedulerSave, Sect.modThread, Sect.on]
    · simp [pushRunQueue, hr]
  unfold schedulerReschedule
  dsimp only
  rw [henq]
  dsimp only
  split
  -- the thread itself is in the queue, so the dequeue finds one
  · next s' heq =>
    have hall := (schedulerDequeue_none heq).2 t (by simp [pushRunQueue])
    exact absurd hleft.pinned.affinity hall.2
  · next n s' heq => exact schedulerLoad_outcome hl _ hleft (schedulerDequeue_some heq) rfl rfl

/-! ## Stopping, exit and fault -/

theorem stopCurrent_outcome (h : Ready e.cpu t x.sched) (hy : stopCurrent e x = some y) :
    Outcome π e t x (y, .restore) := by
  unfold stopCurrent at hy
  rw [h.current] at hy
  dsimp only at hy
  split at hy
  · cases hy
  · cases hy
    have hsave := (schedulerSave_busy (π := π) h).toServing
    have hdetach := hsave.trans
      (.micro hsave.ready (schedulerDetachWait_micro t (schedulerSave t x).sched))
    have hzombie := hdetach.trans (.self (f := fun th => { th with
        exitStatus := if (x.sched.process (x.sched.thread t).process).faulted
          then (x.sched.process (x.sched.thread t).process).exitStatus else 0
        state := .zombie })
      hdetach.ready ⟨rfl, rfl, rfl⟩ rfl ?_)
    · exact .stopped ⟨hzombie.acts, hzombie.last, hzombie.signals,
        .finished hzombie.ready.notWaiting, hzombie.ready.queue, .inr hzombie.ready⟩ ⟨rfl, rfl⟩
    · rintro (hw | hw | hw)
      · cases hw
      · cases hw
      · exact hdetach.ready.notWaiting (.inr (.inr hw))

theorem schedulerCompleteOrWait_outcome (h : Left π e t x y.sched)
    (hf : y.frame = x.frame) : Outcome π e t x (schedulerCompleteOrWait e y) := by
  have hnone : Acts π e t x.sched (setCurrent e none y.sched) := h.acts.setCurrent none
  have hcur : (setCurrent e none y.sched).current e.cpu = none := by
    simp [setCurrent, Sched.current, Sched.modCpu]
  have hparked : Parked π t x (setCurrent e none y.sched) := h.parked.congr rfl rfl
  unfold schedulerCompleteOrWait
  dsimp only
  split
  · have hreap := schedulerReapDeferred_micro (π := π)
      { setCurrent e none y.sched with active := false }
    exact .halt (z := y.on (setCurrent e none))
      ⟨hnone, h.last, h.signals, hparked, ⟨h.pinned.queue.nodup, h.pinned.queue.queued⟩,
        .inl hcur⟩ (.finish hreap)
  · exact .retire
      ⟨hnone, h.last, h.signals, hparked, ⟨h.pinned.queue.nodup, h.pinned.queue.queued⟩,
        .inl hcur⟩ hf

theorem exitDequeued_outcome (hl : π.load) (hq : q.waiter = t) (hcall : q.Allowed π)
    (h : Left π e t x y.sched) (hf : y.frame = x.frame) :
    Outcome π e t x (dequeueThen e y (exitDequeued e t q)) :=
  dequeueThen_cases (fun _ _ hd => h.load hl (some t) hf hd)
    (fun s' hs _ => Left.idle (y := { y with sched := s' }) (h.turn hs) hf hq hcall)
    fun s' hs _ _ => schedulerCompleteOrWait_outcome (y := { y with sched := s' }) (h.turn hs) hf

theorem exitTail_outcome (hl : π.load) (hq : q.waiter = t) (hcall : q.Allowed π)
    (h : Serving π e t x y) : Outcome π e t x (exitTail e t q y) := by
  unfold exitTail
  split
  · exact exitDequeued_outcome hl hq hcall h.left h.frame
  · refine .stopped ⟨h.acts.setCurrent none, h.last, h.signals, .finished h.ready.notWaiting,
      ⟨h.ready.queue.nodup, h.ready.queue.queued⟩, .inl ?_⟩ ⟨rfl, ?_⟩
    · simp [Sect.on, setCurrent, Sched.current, Sched.modCpu]
    · simp [prepareRetireFrame, Sect.on, h.frame]

/-- A change of the process of the section's thread that keeps its signals. -/
theorem Serving.process (h : Ready e.cpu t x.sched) (hp : (x.sched.thread t).process = p)
    (hthreads : (f (x.sched.process p)).threads = (x.sched.process p).threads)
    (hparent : (f (x.sched.process p)).parent = (x.sched.process p).parent)
    (hsignals : (f (x.sched.process p)).signals = (x.sched.process p).signals) :
    Serving π e t x (x.on fun s => s.modProcess p f) where
  acts := by
    simp only [KernelProcess.signals, Prod.mk.injEq] at hsignals
    obtain ⟨hfault, hreq, howner⟩ := hsignals
    refine (Act.process _ p f hp hthreads hparent (.inr fun u _ hs => ?_) fun hf => .inl ?_).acts
    · exact ⟨hreq.trans hs.1, by rw [howner]; exact hs.2⟩
    · exact hfault.symm.trans hf
  ready := by
    refine ⟨⟨h.online, fun q hq => h.listed q ?_, h.affinity, ⟨h.queue.nodup, h.queue.queued⟩⟩,
      h.current, h.process, h.notWaiting⟩
    by_cases hqp : q = p
    · subst hqp
      simpa [Sect.on, Sched.modProcess, hthreads] using hq
    · simpa [Sect.on, Sched.modProcess, hqp] using hq
  frame := rfl
  ptbr := rfl
  last := rfl
  signals q := by
    by_cases hqp : q = p
    · subst hqp; simpa [Sect.on, Sched.modProcess] using hsignals
    · simp [Sect.on, Sched.modProcess, hqp]

section

variable (hπ : π.Allows t) (hc : π.Notifies t x.sched) (h : Ready e.cpu t x.sched)
  (hp : (x.sched.thread t).process = p)
include hπ hc h hp

/-- The completion of the process of the section's thread. -/
theorem recordCompletion_serving : Serving π e t x (x.on (schedulerRecordProcessCompletion e p)) :=
  .micro h (schedulerRecordProcessCompletion_micro (hπ.wake _) (hp ▸ h.watchesParent hc))

theorem exitProcess_serving : Serving π e t x (x.on (exitProcess e p)) := by
  by_cases hlive : (x.sched.process p).liveThreadCount = 0
  · have hzombie := Serving.process (π := π) (f := fun q => { q with
        exitStatus := if q.exitStatus = -1 then 0 else q.exitStatus, state := .zombie })
      h hp rfl rfl rfl
    have hrec := hzombie.trans (recordCompletion_serving hπ (hzombie.acts.notifies hc)
      hzombie.ready hp)
    simpa [Sect.on, exitProcess, hlive] using hrec
  · simpa [Sect.on, exitProcess, hlive] using Serving.refl h

end

theorem kernelSchedulerExit_outcome (hπ : π.Calls t) (hc : π.Notifies t x.sched) (hl : π.load)
    (h : Ready e.cpu t x.sched) (hR : currentSpace e x.sched = none → π.quiet) (status : Int64) :
    Outcome π e t x (kernelSchedulerExit e status x) := by
  unfold kernelSchedulerExit
  split
  · next hnone => exact .kept (hR hnone) (.refl h)
  · next previous hprev =>
    obtain rfl := h.currentSpace hprev
    have hreap := Serving.micro (π := π) h (schedulerReapDeferred_micro x.sched)
    have hsave := hreap.trans (schedulerSave_busy hreap.ready).toServing
    dsimp only
    generalize schedulerSave previous (x.on schedulerReapDeferred) = y at hsave ⊢
    have hzombie := hsave.trans (.self (f := fun th => { th with
        exitStatus := status, waitPid := 0, waitStatusAddress := 0, waitTid := 0,
        joinStatusAddress := 0, state := .zombie })
      hsave.ready ⟨rfl, rfl, rfl⟩ rfl (by
        rintro (hw | hw | hw)
        · cases hw
        · cases hw
        · exact hsave.ready.notWaiting (.inr (.inr hw))))
    generalize y.modThread previous _ = z at hzombie ⊢
    have hcount := hzombie.trans (.process (p := (z.sched.thread previous).process)
      (f := fun q => { q with
        exitStatus := if status ≠ 0 ∧ q.exitStatus ≤ 0 then status else q.exitStatus
        liveThreadCount := q.liveThreadCount - 1 })
      hzombie.ready rfl rfl rfl rfl)
    have hp : ((z.on fun s => s.modProcess (z.sched.thread previous).process fun q => { q with
        exitStatus := if status ≠ 0 ∧ q.exitStatus ≤ 0 then status else q.exitStatus
        liveThreadCount := q.liveThreadCount - 1 }).sched.thread previous).process =
        (z.sched.thread previous).process := rfl
    generalize (z.sched.thread previous).process = p at hcount hp ⊢
    generalize (z.on fun s => s.modProcess p _) = w at hcount hp ⊢
    have hjoin := Serving.micro (π := π) hcount.ready
      (schedulerNotifyJoiner_micro (e := e) (hπ.wake _) previous w.sched)
    have hhome := (schedulerNotifyJoiner_micro (e := e) (hπ.wake _) previous w.sched).moves.home
    have hproc := (hcount.trans hjoin).trans (exitProcess_serving hπ.toAllows
      ((hcount.trans hjoin).acts.notifies hc) hjoin.ready ((hhome previous).process.trans hp))
    exact exitTail_outcome hl rfl hπ.call hproc

theorem Ready.process_mod (h : Ready c t s)
    (hthreads : (f (s.process p)).threads = (s.process p).threads) :
    Ready c t (s.modProcess p f) := by
  refine ⟨⟨h.online, fun q hq => h.listed q ?_, h.affinity, ⟨h.queue.nodup, h.queue.queued⟩⟩,
    h.current, h.process, h.notWaiting⟩
  by_cases hqp : q = p
  · subst hqp
    simpa [Sched.modProcess, hthreads] using hq
  · simpa [Sched.modProcess, hqp] using hq

theorem kernelSchedulerFault_outcome (hf : π.fault) (h : Ready e.cpu t x.sched)
    (hk : ∀ u ∈ (x.sched.process (x.sched.thread t).process).threads, π.kill u)
    (cause address info : UInt64) :
    Outcome π e t x (kernelSchedulerFault e cause address info t x) := by
  have hreap := Serving.micro (π := π) h (schedulerReapDeferred_micro x.sched)
  have hsave := hreap.trans (schedulerSave_busy hreap.ready).toServing
  have hp := ((schedulerReapDeferred_micro (π := π) x.sched).moves.home t).process
  have hsub := (schedulerReapDeferred_micro (π := π) x.sched).threads_subset
    (x.sched.thread t).process
  have hproc : ((schedulerSave t (x.on schedulerReapDeferred)).sched.thread t).process =
      (x.sched.thread t).process := by
    simpa [schedulerSave, Sect.modThread, Sect.on] using hp
  have hsub' : ((schedulerSave t (x.on schedulerReapDeferred)).sched.process
      (x.sched.thread t).process).threads ⊆
      (x.sched.process (x.sched.thread t).process).threads := hsub
  unfold kernelSchedulerFault
  dsimp only
  rw [show ((x.on schedulerReapDeferred).sched.thread t).process = (x.sched.thread t).process
    from hp]
  generalize (x.sched.thread t).process = p at hk hproc hsub' ⊢
  generalize schedulerSave t (x.on schedulerReapDeferred) = y at hsave hproc hsub' ⊢
  have hkill := faultThreads_micro (π := π) (y.sched.process p).threads
    (fun u hu => hk u (hsub' hu)) p (-cause.toInt64) y.sched
  have hall := hsave.trans (Serving.micro (f := fun s =>
    faultThreads p (-cause.toInt64) (s.process p).threads s) hsave.ready hkill)
  have hpy : ((y.on fun s =>
      faultThreads p (-cause.toInt64) (s.process p).threads s).sched.thread t).process = p :=
    (hkill.moves.home t).process.trans hproc
  generalize (y.on fun s => faultThreads p (-cause.toInt64) (s.process p).threads s) = z
    at hall hpy ⊢
  have hrec : Acts π e t x.sched (recordFault p cause address info z.sched) :=
    hall.acts.tail (.process _ p _ hpy rfl rfl (.inr fun _ _ _ => ⟨rfl, fun h => by cases h⟩)
      fun _ => .inr hf)
  have hready : Ready e.cpu t (recordFault p cause address info z.sched) :=
    hall.ready.process_mod rfl
  have hipi := rescheduleOthers_micro (π := π) e (recordFault p cause address info z.sched)
  refine .spin rfl hf hpy.symm ⟨hrec.trans hipi.acts, hipi.ready hready⟩ hall.frame hall.last
    fun u _ => ?_
  simp [Rendezvous.process, Sect.on, rescheduleOthers, recordFault, Sched.modProcess,
    KernelProcess.Stops]

theorem faultRendezvous_outcome (hπ : π.Allows t) (hf : π.fault) (hc : π.Notifies t x.sched)
    (hl : π.load) (h : Ready e.cpu t x.sched) (hp : (x.sched.thread t).process = p) :
    Outcome π e t x (faultRendezvous e t p x) := by
  have hzombie := Serving.process (π := π) (f := ({ · with state := .zombie }))
    h hp rfl rfl rfl
  exact exitTail_outcome hl rfl hf (hzombie.trans (recordCompletion_serving hπ
    (hzombie.acts.notifies hc) hzombie.ready hp))

theorem kernelExceptionDispatch_outcome (h : Ready e.cpu t x.sched)
    (hk : stopCurrent e x = none → currentSpace e x.sched = some t → π.fault ∧
      ∀ u ∈ (x.sched.process (x.sched.thread t).process).threads, π.kill u)
    (cause address info : UInt64) :
    Outcome π e t x (kernelExceptionDispatch e cause address info x) := by
  unfold kernelExceptionDispatch
  split
  · next y hy => exact stopCurrent_outcome h hy
  · next hstop =>
    split
    · next previous hprev =>
      obtain rfl := h.currentSpace hprev
      obtain ⟨hf, hk⟩ := hk hstop hprev
      exact kernelSchedulerFault_outcome hf h hk cause address info
    · exact .halt ⟨.refl, rfl, fun _ => rfl, .finished h.notWaiting, h.queue, .inr h⟩ .panic

/-! ## Interrupts -/

section

variable (hπ : π.Allows t) (hR : π.quiet) (hl : π.load) (h : Ready e.cpu t x.sched)
include hπ hR hl h

/-- The end that the timer and IPI handlers share. -/
private theorem preempt_outcome :
    Outcome π e t x (if (x.sched.cpu e.cpu).idleActive then (x, .restore)
      else match currentSpace e x.sched with
        | none => (x, .restore)
        | some previous => schedulerReschedule e previous (x.on schedulerReapDeferred)) := by
  split
  · exact .kept hR (.refl h)
  · split
    · exact .kept hR (.refl h)
    · next previous hprev =>
      obtain rfl := h.currentSpace hprev
      have hreap := Busy.micro h (schedulerReapDeferred_micro x.sched) hπ.kill
      exact .after hreap (schedulerReschedule_outcome (hπ.wake _) hR hl hreap.ready)

theorem kernelSchedulerTimer_outcome : Outcome π e t x (kernelSchedulerTimer e x) := by
  unfold kernelSchedulerTimer
  split
  · next y hy => exact stopCurrent_outcome h hy
  · have hexpire : MicroSteps π x.sched
        (schedulerExpireTimeouts e { x.sched with timerCount := x.sched.timerCount + 1 }) :=
      idleInterrupt_micro (hπ.wake _) .timer x.sched
    have hbusy := Busy.micro (f := fun s =>
      schedulerExpireTimeouts e { s with timerCount := s.timerCount + 1 }) h hexpire hπ.kill
    exact .after hbusy (preempt_outcome hπ hR hl hbusy.ready)

theorem kernelSchedulerIpi_outcome : Outcome π e t x (kernelSchedulerIpi e x) := by
  unfold kernelSchedulerIpi
  split
  · next y hy => exact stopCurrent_outcome h hy
  · exact preempt_outcome hπ hR hl h

end

theorem kernelDevicesInterrupt_outcome (hπ : π.Allows t) (hR : π.quiet) (h : Ready e.cpu t x.sched)
    (d : DeviceEvent) : Outcome π e t x (kernelDevicesInterrupt e d x) := by
  have hbusy := Busy.micro (f := deviceEvent e d) h
    (idleInterrupt_micro (hπ.wake _) (.device d) x.sched) hπ.kill
  unfold kernelDevicesInterrupt
  dsimp only
  split
  · next y hy => exact .after hbusy (stopCurrent_outcome hbusy.ready hy)
  · exact .kept hR hbusy

/-! ## The end of a system call -/

theorem syscallLeave_busy (h : Ready e.cpu t x.sched) (fp : StackAddr) :
    Busy π e t x (syscallLeave e fp x) := by
  unfold syscallLeave
  rw [h.current]
  dsimp only
  split
  · exact .self h ⟨rfl, rfl, rfl⟩ rfl rfl
  · exact .refl h

theorem syscallEnter_busy (h : Ready e.cpu t x.sched) (fp : StackAddr) :
    Busy π e t x (syscallEnter e fp x) := by
  unfold syscallEnter
  rw [h.current]
  exact .self h ⟨rfl, rfl, rfl⟩ rfl rfl

theorem syscallFinish_outcome (hπ : π.Calls t) (h : Ready e.cpu t x.sched)
    (hX : π.MayExit t x.sched) (result : Int64) :
    Outcome π e t x (syscallFinish e fp result x) := by
  unfold syscallFinish terminationRequested
  rw [h.current]
  dsimp only
  by_cases hf : (x.sched.process (x.sched.thread t).process).faulted = true
  · rw [if_pos hf]
    have hleave := syscallLeave_busy (π := π) h fp
    exact .after hleave (kernelSchedulerExit_outcome hπ (hleave.acts.notifies (hX hf).child)
      (hX hf).load hleave.ready (fun _ => (hX hf).quiet) _)
  · rw [if_neg hf]
    have hsched : (storeResult e result x).sched = { x.sched with
        lastUser := Function.update x.sched.lastUser t
          ((x.sched.lastUser t).setResult result.toUInt64) } := by
      simp [storeResult, h.current, Sect.on]
    have hframe : (storeResult e result x).frame = x.frame.setR0 result.toUInt64 := by
      simp [storeResult, h.current, Sect.on]
    have hready : Ready e.cpu t (storeResult e result x).sched := by
      rw [hsched]
      exact ⟨⟨h.online, h.listed, h.affinity, ⟨h.queue.nodup, h.queue.queued⟩⟩, h.current,
        h.process, h.notWaiting⟩
    have hleave := syscallLeave_busy (π := π) hready fp
    refine .result result.toUInt64 hπ.call ⟨?_, hleave.ready⟩ (hleave.frame.trans hframe) ?_ ?_
      fun p => (hleave.signals p).trans (by rw [hsched])
    · refine Acts.trans ?_ hleave.acts
      rw [hsched]
      exact (Act.history _ _).acts
    · rw [hleave.last, hsched]
      simp
    · have := hleave.state
      rwa [hsched] at this

end RiscMv.Kernel
