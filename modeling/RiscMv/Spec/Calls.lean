import RiscMv.Spec.Tidy

/-!
# One walk through the system calls

What a system call does is a matter of a few pieces: changes to the record of its thread,
reclamation, wake-ups, blocking, the outcomes of `scheduler_dequeue_or_idle` and the return.
`CallRules` lists what is to show of the pieces, and the theorems here conclude that it holds of
every system call.

## Key results
- `CallRules.runScript`, `CallRules.dispatch`, `CallRules.pending`
-/

namespace RiscMv.Kernel

/-- No thread in the run queue is pinned to the processor. -/
def Vacant (c : CpuId) (s : Sched) : Prop :=
  ∀ u ∈ s.runQueue, (s.thread u).cpuAffinity ≠ c + 1

/-- The thread that goes on when the function stops waiting without another thread to run. -/
def Pending.returns : Pending → Option ThreadRef
  | .exit _ | .fault _ => none
  | p => some p.waiter

/-- Whether a file system call can wait in `kernel_scheduler_block_current`. -/
def Script.blocksCurrent : Script → Bool
  | .done _ | .exec _ => false
  | .gateUnlock k | .reap k | .block _ _ _ _ k => k.blocksCurrent
  | .blockRead _ _ | .present => true

/-- Whether a system call may load another thread: exit, yield, wait, waitpid, join and sleep
    may, and file system calls that wait in `kernel_scheduler_block_current`. -/
def loadSyscall (script : Script) (x : Sect) : Prop :=
  x.frame.registers 0 ∈ [0, 3, 5, 6, 7, 13] ∨
    scriptedSyscall (x.frame.registers 0) = true ∧ script.blocksCurrent = true

/-- Whether a function that waited for the run queue may load another thread: all may, but
    `kernel_scheduler_block_kernel` switches stacks instead. -/
def Pending.loads : Pending → Bool
  | .blockKernel _ _ k => k.blocksCurrent
  | _ => true

/-- An update of the record of a thread that leaves its place in the scheduler alone. -/
structure Neutral (th th' : KernelThread) : Prop where
  home : SameHome th th'
  state : th'.state = th.state
  flags : th'.flags = th.flags

/-- What is to show of the pieces of a system call of `t`, where `serves` holds as long as the
    section works for `t`, `parked` once it has given up `t`, and `ends` of its result.  The
    section may dispatch other threads if `loads` holds, and collect children if `collects`
    does. -/
structure CallRules (e : Env) (fp : StackAddr) (t : ThreadRef) (serves parked : Sect → Prop)
    (ends : Sect × Exit → Prop) (loads collects : Prop) : Prop where
  current : ∀ {x u}, serves x → x.sched.current e.cpu = some u → u = t
  self : ∀ {x} (f : KernelThread → KernelThread), serves x →
    Neutral (x.sched.thread t) (f (x.sched.thread t)) → serves (x.modThread t f)
  unjoin : ∀ {x} (u : ThreadRef), serves x → serves (x.modThread u ({ · with joinWaiter := none }))
  reap : ∀ {x}, serves x → serves (x.on schedulerReapDeferred)
  queueReap : ∀ {x} (u : ThreadRef), serves x → serves (x.on (schedulerQueueThreadReap u))
  wakeGate : ∀ {x}, serves x → serves (x.on fun s => (waitQueueWakeOne e .gate 0 s).1)
  collect : collects → ∀ {x zombie pid}, serves x →
    zombie ∈ (x.sched.process (x.sched.thread t).process).children →
    schedulerWaitMatches pid (x.sched.process zombie).pid = true →
    (x.sched.process zombie).state = .zombie →
    serves ((x.on fun s => { s with
      collected := ((x.sched.process zombie).pid, some pid) :: s.collected }).on fun s =>
        schedulerWakeStaleWaiters e (x.sched.thread t).process (x.sched.process zombie).pid
          (schedulerCollectChild (x.sched.thread t).process zombie s))
  finish : ∀ {x} (result : Int64), serves x → ends (syscallFinish e fp result x)
  stop : ∀ {x} (image : NewImage), serves x → ends (execStop e image t x)
  block : ∀ {x} (q : WaitQueue) (ticks : UInt64) (timeoutResult : Int64), serves x →
    x.sched.current e.cpu = some t → (x.sched.thread t).ctx = x.frame.toContext →
    (x.sched.thread t).timeoutQueued = false →
    parked (x.on (enterWaitQueue t q ticks timeoutResult))
  waitChild : ∀ {x} {pid statusAddress : UInt64}, serves x →
    x.sched.current e.cpu = some t → (x.sched.thread t).ctx = x.frame.toContext →
    (∃ c ∈ (x.sched.process (x.sched.thread t).process).children,
      schedulerWaitMatches pid (x.sched.process c).pid = true) →
    (∀ c ∈ (x.sched.process (x.sched.thread t).process).children,
      schedulerWaitMatches pid (x.sched.process c).pid = true →
        (x.sched.process c).state ≠ .zombie) →
    parked (x.modThread t fun th => { th with
      waitPid := pid, waitStatusAddress := statusAddress, state := .blocked,
      blockedIn := some (.waitpid pid) })
  waitThread : ∀ {x} {tid statusAddress : UInt64} (target : ThreadRef), serves x →
    x.sched.current e.cpu = some t → (x.sched.thread t).ctx = x.frame.toContext →
    parked ((x.modThread t fun th => { th with
      waitTid := tid, joinStatusAddress := statusAddress, state := .blocked,
      blockedIn := some (.join tid) }).modThread target ({ · with joinWaiter := some t }))
  next : loads → ∀ {y n s'}, parked y → Dequeue e n y.sched s' →
    ends (schedulerLoad (some t) n ({ y with sched := s' }.on (setCurrent e (some n))))
  switch : ∀ {y n s'} (depth : Nat), parked y → Dequeue e n y.sched s' → n ≠ t →
    ends (blockKernelSwitch t n depth ({ y with sched := s' }.on (setCurrent e (some n))))
  again : ∀ {y s'}, parked y → Dequeue e t y.sched s' →
    serves ({ y with sched := s' }.on (setCurrent e (some t)))
  turn : ∀ {y s'}, parked y → Turned y.sched s' → parked { y with sched := s' }
  idle : ∀ {y q}, parked y → q.returns = some t → Vacant e.cpu y.sched →
    ends ({ y with sched := idleEnter e (setCurrent e none y.sched) }, .idle q)
  runs : ∀ {y}, parked y → Vacant e.cpu y.sched → schedulerHasBlockedThread y.sched = false →
    serves (waiterRuns e t y)
  detach : ∀ {y}, parked y → Vacant e.cpu y.sched → schedulerHasBlockedThread y.sched = false →
    serves (waiterRuns e t (y.on (schedulerDetachWait t)))

theorem schedulerDequeue_vacant {e : Env} {s s' : Sched}
    (h : schedulerDequeue e s = (none, s')) : Vacant e.cpu s' := by
  obtain ⟨⟨rings, _⟩, hall⟩ := schedulerDequeue_none h
  exact fun u hu => (hall u hu).2

/-- The outcomes of `scheduler_dequeue_or_idle`. -/
theorem dequeueThen_cases {e : Env} {y : Sect} {rest : Sect → Dequeued → Sect × Exit}
    {ends : Sect × Exit → Prop}
    (hnext : ∀ n s', Dequeue e n y.sched s' → ends (rest { y with sched := s' } (.next n)))
    (hidle : ∀ s', Turned y.sched s' → Vacant e.cpu s' →
      ends (rest { y with sched := idleEnter e (setCurrent e none s') } .idle))
    (hnone : ∀ s', Turned y.sched s' → Vacant e.cpu s' → schedulerHasBlockedThread s' = false →
      ends (rest { y with sched := s' } .none)) : ends (dequeueThen e y rest) := by
  unfold dequeueThen schedulerDequeueOrIdle
  split
  · next n s' heq => exact hnext n s' (schedulerDequeue_some heq)
  · next s' heq =>
    have hturn := (schedulerDequeue_none heq).1
    have hvacant := schedulerDequeue_vacant heq
    split
    · next hcond =>
      simp only [Bool.and_eq_true, Bool.not_eq_true'] at hcond
      exact hnone s' hturn hvacant hcond.1
    · exact hidle s' hturn hvacant

namespace CallRules

variable {e : Env} {fp : StackAddr} {t u : ThreadRef} {serves parked : Sect → Prop}
  {ends : Sect × Exit → Prop} {loads collects : Prop} {x y : Sect}
  (R : CallRules e fp t serves parked ends loads collects)

include R

/-! ## The record of the thread -/

theorem currentSpace (h : serves x) (hu : currentSpace e x.sched = some u) :
    u = t ∧ x.sched.current e.cpu = some u := by
  unfold Kernel.currentSpace at hu
  split at hu
  · next v hv =>
    split at hu
    · cases hu
      exact ⟨R.current h hv, hv⟩
    · cases hu
  · cases hu

/-- `scheduler_reap_deferred` leaves the processors' threads alone. -/
theorem reapServed (h : serves x) (hcur : x.sched.current e.cpu = some t) :
    serves (x.on schedulerReapDeferred) ∧
      (x.on schedulerReapDeferred).sched.current e.cpu = some t := by
  refine ⟨R.reap h, ?_⟩
  have hcpu := (schedulerReapDeferred_micro (π := .nothing) x.sched).cpu_eq.1
  rwa [Sect.on, Sched.current, hcpu]

theorem enter (h : serves x) : serves (syscallEnter e fp x) := by
  unfold syscallEnter
  split
  · next hu =>
    obtain rfl := R.current h hu
    exact R.self _ h ⟨⟨rfl, rfl, rfl⟩, rfl, rfl⟩
  · exact h

theorem leave (h : serves x) : serves (syscallLeave e fp x) := by
  unfold syscallLeave
  split
  · next hu =>
    obtain rfl := R.current h hu
    split
    · exact R.self _ h ⟨⟨rfl, rfl, rfl⟩, rfl, rfl⟩
    · exact h
  · exact h

/-- `scheduler_save`, and the record it leaves. -/
theorem save (h : serves x) : serves (schedulerSave t x) ∧
    ((schedulerSave t x).sched.thread t).ctx = (schedulerSave t x).frame.toContext := by
  refine ⟨R.self _ h ⟨⟨rfl, rfl, rfl⟩, rfl, rfl⟩, ?_⟩
  simp [schedulerSave, Sect.modThread, Sect.on]

/-! ## Waiting for the run queue -/

theorem failed (h : serves x) (caller : BlockCaller) : ends (blockCurrentFailed e fp caller x) := by
  unfold blockCurrentFailed
  dsimp only
  split
  · next hu =>
    obtain rfl := R.current h hu
    exact R.finish _ (R.self _ h ⟨⟨rfl, rfl, rfl⟩, rfl, rfl⟩)
  · exact R.finish _ h

theorem blockCurrentDequeued (hl : loads) (h : parked y) (caller : BlockCaller) :
    ends (dequeueThen e y (blockCurrentDequeued e fp t caller)) :=
  dequeueThen_cases (fun _ _ hd => R.next hl h hd) (fun _ hs hall => R.idle (R.turn h hs) rfl hall)
    fun _ hs hall hno => R.failed (R.detach (R.turn h hs) hall hno) caller

theorem blockKernelDequeued {k : Script} {rest : Sect → Sect × Exit} (h : parked y) (depth : Nat)
    (hrest : ∀ z, serves z → ends (rest z)) :
    ends (dequeueThen e y (blockKernelDequeued e t depth k rest)) := by
  refine dequeueThen_cases (fun n s' hd => ?_) (fun _ hs hall => R.idle (R.turn h hs) rfl hall)
    fun _ hs hall hno => hrest _ (R.detach (R.turn h hs) hall hno)
  unfold Kernel.blockKernelDequeued
  dsimp only
  split
  · next hne => exact R.switch depth h hd hne
  · next heq =>
    obtain rfl := not_not.mp heq
    exact hrest _ (R.self _ (R.again h hd) ⟨⟨rfl, rfl, rfl⟩, rfl, rfl⟩)

theorem waitpidDequeued (hl : loads) (h : parked y) :
    ends (dequeueThen e y (waitpidDequeued e fp t)) :=
  dequeueThen_cases (fun _ _ hd => R.next hl h hd) (fun _ hs hall => R.idle (R.turn h hs) rfl hall)
    fun _ hs hall hno => R.finish _
      (R.self _ (R.runs (R.turn h hs) hall hno) ⟨⟨rfl, rfl, rfl⟩, rfl, rfl⟩)

theorem joinDequeued (hl : loads) (h : parked y) (target : ThreadRef) :
    ends (dequeueThen e y (joinDequeued e fp t target)) :=
  dequeueThen_cases (fun _ _ hd => R.next hl h hd) (fun _ hs hall => R.idle (R.turn h hs) rfl hall)
    fun _ hs hall hno => R.finish _ (R.unjoin target
      (R.self _ (R.runs (R.turn h hs) hall hno) ⟨⟨rfl, rfl, rfl⟩, rfl, rfl⟩))

/-! ## File system calls -/

theorem blockCurrent (hl : loads) (h : serves x) (caller : BlockCaller) (q : WaitQueue)
    (ticks : UInt64) (timeoutResult : Int64) :
    ends (kernelSchedulerBlockCurrent e fp caller q ticks timeoutResult x) := by
  unfold kernelSchedulerBlockCurrent blockCurrentEnter
  split
  · exact R.failed h caller
  · next w y hw =>
    split at hw
    · cases hw
    · next hu =>
      obtain ⟨rfl, hcur⟩ := R.currentSpace h hu
      split at hw
      · cases hw
      · next hcond =>
        cases hw
        simp only [not_or, Bool.not_eq_true] at hcond
        obtain ⟨hsave, hctx⟩ := R.save h
        exact R.blockCurrentDequeued hl (R.block q ticks timeoutResult hsave hcur hctx
          (by simpa [schedulerSave, Sect.modThread, Sect.on] using hcond.2.2)) caller

/-- A file system call.  The induction is on the script: each step that does not end the section
    leaves the thread served. -/
theorem runScript (k : Script) (hl : k.blocksCurrent = true → loads) (h : serves x) :
    ends (runScript e fp k x) := by
  induction k generalizing x with
  | done result => exact R.finish result h
  | gateUnlock k ih => exact ih hl (R.wakeGate h)
  | reap k ih => exact ih hl (R.reap h)
  | block q ticks timeoutResult depth k ih =>
    unfold Kernel.runScript blockKernelEnter
    split
    · exact ih hl h
    · next w y hw =>
      split at hw
      · cases hw
      · next hu =>
        obtain rfl := R.current h hu
        dsimp only at hw
        split at hw
        · cases hw
        · next hcond =>
          cases hw
          simp only [not_or, Bool.not_eq_true] at hcond
          obtain ⟨hsave, hctx⟩ := R.save h
          have hset := R.self ({ · with kernelWaitResult := timeoutResult }) hsave
            ⟨⟨rfl, rfl, rfl⟩, rfl, rfl⟩
          refine R.blockKernelDequeued (R.block q ticks timeoutResult hset hu ?_ ?_) depth
            fun z hz => ih hl hz
          · simpa [Sect.modThread, Sect.on] using hctx
          · simpa [schedulerSave, Sect.modThread, Sect.on] using hcond.2.2.2.1
  | blockRead address size =>
    have hleave := R.leave h
    unfold Kernel.runScript
    dsimp only
    split
    · exact R.finish _ hleave
    · next hu =>
      obtain ⟨rfl, _⟩ := R.currentSpace hleave hu
      exact R.blockCurrent (hl rfl) (R.self _ hleave ⟨⟨rfl, rfl, rfl⟩, rfl, rfl⟩) _ _ _ _
  | present => exact R.blockCurrent (hl rfl) (R.leave h) _ _ _ _
  | exec image =>
    unfold Kernel.runScript
    split
    · exact R.finish _ h
    · next hu =>
      obtain rfl := R.current h hu
      exact R.stop image h

/-! ## sleep, waitpid, join -/

theorem sleep (hl : loads) (h : serves x) (milliseconds : UInt64) :
    ends (kernelSchedulerSleep e fp milliseconds x) := by
  unfold kernelSchedulerSleep
  dsimp only
  repeat' split
  · exact R.finish _ h
  · exact R.finish _ h
  · exact R.finish _ h
  · exact R.blockCurrent hl (R.reap h) _ _ _ _

theorem waitpid (hl : loads) (hc : collects) (h : serves x) (pid statusAddress : UInt64) :
    ends (kernelSchedulerWaitpid e fp pid statusAddress x) := by
  unfold kernelSchedulerWaitpid
  split
  · exact R.finish _ h
  next waiter hu =>
  obtain ⟨rfl, hcur⟩ := R.currentSpace h hu
  split
  · exact R.finish _ h
  obtain ⟨hreap, hcur⟩ := R.reapServed h hcur
  generalize x.on schedulerReapDeferred = y at hreap hcur ⊢
  dsimp only
  split
  · exact R.finish _ hreap
  next child rest hmatching =>
  split
  · next zombie hfind =>
    have hmem := List.mem_filter.mp (List.mem_of_find?_eq_some hfind)
    have hz := List.find?_some hfind
    unfold waitpidCollect
    dsimp only
    split
    · exact R.finish _ hreap
    · exact R.finish _ (R.collect hc hreap hmem.1 hmem.2 (by simpa using hz))
  · next hnone =>
    -- the children that match and the one found are still there after `scheduler_save`
    obtain ⟨hsave, hctx⟩ := R.save hreap
    have hproc : ((schedulerSave waiter y).sched.thread waiter).process =
        (y.sched.thread waiter).process := by
      simp [schedulerSave, Sect.modThread, Sect.on]
    have hmem := List.mem_filter.mp (hmatching ▸ List.mem_cons_self : child ∈ _)
    refine R.waitpidDequeued hl (R.waitChild hsave hcur hctx ⟨child, hproc.symm ▸ hmem⟩ ?_)
    intro c hm hmatch hz
    have hc' : c ∈ (y.sched.process (y.sched.thread waiter).process).children.filter
        fun child => schedulerWaitMatches pid (y.sched.process child).pid :=
      List.mem_filter.mpr ⟨hproc ▸ hm, hmatch⟩
    exact List.find?_eq_none.mp hnone c hc' (beq_iff_eq.mpr hz)

theorem joinTarget (hl : loads) (h : serves x) (hcur : x.sched.current e.cpu = some t)
    (target : ThreadRef) (tid statusAddress : UInt64) :
    ends (joinTarget e fp t target tid statusAddress x) := by
  unfold Kernel.joinTarget
  split
  · exact R.finish _ h
  split
  · exact R.finish _ h
  split
  · split
    · exact R.finish _ h
    · exact R.finish _ (R.queueReap target h)
  · obtain ⟨hsave, hctx⟩ := R.save h
    exact R.joinDequeued hl (R.waitThread target hsave hcur hctx) target

theorem join (hl : loads) (h : serves x) (tid statusAddress : UInt64) :
    ends (kernelSchedulerJoin e fp tid statusAddress x) := by
  unfold kernelSchedulerJoin
  split
  · exact R.finish _ h
  next hu =>
  obtain ⟨rfl, hcur⟩ := R.currentSpace h hu
  obtain ⟨hreap, hcur⟩ := R.reapServed h hcur
  dsimp only
  split
  · exact R.finish _ h
  split
  · exact R.finish _ hreap
  split
  · exact R.finish _ hreap
  · exact R.joinTarget hl hreap hcur _ _ _

/-! ## Dispatch -/

/-- A system call of a thread that goes on; exit and yield are left to the caller. -/
theorem dispatch (h : serves x)
    (hstop : stopCurrent e x = none) (hu : Kernel.currentSpace e x.sched = some u)
    {script : Script} (hl : loadSyscall script x → loads)
    (hc : x.frame.registers 0 ∈ [5, 6] → collects)
    (hexit : x.frame.registers 0 = 0 → ∀ status,
      ends (kernelSchedulerExit e status (syscallLeave e fp (syscallEnter e fp x))))
    (hyield : x.frame.registers 0 = 3 →
      ends (kernelSchedulerYield e (syscallLeave e fp (syscallEnter e fp x)))) :
    ends (kernelSyscallDispatch e fp script x) := by
  have hframe : (syscallEnter e fp x).frame = x.frame := by
    unfold syscallEnter
    split <;> rfl
  have henter := R.enter h
  have hleave := R.leave henter
  unfold kernelSyscallDispatch
  rw [hstop, hu]
  dsimp only
  rw [hframe]
  split
  · next hn => exact hexit hn _
  split
  · next hn => exact hyield hn
  split
  · exact R.finish _ henter
  split
  · next hn => exact R.waitpid (hl (.inl (by simp [hn]))) (hc (by simp [hn])) hleave _ _
  split
  · next hn =>
    split
    · exact R.finish _ henter
    · exact R.waitpid (hl (.inl (by simp [hn]))) (hc (by simp [hn])) hleave _ _
  split
  · next hn => exact R.join (hl (.inl (by simp [hn]))) hleave _ _
  split
  · next hn => exact R.sleep (hl (.inl (by simp [hn]))) hleave _
  split
  · next hn => exact R.runScript script (fun hk => hl (.inr ⟨hn, hk⟩)) henter
  · exact R.finish _ henter

/-- A function that waited for the run queue and whose thread goes on afterwards. -/
theorem pending {q : Pending} (hq : q.returns = some t) (hl : q.loads = true → loads)
    (h : parked y) : ends (dequeueThen e y (pendingDequeued e fp q)) := by
  cases q with
  | exit v => cases hq
  | fault v => cases hq
  | blockCurrent v caller =>
    cases hq
    exact R.blockCurrentDequeued (hl rfl) h caller
  | blockKernel v depth k =>
    cases hq
    exact R.blockKernelDequeued h depth fun z hz => R.runScript k hl hz
  | waitpid v =>
    cases hq
    exact R.waitpidDequeued (hl rfl) h
  | join v target =>
    cases hq
    exact R.joinDequeued (hl rfl) h target

end CallRules

end RiscMv.Kernel
