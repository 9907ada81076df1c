import RiscMv.Kernel.Syscalls
import RiscMv.Spec.TidyFamily

/-!
# Ending and stopping the threads of a process keep the scheduler tidy

`kernel_scheduler_exit` ends one thread, `kernel_scheduler_fault` all threads of a process and
`kernel_scheduler_exec` all but one.  Each of them changes the states of the threads before the
count of the process, so the count of that process is left out in between.

## Key results
- `Tidy.exit`, `exitProcess_tidy`, `faultThreads_tidy`, `execProcess_tidy`
-/

namespace RiscMv.Kernel

variable {X : ProcessRef → Prop} {w : Prop} {s s' : Sched} {t u : ThreadRef} {p q : ProcessRef}
  {e : Env} {f : KernelThread → KernelThread} {g : KernelProcess → KernelProcess}

/-! ## One thread exits -/

/-- The count of `p` is right again. -/
theorem Tidy.settle (h : Tidy (· = p) w s) (hp : (s.process p).stopRequested = false →
    (s.process p).liveThreadCount = liveCount s (s.process p).threads) : Tidy noProcess w s := by
  refine ⟨h.toQueuesOk, { h.toLives with counted := fun q _ hr => ?_ }, h.toKin, h.waits⟩
  by_cases hq : q = p
  · subst hq
    exact hp hr
  · exact h.counted q hq hr

/-- One live thread of the list ends. -/
theorem liveCount_kill (ts : List ThreadRef) (hnodup : ts.Nodup) (ht : t ∈ ts)
    (hlive : (s.thread t).state.isLive = true) (hend : (f (s.thread t)).state.isLive = false) :
    liveCount s ts = liveCount (s.modThread t f) ts + 1 := by
  unfold liveCount
  induction ts with
  | nil => cases ht
  | cons u rest ih =>
    obtain ⟨hu, hrest⟩ := List.nodup_cons.mp hnodup
    by_cases hut : u = t
    · subst hut
      have hsame : rest.countP (fun v => ((s.modThread u f).thread v).state.isLive) =
          rest.countP fun v => (s.thread v).state.isLive :=
        List.countP_congr fun v hv => by
          have hvu : v ≠ u := by
            rintro rfl
            exact hu hv
          rw [modThread_thread_ne s f hvu]
      rw [List.countP_cons, List.countP_cons, hsame]
      simp [hlive, hend]
    · have hmem := (List.mem_cons.mp ht).resolve_left (Ne.symm hut)
      rw [List.countP_cons, List.countP_cons, ih hrest hmem, modThread_thread_ne s f hut]
      omega

/-- A thread ends and its process counts one thread less. -/
theorem Tidy.exit (h : Tidy noProcess w s) (ht : (s.thread t).state = .running)
    (hp : (s.thread t).process = p) (hreq : (s.process p).stopRequested = false)
    (hproc : (f (s.thread t)).process = (s.thread t).process)
    (hend : (f (s.thread t)).state = .zombie)
    (hflags : (f (s.thread t)).flags = (s.thread t).flags)
    (hg : (g (s.process p)).status = { (s.process p).status with
      liveThreadCount := (s.process p).liveThreadCount - 1 }) :
    Tidy noProcess w ((s.modThread t f).modProcess p g) := by
  have hlive : (s.thread t).state.isLive = true := by rw [ht]; rfl
  have hdead : (f (s.thread t)).state.isLive = false := by rw [hend]; rfl
  have hmem : t ∈ (s.process p).threads := hp ▸ h.member t (by rw [ht]; rfl)
  have hfault : (s.process p).faulted = false := by
    refine Bool.eq_false_iff.mpr fun hf => ?_
    rw [(h.stops p hf).1] at hreq
    cases hreq
  have hok : (f (s.thread t)).StatusOk := by
    have hst := h.status t
    simp only [KernelThread.flags, Prod.mk.injEq] at hflags
    refine ⟨fun hq => ?_, fun q hq => ?_, fun _ => hend⟩
    · rw [hflags.1] at hq
      cases ht.symm.trans (hst.queued hq)
    · rw [hflags.2.2.1] at hq
      cases ht.symm.trans (hst.waiting q hq)
  have hkill : Tidy (· = p) w (s.modThread t f) :=
    (h.mono fun _ hno => hno.elim).kill hproc hdead (.inl hp) hflags hok
  have hcount := liveCount_kill (f := f) _ (h.nodup p) hmem hlive hdead
  simp only [KernelProcess.status, ProcessStatus.mk.injEq] at hg
  obtain ⟨hthreads, hchildren, hparent, howner, hpid, hlcount, hstate, hfaulted, hrequest⟩ := hg
  have hmod : Tidy (· = p) w ((s.modThread t f).modProcess p g) := by
    refine ⟨hkill.toQueuesOk.modProcess, hkill.toLives.modProcess hthreads ?_ ?_ ?_ ?_,
      hkill.toKin.modProcess hchildren hparent,
      fun hw => (hkill.waits hw).modProcess hchildren hpid ?_⟩
    · rw [modThread_process, KernelProcess.Over, hstate, hfaulted]
      exact hkill.ends p
    · rw [modThread_process, hstate]
      exact id
    · rw [modThread_process, hfaulted, hfault]
      exact Bool.noConfusion
    · exact fun hno => absurd rfl hno
    · rw [modThread_process, hstate]
      exact id
  refine hmod.settle fun _ => ?_
  rw [modProcess_process_self, modThread_process, hlcount, hthreads, h.counted p id hreq, hcount]
  rfl

/-! ## A process ends -/

theorem orphanParent_modProcess (s : Sched) (p : ProcessRef) (g : KernelProcess → KernelProcess) :
    orphanParent (s.modProcess p g) p = orphanParent s p := by
  have hinit : (s.modProcess p g).initProcess = s.initProcess := rfl
  unfold orphanParent
  rw [hinit]
  cases s.initProcess with
  | none => rfl
  | some init =>
    by_cases hp : p = init
    · simp [hp]
    · simp only [modProcess_process_ne s g (Ne.symm hp)]

theorem AdoptsNoEnded.modProcess (h : AdoptsNoEnded p s)
    (hchildren : (g (s.process p)).children = (s.process p).children) :
    AdoptsNoEnded p (s.modProcess p g) := by
  intro t pid hb hin hnp c hc hcp
  rw [orphanParent_modProcess] at hnp
  rw [modProcess_process_self, hchildren] at hc
  rw [modProcess_process_ne s g hcp]
  exact h t pid hb hin hnp c hc hcp

/-- A process whose threads have all ended becomes a zombie. -/
theorem Tidy.endProcess (h : Tidy noProcess w s)
    (hend : ∀ t ∈ (s.process p).threads, (s.thread t).state.isLive = false)
    (hlive : (s.process p).liveThreadCount = 0) (hadopt : w → AdoptsNoEnded p s)
    (hg : (g (s.process p)).status = { (s.process p).status with state := .zombie }) (e : Env) :
    Tidy noProcess w (schedulerRecordProcessCompletion e p (s.modProcess p g)) := by
  simp only [KernelProcess.status, ProcessStatus.mk.injEq] at hg
  obtain ⟨hthreads, hchildren, hparent, howner, hpid, hcount, hstate, hfault, hreq⟩ := hg
  have hmod : Tidy noProcess False (s.modProcess p g) := by
    refine ⟨h.toQueuesOk.modProcess, h.toLives.modProcess hthreads (fun _ => hend)
      (fun _ => hstate) ?_ ?_, h.toKin.modProcess hchildren hparent, False.elim⟩
    · rw [hfault, hreq, howner, hcount]
      exact h.stops p
    · rw [hreq, hcount]
      exact h.counted p
  refine schedulerRecordProcessCompletion_tidy hmod (by simpa using hstate)
    (fun hw => ⟨?_, ?_, ?_⟩) e
  · simpa [hcount] using hlive
  · exact (hadopt hw).modProcess hchildren
  -- the process may be one that its parent waits for
  · intro t pid hb hin
    obtain ⟨hwait, ⟨c, hc, hm⟩, hz⟩ := h.waits hw t pid hb hin
    rw [modProcess_thread, modProcess_proj (·.children) hchildren]
    refine ⟨hwait, ⟨c, hc, by rw [modProcess_proj (·.pid) hpid]; exact hm⟩, fun c hc hcp hm => ?_⟩
    rw [modProcess_process_ne s g hcp] at hm ⊢
    exact hz c hc id hm

/-- The last thread of a process that exits ends the process. -/
theorem exitProcess_tidy (h : Tidy noProcess w s) (hreq : (s.process p).stopRequested = false)
    (hadopt : w → (s.process p).liveThreadCount = 0 → AdoptsNoEnded p s) (e : Env) :
    Tidy noProcess w (exitProcess e p s) := by
  unfold exitProcess
  split
  · next hlive =>
    refine h.endProcess (fun t ht => ?_) hlive (fun hw => hadopt hw hlive) rfl e
    have hcount := h.counted p id hreq
    rw [hlive, liveCount] at hcount
    simpa using List.countP_eq_zero.mp hcount.symm t ht
  · exact h

/-! ## Leaving all lists -/

/-- The processes and what the lists of threads and processes depend on are the same. -/
structure SameStanding (s s' : Sched) : Prop where
  process : s'.process = s.process
  thread : ∀ u, (s'.thread u).standing = (s.thread u).standing

theorem SameStanding.trans {s'' : Sched} (h : SameStanding s s') (h' : SameStanding s' s'') :
    SameStanding s s'' :=
  ⟨h'.process.trans h.process, fun u => (h'.thread u).trans (h.thread u)⟩

theorem SameStanding.owner (h : SameStanding s s') (u : ThreadRef) :
    (s'.thread u).process = (s.thread u).process :=
  congrArg ThreadStanding.process (h.thread u)

theorem SameStanding.state (h : SameStanding s s') (u : ThreadRef) :
    (s'.thread u).state = (s.thread u).state :=
  congrArg ThreadStanding.state (h.thread u)

theorem leaveRunQueue_standing (t : ThreadRef) (s : Sched) :
    SameStanding s (leaveRunQueue t s) := by
  unfold leaveRunQueue
  split
  · exact ⟨rfl, modThread_proj
      (s := { s with runQueue := s.runQueue.erase t, rings := s.rings.remove .run t })
      (·.standing) rfl⟩
  · exact ⟨rfl, fun _ => rfl⟩

theorem leaveThreadReapQueue_standing (t : ThreadRef) (s : Sched) :
    SameStanding s (leaveThreadReapQueue t s) := by
  unfold leaveThreadReapQueue
  split
  · exact ⟨rfl, modThread_proj
      (s := { s with
        threadReapQueue := s.threadReapQueue.erase t, rings := s.rings.remove .reap t })
      (·.standing) rfl⟩
  · exact ⟨rfl, fun _ => rfl⟩

theorem schedulerDetachWait_standing (t : ThreadRef) (s : Sched) :
    SameStanding s (schedulerDetachWait t s) := by
  refine ⟨schedulerDetachWait_process t s, fun u => ?_⟩
  by_cases hu : u = t
  · subst hu
    rw [schedulerDetachWait_thread_self]
    rfl
  · rw [schedulerDetachWait_thread_ne hu]

theorem unlinkJoin_standing (p : ProcessRef) (t : ThreadRef) (s : Sched) :
    SameStanding s (unlinkJoin p t s) ∧
      ∀ u, ((unlinkJoin p t s).thread u).flags = (s.thread u).flags := by
  unfold unlinkJoin
  repeat' split
  · exact ⟨⟨rfl, modThread_proj (·.standing) rfl⟩, modThread_proj (·.flags) rfl⟩
  · exact ⟨⟨rfl, fun _ => rfl⟩, fun _ => rfl⟩
  · exact ⟨⟨rfl, fun _ => rfl⟩, fun _ => rfl⟩

theorem dropJoiner_standing (t : ThreadRef) (s : Sched) : SameStanding s (dropJoiner t s) := by
  unfold dropJoiner
  split
  · next v _ =>
    have hv : SameStanding s (s.modThread v ({ · with waitTid := 0, joinStatusAddress := 0 })) :=
      ⟨rfl, modThread_proj (·.standing) rfl⟩
    exact hv.trans ⟨rfl, modThread_proj (·.standing) rfl⟩
  · exact ⟨rfl, fun _ => rfl⟩

theorem leaveRunQueue_thread_self (t : ThreadRef) (s : Sched) :
    (leaveRunQueue t s).thread t = { s.thread t with queued := false } := by
  unfold leaveRunQueue
  split
  · simp [eraseRunQueue]
  · next hq =>
    rw [Bool.not_eq_true] at hq
    rw [← hq]

theorem leaveThreadReapQueue_thread_self (t : ThreadRef) (s : Sched) :
    (leaveThreadReapQueue t s).thread t = { s.thread t with reapQueued := false } := by
  unfold leaveThreadReapQueue
  split
  · simp
  · next hr =>
    rw [Bool.not_eq_true] at hr
    rw [← hr]

/-! ## A process faults -/

theorem faultThread_tidy (h : Tidy X w s) (hX : X p) (ht : (s.thread t).process = p)
    (status : Int64) : Tidy X w (faultThread p status t s) := by
  have hout := leaveRunQueue_tidy (dropJoiner_tidy (unlinkJoin_tidy h p t) t) t
  have hall := schedulerDetachWait_tidy hout t
  have hstand := (((unlinkJoin_standing p t s).1.trans (dropJoiner_standing t _)).trans
    (leaveRunQueue_standing t _)).trans (schedulerDetachWait_standing t _)
  have hq : ((schedulerDetachWait t (leaveRunQueue t (dropJoiner t
      (unlinkJoin p t s)))).thread t).queued = false := by
    rw [schedulerDetachWait_thread_self, leaveRunQueue_thread_self]
  have hw : ((schedulerDetachWait t (leaveRunQueue t (dropJoiner t
      (unlinkJoin p t s)))).thread t).waitQueue = none := by
    rw [schedulerDetachWait_thread_self]
  unfold faultThread faultZombie
  split
  · refine hall.kill rfl rfl (.inl ?_) rfl ⟨by simp [hq], by simp [hw], fun _ => rfl⟩
    rw [hstand.owner, ht]
    exact hX
  · exact hall

/-- What a fault does to the threads of the process. -/
theorem faultThread_frame (p : ProcessRef) (status : Int64) (t : ThreadRef) (s : Sched) :
    (faultThread p status t s).process = s.process ∧
      (∀ u, ((faultThread p status t s).thread u).process = (s.thread u).process) ∧
      (∀ u, u ≠ t → ((faultThread p status t s).thread u).state = (s.thread u).state) ∧
      ((faultThread p status t s).thread t).state.isLive = false := by
  have hstand := (((unlinkJoin_standing p t s).1.trans (dropJoiner_standing t _)).trans
    (leaveRunQueue_standing t _)).trans (schedulerDetachWait_standing t _)
  unfold faultThread faultZombie
  generalize schedulerDetachWait t (leaveRunQueue t (dropJoiner t (unlinkJoin p t s))) = s'
    at hstand ⊢
  split
  · refine ⟨hstand.process, fun u => ?_, fun u hu => ?_, by simp [ThreadState.isLive]⟩
    · rw [modThread_proj (·.process) rfl u]
      exact hstand.owner u
    · rw [modThread_thread_ne _ _ hu]
      exact hstand.state u
  · next hdead =>
    refine ⟨hstand.process, hstand.owner, fun u _ => hstand.state u, ?_⟩
    rw [not_not.mp hdead]
    rfl

/-- After a fault all threads of the process have ended. -/
theorem faultThreads_tidy (status : Int64) (ts : List ThreadRef) (h : Tidy X w s) (hX : X p)
    (hts : ∀ t ∈ ts, (s.thread t).process = p) :
    Tidy X w (faultThreads p status ts s) ∧
      (faultThreads p status ts s).process = s.process ∧
      ∀ t, t ∈ ts ∨ (s.thread t).state.isLive = false →
        ((faultThreads p status ts s).thread t).state.isLive = false := by
  induction ts generalizing s with
  | nil => exact ⟨h, rfl, fun t ht => ht.resolve_left List.not_mem_nil⟩
  | cons t rest ih =>
    obtain ⟨hprocess, howner, hstate, hend⟩ := faultThread_frame p status t s
    obtain ⟨htidy, hprocess', hends⟩ := ih
      (faultThread_tidy h hX (hts t (List.mem_cons_self ..)) status)
      fun u hu => (howner u).trans (hts u (List.mem_cons_of_mem _ hu))
    refine ⟨htidy, hprocess'.trans hprocess, fun u hu => hends u ?_⟩
    by_cases hut : u = t
    · exact .inr (hut ▸ hend)
    · rcases hu with hu | hu
      · exact .inl ((List.mem_cons.mp hu).resolve_left hut)
      · exact .inr (by rw [hstate u hut]; exact hu)

theorem recordFault_tidy (h : Tidy (· = p) w s)
    (hend : ∀ t ∈ (s.process p).threads, (s.thread t).state.isLive = false)
    (cause address info : UInt64) : Tidy noProcess w (recordFault p cause address info s) := by
  have hmod : Tidy (· = p) w (recordFault p cause address info s) :=
    ⟨h.toQueuesOk.modProcess, h.toLives.modProcess rfl (fun _ => hend) id
      (fun _ => ⟨rfl, rfl, rfl⟩) (fun hno => absurd rfl hno), h.toKin.modProcess rfl rfl,
      fun hw => (h.waits hw).modProcess rfl rfl id⟩
  exact hmod.settle fun hr => by simp [recordFault] at hr

/-! ## exec -/

/-- A thread that is told to stop leaves all lists. -/
theorem leaveAll_tidy (h : Tidy X w s) (t : ThreadRef) :
    Tidy X w (schedulerDetachWait t (leaveThreadReapQueue t (leaveRunQueue t s))) ∧
      SameStanding s (schedulerDetachWait t (leaveThreadReapQueue t (leaveRunQueue t s))) ∧
      ((schedulerDetachWait t (leaveThreadReapQueue t (leaveRunQueue t s))).thread t).flags =
        (false, false, none, false) := by
  refine ⟨schedulerDetachWait_tidy (leaveThreadReapQueue_tidy (leaveRunQueue_tidy h t) t) t,
    ((leaveRunQueue_standing t s).trans (leaveThreadReapQueue_standing t _)).trans
      (schedulerDetachWait_standing t _), ?_⟩
  rw [schedulerDetachWait_thread_self, leaveThreadReapQueue_thread_self, leaveRunQueue_thread_self]
  rfl

/-- A thread in no list may have any state. -/
theorem KernelThread.StatusOk.of_flags {th : KernelThread}
    (h : th.flags = (false, false, none, false)) : th.StatusOk := by
  simp only [KernelThread.flags, Prod.mk.injEq] at h
  exact ⟨by simp [h.1], by simp [h.2.2.1], by simp [h.2.2.2]⟩

theorem requestStopThread_tidy (h : Tidy X w s)
    (hreq : (s.process (s.thread t).process).stopRequested = true) :
    Tidy X w (requestStopThread t s) := by
  obtain ⟨hall, hstand, hflags⟩ := leaveAll_tidy h t
  unfold requestStopThread stopZombie
  split
  · refine hall.kill rfl rfl (.inr ?_) rfl (.of_flags hflags)
    rw [hstand.process, hstand.owner]
    exact hreq
  · exact hall

/-- Stopping a thread changes no process record and moves no thread. -/
theorem requestStopThread_frame (t : ThreadRef) (s : Sched) :
    (requestStopThread t s).process = s.process ∧
      ∀ u, ((requestStopThread t s).thread u).process = (s.thread u).process := by
  have hstand := ((leaveRunQueue_standing t s).trans (leaveThreadReapQueue_standing t _)).trans
    (schedulerDetachWait_standing t _)
  unfold requestStopThread stopZombie
  split
  · refine ⟨hstand.process, fun u => ?_⟩
    rw [modThread_proj (·.process) rfl u]
    exact hstand.owner u
  · exact ⟨hstand.process, hstand.owner⟩

theorem requestStopThreads_tidy (owner : ThreadRef) (ts : List ThreadRef) (h : Tidy X w s)
    (hts : ∀ t ∈ ts, (s.process (s.thread t).process).stopRequested = true) :
    Tidy X w (requestStopThreads owner ts s) := by
  induction ts generalizing s with
  | nil => exact h
  | cons t rest ih =>
    have hrest := fun u hu => hts u (List.mem_cons_of_mem t hu)
    unfold requestStopThreads
    split
    · exact ih h hrest
    · obtain ⟨hprocess, howner⟩ := requestStopThread_frame t s
      refine ih (requestStopThread_tidy h (hts t (List.mem_cons_self ..))) fun u hu => ?_
      rw [hprocess, howner]
      exact hrest u hu

theorem schedulerRequestProcessStop_tidy (h : Tidy noProcess w s)
    (hfault : (s.process p).faulted = false) (owner : ThreadRef) :
    Tidy noProcess w (schedulerRequestProcessStop p owner s) := by
  have hreq : Tidy noProcess w (s.modProcess p
      ({ · with stopOwner := some owner, stopRequested := true })) := by
    refine ⟨h.toQueuesOk.modProcess, h.toLives.modProcess rfl (h.ends p) id ?_ (fun _ => nofun),
      h.toKin.modProcess rfl rfl, fun hw => (h.waits hw).modProcess rfl rfl id⟩
    rw [hfault]
    exact nofun
  unfold schedulerRequestProcessStop
  refine requestStopThreads_tidy owner _ hreq fun t ht => ?_
  rw [hreq.listed p t ht]
  simp

/-- A thread is discarded while the count of its process does not matter. -/
theorem discardThread_tidy (h : Tidy X w s) (hX : X p) (ht : (s.thread t).process = p) :
    Tidy X w (discardThread p t s) := by
  obtain ⟨hall, hstand, hflags⟩ := leaveAll_tidy h t
  obtain ⟨hstand', hflags'⟩ := unlinkJoin_standing p t
    (schedulerDetachWait t (leaveThreadReapQueue t (leaveRunQueue t s)))
  have hunlink : Tidy X w (unlinkJoin p t (schedulerDetachWait t (leaveThreadReapQueue t
      (leaveRunQueue t s)))) := unlinkJoin_tidy hall p t
  have hstand := hstand.trans hstand'
  have hflags := (hflags' t).trans hflags
  unfold discardThread
  dsimp only
  generalize unlinkJoin p t (schedulerDetachWait t (leaveThreadReapQueue t (leaveRunQueue t s))) =
    s' at hunlink hstand hflags ⊢
  have hjoin : Tidy X w (s'.modThread t ({ · with joinWaiter := none })) := hunlink.inert rfl rfl
  have hdead : Tidy X w (freeThread t (s'.modThread t ({ · with joinWaiter := none }))) := by
    refine hjoin.kill rfl rfl (.inl ?_) rfl (.of_flags ?_)
    · rw [modThread_proj (·.process) rfl t, hstand.owner, ht]
      exact hX
    · rw [modThread_thread_self]
      exact hflags
  -- the order of the two updates does not matter
  exact hdead.eraseThread (by simp [freeThread, ThreadState.isLive]) p (s'.process p).threadCount

/-- What discarding a thread changes. -/
theorem discardThread_frame (p : ProcessRef) (t : ThreadRef) (s : Sched) :
    (discardThread p t s).process =
        (s.modProcess p fun q => { q with threads := q.threads.erase t }).process ∧
      (∀ u, ((discardThread p t s).thread u).process = (s.thread u).process) ∧
      ∀ u, u ≠ t → ((discardThread p t s).thread u).state = (s.thread u).state := by
  have hstand := (((leaveRunQueue_standing t s).trans (leaveThreadReapQueue_standing t _)).trans
    (schedulerDetachWait_standing t _)).trans (unlinkJoin_standing p t _).1
  unfold discardThread
  dsimp only
  generalize unlinkJoin p t (schedulerDetachWait t (leaveThreadReapQueue t (leaveRunQueue t s))) =
    s' at hstand ⊢
  refine ⟨?_, fun u => ?_, fun u hu => ?_⟩
  · simp [freeThread, Sched.modThread, Sched.modProcess, hstand.process]
  · rw [freeThread, modThread_proj (·.process) rfl u, modThread_proj (·.process) rfl u]
    exact hstand.owner u
  · rw [freeThread, modThread_thread_ne _ _ hu, modThread_thread_ne _ _ hu]
    exact hstand.state u

/-- What is left of a process after all threads but `current` were discarded. -/
structure Discarded (p : ProcessRef) (current : ThreadRef) (ts : List ThreadRef) (s s' : Sched) :
    Prop where
  threads : ∀ u ∈ (s'.process p).threads, u ∈ (s.process p).threads ∧ (u ∈ ts → u = current)
  stays : current ∈ (s.process p).threads → current ∈ (s'.process p).threads
  faulted : (s'.process p).faulted = (s.process p).faulted
  state : (s'.process p).state = (s.process p).state
  running : (s'.thread current).state = (s.thread current).state
  owner : (s'.thread current).process = (s.thread current).process

theorem discardThreads_tidy (current : ThreadRef) (ts : List ThreadRef) (h : Tidy X w s)
    (hX : X p) (hts : ∀ t ∈ ts, (s.thread t).process = p) :
    Tidy X w (discardThreads p current ts s) ∧
      Discarded p current ts s (discardThreads p current ts s) := by
  induction ts generalizing s with
  | nil => exact ⟨h, fun u hu => ⟨hu, nofun⟩, id, rfl, rfl, rfl, rfl⟩
  | cons t rest ih =>
    have hrest := fun u hu => hts u (List.mem_cons_of_mem t hu)
    unfold discardThreads
    split
    · next ht =>
      obtain ⟨htidy, hd⟩ := ih h hrest
      refine ⟨htidy, { hd with threads := fun u hu => ?_ }⟩
      obtain ⟨hmem, hcur⟩ := hd.threads u hu
      refine ⟨hmem, fun hut => ?_⟩
      rcases List.mem_cons.mp hut with rfl | hut
      · exact ht
      · exact hcur hut
    · next ht =>
      obtain ⟨hprocess, howner, hstate⟩ := discardThread_frame p t s
      have hp := congrFun hprocess p
      rw [modProcess_process_self] at hp
      have htidy := discardThread_tidy h hX (hts t (List.mem_cons_self ..))
      obtain ⟨htidy', hd⟩ := ih htidy fun u hu => (howner u).trans (hrest u hu)
      have hne : current ≠ t := Ne.symm ht
      refine ⟨htidy', fun u hu => ?_, fun hcur => hd.stays ?_, hd.faulted.trans ?_,
        hd.state.trans ?_, hd.running.trans (hstate current hne), hd.owner.trans (howner current)⟩
      · obtain ⟨hmem, hcur⟩ := hd.threads u hu
        rw [hp, (h.nodup p).mem_erase_iff] at hmem
        refine ⟨hmem.2, fun hut => ?_⟩
        rcases List.mem_cons.mp hut with hut | hut
        · exact absurd hut hmem.1
        · exact hcur hut
      · rw [hp]
        exact (List.mem_erase_of_ne hne).mpr hcur
      · rw [hp]
      · rw [hp]

/-- A list that holds one element only. -/
theorem liveCount_eq_one (ts : List ThreadRef) (hnodup : ts.Nodup) (ht : t ∈ ts)
    (hts : ∀ u ∈ ts, u = t) (hlive : (s.thread t).state.isLive = true) : liveCount s ts = 1 := by
  have hrep := List.eq_replicate_of_mem hts
  rw [hrep, List.nodup_replicate] at hnodup
  have hlen : ts.length = 1 := le_antisymm hnodup (List.length_pos_of_mem ht)
  rw [hrep, hlen]
  simp [liveCount, hlive]

/-- The thread that has called exec is the only one of its process afterwards. -/
theorem execImage_tidy (h : Tidy noProcess w s) (ht : (s.thread t).state = .running)
    (hp : (s.thread t).process = p) (image : NewImage) :
    Tidy noProcess w (execThread t image (execProcess p image
      (schedulerExecDiscardOtherThreads p t s))) := by
  have hact : (s.thread t).state.isActive = true := by rw [ht]; rfl
  have hmem : t ∈ (s.process p).threads := hp ▸ h.member t hact
  have hover : ¬ (s.process p).Over := fun ho =>
    ThreadState.not_isActive (h.ends p ho t hmem) hact
  simp only [KernelProcess.Over, not_or, Bool.not_eq_true] at hover
  obtain ⟨hdisc, hd⟩ := discardThreads_tidy (X := (· = p)) t (s.process p).threads
    (h.mono fun _ hno => hno.elim) rfl (h.listed p)
  unfold schedulerExecDiscardOtherThreads
  generalize discardThreads p t (s.process p).threads s = s₁ at hdisc hd ⊢
  have hcount : Tidy (· = p) w (s₁.modProcess p
      ({ · with threadCount := 1, liveThreadCount := 1 })) := by
    refine ⟨hdisc.toQueuesOk.modProcess, hdisc.toLives.modProcess rfl (hdisc.ends p) id ?_
      (fun hno => absurd rfl hno), hdisc.toKin.modProcess rfl rfl,
      fun hw => (hdisc.waits hw).modProcess rfl rfl id⟩
    rw [hd.faulted, hover.2]
    exact Bool.noConfusion
  generalize hs₂ : s₁.modProcess p ({ · with threadCount := 1, liveThreadCount := 1 }) = s₂
    at hcount
  have hrec : s₂.process p = { s₁.process p with threadCount := 1, liveThreadCount := 1 } := by
    rw [← hs₂, modProcess_process_self]
  have hthread : s₂.thread = s₁.thread := by rw [← hs₂]; rfl
  have hproc : Tidy (· = p) w (execProcess p image s₂) := by
    refine ⟨hcount.toQueuesOk.modProcess, hcount.toLives.modProcess rfl ?_ ?_ Bool.noConfusion
      (fun hno => absurd rfl hno), hcount.toKin.modProcess rfl rfl,
      fun hw => (hcount.waits hw).modProcess rfl rfl fun h => by cases h⟩
    · rintro (ho | ho) <;> cases ho
    · rw [hrec, hd.state]
      exact fun hz => absurd hz hover.1
  have hrun : ((execProcess p image s₂).thread t).state = .running := by
    rw [execProcess, modProcess_thread, hthread, hd.running, ht]
  have hthr : Tidy (· = p) w (execThread t image (execProcess p image s₂)) := by
    have hok := hproc.status t
    refine hproc.move ⟨rfl, rfl, rfl, rfl⟩ rfl (by rw [hrun]) (by rw [hrun]; exact id)
      (fun _ => ThreadState.noConfusion) id (.stay Iff.rfl) (.stay Iff.rfl)
      (fun _ => .stay Iff.rfl) (.stay Iff.rfl)
      ⟨fun hq => ?_, fun q hq => ?_, fun hr => ?_⟩
    · cases hrun.symm.trans (hok.queued hq)
    · cases hrun.symm.trans (hok.waiting q hq)
    · cases hrun.symm.trans (hok.reaped hr)
  refine hthr.settle fun _ => ?_
  have hlist : ((execThread t image (execProcess p image s₂)).process p).threads =
      (s₁.process p).threads := by
    simp [execThread, execProcess, hrec]
  rw [hlist]
  have hone := liveCount_eq_one (s := execThread t image (execProcess p image s₂))
    (s₁.process p).threads (hdisc.nodup p) (hd.stays hmem)
    (fun u hu => (hd.threads u hu).2 (hd.threads u hu).1)
    (by simp [execThread, ThreadState.isLive])
  rw [hone]
  simp [execThread, execProcess, hrec]

end RiscMv.Kernel
