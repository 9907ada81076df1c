import RiscMv.Spec.Tidy

/-!
# Queues, wake-ups and reclamation keep the scheduler tidy

One lemma per function of the scheduler that moves threads between its lists.  Waking a thread
takes it out of every list it waits in before it is queued, so a second wake-up finds it
runnable and does nothing.

## Key results
- `schedulerWakeWaiter_tidy`, `Tidy.wakes`
- `schedulerReapDeferred_tidy`: threads and processes are freed only when no list holds them
-/

namespace RiscMv.Kernel

variable {X : ProcessRef → Prop} {w : Prop} {s s' : Sched} {t u n : ThreadRef} {p q : ProcessRef}
  {e : Env}

/-! ## The rings

What each list operation does to the lists, as `Rings.Hold` counts them. -/

theorem queue_timeout (s : Sched) (ts : List ThreadRef) (r : Rings) :
    ({ s with timeoutQueue := ts, rings := r } : Sched).queue =
      Function.update s.queue .timeout ts := by
  funext l
  cases l <;> rfl

theorem queue_reap (s : Sched) (ts : List ThreadRef) (r : Rings) :
    ({ s with threadReapQueue := ts, rings := r } : Sched).queue =
      Function.update s.queue .reap ts := by
  funext l
  cases l <;> rfl

theorem queue_wait (s : Sched) (q : WaitQueue) (ts : List ThreadRef) (r : Rings) :
    ({ s with waiters := Function.update s.waiters q ts, rings := r } : Sched).queue =
      Function.update s.queue (.wait q) ts := by
  funext l
  cases l with
  | wait q' =>
    by_cases hq : q' = q
    · subst hq
      simp [Sched.queue]
    · simp [Sched.queue, hq]
  | _ => rfl

/-- A list that shares its nodes with no other. -/
theorem not_mem_of_node {l : ThreadList} (hl : ∀ q, l ≠ .wait q) (ht : t ∉ s.queue l)
    (l' : ThreadList) (hnode : l'.node = l.node) : t ∉ s.queue l' := by
  cases l <;> cases l' <;> first | exact ht | exact absurd rfl (hl _) | cases hnode

/-! ## Run queue -/

theorem pushRunQueue_tidy (h : Tidy X w s) (hq : (s.thread t).queued = false)
    (hr : (s.thread t).state = .runnable) : Tidy X w (pushRunQueue t s) :=
  h.move ⟨rfl, rfl, rfl, rfl⟩ rfl rfl id (fun _ _ _ => rfl)
    (fun hold => queue_run s _ _ ▸ hold.pushBack (not_mem_of_node nofun fun hm => by
      simp [(h.run.mem t).mp hm] at hq))
    (.push (by simp [hq]) rfl) (.stay Iff.rfl) (fun _ => .stay Iff.rfl) (.stay Iff.rfl)
    ⟨fun _ => hr, (h.status t).waiting, (h.status t).reaped⟩

theorem leaveRunQueue_tidy (h : Tidy X w s) (t : ThreadRef) : Tidy X w (leaveRunQueue t s) := by
  unfold leaveRunQueue
  split
  · next hq =>
    exact h.move ⟨rfl, rfl, rfl, rfl⟩ rfl rfl id (fun _ _ _ => rfl)
      (fun hold => queue_run s _ _ ▸ hold.remove ((h.run.mem t).mpr hq)) (.erase nofun)
      (.stay Iff.rfl) (fun _ => .stay Iff.rfl) (.stay Iff.rfl)
      ⟨nofun, (h.status t).waiting, (h.status t).reaped⟩
  · exact h

/-- The thread a processor takes from the run queue was runnable, and runs. -/
theorem Dequeue.tidy (h : Tidy X w s) (hd : Dequeue e n s s') : Tidy X w s' := by
  have hq : (s.thread n).queued = true := (h.run.mem n).mp hd.mem
  have hr : (s.thread n).state = .runnable := (h.status n).queued hq
  obtain ⟨queue, rings, hperm, hrings, rfl⟩ := hd.eq
  have herase : Tidy X w ({ s with
      runQueue := s.runQueue.erase n
      rings := s.rings.remove .run n }.modThread n fun th =>
      { th with cpuAffinity := e.cpu + 1, queued := false, state := .running }) := by
    refine h.move ⟨rfl, rfl, rfl, rfl⟩ rfl (by simp [hr, ThreadState.isLive])
      (by simp [hr, ThreadState.isActive]) (fun _ => nofun)
      (fun hold => queue_run s _ _ ▸ hold.remove hd.mem) (.erase nofun) (.stay Iff.rfl)
      (fun _ => .stay Iff.rfl) (.stay Iff.rfl) ⟨nofun, fun q hw => ?_, fun hreap => ?_⟩
    · cases hr.symm.trans ((h.status n).waiting q hw)
    · cases hr.symm.trans ((h.status n).reaped hreap)
  -- the loop may have rotated the queue
  exact herase.requeue { herase.toQueuesOk with
    rings := queue_run s queue rings ▸ hrings h.rings
    run := herase.run.perm hperm } (fun _ => rfl) rfl rfl rfl

theorem Turned.tidy (hs : Turned s s') (h : Tidy X w s) : Tidy X w s' := by
  cases hs with
  | turn rings hold =>
    exact h.requeue { h.toQueuesOk with rings := hold h.rings } (fun _ => rfl) rfl rfl rfl

/-! ## Wait queues -/

theorem leaveWaitQueue_tidy (h : Tidy X w s) (t : ThreadRef) :
    Tidy X w (leaveWaitQueue t s) := by
  unfold leaveWaitQueue
  split
  · next q hq =>
    refine h.move ⟨rfl, rfl, rfl, rfl⟩ rfl rfl id (fun _ _ _ => rfl)
      (fun hold => queue_wait s q _ _ ▸ hold.remove (((h.wait q).mem t).mpr hq)) (.stay Iff.rfl)
      (.stay Iff.rfl) (fun r => ?_) (.stay Iff.rfl)
      ⟨(h.status t).queued, nofun, (h.status t).reaped⟩
    by_cases hr : r = q
    · subst hr
      simpa using Moved.erase nofun
    · dsimp only
      rw [Function.update_of_ne hr]
      refine .stay ⟨nofun, fun hw => ?_⟩
      exact absurd (Option.some.inj (hw.symm.trans hq)) hr
  · exact h

theorem leaveTimeoutQueue_tidy (h : Tidy X w s) (t : ThreadRef) :
    Tidy X w (leaveTimeoutQueue t s) := by
  unfold leaveTimeoutQueue
  split
  · next hq =>
    exact h.move ⟨rfl, rfl, rfl, rfl⟩ rfl rfl id (fun _ _ _ => rfl)
      (fun hold => queue_timeout s _ _ ▸ hold.remove ((h.timeout.mem t).mpr hq)) (.stay Iff.rfl)
      (.erase nofun) (fun _ => .stay Iff.rfl) (.stay Iff.rfl)
      ⟨(h.status t).queued, (h.status t).waiting, (h.status t).reaped⟩
  · exact h

theorem schedulerDetachWait_tidy (h : Tidy X w s) (t : ThreadRef) :
    Tidy X w (schedulerDetachWait t s) :=
  (leaveTimeoutQueue_tidy (leaveWaitQueue_tidy h t) t).inert rfl rfl

/-- The record of a detached thread. -/
theorem schedulerDetachWait_thread_self (t : ThreadRef) (s : Sched) :
    (schedulerDetachWait t s).thread t = { s.thread t with
      waitQueue := none, timeoutQueued := false, waitDeadline := 0, waitTimeoutResult := 0,
      waitBufferAddress := 0, waitBufferSize := 0 } := by
  unfold schedulerDetachWait leaveTimeoutQueue leaveWaitQueue
  repeat' split
  all_goals simp_all [Sched.modThread]

theorem schedulerDetachWait_thread_ne (hu : u ≠ t) (s : Sched) :
    (schedulerDetachWait t s).thread u = s.thread u := by
  unfold schedulerDetachWait leaveTimeoutQueue leaveWaitQueue
  repeat' split
  all_goals simp [Sched.modThread, hu]

/-- Leaving the wait queues touches no process and no list of processes. -/
theorem schedulerDetachWait_process (t : ThreadRef) (s : Sched) :
    (schedulerDetachWait t s).process = s.process := by
  unfold schedulerDetachWait leaveTimeoutQueue leaveWaitQueue
  repeat' split
  all_goals rfl

/-! ## Wake-ups -/

theorem storeWake_tidy (h : Tidy X w s) (hb : (s.thread t).state = .blocked)
    (hq : (s.thread t).waitQueue = none) (result : Int64) :
    Tidy X w (storeWake t result s) := by
  refine h.move ⟨rfl, rfl, rfl, rfl⟩ rfl (by simp [hb, ThreadState.isLive])
    (by simp [hb, ThreadState.isActive]) (fun _ => nofun) id (.stay Iff.rfl) (.stay Iff.rfl)
    (fun _ => .stay Iff.rfl) (.stay Iff.rfl) ⟨fun _ => rfl, fun q hw => ?_, fun hreap => ?_⟩
  · cases hq.symm.trans hw
  · cases hb.symm.trans ((h.status t).reaped hreap)

theorem wakeProcessorFor_status (e : Env) (t : ThreadRef) (s : Sched) :
    (wakeProcessorFor e t s).status = s.status := by
  unfold wakeProcessorFor wakeLogical wakeIdleOther
  repeat' split
  all_goals rfl

theorem enqueueWoken_tidy (h : Tidy X w s) (e : Env) (t : ThreadRef) :
    Tidy X w (enqueueWoken e t s) := by
  unfold enqueueWoken schedulerEnqueue
  by_cases hcond : (s.thread t).queued = true ∨ (s.thread t).state ≠ .runnable
  · rw [if_pos hcond]
    exact h.congr rfl
  · rw [if_neg hcond]
    simp only [not_or, Bool.not_eq_true, not_not] at hcond
    exact (pushRunQueue_tidy h hcond.1 hcond.2).congr (wakeProcessorFor_status e t _)

theorem schedulerWakeWaiter_tidy (h : Tidy X w s) (e : Env) (t : ThreadRef) (result : Int64) :
    Tidy X w (schedulerWakeWaiter e t result s) := by
  unfold schedulerWakeWaiter
  split
  · exact h
  · next hb =>
    refine enqueueWoken_tidy (storeWake_tidy (schedulerDetachWait_tidy h t) ?_ ?_ result) e t <;>
      rw [schedulerDetachWait_thread_self]
    exact not_not.mp hb

/-! ## Join -/

/-- A thread that has ended enters the reap queue. -/
theorem pushThreadReapQueue_tidy (h : Tidy X w s) (hz : (s.thread t).state = .zombie)
    (hr : (s.thread t).reapQueued = false) : Tidy X w (pushThreadReapQueue t s) :=
  h.move ⟨rfl, rfl, rfl, rfl⟩ rfl rfl id (fun _ _ _ => rfl)
    (fun hold => queue_reap s _ _ ▸ hold.pushBack (not_mem_of_node nofun fun hm => by
      simp [(h.reap.mem t).mp hm] at hr))
    (.stay Iff.rfl) (.stay Iff.rfl) (fun _ => .stay Iff.rfl) (.push (by simp [hr]) rfl)
    ⟨(h.status t).queued, (h.status t).waiting, fun _ => hz⟩

theorem schedulerQueueThreadReap_tidy (h : Tidy X w s) (t : ThreadRef) :
    Tidy X w (schedulerQueueThreadReap t s) := by
  unfold schedulerQueueThreadReap
  split
  · exact h.congr rfl
  · next hcond =>
    simp only [not_or, Bool.not_eq_true, not_not] at hcond
    exact pushThreadReapQueue_tidy h hcond.1 hcond.2

theorem leaveThreadReapQueue_tidy (h : Tidy X w s) (t : ThreadRef) :
    Tidy X w (leaveThreadReapQueue t s) := by
  unfold leaveThreadReapQueue
  split
  · next hr =>
    exact h.move ⟨rfl, rfl, rfl, rfl⟩ rfl rfl id (fun _ _ _ => rfl)
      (fun hold => queue_reap s _ _ ▸ hold.remove ((h.reap.mem t).mpr hr)) (.stay Iff.rfl)
      (.stay Iff.rfl) (fun _ => .stay Iff.rfl) (.erase nofun)
      ⟨(h.status t).queued, (h.status t).waiting, Bool.noConfusion⟩
  · exact h

theorem unlinkJoin_tidy (h : Tidy X w s) (p : ProcessRef) (t : ThreadRef) :
    Tidy X w (unlinkJoin p t s) := by
  unfold unlinkJoin
  repeat' split
  · exact h.inert rfl rfl
  · exact h
  · exact h

theorem dropJoiner_tidy (h : Tidy X w s) (t : ThreadRef) : Tidy X w (dropJoiner t s) := by
  unfold dropJoiner
  split
  · exact (h.inert rfl rfl).inert rfl rfl
  · exact h

theorem Tidy.wakes (e : Env) : WakeRules e (Tidy X w) where
  wake t result h := schedulerWakeWaiter_tidy h e t result
  error h := h.congr rfl
  tick h := h.congr rfl
  ipi h := h.congr rfl
  unjoin _ h := h.inert rfl rfl
  queueReap t h := schedulerQueueThreadReap_tidy h t

/-! ## Threads are freed -/

/-- A thread that has ended is in no queue of threads that take part in scheduling. -/
theorem QueuesOk.ended (h : QueuesOk s) (ht : (s.thread t).state.isLive = false) :
    (s.thread t).queued = false ∧ (s.thread t).waitQueue = none := by
  refine ⟨Bool.eq_false_iff.mpr fun hq => ?_, Option.eq_none_iff_forall_ne_some.mpr fun q hq => ?_⟩
  · rw [(h.status t).queued hq] at ht
    cases ht
  · rw [(h.status t).waiting q hq] at ht
    cases ht

theorem freeThread_tidy (h : Tidy X w s) (ht : (s.thread t).state.isLive = false)
    (hreap : (s.thread t).reapQueued = false) : Tidy X w (freeThread t s) := by
  obtain ⟨hq, hw⟩ := h.toQueuesOk.ended ht
  exact h.move ⟨rfl, rfl, rfl, rfl⟩ rfl ht.symm nofun (fun _ => nofun) id
    (.stay Iff.rfl) (.stay Iff.rfl) (fun _ => .stay Iff.rfl) (.stay Iff.rfl)
    ⟨by simp [hq], by simp [hw], by simp [hreap]⟩

/-- A thread that has ended is taken out of its process. -/
theorem Tidy.eraseThread (h : Tidy X w s) (ht : (s.thread t).state.isLive = false)
    (p : ProcessRef) (count : Nat) : Tidy X w (s.modProcess p fun q => { q with
      threads := q.threads.erase t, threadCount := count }) :=
  ⟨h.toQueuesOk.modProcess, h.toLives.eraseThread ht rfl ⟨rfl, rfl, rfl, rfl, rfl⟩,
    h.toKin.modProcess rfl rfl, fun hw => (h.waits hw).modProcess rfl rfl id⟩

theorem threadDestroy_tidy (h : Tidy X w s) (hreap : (s.thread t).reapQueued = false) :
    Tidy X w (threadDestroy t s) := by
  unfold threadDestroy
  dsimp only
  split
  · exact h.congr rfl
  · next hcond =>
    simp only [not_or, not_and, not_not] at hcond
    have ht : (s.thread t).state.isLive = false := by
      by_cases hz : (s.thread t).state = .zombie
      · rw [hz]; rfl
      · rw [hcond.2.2.2 hz]; rfl
    exact freeThread_tidy (h.eraseThread ht _ _) ht hreap

theorem threadDestroy_threadReapQueue (t : ThreadRef) (s : Sched) :
    (threadDestroy t s).threadReapQueue = s.threadReapQueue := by
  unfold threadDestroy
  dsimp only
  split <;> rfl

/-- The first loop of `scheduler_reap_deferred` empties the queue, or stops at a thread that a
    processor still works for. -/
theorem reapThreadsLoop_tidy (ts : List ThreadRef) (h : Tidy X w s)
    (hts : s.threadReapQueue = ts) : Tidy X w (reapThreadsLoop ts s).1 ∧
      ((reapThreadsLoop ts s).2 = true → (reapThreadsLoop ts s).1.threadReapQueue = []) := by
  induction ts generalizing s with
  | nil => exact ⟨h, fun _ => hts⟩
  | cons t rest ih =>
    have hz : (s.thread t).state = .zombie :=
      (h.status t).reaped ((h.reap.mem t).mp (by rw [hts]; exact List.mem_cons_self ..))
    have hpop : Tidy X w (popThreadReapQueue t rest s) := by
      refine h.move ⟨rfl, rfl, rfl, rfl⟩ rfl rfl id (fun _ _ _ => rfl)
        (fun hold => queue_reap s _ _ ▸ hold.popFront (l := .reap) hts) (.stay Iff.rfl)
        (.stay Iff.rfl) (fun _ => .stay Iff.rfl) ?_
        ⟨(h.status t).queued, (h.status t).waiting, Bool.noConfusion⟩
      simpa [hts] using Moved.erase (a := t) (l := s.threadReapQueue)
        (P := (s.thread t).reapQueued = true) (Q := False) id
    unfold reapThreadsLoop
    dsimp only
    split
    · exact ⟨pushThreadReapQueue_tidy hpop (by simpa [popThreadReapQueue] using hz)
        (by simp [popThreadReapQueue]), fun h => by cases h⟩
    · exact ih (threadDestroy_tidy hpop (by simp [popThreadReapQueue]))
        (threadDestroy_threadReapQueue t _)

/-! ## Two wake-ups of one wait -/

/-- The thread is about to be woken or has been. -/
def Rouses (s : Sched) (t : ThreadRef) : Prop :=
  (s.thread t).state = .blocked ∨ (s.thread t).queued = true

theorem enqueueWoken_frame (e : Env) (t : ThreadRef) (s : Sched) :
    (enqueueWoken e t s).process = s.process ∧
      (∀ u, u ≠ t → (enqueueWoken e t s).thread u = s.thread u) ∧
      ((enqueueWoken e t s).thread t).state = (s.thread t).state := by
  unfold enqueueWoken schedulerEnqueue
  by_cases hcond : (s.thread t).queued = true ∨ (s.thread t).state ≠ .runnable
  · rw [if_pos hcond]
    exact ⟨rfl, fun _ _ => rfl, rfl⟩
  · rw [if_neg hcond]
    have hst := wakeProcessorFor_status e t (pushRunQueue t s)
    simp only [Sched.status, SchedStatus.mk.injEq] at hst
    dsimp only
    rw [hst.1, hst.2.1]
    exact ⟨rfl, fun u hu => modThread_thread_ne _ _ hu, by simp [pushRunQueue]⟩

/-- A wake-up changes one thread, which is not blocked afterwards. -/
theorem schedulerWakeWaiter_frame (e : Env) (t : ThreadRef) (result : Int64) (s : Sched) :
    (schedulerWakeWaiter e t result s).process = s.process ∧
      (∀ u, u ≠ t → (schedulerWakeWaiter e t result s).thread u = s.thread u) ∧
      ((schedulerWakeWaiter e t result s).thread t).state ≠ .blocked := by
  unfold schedulerWakeWaiter
  split
  · next hb => exact ⟨rfl, fun _ _ => rfl, hb⟩
  · obtain ⟨hprocess, hne, hstate⟩ :=
      enqueueWoken_frame e t (storeWake t result (schedulerDetachWait t s))
    refine ⟨hprocess.trans (schedulerDetachWait_process t s), fun u hu => ?_, ?_⟩
    · rw [hne u hu, storeWake, modThread_thread_ne _ _ hu]
      exact schedulerDetachWait_thread_ne hu s
    · rw [hstate]
      simp [storeWake]

/-- A blocked thread that is woken is queued. -/
theorem schedulerWakeWaiter_queued (h : Tidy X w s) (ht : Rouses s t) (e : Env) (result : Int64) :
    ((schedulerWakeWaiter e t result s).thread t).queued = true := by
  rcases ht with hb | hq
  · have hnot : (s.thread t).queued = false := Bool.eq_false_iff.mpr fun hq => by
      cases hb.symm.trans ((h.status t).queued hq)
    unfold schedulerWakeWaiter
    rw [if_neg (not_not.mpr hb)]
    have henq : schedulerEnqueue t (storeWake t result (schedulerDetachWait t s)) =
        (pushRunQueue t (storeWake t result (schedulerDetachWait t s)), true) := by
      simp [schedulerEnqueue, storeWake, schedulerDetachWait_thread_self, hnot]
    unfold enqueueWoken
    rw [henq]
    have hst := wakeProcessorFor_status e t
      (pushRunQueue t (storeWake t result (schedulerDetachWait t s)))
    have hthread := congrFun (congrArg SchedStatus.thread hst) t
    refine (congrArg KernelThread.queued hthread).trans ?_
    simp [Sched.status, pushRunQueue]
  · -- a queued thread is runnable, so the wake-up does nothing
    have hr := (h.status t).queued hq
    have hnb : (s.thread t).state ≠ .blocked := by rw [hr]; exact ThreadState.noConfusion
    unfold schedulerWakeWaiter
    rw [if_pos hnb]
    exact hq

theorem schedulerWakeWaiter_rouses (h : Tidy X w s) (hu : Rouses s u) (e : Env) (t : ThreadRef)
    (result : Int64) : Rouses (schedulerWakeWaiter e t result s) u := by
  by_cases hut : u = t
  · subst hut
    exact .inr (schedulerWakeWaiter_queued h hu e result)
  · rw [Rouses, (schedulerWakeWaiter_frame e t result s).2.1 u hut]
    exact hu

theorem schedulerExpireLoop_rouses (ts : List ThreadRef) (h : Tidy X w s) (hu : Rouses s u)
    (e : Env) : Rouses (schedulerExpireLoop e ts s) u := by
  induction ts generalizing s with
  | nil => exact hu
  | cons t rest ih =>
    unfold schedulerExpireLoop
    split
    · exact ih (schedulerWakeWaiter_tidy h e t _) (schedulerWakeWaiter_rouses h hu e t _)
    · exact ih h hu

/-- The timeouts leave a queued thread queued. -/
theorem schedulerExpireLoop_queued (ts : List ThreadRef) (h : Tidy X w s)
    (hu : (s.thread u).queued = true) (e : Env) :
    ((schedulerExpireLoop e ts s).thread u).queued = true := by
  induction ts generalizing s with
  | nil => exact hu
  | cons t rest ih =>
    unfold schedulerExpireLoop
    split
    · refine ih (schedulerWakeWaiter_tidy h e t _) ?_
      by_cases hut : u = t
      · subst hut
        exact schedulerWakeWaiter_queued h (.inr hu) e _
      · rw [(schedulerWakeWaiter_frame e t _ s).2.1 u hut]
        exact hu
    · exact ih h hu

theorem QueuesOk.count_runQueue (h : QueuesOk s) (hq : (s.thread t).queued = true) :
    s.runQueue.count t = 1 :=
  List.count_eq_one_of_mem h.run.nodup ((h.run.mem t).mpr hq)

/-- A completion and a timeout of one wait queue the thread once, whichever comes first. -/
theorem wake_expire_once (h : Tidy X w s) (hb : (s.thread t).state = .blocked) (e : Env)
    (result : Int64) :
    (schedulerExpireTimeouts e (schedulerWakeWaiter e t result s)).runQueue.count t = 1 ∧
      (schedulerWakeWaiter e t result (schedulerExpireTimeouts e s)).runQueue.count t = 1 := by
  have hwake := schedulerWakeWaiter_tidy h e t result
  have hexpire := (Tidy.wakes e).expireLoop s.timeoutQueue h
  refine ⟨((Tidy.wakes e).expireLoop _ hwake).toQueuesOk.count_runQueue ?_,
    (schedulerWakeWaiter_tidy hexpire e t result).toQueuesOk.count_runQueue ?_⟩
  · exact schedulerExpireLoop_queued _ hwake (schedulerWakeWaiter_queued h (.inl hb) e result) e
  · exact schedulerWakeWaiter_queued hexpire (schedulerExpireLoop_rouses _ h (.inl hb) e) e result

/-! ## Registration -/

/-- A new thread of a registered process becomes runnable and enters the run queue. -/
theorem registerThread_tidy (h : Tidy X w s) (hnew : (s.thread t).state = .new)
    (hq : (s.thread t).queued = false) (hmem : t ∈ (s.process (s.thread t).process).threads)
    (hreg : (s.thread t).process ∈ s.processes) :
    Tidy X w (pushRunQueue t (s.modThread t ({ · with state := .runnable }))) := by
  have hok := h.status t
  have hrun : Tidy X w (s.modThread t ({ · with state := .runnable })) := by
    refine ⟨h.toQueuesOk.modThread rfl ⟨fun _ => rfl, fun q hwait => ?_, fun hreap => ?_⟩,
      ⟨h.nodup, fun p u hu => ?_, ?_, ?_, fun p ho u hu => ?_, h.reaped, h.stops,
        fun p hX hr => ?_⟩, h.toKin.modThread, fun hw => (h.waits hw).modThread_of_ne rfl nofun⟩
    · cases hnew.symm.trans (hok.waiting q hwait)
    · cases hnew.symm.trans (hok.reaped hreap)
    · rw [modThread_proj (·.process) rfl u]
      exact h.listed p u hu
    · exact forall_modThread
        (P := fun u th => th.state.isActive = true → u ∈ (s.process th.process).threads)
        (fun _ => hmem) fun u _ => h.member u
    · exact forall_modThread
        (P := fun _ th => th.state.isActive = true → th.process ∈ s.processes)
        (fun _ => hreg) fun u _ => h.registered u
    · rw [modThread_proj (·.state.isLive) (by rw [hnew]; rfl) u]
      exact h.ends p ho u hu
    · rw [liveCount_modThread (by rw [hnew]; rfl)]
      exact h.counted p hX hr
  exact pushRunQueue_tidy hrun (by simpa using hq) (by simp)

/-- The threads of a process whose checks have passed are all queued. -/
theorem registerThreads_tidy (ts : List ThreadRef) (h : Tidy X w s) (hnodup : ts.Nodup)
    (hp : p ∈ s.processes)
    (hts : ∀ t ∈ ts, (s.thread t).process = p ∧ (s.thread t).state = .new ∧
      (s.thread t).queued = false ∧ t ∈ (s.process p).threads) :
    Tidy X w (registerThreads ts s).1 ∧ (registerThreads ts s).2 = true := by
  induction ts generalizing s with
  | nil => exact ⟨h, rfl⟩
  | cons t rest ih =>
    obtain ⟨hproc, hnew, hq, hmem⟩ := hts t List.mem_cons_self
    obtain ⟨hnot, hrest⟩ := List.nodup_cons.mp hnodup
    have henq : schedulerEnqueue t (s.modThread t ({ · with state := .runnable })) =
        (pushRunQueue t (s.modThread t ({ · with state := .runnable })), true) := by
      simp [schedulerEnqueue, hq]
    have hpush := registerThread_tidy h hnew hq (by rw [hproc]; exact hmem)
      (by rw [hproc]; exact hp)
    unfold registerThreads
    rw [henq]
    refine ih hpush hrest hp fun u hu => ?_
    have hut : u ≠ t := by
      rintro rfl
      exact hnot hu
    have hsame : (pushRunQueue t (s.modThread t ({ · with state := .runnable }))).thread u =
        s.thread u := by
      rw [pushRunQueue, modThread_thread_ne _ _ hut]
      exact modThread_thread_ne s ({ · with state := .runnable }) hut
    rw [hsame]
    exact hts u (List.mem_cons_of_mem t hu)

/-- Registering a process keeps the scheduler tidy; the rollback is never needed. -/
theorem schedulerRegisterProcess_tidy (h : Tidy X w s) (p : ProcessRef) :
    Tidy X w (schedulerRegisterProcess p s).1 := by
  unfold schedulerRegisterProcess
  split
  · exact h
  · next hcheck =>
    simp only [Bool.not_eq_true', Bool.not_eq_false, registrable, Bool.and_eq_true,
      List.all_eq_true, beq_iff_eq, bne_iff_ne] at hcheck
    have hthreads := hcheck.1.1.2
    have hadd : Tidy X w ({ s with processes := s.processes ++ [p] }.modProcess p
        ({ · with registered := true })) := by
      have hlist : Tidy X w { s with processes := s.processes ++ [p] } :=
        ⟨⟨h.rings, h.run, h.timeout, h.wait, h.reap, h.status⟩, { h.toLives with
          registered := fun t ha => List.mem_append_left _ (h.registered t ha) },
          ⟨h.children, h.orphan⟩, h.waits⟩
      exact hlist.inertProcess rfl
    obtain ⟨htidy, hdone⟩ := registerThreads_tidy (p := p) (s.process p).threads hadd (h.nodup p)
      (List.mem_append_right _ (List.mem_singleton_self p)) fun t ht => by
        obtain ⟨⟨⟨⟨hproc, hnew⟩, hq⟩, _⟩, _⟩ := hthreads t ht
        exact ⟨hproc, hnew, hq, by simpa using ht⟩
    dsimp only
    split
    · next heq => rw [heq] at htidy; exact htidy
    · next heq => rw [heq] at hdone; cases hdone

end RiscMv.Kernel
