import RiscMv.Spec.Micro

/-!
# What scheduler code can do to the threads it does not work for

`Moves subj s s'` says what a piece of scheduler code may change, except in the thread `subj`
it works for: it never moves a thread to another processor or touches a suspended
continuation, it puts no thread that is not waiting into a queue, and it changes a saved
context only by waking a blocked thread, which stores the result in R0.

## Key results
- `MicroSteps.moves`: every sequence of small changes satisfies `Moves none`
- `schedulerDequeue_some`, `schedulerDequeue_none`: the outcome of a dequeue
-/

namespace RiscMv.Kernel

/-- The thread is queued, about to be queued, or may be woken. -/
def KernelThread.Waiting (th : KernelThread) : Prop :=
  th.state = .runnable ∨ th.state = .blocked ∨ th.queued = true

/-- The thread is queued or about to be queued. -/
def KernelThread.Dispatchable (th : KernelThread) : Prop :=
  th.state = .runnable ∨ th.queued = true

/-- The fields that tie a thread to its process, its processor and its continuation. -/
structure SameHome (th th' : KernelThread) : Prop where
  process : th'.process = th.process
  resumeSp : th'.kernelResumeSp = th.kernelResumeSp
  affinity : th'.cpuAffinity = th.cpuAffinity

/-- How code may change a thread it does not work for, and that thread's history. -/
structure ThreadMoves (th th' : KernelThread) (l l' : UserExit) : Prop where
  blockedIn : th'.blockedIn = th.blockedIn
  waiting : th'.Waiting → th.Waiting
  blocked : th'.state = .blocked → th.state = .blocked
  context : (th'.ctx = th.ctx ∧ l' = l ∧ (th'.Dispatchable → th.Dispatchable)) ∨
    (th.state = .blocked ∧ th'.state ≠ .blocked ∧
      ∃ v, th'.ctx = th.ctx.setR0 v ∧ l' = l.setResult v)

/-- The run queue holds exactly the queued threads, once each. -/
structure RunQueueOk (s : Sched) : Prop where
  nodup : s.runQueue.Nodup
  queued : ∀ t, t ∈ s.runQueue ↔ (s.thread t).queued = true

/-- What scheduler code working for `subj` may change. -/
structure Moves (subj : Option ThreadRef) (s s' : Sched) : Prop where
  home : ∀ t, SameHome (s.thread t) (s'.thread t)
  thread : ∀ t, some t ≠ subj →
    ThreadMoves (s.thread t) (s'.thread t) (s.lastUser t) (s'.lastUser t)
  runQueue : RunQueueOk s → RunQueueOk s'

variable {subj : Option ThreadRef} {s s' s'' : Sched} {t u n : ThreadRef} {e : Env} {π : Perm}
  {th th' th'' : KernelThread} {l l' l'' : UserExit} {f : KernelThread → KernelThread}
  {p q : ProcessRef} {g : KernelProcess → KernelProcess}

theorem SameHome.refl (th : KernelThread) : SameHome th th := ⟨rfl, rfl, rfl⟩

theorem SameHome.trans (h : SameHome th th') (h' : SameHome th' th'') : SameHome th th'' :=
  ⟨h'.process.trans h.process, h'.resumeSp.trans h.resumeSp, h'.affinity.trans h.affinity⟩

theorem ThreadMoves.refl (th : KernelThread) (l : UserExit) : ThreadMoves th th l l :=
  ⟨rfl, id, id, .inl ⟨rfl, rfl, id⟩⟩

theorem ThreadMoves.trans (h : ThreadMoves th th' l l') (h' : ThreadMoves th' th'' l' l'') :
    ThreadMoves th th'' l l'' where
  blockedIn := h'.blockedIn.trans h.blockedIn
  waiting := h.waiting ∘ h'.waiting
  blocked := h.blocked ∘ h'.blocked
  context := by
    rcases h.context with ⟨hc, hl, hr⟩ | ⟨hbl, hnb, v, hc, hl⟩
    · rcases h'.context with ⟨hc', hl', hr'⟩ | ⟨hbl', hnb', v, hc', hl'⟩
      · exact .inl ⟨hc'.trans hc, hl'.trans hl, hr ∘ hr'⟩
      · exact .inr ⟨h.blocked hbl', hnb', v, by rw [hc', hc], by rw [hl', hl]⟩
    · rcases h'.context with ⟨hc', hl', _⟩ | ⟨hbl', _⟩
      · exact .inr ⟨hbl, fun hb => hnb (h'.blocked hb), v, hc'.trans hc, hl'.trans hl⟩
      · exact absurd hbl' hnb

/-- A thread that is not blocked keeps its context and its history. -/
theorem ThreadMoves.kept (h : ThreadMoves th th' l l') (hb : th.state ≠ .blocked) :
    th'.ctx = th.ctx ∧ l' = l := by
  rcases h.context with ⟨hc, hl, _⟩ | ⟨hbl, _⟩
  · exact ⟨hc, hl⟩
  · exact absurd hbl hb

theorem Moves.refl (subj : Option ThreadRef) (s : Sched) : Moves subj s s :=
  ⟨fun _ => .refl _, fun _ _ => .refl _ _, id⟩

theorem Moves.trans (h : Moves subj s s') (h' : Moves subj s' s'') : Moves subj s s'' where
  home t := (h.home t).trans (h'.home t)
  thread t ht := (h.thread t ht).trans (h'.thread t ht)
  runQueue := h'.runQueue ∘ h.runQueue

/-- Code that works for nobody in particular may be counted as work for any thread. -/
theorem Moves.forSubject (h : Moves none s s') : Moves subj s s' :=
  ⟨h.home, fun t _ => h.thread t nofun, h.runQueue⟩

/-! ## Updates of one record -/

@[simp] theorem modThread_thread_self (s : Sched) (t : ThreadRef)
    (f : KernelThread → KernelThread) : (s.modThread t f).thread t = f (s.thread t) := by
  simp [Sched.modThread]

theorem modThread_thread_ne (s : Sched) (f : KernelThread → KernelThread) (h : u ≠ t) :
    (s.modThread t f).thread u = s.thread u := by
  simp [Sched.modThread, h]

section

variable (s : Sched) (t : ThreadRef) (f : KernelThread → KernelThread)

@[simp] theorem modThread_process : (s.modThread t f).process = s.process := rfl

@[simp] theorem modThread_cpu : (s.modThread t f).cpu = s.cpu := rfl

@[simp] theorem modThread_lastUser : (s.modThread t f).lastUser = s.lastUser := rfl

@[simp] theorem modThread_runQueue : (s.modThread t f).runQueue = s.runQueue := rfl

end

/-- A property of all thread records after an update of one of them. -/
theorem forall_modThread {P : ThreadRef → KernelThread → Prop} (ht : P t (f (s.thread t)))
    (hu : ∀ u, u ≠ t → P u (s.thread u)) (u : ThreadRef) : P u ((s.modThread t f).thread u) := by
  by_cases h : u = t
  · subst h
    rwa [modThread_thread_self]
  · rw [modThread_thread_ne s f h]
    exact hu u h

@[simp] theorem modProcess_process_self (s : Sched) (p : ProcessRef)
    (g : KernelProcess → KernelProcess) : (s.modProcess p g).process p = g (s.process p) := by
  simp [Sched.modProcess]

theorem modProcess_process_ne (s : Sched) (g : KernelProcess → KernelProcess) (h : q ≠ p) :
    (s.modProcess p g).process q = s.process q := by
  simp [Sched.modProcess, h]

/-- A property of all process records after an update of one of them. -/
theorem forall_modProcess {P : ProcessRef → KernelProcess → Prop} (hp : P p (g (s.process p)))
    (hq : ∀ q, q ≠ p → P q (s.process q)) (q : ProcessRef) :
    P q ((s.modProcess p g).process q) := by
  by_cases h : q = p
  · subst h
    rwa [modProcess_process_self]
  · rw [modProcess_process_ne s g h]
    exact hq q h

/-- An update of a thread record that any code may make. -/
structure Inert (th th' : KernelThread) : Prop where
  home : SameHome th th'
  ctx : th'.ctx = th.ctx
  queued : th'.queued = th.queued
  blockedIn : th'.blockedIn = th.blockedIn
  state : th'.state = th.state ∨ th'.state = .zombie ∨ th'.state = .dead

theorem Inert.threadMoves (h : Inert th th') (l : UserExit) : ThreadMoves th th' l l where
  blockedIn := h.blockedIn
  waiting := by
    rintro (hw | hw | hw)
    · rcases h.state with hs | hs | hs <;> simp_all [KernelThread.Waiting]
    · rcases h.state with hs | hs | hs <;> simp_all [KernelThread.Waiting]
    · exact .inr (.inr (h.queued ▸ hw))
  blocked := by rcases h.state with hs | hs | hs <;> simp_all
  context := .inl ⟨h.ctx, rfl, by
    unfold KernelThread.Dispatchable
    rw [h.queued]
    rcases h.state with hs | hs | hs <;> simp_all⟩

/-- Records with the same core differ by what any code may change. -/
theorem Inert.of_core (h : th'.core = th.core) : Inert th th' where
  home := ⟨congrArg ThreadCore.process h, congrArg ThreadCore.kernelResumeSp h,
    congrArg ThreadCore.cpuAffinity h⟩
  ctx := congrArg ThreadCore.ctx h
  queued := congrArg ThreadCore.queued h
  blockedIn := congrArg ThreadCore.blockedIn h
  state := .inl (congrArg ThreadCore.state h)

private theorem runQueueOk_modThread (hq : (f (s.thread t)).queued = (s.thread t).queued)
    (h : RunQueueOk s) : RunQueueOk (s.modThread t f) where
  nodup := h.nodup
  queued := forall_modThread (P := fun u th => u ∈ s.runQueue ↔ th.queued = true)
    (by rw [hq]; exact h.queued t) (fun u _ => h.queued u)

/-- An update of one record together with the run queue. -/
private theorem queueUpdate_moves {queue : List ThreadRef} {rings : Rings}
    (hhome : SameHome (s.thread t) (f (s.thread t)))
    (ht : ThreadMoves (s.thread t) (f (s.thread t)) (s.lastUser t) (s.lastUser t))
    (hq : RunQueueOk s →
      RunQueueOk ({ s with runQueue := queue, rings := rings }.modThread t f)) :
    Moves subj s ({ s with runQueue := queue, rings := rings }.modThread t f) where
  home := forall_modThread (P := fun u th => SameHome (s.thread u) th) hhome fun _ _ => .refl _
  thread u _ := forall_modThread (s := { s with runQueue := queue, rings := rings })
    (P := fun u th => ThreadMoves (s.thread u) th (s.lastUser u) (s.lastUser u))
    ht (fun _ _ => .refl _ _) u
  runQueue := hq

theorem modThread_moves (h : Inert (s.thread t) (f (s.thread t))) :
    Moves subj s (s.modThread t f) :=
  queueUpdate_moves h.home (h.threadMoves _) (runQueueOk_modThread h.queued)

/-- Code may do anything with the scheduling state and the context of the thread it works
    for, if it leaves the run queue alone. -/
theorem modThread_moves_subject (h : SameHome (s.thread t) (f (s.thread t)))
    (hq : (f (s.thread t)).queued = (s.thread t).queued) : Moves (some t) s (s.modThread t f) where
  home := forall_modThread (P := fun u th => SameHome (s.thread u) th) h fun _ _ => .refl _
  thread u hu := by
    have hu : u ≠ t := fun h => hu (by rw [h])
    rw [modThread_thread_ne s f hu]
    exact .refl _ _
  runQueue := runQueueOk_modThread hq

/-- Code that leaves the threads, the run queue and the history alone. -/
theorem Moves.of_eq (hthread : s'.thread = s.thread) (hlast : s'.lastUser = s.lastUser)
    (hqueue : s'.runQueue = s.runQueue) : Moves subj s s' where
  home t := by rw [hthread]; exact .refl _
  thread t _ := by rw [hthread, hlast]; exact .refl _ _
  runQueue h := ⟨by rw [hqueue]; exact h.nodup, by rw [hqueue, hthread]; exact h.queued⟩

/-! ## Small changes -/

theorem storeWake_moves (result : Int64) (hb : (s.thread t).state = .blocked) :
    Moves none s (storeWake t result s) where
  home := forall_modThread (P := fun u th => SameHome (s.thread u) th) ⟨rfl, rfl, rfl⟩
    fun _ _ => .refl _
  thread u _ := by
    by_cases h : u = t
    · subst h
      simp only [storeWake, modThread_thread_self]
      refine ⟨rfl, fun _ => .inr (.inl hb), nofun, .inr ⟨hb, nofun, result.toUInt64, rfl, ?_⟩⟩
      simp [Sched.modThread]
    · simp only [storeWake, modThread_thread_ne _ _ h]
      simp only [Sched.modThread, Function.update_of_ne h]
      exact .refl _ _
  runQueue h := runQueueOk_modThread rfl ⟨h.nodup, h.queued⟩

theorem pushRunQueue_moves (hq : (s.thread t).queued = false)
    (hr : (s.thread t).state = .runnable) : Moves subj s (pushRunQueue t s) := by
  refine queueUpdate_moves ⟨rfl, rfl, rfl⟩ ⟨rfl, fun _ => .inl hr, id,
    .inl ⟨rfl, rfl, fun _ => .inl hr⟩⟩ fun h => ?_
  have ht : t ∉ s.runQueue := fun hm => by simp [(h.queued t).mp hm] at hq
  refine ⟨?_, forall_modThread
    (P := fun u th => u ∈ s.runQueue ++ [t] ↔ th.queued = true) ?_ fun u hu => ?_⟩
  · exact List.nodup_append.mpr ⟨h.nodup, List.nodup_singleton t, fun a ha b hb hab => ht (by
      rw [List.mem_singleton] at hb; exact hb ▸ hab ▸ ha)⟩
  · simp
  · simpa [hu] using h.queued u

theorem eraseRunQueue_moves (t : ThreadRef) (s : Sched) : Moves subj s (eraseRunQueue t s) := by
  refine queueUpdate_moves ⟨rfl, rfl, rfl⟩
    ⟨rfl, ?_, id, .inl ⟨rfl, rfl, fun h => h.elim .inl nofun⟩⟩ fun h => ?_
  · rintro (h | h | h)
    · exact .inl h
    · exact .inr (.inl h)
    · cases h
  · refine ⟨h.nodup.erase t, forall_modThread
      (P := fun u th => u ∈ s.runQueue.erase t ↔ th.queued = true) ?_ fun u hu => ?_⟩
    · simp [h.nodup.not_mem_erase]
    · rw [List.mem_erase_of_ne hu]
      exact h.queued u

theorem Micro.moves (h : Micro π s s') : Moves none s s' := by
  cases h with
  | thread t f h => exact modThread_moves (.of_core h)
  | process p f _ _ _ => exact .of_eq rfl rfl rfl
  | other _ h =>
    exact .of_eq (congrArg SchedCore.thread h) (congrArg SchedCore.lastUser h)
      (congrArg SchedCore.runQueue h)
  | wake t result _ h => exact storeWake_moves result h
  | push t hq hr _ _ => exact pushRunQueue_moves hq hr
  | erase t => exact eraseRunQueue_moves t s
  | kill t f _ h =>
    obtain ⟨_, h⟩ := h
    exact modThread_moves
      { home := ⟨congrArg ThreadCore.process h, congrArg ThreadCore.kernelResumeSp h,
          congrArg ThreadCore.cpuAffinity h⟩
        ctx := congrArg ThreadCore.ctx h
        queued := congrArg ThreadCore.queued h
        blockedIn := congrArg ThreadCore.blockedIn h
        state := .inr (.inl (congrArg ThreadCore.state h)) }
  | free t _ => exact modThread_moves ⟨⟨rfl, rfl, rfl⟩, rfl, rfl, rfl, .inr (.inr rfl)⟩
  | destroy p _ | unregister p | ipi pending _ | childWake t _ _ | collect t childPid _ _ _
  | collectNow childPid pid _ =>
    exact .of_eq rfl rfl rfl

/-- Small changes are moves for nobody in particular. -/
theorem MicroSteps.moves (h : MicroSteps π s s') : Moves none s s' :=
  h.lift (.refl none) Moves.trans Micro.moves

/-- Code that wakes no thread leaves the history alone. -/
theorem MicroSteps.lastUser_eq (h : MicroSteps π s s') (hw : ∀ c, ¬ π.wake c) :
    s'.lastUser = s.lastUser :=
  h.lift (R := fun s s' => s'.lastUser = s.lastUser) (fun _ => rfl) (fun h h' => h'.trans h)
    fun h => by
      cases h with
      | other _ h => exact congrArg SchedCore.lastUser h
      | wake t _ hw' _ => exact (hw _ hw').elim
      | _ => rfl

/-! ## Dequeueing -/

/-- `n` was taken from the run queue and pinned to the processor. -/
structure Dequeue (e : Env) (n : ThreadRef) (s s' : Sched) : Prop where
  mem : n ∈ s.runQueue
  affinity : (s.thread n).cpuAffinity = 0 ∨ (s.thread n).cpuAffinity = e.cpu + 1
  eq : ∃ queue rings, queue.Perm (s.runQueue.erase n) ∧
    (s.rings.Hold s.queue → rings.Hold (Function.update s.queue .run queue)) ∧
    s' = { s with runQueue := queue, rings := rings }.modThread n fun th =>
      { th with cpuAffinity := e.cpu + 1, queued := false, state := .running }

/-- The run queue after a step of the loop. -/
theorem queue_run (s : Sched) (ts : List ThreadRef) (r : Rings) :
    ({ s with runQueue := ts, rings := r } : Sched).queue = Function.update s.queue .run ts := by
  funext l
  cases l <;> rfl

private theorem dequeueLoop_some (affinity candidates : Nat) (s : Sched)
    (h : schedulerDequeueLoop affinity candidates s = (some n, s')) :
    n ∈ s.runQueue ∧ ((s.thread n).cpuAffinity = 0 ∨ (s.thread n).cpuAffinity = affinity) ∧
      ∃ queue rings, queue.Perm (s.runQueue.erase n) ∧
        (s.rings.Hold s.queue → rings.Hold (Function.update s.queue .run queue)) ∧
        s' = { s with runQueue := queue, rings := rings }.modThread n fun th =>
          { th with cpuAffinity := affinity, queued := false, state := .running } := by
  induction candidates generalizing s with
  | zero => simp [schedulerDequeueLoop] at h
  | succ candidates ih =>
    unfold schedulerDequeueLoop at h
    split at h
    · simp at h
    · next t rest hq =>
      split at h
      · next hpin =>
        obtain ⟨hmem, haff, queue, rings, hperm, hhold, hs'⟩ := ih _ h
        have hrot : (rest ++ [t]).Perm s.runQueue := by
          rw [hq]; exact List.perm_append_comm
        refine ⟨hrot.subset hmem, haff, queue, rings, hperm.trans (hrot.erase n), fun hr => ?_, hs'⟩
        rw [queue_run, Function.update_idem] at hhold
        exact hhold (hr.rotate hq)
      · next hpin =>
        simp only [Prod.mk.injEq, Option.some.injEq] at h
        obtain ⟨rfl, rfl⟩ := h
        refine ⟨by simp [hq], by simpa [or_iff_not_imp_left] using hpin, rest, _, ?_,
          fun hr => hr.popFront hq, rfl⟩
        rw [hq, List.erase_cons_head]

/-- The loop has seen `front` once it has taken as many candidates. -/
private theorem dequeueLoop_none (affinity : Nat) (front : List ThreadRef) (s : Sched)
    (back : List ThreadRef) (hq : s.runQueue = front ++ back)
    (h : schedulerDequeueLoop affinity front.length s = (none, s')) :
    (∃ rings, (s.rings.Hold s.queue → rings.Hold (Function.update s.queue .run (back ++ front))) ∧
      s' = { s with runQueue := back ++ front, rings := rings }) ∧
      ∀ u ∈ front, (s.thread u).cpuAffinity ≠ 0 ∧ (s.thread u).cpuAffinity ≠ affinity := by
  induction front generalizing s back with
  | nil =>
    simp only [List.length_nil, schedulerDequeueLoop, Prod.mk.injEq, true_and] at h
    subst h
    simp only [List.nil_append] at hq
    refine ⟨⟨s.rings, ?_⟩, by simp⟩
    subst hq
    rw [List.append_nil]
    exact ⟨fun hr => (Function.update_eq_self (.run : ThreadList) s.queue).symm ▸ hr, rfl⟩
  | cons t rest ih =>
    rw [List.cons_append] at hq
    rw [List.length_cons] at h
    unfold schedulerDequeueLoop at h
    simp only [hq] at h
    split at h
    · next hpin =>
      obtain ⟨⟨rings, hhold, hs'⟩, hall⟩ := ih _ (back ++ [t]) (by simp) h
      rw [queue_run, Function.update_idem] at hhold
      refine ⟨⟨rings, fun hr => ?_, by rw [hs']; simp⟩, ?_⟩
      · simpa using hhold (by simpa using hr.rotate (l := .run) hq)
      intro u hu
      rcases List.mem_cons.mp hu with rfl | hu
      · exact hpin
      · exact hall u hu
    · simp at h

theorem schedulerDequeue_some (h : schedulerDequeue e s = (some n, s')) : Dequeue e n s s' :=
  have ⟨hmem, haff, heq⟩ := dequeueLoop_some _ _ s h
  ⟨hmem, haff, heq⟩

/-- A full turn of the run queue: the links may differ, the lists hold the same threads. -/
inductive Turned (s : Sched) : Sched → Prop
  | turn (rings : Rings) (hold : s.rings.Hold s.queue → rings.Hold s.queue) :
      Turned s { s with rings := rings }

/-- Without a thread for this processor the run queue is only rotated, a full turn, and all
    its threads are pinned elsewhere. -/
theorem schedulerDequeue_none (h : schedulerDequeue e s = (none, s')) :
    Turned s s' ∧
      ∀ u ∈ s.runQueue, (s.thread u).cpuAffinity ≠ 0 ∧ (s.thread u).cpuAffinity ≠ e.cpu + 1 := by
  obtain ⟨⟨rings, hhold, hs'⟩, hall⟩ := dequeueLoop_none _ s.runQueue s [] (by simp) h
  simp only [List.nil_append] at hhold hs'
  rw [show s.runQueue = s.queue .run from rfl, Function.update_eq_self] at hhold
  exact ⟨hs' ▸ .turn rings hhold, hall⟩

theorem Turned.micro (h : Turned s s') : MicroSteps π s s' := by
  cases h
  exact .other rfl

/-- Every thread but the dequeued one is left alone. -/
theorem Dequeue.thread_ne (h : Dequeue e n s s') (hu : u ≠ n) : s'.thread u = s.thread u := by
  obtain ⟨queue, _, _, _, rfl⟩ := h.eq
  exact modThread_thread_ne _ _ hu

theorem Dequeue.cpu (h : Dequeue e n s s') : s'.cpu = s.cpu := by
  obtain ⟨queue, _, _, _, rfl⟩ := h.eq
  rfl

theorem Dequeue.cpuCount (h : Dequeue e n s s') : s'.cpuCount = s.cpuCount := by
  obtain ⟨queue, _, _, _, rfl⟩ := h.eq
  rfl

theorem Dequeue.lastUser (h : Dequeue e n s s') : s'.lastUser = s.lastUser := by
  obtain ⟨queue, _, _, _, rfl⟩ := h.eq
  rfl

theorem Dequeue.runQueueOk (h : Dequeue e n s s') (hq : RunQueueOk s) : RunQueueOk s' := by
  obtain ⟨queue, _, hperm, _, rfl⟩ := h.eq
  refine ⟨hperm.nodup_iff.mpr (hq.nodup.erase n), forall_modThread
    (P := fun u th => u ∈ queue ↔ th.queued = true) ?_ fun u hu => ?_⟩
  · simp [hperm.mem_iff, hq.nodup.not_mem_erase]
  · rw [hperm.mem_iff, List.mem_erase_of_ne hu]
    exact hq.queued u

end RiscMv.Kernel
