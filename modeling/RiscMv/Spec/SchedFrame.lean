import RiscMv.Spec.SyscallOutcome

/-!
# What one processor leaves alone for the others

`SchedFrame c s s'` collects what every transition of processor `c` guarantees to the rest of
the system: a thread stays with the processor it is pinned to, and threads that are not pinned
to `c` afterwards were treated as `Moves` says.

## Key results
- `Outcome.schedFrame`: every section satisfies it
- `Ready.frame`: the thread of another processor is left to that processor
-/

namespace RiscMv.Kernel

/-- What a transition of processor `c` leaves alone in the scheduler. -/
structure SchedFrame (c : CpuId) (s s' : Sched) : Prop where
  cpu : ∀ d, d ≠ c → s'.cpu d = s.cpu d
  count : s'.cpuCount = s.cpuCount
  threads : ∀ p, (s'.process p).threads ⊆ (s.process p).threads
  process : ∀ u, (s'.thread u).process = (s.thread u).process
  pinned : ∀ u, (s.thread u).cpuAffinity ≠ 0 →
    (s'.thread u).cpuAffinity = (s.thread u).cpuAffinity
  affinity : ∀ u, (s'.thread u).cpuAffinity = (s.thread u).cpuAffinity ∨
    (s'.thread u).cpuAffinity = c + 1
  resumeSp : ∀ u, (s'.thread u).cpuAffinity ≠ c + 1 →
    (s'.thread u).kernelResumeSp = (s.thread u).kernelResumeSp
  thread : ∀ u, (s'.thread u).cpuAffinity ≠ c + 1 →
    ThreadMoves (s.thread u) (s'.thread u) (s.lastUser u) (s'.lastUser u)
  queue : RunQueueOk s → RunQueueOk s'

variable {π : Perm} {e : Env} {c d : CpuId} {t u n : ThreadRef}
  {s s' s'' : Sched} {x : Sect} {r : Sect × Exit}

theorem SchedFrame.refl (c : CpuId) (s : Sched) : SchedFrame c s s where
  cpu _ _ := rfl
  count := rfl
  threads _ := List.Subset.refl _
  process _ := rfl
  pinned _ _ := rfl
  affinity _ := .inl rfl
  resumeSp _ _ := rfl
  thread _ _ := .refl _ _
  queue := id

/-- A thread that is not pinned to `c` in the end was not before. -/
theorem SchedFrame.not_pinned (h : SchedFrame c s s') (hu : (s'.thread u).cpuAffinity ≠ c + 1) :
    (s.thread u).cpuAffinity ≠ c + 1 := by
  intro heq
  rw [h.pinned u (by omega)] at hu
  exact hu heq

theorem SchedFrame.trans (h : SchedFrame c s s') (h' : SchedFrame c s' s'') :
    SchedFrame c s s'' where
  cpu d hd := (h'.cpu d hd).trans (h.cpu d hd)
  count := h'.count.trans h.count
  threads p := List.Subset.trans (h'.threads p) (h.threads p)
  process u := (h'.process u).trans (h.process u)
  pinned u hu := (h'.pinned u (by rw [h.pinned u hu]; exact hu)).trans (h.pinned u hu)
  affinity u := by
    rcases h'.affinity u with hu | hu
    · rw [hu]; exact h.affinity u
    · exact .inr hu
  resumeSp u hu := (h'.resumeSp u hu).trans (h.resumeSp u (h'.not_pinned hu))
  thread u hu := (h.thread u (h'.not_pinned hu)).trans (h'.thread u hu)
  queue := h'.queue ∘ h.queue

/-- The processor's own record is its own affair. -/
theorem SchedFrame.modCpu (c : CpuId) (s : Sched) (f : KernelCpuLocal → KernelCpuLocal) :
    SchedFrame c s (s.modCpu c f) :=
  { SchedFrame.refl c s with
    cpu := fun _ hd => Function.update_of_ne hd _ _
    queue := fun h => ⟨h.nodup, h.queued⟩ }

theorem lockTaken_frame (e : Env) (s : Sched) : SchedFrame e.cpu s (lockTaken e s) :=
  .modCpu e.cpu s _

theorem setCurrent_frame (e : Env) (o : Option ThreadRef) (s : Sched) :
    SchedFrame e.cpu s (setCurrent e o s) :=
  .modCpu e.cpu s _

theorem idleEnter_frame (e : Env) (s : Sched) : SchedFrame e.cpu s (idleEnter e s) :=
  .modCpu e.cpu s _

theorem idleLeave_frame (e : Env) (s : Sched) : SchedFrame e.cpu s (idleLeave e s) :=
  .modCpu e.cpu s _

/-- Code that works for nobody in particular, on any processor. -/
theorem MicroSteps.schedFrame (h : MicroSteps π s s') (c : CpuId) : SchedFrame c s s' where
  cpu d _ := by rw [h.cpu_eq.1]
  count := h.cpu_eq.2
  threads := h.threads_subset
  process u := (h.moves.home u).process
  pinned u _ := (h.moves.home u).affinity
  affinity u := .inl (h.moves.home u).affinity
  resumeSp u _ := (h.moves.home u).resumeSp
  thread u _ := h.moves.thread u nofun
  queue := h.moves.runQueue

/-- A section that works for a thread pinned to its processor. -/
theorem Acts.schedFrame (h : Acts π e t s s')
    (ht : (s.thread t).cpuAffinity = e.cpu + 1) : SchedFrame e.cpu s s' where
  cpu := h.cpu_eq.1
  count := h.cpu_eq.2
  threads := h.threads_subset
  process u := (h.moves.home u).process
  pinned u _ := (h.moves.home u).affinity
  affinity u := .inl (h.moves.home u).affinity
  resumeSp u _ := (h.moves.home u).resumeSp
  thread u hu := by
    refine h.moves.thread u fun heq => hu ?_
    rw [Option.some.inj heq, (h.moves.home t).affinity, ht]
  queue := h.moves.runQueue

theorem Dequeue.affinity_eq (h : Dequeue e n s s') : (s'.thread n).cpuAffinity = e.cpu + 1 := by
  obtain ⟨queue, _, _, _, rfl⟩ := h.eq
  simp

theorem Dequeue.state_eq (h : Dequeue e n s s') : (s'.thread n).state = .running := by
  obtain ⟨queue, _, _, _, rfl⟩ := h.eq
  simp

theorem Dequeue.process_eq (h : Dequeue e n s s') : s'.process = s.process := by
  obtain ⟨queue, _, _, _, rfl⟩ := h.eq
  rfl

theorem Dequeue.schedFrame (h : Dequeue e n s s') : SchedFrame e.cpu s s' where
  cpu d _ := by rw [h.cpu]
  count := h.cpuCount
  threads p := by rw [h.process_eq]; exact List.Subset.refl _
  process u := by
    by_cases hu : u = n
    · obtain ⟨queue, _, _, _, rfl⟩ := h.eq
      subst hu
      simp
    · rw [h.thread_ne hu]
  pinned u hu := by
    by_cases hun : u = n
    · subst hun
      rw [h.affinity_eq]
      exact (h.affinity.resolve_left hu).symm
    · rw [h.thread_ne hun]
  affinity u := by
    by_cases hun : u = n
    · exact .inr (hun ▸ h.affinity_eq)
    · exact .inl (by rw [h.thread_ne hun])
  resumeSp u hu := by
    have hun : u ≠ n := by rintro rfl; exact hu h.affinity_eq
    rw [h.thread_ne hun]
  thread u hu := by
    have hun : u ≠ n := by rintro rfl; exact hu h.affinity_eq
    rw [h.thread_ne hun, h.lastUser]
    exact .refl _ _
  queue := h.runQueueOk

/-- Any change to a thread pinned to the processor that leaves the run queue alone. -/
theorem SchedFrame.modThread {f : KernelThread → KernelThread}
    (ht : (s.thread t).cpuAffinity = c + 1) (haff : (f (s.thread t)).cpuAffinity = c + 1)
    (hproc : (f (s.thread t)).process = (s.thread t).process)
    (hq : (f (s.thread t)).queued = (s.thread t).queued) : SchedFrame c s (s.modThread t f) where
  cpu _ _ := rfl
  count := rfl
  threads _ := List.Subset.refl _
  process := forall_modThread (P := fun u th => th.process = (s.thread u).process) hproc
    fun _ _ => rfl
  pinned u _ := forall_modThread (P := fun u th => th.cpuAffinity = (s.thread u).cpuAffinity)
    (by rw [haff, ht]) (fun _ _ => rfl) u
  affinity u := .inl (forall_modThread
    (P := fun u th => th.cpuAffinity = (s.thread u).cpuAffinity) (by rw [haff, ht])
    (fun _ _ => rfl) u)
  resumeSp u hu := by
    have hut : u ≠ t := by rintro rfl; exact hu (by simpa using haff)
    rw [modThread_thread_ne s f hut]
  thread u hu := by
    have hut : u ≠ t := by rintro rfl; exact hu (by simpa using haff)
    rw [modThread_thread_ne s f hut]
    exact .refl _ _
  queue h := ⟨h.nodup, forall_modThread (P := fun u th => u ∈ s.runQueue ↔ th.queued = true)
    (by rw [hq]; exact h.queued t) fun u _ => h.queued u⟩

/-- The end of a dispatch: `n` is current and its continuation is taken. -/
theorem Dequeue.dispatch_frame (h : Dequeue e n s s') :
    SchedFrame e.cpu s (setCurrent e (some n) s') ∧
      SchedFrame e.cpu s ((setCurrent e (some n) s').modThread n
        ({ · with kernelResumeSp := none })) := by
  have hcur : SchedFrame e.cpu s (setCurrent e (some n) s') :=
    h.schedFrame.trans (setCurrent_frame e (some n) s')
  exact ⟨hcur, hcur.trans (.modThread h.affinity_eq h.affinity_eq rfl rfl)⟩

theorem Halts.schedFrame (h : Halts π s s') (c : CpuId) : SchedFrame c s s' := by
  cases h with
  | panic => exact .refl c s
  | finish h =>
    have hoff : SchedFrame c s { s with active := false } :=
      { SchedFrame.refl c s with queue := fun hq => ⟨hq.nodup, hq.queued⟩ }
    exact hoff.trans (h.schedFrame c)

theorem Closes.schedFrame {b : Bool} (h : Closes π e s b s') : SchedFrame e.cpu s s' := by
  cases h with
  | stay => exact .refl _ s
  | idle => exact idleEnter_frame e s
  | start hd _ => exact hd.dispatch_frame.1
  | take hd => exact hd.dispatch_frame.2
  | halt h => exact h.schedFrame e.cpu

theorem Closes.signals_eq {b : Bool} (h : Closes π e s b s') (p : ProcessRef) :
    (s'.process p).signals = (s.process p).signals := by
  cases h with
  | stay => rfl
  | idle => rfl
  | start hd _ | take hd => simp [setCurrent, Sched.modCpu, hd.process_eq]
  | halt h => exact h.signals_eq p

/-- Every section leaves the rest of the system alone. -/
theorem Outcome.schedFrame (o : Outcome π e t x r)
    (ht : (x.sched.thread t).cpuAffinity = e.cpu + 1) : SchedFrame e.cpu x.sched r.1.sched := by
  obtain ⟨σ, h, hc⟩ := o.closes
  exact (h.schedFrame ht).trans hc.schedFrame

/-! ## Threads bound to a processor -/

theorem Pinned.frame (h : Pinned d t s) (hf : SchedFrame c s s') : Pinned d t s' where
  online := by rw [hf.count]; exact h.online
  listed p hp := by rw [hf.process t]; exact h.listed p (hf.threads p hp)
  affinity := by rw [hf.pinned t (by rw [h.affinity]; omega)]; exact h.affinity
  queue := hf.queue h.queue

/-- The thread of another processor is left to that processor. -/
theorem Ready.frame (h : Ready d t s) (hf : SchedFrame c s s') (hd : d ≠ c) : Ready d t s' where
  toPinned := h.toPinned.frame hf
  current := by rw [Sched.current, hf.cpu d hd]; exact h.current
  process := by rw [hf.cpu d hd, hf.process t]; exact h.process
  notWaiting hw := by
    refine h.notWaiting ((hf.thread t ?_).waiting hw)
    rw [(h.toPinned.frame hf).affinity]
    exact fun heq => hd (Nat.succ.inj heq)

/-- The dispatched thread is ready. -/
theorem Dequeue.ready (h : Dequeue e n s s') (hq : RunQueueOk s) (hcpu : e.cpu < s.cpuCount)
    (hlist : ∀ p, n ∈ (s.process p).threads → (s.thread n).process = p) :
    Ready e.cpu n (setCurrent e (some n) s') := by
  have hqueue := h.runQueueOk hq
  obtain ⟨queue, _, _, _, rfl⟩ := h.eq
  refine ⟨⟨hcpu, ?_, ?_, ⟨hqueue.nodup, hqueue.queued⟩⟩, ?_, ?_, ?_⟩
  · simpa [setCurrent, Sched.modCpu] using hlist
  · simp [setCurrent, Sched.modCpu]
  · simp [setCurrent, Sched.modCpu, Sched.current]
  · simp [setCurrent, Sched.modCpu]
  · simp [setCurrent, Sched.modCpu, KernelThread.Waiting]

end RiscMv.Kernel
