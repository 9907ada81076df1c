import RiscMv.Spec.Moves

/-!
# Processors are told of the threads queued for them

`Told c s s'` says what code that runs on processor `c` does to the run queue as the other
processors see it: it takes back no IPI of theirs, and a thread that it queues for another
processor comes with an IPI to that processor.  The scheduler sends such IPIs only while it is
active, so the code has to keep it active; `Tells` is the relation without that part, for code
that ends a section.

## Key results
- `MicroSteps.told`: small changes tell the other processors, since a thread is pushed only after
  the processor that it is pinned to was sent an IPI
-/

namespace RiscMv.Kernel

/-- The thread that a processor runs is pinned to it. -/
def OwnsCurrent (c : CpuId) (s : Sched) : Prop :=
  ∀ t, s.current c = some t → (s.thread t).cpuAffinity = c + 1

/-- Code on processor `c` tells the other processors of the threads it queues for them. -/
structure Tells (c : CpuId) (s s' : Sched) : Prop where
  pending : ∀ d, d ≠ c → s.ipiPending d = true → s'.ipiPending d = true
  told : s.active = true → ∀ d, d ≠ c → ∀ t ∈ s'.runQueue, (s'.thread t).cpuAffinity = d + 1 →
    s'.ipiPending d = true ∨ t ∈ s.runQueue ∧ (s.thread t).cpuAffinity = d + 1
  pinned : ∀ t, (s.thread t).cpuAffinity ≠ 0 → (s'.thread t).cpuAffinity = (s.thread t).cpuAffinity
  others : ∀ d, d ≠ c → s'.current d = s.current d
  own : OwnsCurrent c s → OwnsCurrent c s'

/-- The same for code that keeps the scheduler active. -/
structure Told (c : CpuId) (s s' : Sched) : Prop extends Tells c s s' where
  active : s.active = true → s'.active = true

/-- The part of the scheduler that `Told` is about. -/
structure SchedView where
  runQueue : List ThreadRef
  cpuAffinity : ThreadRef → Nat
  ipiPending : CpuId → Bool
  current : CpuId → Option ThreadRef
  active : Bool

/-- The run queue, the processors that threads are pinned to, and what the processors run. -/
def Sched.view (s : Sched) : SchedView :=
  ⟨s.runQueue, fun t => (s.thread t).cpuAffinity, s.ipiPending, s.current, s.active⟩

variable {c d : CpuId} {e : Env} {s s' s'' : Sched} {t u n : ThreadRef} {p : ProcessRef}

/-! ## The relation -/

theorem Tells.of_told (h : Told c s s') (h' : Tells c s' s'') : Tells c s s'' where
  pending d hd hp := h'.pending d hd (h.pending d hd hp)
  told hact d hd t ht haff := by
    rcases h'.told (h.active hact) d hd t ht haff with hipi | ⟨hmem, haff'⟩
    · exact .inl hipi
    · rcases h.told hact d hd t hmem haff' with hipi | hold
      · exact .inl (h'.pending d hd hipi)
      · exact .inr hold
  pinned t ht := by
    have hmid := h.pinned t ht
    rw [← hmid]
    exact h'.pinned t (by rwa [hmid])
  others d hd := (h'.others d hd).trans (h.others d hd)
  own := h'.own ∘ h.own

theorem Told.trans (h : Told c s s') (h' : Told c s' s'') : Told c s s'' :=
  ⟨.of_told h h'.toTells, h'.active ∘ h.active⟩

/-- Code that may take threads out of the run queue and send IPIs, but changes nothing else the
    processors see of it. -/
structure Silent (s s' : Sched) : Prop where
  queue : s'.runQueue ⊆ s.runQueue
  affinity : ∀ t, (s'.thread t).cpuAffinity = (s.thread t).cpuAffinity
  pending : ∀ d, s.ipiPending d = true → s'.ipiPending d = true
  current : ∀ d, s'.current d = s.current d

theorem Silent.trans (h : Silent s s') (h' : Silent s' s'') : Silent s s'' where
  queue := List.Subset.trans h'.queue h.queue
  affinity t := (h'.affinity t).trans (h.affinity t)
  pending d hd := h'.pending d (h.pending d hd)
  current d := (h'.current d).trans (h.current d)

theorem Silent.tells (h : Silent s s') : Tells c s s' where
  pending d _ := h.pending d
  told _ _ _ t ht haff := .inr ⟨h.queue ht, h.affinity t ▸ haff⟩
  pinned t _ := h.affinity t
  others d _ := h.current d
  own hown t ht := by
    rw [h.affinity t]
    exact hown t (by rwa [← h.current c])

theorem Silent.of_view (h : s'.view = s.view) : Silent s s' where
  queue := by
    rw [show s'.runQueue = s.runQueue from congrArg SchedView.runQueue h]
    exact List.Subset.refl _
  affinity := congrFun (congrArg SchedView.cpuAffinity h)
  pending d hd := (congrFun (congrArg SchedView.ipiPending h) d).trans hd
  current := congrFun (congrArg SchedView.current h)

theorem Told.of_view (h : s'.view = s.view) : Told c s s' :=
  ⟨(Silent.of_view h).tells, fun hs => (congrArg SchedView.active h).trans hs⟩

theorem Told.refl (c : CpuId) (s : Sched) : Told c s s := .of_view rfl

/-- Code after a change that the processors do not see. -/
theorem Told.after (h' : Told c s' s'') (h : s'.view = s.view) : Told c s s'' :=
  (Told.of_view h).trans h'

/-- The processor's own record is its own affair, as long as it runs threads pinned to it. -/
theorem Told.modCpu {f : KernelCpuLocal → KernelCpuLocal}
    (hown : OwnsCurrent c s → OwnsCurrent c (s.modCpu c f)) : Told c s (s.modCpu c f) where
  pending _ _ h := h
  told _ _ _ _ ht h := .inr ⟨ht, h⟩
  pinned _ _ := rfl
  others d hd := by simp [Sched.current, Sched.modCpu, hd]
  own := hown
  active := id

theorem lockTaken_told (e : Env) (s : Sched) : Told e.cpu s (lockTaken e s) :=
  .modCpu fun h t ht => h t (by simpa [Sched.current, Sched.modCpu] using ht)

theorem idleEnter_told (e : Env) (s : Sched) : Told e.cpu s (idleEnter e s) :=
  .modCpu fun h t ht => h t (by simpa [Sched.current, Sched.modCpu] using ht)

theorem idleLeave_told (e : Env) (s : Sched) : Told e.cpu s (idleLeave e s) :=
  .modCpu fun h t ht => h t (by simpa [Sched.current, Sched.modCpu] using ht)

theorem setCurrent_told {o : Option ThreadRef}
    (ho : ∀ t, o = some t → (s.thread t).cpuAffinity = e.cpu + 1) :
    Told e.cpu s (setCurrent e o s) :=
  .modCpu fun _ t ht => ho t (by simpa [Sched.current, Sched.modCpu] using ht)

theorem OwnsCurrent.tells_other (h : OwnsCurrent d s) (ht : Tells c s s') (hd : d ≠ c) :
    OwnsCurrent d s' := by
  intro t hcur
  rw [ht.others d hd] at hcur
  have haff := h t hcur
  rw [ht.pinned t (by omega), haff]

/-! ## Changes that the other processors do not see -/

theorem modThread_view {f : KernelThread → KernelThread}
    (hf : (f (s.thread t)).cpuAffinity = (s.thread t).cpuAffinity) :
    (s.modThread t f).view = s.view := by
  have haff : (fun u => ((s.modThread t f).thread u).cpuAffinity) =
      fun u => (s.thread u).cpuAffinity :=
    funext (forall_modThread (P := fun u th => th.cpuAffinity = (s.thread u).cpuAffinity) hf
      fun _ _ => rfl)
  unfold Sched.view
  rw [haff]
  rfl

theorem modProcess_view (s : Sched) (p : ProcessRef) (f : KernelProcess → KernelProcess) :
    (s.modProcess p f).view = s.view := rfl

/-! ## The run queue -/

/-- A thread may be queued once the processor that it is pinned to is told. -/
theorem pushRunQueue_told (hipi : s.active = true → ∀ d, d ≠ c → (s.thread t).cpuAffinity = d + 1 →
    s.ipiPending d = true) : Told c s (pushRunQueue t s) := by
  have hpush : Told c s { s with runQueue := s.runQueue ++ [t] } :=
    { Told.refl c s with
      told := fun hact d hd u hu haff => by
        rcases List.mem_append.mp hu with hu | hu
        · exact .inr ⟨hu, haff⟩
        · rw [List.mem_singleton.mp hu] at haff
          exact .inl (hipi hact d hd haff)
      active := id }
  exact hpush.trans (.of_view (modThread_view rfl))

/-- A thread that is pinned to the processor may be queued without telling anybody. -/
theorem schedulerEnqueue_told (h : (s.thread t).cpuAffinity = c + 1) :
    Told c s (schedulerEnqueue t s).1 := by
  unfold schedulerEnqueue
  split
  · exact .refl c s
  · exact pushRunQueue_told fun _ d hd haff => absurd (Nat.succ.inj (haff.symm.trans h)) hd

/-! ## Small changes -/

variable {π : Perm}

/-- A small change is not seen, or queues a thread, or is a change of the pending IPIs. -/
theorem Micro.seen_cases (h : Micro π s s') : s'.active = s.active ∧ (Silent s s' ∨
    (∃ d, π.wake d ∧ ∃ t, s' = pushRunQueue t s ∧ (s.active = true → ∀ d', d' ≠ d →
      (s.thread t).cpuAffinity = d' + 1 → s.ipiPending d' = true)) ∨
    ∃ pending, s' = { s with ipiPending := pending } ∧
      ∀ d, s.ipiPending d = true → pending d = true ∨ π.wake d) := by
  cases h with
  | thread t f h =>
    exact ⟨rfl, .inl (.of_view (modThread_view (congrArg ThreadCore.cpuAffinity h)))⟩
  | other _ h =>
    have hview : s'.view = s.view := congrArg (fun k : SchedCore => (⟨k.runQueue,
      fun t => (k.thread t).cpuAffinity, k.ipiPending, fun c => (k.cpu c).currentThread, k.active⟩ :
      SchedView)) h
    exact ⟨congrArg SchedView.active hview, .inl (.of_view hview)⟩
  | push t _ _ hw hipi => exact ⟨rfl, .inr (.inl ⟨_, hw, t, rfl, hipi⟩)⟩
  | erase t =>
    have herase : Silent s { s with runQueue := s.runQueue.erase t } :=
      ⟨List.erase_subset, fun _ => rfl, fun _ => id, fun _ => rfl⟩
    exact ⟨rfl, .inl (herase.trans (.of_view (modThread_view rfl)))⟩
  | kill t f _ h =>
    obtain ⟨_, h⟩ := h
    exact ⟨rfl, .inl (.of_view (modThread_view (congrArg ThreadCore.cpuAffinity h)))⟩
  | wake t result _ _ | free t _ => exact ⟨rfl, .inl (.of_view (modThread_view rfl))⟩
  | ipi pending h => exact ⟨rfl, .inr (.inr ⟨pending, rfl, h⟩)⟩
  | _ => exact ⟨rfl, .inl (.of_view rfl)⟩

/-- Code that wakes nobody is not seen. -/
theorem MicroSteps.silent (h : MicroSteps .nothing s s') : Silent s s' := by
  refine h.lift (fun _ => .of_view rfl) Silent.trans fun h => ?_
  obtain ⟨-, hs | ⟨_, hw, -⟩ | ⟨pending, rfl, hmono⟩⟩ := h.seen_cases
  · exact hs
  · exact hw.elim
  · exact ⟨List.Subset.refl _, fun _ => rfl, fun d hd => (hmono d hd).resolve_right id,
      fun _ => rfl⟩

/-- Permissions that allow everything, on processor `c`. -/
def Perm.everything (c : CpuId) : Perm :=
  ⟨fun _ => True, (· = c), fun _ => True, True, True, True, True, True⟩

theorem MicroSteps.told (h : MicroSteps (.everything c) s s') : Told c s s' := by
  refine h.lift (.refl c) Told.trans fun {s s'} h => ?_
  obtain ⟨hact, hs | ⟨_, rfl, t, rfl, hipi⟩ | ⟨pending, rfl, hmono⟩⟩ := h.seen_cases
  · exact ⟨hs.tells, hact.trans⟩
  · exact pushRunQueue_told hipi
  · exact { Told.refl c s with
      pending := fun d hd hp => (hmono d hp).resolve_right hd
      told := fun _ _ _ _ ht haff => .inr ⟨ht, haff⟩
      active := id }

end RiscMv.Kernel
