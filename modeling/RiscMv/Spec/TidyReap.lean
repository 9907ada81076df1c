import RiscMv.Spec.TidyQueues

/-!
# Freeing processes keeps the scheduler tidy

`scheduler_reap_deferred` frees the threads in its queue first and goes on to the processes only
when none of them is left, so that no list holds a thread of a process it frees.

## Key results
- `processDestroy_tidy`, `schedulerReapDeferred_tidy`
-/

namespace RiscMv.Kernel

variable {X : ProcessRef → Prop} {w : Prop} {s s' : Sched} {t : ThreadRef} {p : ProcessRef}

/-- The queue of processes to free changes. -/
theorem Tidy.reapList (h : Tidy X w s) {r : List ProcessRef}
    (hr : ∀ q ∈ r, (s.process q).state = .zombie ∧ (s.process q).parent = none) :
    Tidy X w { s with reapQueue := r } :=
  ⟨⟨h.rings, h.run, h.timeout, h.wait, h.reap, h.status⟩,
    { h.toLives with reaped := fun q hq => (hr q hq).1 },
    { h.toKin with orphan := fun q hq => (hr q hq).2 }, h.waits⟩

theorem Tidy.pushReapQueue (h : Tidy X w s) (hz : (s.process p).state = .zombie)
    (hp : (s.process p).parent = none) :
    Tidy X w ({ s with reapQueue := s.reapQueue ++ [p] }.modProcess p
      ({ · with reapQueued := true })) := by
  refine (h.reapList fun q hq => ?_).inertProcess rfl
  rcases List.mem_append.mp hq with hq | hq
  · exact ⟨h.reaped q hq, h.orphan q hq⟩
  · rw [List.mem_singleton.mp hq]
    exact ⟨hz, hp⟩

theorem schedulerQueueReap_tidy (h : Tidy X w s) (hz : (s.process p).state = .zombie) :
    Tidy X w (schedulerQueueReap p s) := by
  unfold schedulerQueueReap
  split
  · exact h
  · next hcond =>
    simp only [not_or, Bool.not_eq_true, Option.isSome_eq_false_iff, Option.isNone_iff_eq_none]
      at hcond
    exact h.pushReapQueue hz hcond.1

theorem freeThreads_tidy (ts : List ThreadRef) (h : Tidy X w s) (hreap : s.threadReapQueue = [])
    (hts : ∀ t ∈ ts, (s.thread t).state.isLive = false) : Tidy X w (freeThreads ts s) := by
  induction ts generalizing s with
  | nil => exact h
  | cons t rest ih =>
    have hflag : (s.thread t).reapQueued = false := by
      have hroster := h.reap
      rw [hreap] at hroster
      simpa using hroster.not_of_nil t
    refine ih (freeThread_tidy h (hts t (List.mem_cons_self ..)) hflag) hreap fun u hu => ?_
    exact forall_modThread (s := s) (t := t) (P := fun u th => u ∈ rest → th.state.isLive = false)
      (fun _ => rfl) (fun u _ hu => hts u (List.mem_cons_of_mem _ hu)) u hu

theorem freeThreads_clearParents (ts : List ThreadRef) (cs : List ProcessRef) (s : Sched) :
    freeThreads ts (clearParents cs s) = clearParents cs (freeThreads ts s) := by
  have hone : ∀ t s, freeThread t (clearParents cs s) = clearParents cs (freeThread t s) := by
    intro t
    induction cs with
    | nil => exact fun _ => rfl
    | cons c rest ih => exact fun s => ih (s.modProcess c ({ · with parent := none }))
  induction ts generalizing s with
  | nil => rfl
  | cons t rest ih =>
    rw [freeThreads, hone, ih]
    rfl

theorem clearParents_process (cs : List ProcessRef) (s : Sched) (c : ProcessRef) :
    (clearParents cs s).process c =
      if c ∈ cs then { s.process c with parent := none } else s.process c := by
  induction cs generalizing s with
  | nil => simp [clearParents]
  | cons d rest ih =>
    rw [clearParents, ih]
    by_cases hcd : c = d
    · subst hcd
      simp
    · simp [modProcess_process_ne s _ hcd, hcd]

/-- Only process records change. -/
theorem clearParents_eq (cs : List ProcessRef) (s : Sched) :
    clearParents cs s = { s with process := (clearParents cs s).process } := by
  induction cs generalizing s with
  | nil => rfl
  | cons c rest ih => exact ih (s.modProcess c ({ · with parent := none }))

/-- The record of a process after process `p` with the children `cs` was freed. -/
def KernelProcess.released (p : ProcessRef) (cs : List ProcessRef) (c : ProcessRef)
    (r : KernelProcess) : KernelProcess where
  __ := r
  threads := if c = p then [] else r.threads
  children := if c = p then [] else r.children
  parent := if c ∈ cs then none else r.parent
  freed := c = p || r.freed

theorem freeProcess_clearParents_process (cs : List ProcessRef) (p c : ProcessRef) (s : Sched) :
    (freeProcess p (clearParents cs s)).process c = (s.process c).released p cs c := by
  unfold freeProcess KernelProcess.released
  by_cases hc : c = p
  · subst hc
    by_cases hcs : c ∈ cs <;> simp [clearParents_process, hcs]
  · rw [modProcess_process_ne _ _ hc]
    by_cases hcs : c ∈ cs <;> simp [clearParents_process, hcs, hc]

/-- A process none of whose threads is left is freed. -/
theorem freeProcess_tidy (h : Tidy X w s)
    (hend : ∀ t ∈ (s.process p).threads, (s.thread t).state.isLive = false) :
    Tidy X w (freeProcess p (clearParents (s.process p).children s)) := by
  have hproc := freeProcess_clearParents_process (s.process p).children p (s := s)
  have hrest : (freeProcess p (clearParents (s.process p).children s)).status =
      { s.status with process := fun c => (s.process c).released p (s.process p).children c } := by
    rw [← funext hproc, freeProcess, clearParents_eq]
    rfl
  simp only [Sched.status, SchedStatus.mk.injEq] at hrest
  obtain ⟨hthread, hprocess, hlist, hqueue, hrings, hreaped⟩ := hrest
  generalize freeProcess p (clearParents (s.process p).children s) = s' at *
  -- no thread that takes part in scheduling belongs to the process
  have hne : ∀ {t}, (s.thread t).state.isActive = true → (s.thread t).process ≠ p := by
    intro t ha hp
    have hmem := h.member t ha
    rw [hp] at hmem
    exact ThreadState.not_isActive (hend t hmem) ha
  have hmem : ∀ {q t}, t ∈ ((s.process q).released p (s.process p).children q).threads →
      t ∈ (s.process q).threads := by
    intro q t ht
    simp only [KernelProcess.released] at ht
    split at ht
    · cases ht
    · exact ht
  refine ⟨h.toQueuesOk.congr (fun u => by rw [hthread]) (fun u => by rw [hthread]) hqueue hrings,
    ⟨?_, ?_, ?_, ?_, ?_, ?_, ?_, ?_⟩, ⟨?_, ?_⟩, fun hw => ?_⟩ <;>
    simp only [Waits, WaitOk, hthread, hprocess, hlist, hreaped]
  · intro q
    simp only [KernelProcess.released]
    split
    · exact List.nodup_nil
    · exact h.nodup q
  · exact fun q t ht => h.listed q t (hmem ht)
  · intro t ha
    simp only [KernelProcess.released, if_neg (hne ha)]
    exact h.member t ha
  · exact h.registered
  · exact fun q ho t ht => h.ends q ho t (hmem ht)
  · exact h.reaped
  · exact h.stops
  · intro q hX hr
    have hcount := h.counted q hX hr
    simp only [KernelProcess.released, liveCount, hthread]
    split
    · next hq =>
      subst hq
      rw [hcount, liveCount, List.countP_nil, List.countP_eq_zero]
      intro t ht
      simp [hend t ht]
    · exact hcount
  · intro q
    simp only [KernelProcess.released]
    split
    · next hq =>
      subst hq
      refine ⟨List.nodup_nil, fun c => ⟨(fun h => by cases h), fun hc => ?_⟩⟩
      split at hc
      · cases hc
      · next hcs => exact absurd (((h.children q).mem c).mpr hc) hcs
    · next hq =>
      refine (h.children q).congr fun c => ?_
      split
      · next hcs =>
        have hcp := ((h.children p).mem c).mp hcs
        exact ⟨(fun h => by cases h), fun hc => absurd (Option.some.inj (hc.symm.trans hcp)) hq⟩
      · exact Iff.rfl
  · intro q hq
    simp only [KernelProcess.released]
    split
    · rfl
    · exact h.orphan q hq
  · intro t pid hb hin
    have hact : (s.thread t).state.isActive = true := by rw [hb]; rfl
    simp only [KernelProcess.released, if_neg (hne hact)]
    exact h.waits hw t pid hb hin

theorem freeThreads_process (ts : List ThreadRef) (s : Sched) :
    (freeThreads ts s).process = s.process := by
  induction ts generalizing s with
  | nil => rfl
  | cons t rest ih => exact (ih (freeThread t s)).trans rfl

/-- The threads that `kernel_process_destroy` frees have ended. -/
theorem freeThreads_isLive (ts : List ThreadRef) (s : Sched)
    (h : (s.thread t).state.isLive = false) :
    ((freeThreads ts s).thread t).state.isLive = false := by
  induction ts generalizing s with
  | nil => exact h
  | cons u rest ih =>
    refine ih (freeThread u s) ?_
    exact forall_modThread (s := s) (t := u) (P := fun v th => v = t → th.state.isLive = false)
      (fun _ => rfl) (fun v _ hv => hv ▸ h) t rfl

theorem freeThreads_thread (ts : List ThreadRef) (s : Sched) (ht : t ∉ ts) :
    (freeThreads ts s).thread t = s.thread t := by
  induction ts generalizing s with
  | nil => rfl
  | cons u rest ih =>
    rw [List.mem_cons, not_or] at ht
    exact (ih _ ht.2).trans (modThread_thread_ne s _ ht.1)

theorem leaveParent_thread (p : ProcessRef) (s : Sched) : (leaveParent p s).thread = s.thread := by
  unfold leaveParent
  split <;> rfl

/-- No thread is freed that has not ended. -/
def LiveKept (s s' : Sched) : Prop :=
  ∀ t, (s.thread t).state.isLive = true → (s'.thread t).state = (s.thread t).state

theorem LiveKept.trans {s'' : Sched} (h : LiveKept s s') (h' : LiveKept s' s'') :
    LiveKept s s'' := by
  intro t ht
  rw [h' t (by rw [h t ht]; exact ht), h t ht]

theorem LiveKept.of_eq (h : s'.thread = s.thread) : LiveKept s s' :=
  fun t _ => by rw [h]

section

variable (h : Tidy X w s) (hz : (s.process p).state = .zombie)
include h hz

theorem processDestroy_liveKept : LiveKept s (processDestroy p s) := by
  intro t ht
  have hmem : t ∉ ((clearParents ((leaveParent p s).process p).children
      (leaveParent p s)).process p).threads := by
    have hthreads : ((clearParents ((leaveParent p s).process p).children
        (leaveParent p s)).process p).threads = (s.process p).threads := by
      rw [clearParents_process]
      have hleave : ((leaveParent p s).process p).threads = (s.process p).threads := by
        unfold leaveParent
        split
        · rw [modProcess_proj (·.threads) rfl, modProcess_proj (·.threads) rfl]
        · rfl
      split <;> exact hleave
    rw [hthreads]
    intro hmem
    rw [h.ends p (.inl hz) t hmem] at ht
    cases ht
  unfold processDestroy
  dsimp only
  rw [freeProcess, modProcess_thread]
  dsimp only
  rw [freeThreads_thread _ _ hmem, clearParents_eq]
  dsimp only
  rw [leaveParent_thread]

theorem processDestroy_tidy (hparent : (s.process p).parent = none)
    (hreap : s.threadReapQueue = []) :
    Tidy X w (processDestroy p s) := by
  have hend := h.ends p (.inl hz)
  have hleave : leaveParent p s = s := by simp [leaveParent, hparent]
  have hthreads : ((clearParents (s.process p).children s).process p).threads =
      (s.process p).threads := by
    rw [clearParents_process]
    split <;> rfl
  unfold processDestroy
  dsimp only
  rw [hleave, hthreads, freeThreads_clearParents]
  have hproc := congrFun (freeThreads_process (s.process p).threads s) p
  have hgone := freeProcess_tidy (p := p) (freeThreads_tidy (s.process p).threads h hreap hend)
    fun t ht => freeThreads_isLive _ s (hend t (by rwa [hproc] at ht))
  rwa [hproc] at hgone

theorem unregisterProcess_tidy : Tidy X w (unregisterProcess p s) := by
  have hlist : Tidy X w { s with
      processes := s.processes.erase p
      initProcess := if s.initProcess = some p then none else s.initProcess } := by
    refine ⟨⟨h.rings, h.run, h.timeout, h.wait, h.reap, h.status⟩, { h.toLives with
      registered := fun t ha => ?_ }, ⟨h.children, h.orphan⟩, h.waits⟩
    have hne : (s.thread t).process ≠ p := by
      intro hp
      have hmem := h.member t ha
      rw [hp] at hmem
      exact ThreadState.not_isActive (h.ends p (.inl hz) t hmem) ha
    exact (List.mem_erase_of_ne hne).mpr (h.registered t ha)
  exact hlist.inertProcess rfl

end

theorem freeThreads_queues (ts : List ThreadRef) (s : Sched) :
    (freeThreads ts s).reapQueue = s.reapQueue ∧
      (freeThreads ts s).threadReapQueue = s.threadReapQueue := by
  induction ts generalizing s with
  | nil => exact ⟨rfl, rfl⟩
  | cons t rest ih => exact ih (freeThread t s)

theorem processDestroy_queues (p : ProcessRef) (s : Sched) :
    (processDestroy p s).reapQueue = s.reapQueue ∧
      (processDestroy p s).threadReapQueue = s.threadReapQueue := by
  have hleave : (leaveParent p s).reapQueue = s.reapQueue ∧
      (leaveParent p s).threadReapQueue = s.threadReapQueue := by
    unfold leaveParent
    split <;> exact ⟨rfl, rfl⟩
  unfold processDestroy
  dsimp only
  generalize leaveParent p s = s₁ at hleave ⊢
  obtain ⟨hreap, hthreads⟩ :=
    freeThreads_queues ((clearParents (s₁.process p).children s₁).process p).threads
      (clearParents (s₁.process p).children s₁)
  refine ⟨hreap.trans ?_, hthreads.trans ?_⟩
  · rw [clearParents_eq]
    exact hleave.1
  · rw [clearParents_eq]
    exact hleave.2

theorem reapProcessesLoop_tidy (ps : List ProcessRef) (h : Tidy X w s) (hps : s.reapQueue = ps)
    (hreap : s.threadReapQueue = []) :
    Tidy X w (reapProcessesLoop ps s) ∧ LiveKept s (reapProcessesLoop ps s) := by
  induction ps generalizing s with
  | nil => exact ⟨h, .of_eq rfl⟩
  | cons p rest ih =>
    have hmem : p ∈ s.reapQueue := by rw [hps]; exact List.mem_cons_self ..
    have hpop : Tidy X w ({ s with reapQueue := rest }.modProcess p
        ({ · with reapQueued := false })) := by
      refine (h.reapList fun q hq => ?_).inertProcess rfl
      have hq : q ∈ s.reapQueue := by rw [hps]; exact List.mem_cons_of_mem _ hq
      exact ⟨h.reaped q hq, h.orphan q hq⟩
    have hz : (({ s with reapQueue := rest }.modProcess p
        ({ · with reapQueued := false })).process p).state = .zombie := by
      simpa using h.reaped p hmem
    have hparent : (({ s with reapQueue := rest }.modProcess p
        ({ · with reapQueued := false })).process p).parent = none := by
      simpa using h.orphan p hmem
    unfold reapProcessesLoop
    dsimp only
    split
    · exact ⟨hpop.pushReapQueue hz hparent, .of_eq rfl⟩
    · have hun := unregisterProcess_tidy hpop hz
      have hz' : ((unregisterProcess p ({ s with reapQueue := rest }.modProcess p
          ({ · with reapQueued := false }))).process p).state = .zombie := by
        simpa [unregisterProcess] using hz
      have hkept : LiveKept s (unregisterProcess p ({ s with reapQueue := rest }.modProcess p
        ({ · with reapQueued := false }))) := .of_eq rfl
      obtain ⟨htidy, hkept'⟩ := ih (processDestroy_tidy hun hz'
        (by simpa [unregisterProcess] using hparent) hreap) (processDestroy_queues p _).1
        ((processDestroy_queues p _).2.trans hreap)
      exact ⟨htidy, (hkept.trans (processDestroy_liveKept hun hz')).trans hkept'⟩

/-- What has ended and is not used by a processor any more is freed. -/
theorem schedulerReapDeferred_tidy (h : Tidy X w s) : Tidy X w (schedulerReapDeferred s) := by
  have hthreads := reapThreadsLoop_tidy s.threadReapQueue h rfl
  unfold schedulerReapDeferred
  split
  · next heq => rw [heq] at hthreads; exact hthreads.1
  · next heq =>
    rw [heq] at hthreads
    exact (reapProcessesLoop_tidy _ hthreads.1 rfl (hthreads.2 rfl)).1

theorem threadDestroy_liveKept (t : ThreadRef) (s : Sched) : LiveKept s (threadDestroy t s) := by
  intro u hu
  unfold threadDestroy
  dsimp only
  split
  · rfl
  · next hcond =>
    simp only [not_or, not_and, not_not] at hcond
    have hut : u ≠ t := by
      rintro rfl
      by_cases hz : (s.thread u).state = .zombie
      · rw [hz] at hu
        cases hu
      · rw [hcond.2.2.2 hz] at hu
        cases hu
    rw [freeThread, modThread_thread_ne _ _ hut]
    rfl

theorem reapThreadsLoop_liveKept (ts : List ThreadRef) (s : Sched) :
    LiveKept s (reapThreadsLoop ts s).1 := by
  induction ts generalizing s with
  | nil => exact .of_eq rfl
  | cons t rest ih =>
    have hpop : LiveKept s (popThreadReapQueue t rest s) := fun u _ => modThread_proj
      (s := { s with threadReapQueue := rest, rings := s.rings.popFront .reap }) (·.state) rfl u
    unfold reapThreadsLoop
    dsimp only
    generalize popThreadReapQueue t rest s = s₁ at hpop ⊢
    split
    · have hpush : LiveKept s₁ (pushThreadReapQueue t s₁) := fun u _ =>
        modThread_proj (s := { s₁ with
          threadReapQueue := s₁.threadReapQueue ++ [t]
          rings := s₁.rings.pushBack .reap t }) (·.state) rfl u
      exact hpop.trans hpush
    · exact (hpop.trans (threadDestroy_liveKept t s₁)).trans (ih _)

/-- A thread that has not ended is not freed. -/
theorem schedulerReapDeferred_liveKept (h : Tidy X w s) : LiveKept s (schedulerReapDeferred s) := by
  have hthreads := reapThreadsLoop_tidy s.threadReapQueue h rfl
  have hkept := reapThreadsLoop_liveKept s.threadReapQueue s
  unfold schedulerReapDeferred
  split
  · next heq => rw [heq] at hkept; exact hkept
  · next heq =>
    rw [heq] at hthreads hkept
    exact hkept.trans (reapProcessesLoop_tidy _ hthreads.1 rfl (hthreads.2 rfl)).2

/-! ## Children of other processes -/

/-- No process gets a child, and the counts stay. -/
def FamilyShrinks (s s' : Sched) : Prop :=
  ∀ q, (s'.process q).children ⊆ (s.process q).children ∧
    (s'.process q).liveThreadCount = (s.process q).liveThreadCount

theorem FamilyShrinks.trans {s'' : Sched} (h : FamilyShrinks s s') (h' : FamilyShrinks s' s'') :
    FamilyShrinks s s'' :=
  fun q => ⟨List.Subset.trans (h' q).1 (h q).1, (h' q).2.trans (h q).2⟩

theorem FamilyShrinks.of_eq (h : s'.process = s.process) : FamilyShrinks s s' :=
  fun q => by rw [h]; exact ⟨List.Subset.refl _, rfl⟩

theorem FamilyShrinks.modProcess {g : KernelProcess → KernelProcess} (hs : s'.process = s.process)
    (hchildren : (g (s'.process p)).children ⊆ (s'.process p).children)
    (hlive : (g (s'.process p)).liveThreadCount = (s'.process p).liveThreadCount) :
    FamilyShrinks s (s'.modProcess p g) :=
  (FamilyShrinks.of_eq hs).trans <|
    forall_modProcess (P := fun q r => r.children ⊆ (s'.process q).children ∧
      r.liveThreadCount = (s'.process q).liveThreadCount) ⟨hchildren, hlive⟩
      fun _ _ => ⟨List.Subset.refl _, rfl⟩

theorem threadDestroy_family (t : ThreadRef) (s : Sched) : FamilyShrinks s (threadDestroy t s) := by
  have herase : FamilyShrinks s (s.modProcess (s.thread t).process fun p =>
      { p with threads := p.threads.erase t, threadCount := p.threadCount - 1 }) :=
    .modProcess rfl (List.Subset.refl _) rfl
  unfold threadDestroy
  dsimp only
  split
  · exact .of_eq rfl
  · exact herase.trans (.of_eq rfl)

theorem reapThreadsLoop_family (ts : List ThreadRef) (s : Sched) :
    FamilyShrinks s (reapThreadsLoop ts s).1 := by
  induction ts generalizing s with
  | nil => exact .of_eq rfl
  | cons t rest ih =>
    have hpop : FamilyShrinks s (popThreadReapQueue t rest s) := .of_eq rfl
    unfold reapThreadsLoop
    dsimp only
    split
    · exact .of_eq rfl
    · exact (hpop.trans (threadDestroy_family t _)).trans (ih _)

theorem processDestroy_family (p : ProcessRef) (s : Sched) :
    FamilyShrinks s (processDestroy p s) := by
  have hleave : FamilyShrinks s (leaveParent p s) := by
    unfold leaveParent
    split
    · exact (FamilyShrinks.modProcess rfl List.erase_subset rfl).trans
        (.modProcess rfl (List.Subset.refl _) rfl)
    · exact .of_eq rfl
  have hclear : ∀ (cs : List ProcessRef) (s : Sched), FamilyShrinks s (clearParents cs s) := by
    intro cs s q
    rw [clearParents_process]
    split <;> exact ⟨List.Subset.refl _, rfl⟩
  have hfree : ∀ s : Sched, FamilyShrinks s (freeProcess p s) := fun s =>
    .modProcess rfl (List.nil_subset _) rfl
  unfold processDestroy
  dsimp only
  exact ((hleave.trans (hclear _ _)).trans (.of_eq (freeThreads_process _ _))).trans (hfree _)

theorem reapProcessesLoop_family (ps : List ProcessRef) (s : Sched) :
    FamilyShrinks s (reapProcessesLoop ps s) := by
  induction ps generalizing s with
  | nil => exact .of_eq rfl
  | cons p rest ih =>
    have hpop : FamilyShrinks s ({ s with reapQueue := rest }.modProcess p
        ({ · with reapQueued := false })) := .modProcess rfl (List.Subset.refl _) rfl
    refine hpop.trans ?_
    unfold reapProcessesLoop
    dsimp only
    generalize ({ s with reapQueue := rest }.modProcess p ({ · with reapQueued := false })) = s₁
    split
    · exact .modProcess rfl (List.Subset.refl _) rfl
    · have hun : FamilyShrinks s₁ (unregisterProcess p s₁) :=
        .modProcess rfl (List.Subset.refl _) rfl
      exact (hun.trans (processDestroy_family p _)).trans (ih _)

theorem schedulerReapDeferred_family (s : Sched) : FamilyShrinks s (schedulerReapDeferred s) := by
  have hthreads := reapThreadsLoop_family s.threadReapQueue s
  unfold schedulerReapDeferred
  split
  · next heq => rw [heq] at hthreads; exact hthreads
  · next heq => rw [heq] at hthreads; exact hthreads.trans (reapProcessesLoop_family _ _)

end RiscMv.Kernel
