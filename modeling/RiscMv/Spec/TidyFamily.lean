import RiscMv.Spec.Children
import RiscMv.Spec.TidyReap

/-!
# The end of a process keeps the scheduler tidy

The functions that hand over the children of a process that ends and tell its parent.  While the
children are handed over, some of them are in no list (`Adrift`); while the parent is told, the
ended child may still be one that a thread waits for (`WaitOk`).

## Key results
- `notifyParentLoop_waits`: afterwards no thread waits for a child that has ended
- `schedulerRecordProcessCompletion_tidy`
-/

namespace RiscMv.Kernel

variable {X : ProcessRef → Prop} {w : Prop} {s s' : Sched} {t u n : ThreadRef}
  {p q c parent child : ProcessRef} {e : Env} {rest : List ProcessRef}

/-! ## Wake-ups leave the other threads and the processes alone -/

theorem childWake_frame (e : Env) (t : ThreadRef) (result : Int64) (s : Sched) :
    (childWake e t result s).process = s.process ∧
      (∀ u, u ≠ t → (childWake e t result s).thread u = s.thread u) ∧
      ((childWake e t result s).thread t).state ≠ .blocked :=
  schedulerWakeWaiter_frame e t result
    { s with childWakes := (t, (s.thread t).blockedIn) :: s.childWakes }

theorem schedulerNotifyJoiner_process (e : Env) (target : ThreadRef) (s : Sched) :
    (schedulerNotifyJoiner e target s).process = s.process := by
  unfold schedulerNotifyJoiner
  split
  · rfl
  · dsimp only
    split
    · rfl
    · split
      · exact (schedulerWakeWaiter_frame e _ _ _).1
      · refine (schedulerWakeWaiter_frame e _ _ _).1.trans ?_
        unfold schedulerQueueThreadReap
        split <;> rfl

theorem childWake_tidy (h : Tidy X w s) (e : Env) (t : ThreadRef) (result : Int64) :
    Tidy X w (childWake e t result s) := by
  have hnote : Tidy X w { s with childWakes := (t, (s.thread t).blockedIn) :: s.childWakes } :=
    h.congr rfl
  exact schedulerWakeWaiter_tidy hnote e t result

/-! ## Threads that wait for a child -/

variable {I J : ProcessRef → Prop}

theorem WaitOk.of_not_blocked (h : (s.thread t).state ≠ .blocked) : WaitOk I s t :=
  fun _ hb => absurd hb h

theorem WaitOk.congr (h : WaitOk I s t) (hthread : s'.thread t = s.thread t)
    (hprocess : s'.process = s.process) : WaitOk I s' t := by
  unfold WaitOk
  rw [hthread, hprocess]
  exact h

/-- Children that are no longer left out have not ended or are not the thread's. -/
theorem WaitOk.weaken (h : WaitOk I s t)
    (hI : ∀ pid, (s.thread t).state = .blocked → (s.thread t).blockedIn = some (.waitpid pid) →
      (s.thread t).waitPid = pid →
      ∀ c ∈ (s.process (s.thread t).process).children, I c → ¬ J c →
        schedulerWaitMatches pid (s.process c).pid = true → (s.process c).state ≠ .zombie) :
    WaitOk J s t := by
  intro pid hb hin
  obtain ⟨hpid, hex, hz⟩ := h pid hb hin
  refine ⟨hpid, hex, fun c hc hJ hm => ?_⟩
  by_cases hc' : I c
  · exact hI pid hb hin hpid c hc hc' hJ hm
  · exact hz c hc hc' hm

/-- The thread is one that `scheduler_wake_stale_waiters` wakes if it is blocked. -/
def StaleWaiter (parent : ProcessRef) (reapedPid : UInt64) (s : Sched) (t : ThreadRef) : Prop :=
  (s.thread t).waitPid = reapedPid ∨
    ((s.thread t).waitPid = 0 ∨ (s.thread t).waitPid = uint64Max) ∧
      (s.process parent).children = []

theorem wakeStaleLoop_waits (e : Env) (parent : ProcessRef) (reapedPid : UInt64)
    (ts : List ThreadRef) (s : Sched)
    (h : ∀ t, WaitOk noProcess s t ∨ t ∈ ts ∧ StaleWaiter parent reapedPid s t) :
    Waits (wakeStaleLoop e parent reapedPid ts s) := by
  induction ts generalizing s with
  | nil => exact fun t => (h t).resolve_right fun hmem => List.not_mem_nil hmem.1
  | cons t rest ih =>
    unfold wakeStaleLoop
    split
    · -- the thread is woken, and the others are as they were
      obtain ⟨hprocess, hne, hstate⟩ := childWake_frame e t (-kernelErrorNoChild) s
      refine ih _ fun u => ?_
      by_cases hu : u = t
      · exact .inl (.of_not_blocked (hu ▸ hstate))
      · rcases h u with hok | ⟨hmem, hstale⟩
        · exact .inl (hok.congr (hne u hu) hprocess)
        · refine .inr ⟨(List.mem_cons.mp hmem).resolve_left hu, ?_⟩
          rw [StaleWaiter, hne u hu, hprocess]
          exact hstale
    · next hcond =>
      refine ih s fun u => ?_
      rcases h u with hok | ⟨hmem, hstale⟩
      · exact .inl hok
      · rcases List.mem_cons.mp hmem with rfl | hmem
        · exact .inl (.of_not_blocked fun hb => hcond ⟨hb, hstale⟩)
        · exact .inr ⟨hmem, hstale⟩

theorem wakeStaleLoop_tidy (e : Env) (parent : ProcessRef) (reapedPid : UInt64)
    (ts : List ThreadRef) (h : Tidy X w s) :
    Tidy X w (wakeStaleLoop e parent reapedPid ts s) := by
  induction ts generalizing s with
  | nil => exact h
  | cons t rest ih =>
    unfold wakeStaleLoop
    split
    · exact ih (childWake_tidy h e t _)
    · exact ih h

/-! ## A child is collected -/

/-- The part of a process record that is about its threads. -/
structure ProcessLife where
  threads : List ThreadRef
  stopOwner : Option ThreadRef
  liveThreadCount : Nat
  state : ProcessState
  faulted : Bool
  stopRequested : Bool

/-- The part of a process record that is about its threads. -/
def KernelProcess.life (r : KernelProcess) : ProcessLife :=
  ⟨r.threads, r.stopOwner, r.liveThreadCount, r.state, r.faulted, r.stopRequested⟩

/-- Only parents and children change. -/
theorem Tidy.rekin (h : Tidy X w s) (hs : s'.status = { s.status with process := s'.process })
    (hlife : ∀ q, (s'.process q).life = (s.process q).life) (hk : Kin s') (hw : w → Waits s') :
    Tidy X w s' := by
  simp only [Sched.status, SchedStatus.mk.injEq] at hs
  obtain ⟨hthread, -, hlist, hqueue, hrings, hreaped⟩ := hs
  simp only [KernelProcess.life, ProcessLife.mk.injEq] at hlife
  have hthreads q := (hlife q).1
  have howner q := (hlife q).2.1
  have hlive q := (hlife q).2.2.1
  have hstate q := (hlife q).2.2.2.1
  have hfault q := (hlife q).2.2.2.2.1
  have hreq q := (hlife q).2.2.2.2.2
  refine ⟨h.toQueuesOk.congr (fun u => by rw [hthread]) (fun u => by rw [hthread]) hqueue hrings,
    ⟨?_, ?_, ?_, ?_, ?_, ?_, ?_, ?_⟩, hk, hw⟩ <;>
    simp only [KernelProcess.Over, liveCount, hthread, hlist, hreaped, hthreads, howner, hlive,
      hstate, hfault, hreq]
  · exact h.nodup
  · exact h.listed
  · exact h.member
  · exact h.registered
  · exact h.ends
  · exact h.reaped
  · exact h.stops
  · exact h.counted

/-- The records after `child` left the list of `parent`. -/
theorem detachChild_process (parent child q : ProcessRef) (s : Sched) :
    (((s.modProcess parent fun r => { r with children := r.children.erase child }).modProcess
      child ({ · with parent := none })).process q) = { s.process q with
        children := if q = parent then (s.process q).children.erase child
          else (s.process q).children
        parent := if q = child then none else (s.process q).parent } := by
  by_cases hc : q = child
  · subst hc
    by_cases hp : q = parent
    · subst hp
      simp
    · simp [modProcess_process_ne s _ hp, hp]
  · rw [modProcess_process_ne _ _ hc]
    by_cases hp : q = parent
    · subst hp
      simp [hc]
    · simp [modProcess_process_ne s _ hp, hp, hc]

theorem detachChild_tidy {parent child : ProcessRef} (h : Tidy X False s)
    (hparent : (s.process child).parent = some parent) :
    Tidy X False ((s.modProcess parent fun r => { r with
      children := r.children.erase child }).modProcess child ({ · with parent := none })) := by
  have hproc q := detachChild_process parent child q s
  refine h.rekin rfl (fun q => by rw [hproc]; rfl) ⟨fun q => ?_, fun q hq => ?_⟩ nofun
  · simp only [hproc]
    split
    · next hq =>
      subst hq
      refine (h.children q).erase fun c => ?_
      split
      · next hc => exact ⟨nofun, fun hne => absurd hc hne.1⟩
      · next hc => exact ⟨fun hp => ⟨hc, hp⟩, And.right⟩
    · next hq =>
      refine (h.children q).congr fun c => ?_
      split
      · next hc =>
        subst hc
        exact ⟨nofun, fun hp => absurd (Option.some.inj (hp.symm.trans hparent)) hq⟩
      · exact Iff.rfl
  · simp only [hproc]
    split
    · rfl
    · exact h.orphan q hq

theorem schedulerCollectChild_tidy (h : Tidy X False s) (hz : (s.process child).state = .zombie) :
    Tidy X False (schedulerCollectChild parent child s) := by
  unfold schedulerCollectChild
  split
  · exact h
  · next hparent =>
    refine schedulerQueueReap_tidy (detachChild_tidy h (not_not.mp hparent)) ?_
    rw [detachChild_process]
    exact hz

/-- What `scheduler_queue_reap` keeps of the process records. -/
theorem schedulerQueueReap_process (p q : ProcessRef) (s : Sched) :
    ((schedulerQueueReap p s).process q).status = (s.process q).status := by
  unfold schedulerQueueReap
  split
  · rfl
  · exact modProcess_proj (s := { s with reapQueue := s.reapQueue ++ [p] }) (·.status) rfl q

theorem schedulerQueueReap_thread (p : ProcessRef) (s : Sched) :
    (schedulerQueueReap p s).thread = s.thread := by
  unfold schedulerQueueReap
  split <;> rfl

/-- The records after `scheduler_collect_child`. -/
theorem schedulerCollectChild_process (hparent : (s.process child).parent = some parent)
    (q : ProcessRef) :
    ((schedulerCollectChild parent child s).process q).status = { (s.process q).status with
      children := if q = parent then (s.process q).children.erase child
        else (s.process q).children
      parent := if q = child then none else (s.process q).parent } := by
  unfold schedulerCollectChild
  rw [if_neg (not_not.mpr hparent), schedulerQueueReap_process, detachChild_process]
  rfl

/-- Waiting for any child matches every child. -/
theorem schedulerWaitMatches_any {pid : UInt64} (h : pid = 0 ∨ pid = uint64Max) (cpid : UInt64) :
    schedulerWaitMatches pid cpid = true := by
  rcases h with rfl | rfl <;> simp [schedulerWaitMatches]

/-- Once a child is collected, a waiting thread has another child to wait for, or is stale. -/
theorem schedulerCollectChild_waitOk (h : Tidy X False s)
    (hparent : (s.process child).parent = some parent) (hok : WaitOk (· = child) s u) :
    WaitOk noProcess (schedulerCollectChild parent child s) u ∨
      u ∈ ((schedulerCollectChild parent child s).process parent).threads ∧
        StaleWaiter parent (s.process child).pid (schedulerCollectChild parent child s) u := by
  have hproc := schedulerCollectChild_process hparent
  have hthread := schedulerCollectChild_thread parent child s
  generalize schedulerCollectChild parent child s = s' at hproc hthread ⊢
  simp only [KernelProcess.status, ProcessStatus.mk.injEq] at hproc
  have hthreads q := (hproc q).1
  have hchildren q := (hproc q).2.1
  have hpids q := (hproc q).2.2.2.2.1
  have hstate q := (hproc q).2.2.2.2.2.2.1
  by_cases hb : (s.thread u).state = .blocked ∧ ∃ pid, (s.thread u).blockedIn = some (.waitpid pid)
  swap
  · refine .inl fun pid hb' hin => absurd ⟨?_, pid, ?_⟩ hb
    · rw [← hthread]; exact hb'
    · rw [← hthread]; exact hin
  obtain ⟨hb, pid, hin⟩ := hb
  obtain ⟨hpid, ⟨c, hc, hm⟩, hz⟩ := hok pid hb hin
  have hsame : ∀ pid', (s'.thread u).blockedIn = some (.waitpid pid') → pid' = pid := by
    intro pid' hin'
    rw [hthread, hin] at hin'
    exact (BlockReason.waitpid.inj (Option.some.inj hin')).symm
  by_cases hq : (s.thread u).process = parent
  · -- what is left of the children the thread waits for
    have hzero : ∀ c ∈ (s.process parent).children.erase child,
        schedulerWaitMatches pid (s.process c).pid = true → (s.process c).state ≠ .zombie := by
      intro c hc hm
      rw [(h.children parent).nodup.mem_erase_iff] at hc
      exact hz c (hq ▸ hc.2) hc.1 hm
    have left : ∀ c ∈ (s.process parent).children.erase child,
        schedulerWaitMatches pid (s.process c).pid = true → WaitOk noProcess s' u := by
      intro c hc hm pid' _ hin'
      rw [hsame pid' hin']
      simp only [hthread, hchildren, hpids, hstate, hq, if_true]
      exact ⟨hpid, ⟨c, hc, hm⟩, fun c hc _ => hzero c hc⟩
    by_cases hne : c = child
    · have hmem : u ∈ (s'.process parent).threads := by
        rw [hthreads, ← hq]
        exact h.member u (by rw [hb]; rfl)
      subst hne
      rw [schedulerWaitMatches, Bool.or_eq_true, Bool.or_eq_true, beq_iff_eq, beq_iff_eq,
        beq_iff_eq] at hm
      rcases hm with hany | hone
      · cases hlist : (s.process parent).children.erase c with
        | nil =>
          refine .inr ⟨hmem, .inr ⟨?_, ?_⟩⟩
          · rw [hthread, hpid]; exact hany
          · rw [hchildren, if_pos rfl, hlist]
        | cons d rest =>
          have hd : d ∈ (s.process parent).children.erase c := by simp [hlist]
          exact .inl (left d hd (schedulerWaitMatches_any hany _))
      · exact .inr ⟨hmem, .inl (by rw [hthread, hpid, hone])⟩
    · exact .inl (left c (((h.children parent).nodup.mem_erase_iff).mpr ⟨hne, hq ▸ hc⟩) hm)
  · refine .inl fun pid' _ hin' => ?_
    rw [hsame pid' hin']
    simp only [hthread, hchildren, hpids, hstate, if_neg hq]
    refine ⟨hpid, ⟨c, hc, hm⟩, fun c hc _ hm => hz c hc ?_ hm⟩
    rintro rfl
    have hcp := ((h.children _).mem c).mp hc
    exact hq (Option.some.inj (hcp.symm.trans hparent))

theorem schedulerWakeStaleWaiters_waits {reapedPid : UInt64} (e : Env) (parent : ProcessRef)
    (h : ∀ t, WaitOk noProcess s t ∨
      t ∈ (s.process parent).threads ∧ StaleWaiter parent reapedPid s t) :
    Waits (schedulerWakeStaleWaiters e parent reapedPid s) :=
  wakeStaleLoop_waits e parent reapedPid _ s h

theorem WaitOk.but (h : WaitOk noProcess s t) : WaitOk I s t :=
  h.weaken fun _ _ _ _ _ _ hno => hno.elim

/-- After `scheduler_notify_parent` no thread waits for a child that has ended. -/
theorem notifyParentLoop_waits (e : Env) (ts : List ThreadRef) (h : Tidy X False s)
    (hparent : (s.process child).parent = some parent)
    (hok : ∀ t, WaitOk noProcess s t ∨ t ∈ ts ∧ WaitOk (· = child) s t) :
    Waits (notifyParentLoop e parent child ts s) := by
  induction ts generalizing s with
  | nil => exact fun t => (hok t).resolve_right fun hmem => List.not_mem_nil hmem.1
  | cons t rest ih =>
    unfold notifyParentLoop
    dsimp only
    split
    · next hcond =>
      -- the thread does not wait for this child
      refine ih h hparent fun u => ?_
      rcases hok u with hu | ⟨hmem, hu⟩
      · exact .inl hu
      · rcases List.mem_cons.mp hmem with rfl | hmem
        · refine .inl (hu.weaken fun pid hb _ hpid c _ hc _ hm => ?_)
          subst hc
          rcases hcond with hnb | hnm
          · exact absurd hb hnb
          · rw [hpid] at hnm
            exact absurd hm hnm
        · exact .inr ⟨hmem, hu⟩
    · split
      · obtain ⟨hprocess, hne, hstate⟩ := childWake_frame e t (-kernelErrorFault) s
        refine ih (childWake_tidy h e t _) (by rw [hprocess]; exact hparent) fun u => ?_
        by_cases hut : u = t
        · exact .inl (.of_not_blocked (hut ▸ hstate))
        · rcases hok u with hu | ⟨hmem, hu⟩
          · exact .inl (hu.congr (hne u hut) hprocess)
          · exact .inr ⟨(List.mem_cons.mp hmem).resolve_left hut, hu.congr (hne u hut) hprocess⟩
      · -- the child is collected for this thread
        have hnote : Tidy X False { s with collected :=
            ((s.process child).pid, (s.thread t).waitRequest) :: s.collected } := h.congr rfl
        have hcollect : ∀ u, _ := fun u => schedulerCollectChild_waitOk (u := u) hnote hparent
          (((hok u).elim WaitOk.but And.right).congr rfl rfl)
        obtain ⟨hprocess, hne, hstate⟩ := childWake_frame e t (s.process child).pid.toInt64
          (schedulerCollectChild parent child { s with collected :=
            ((s.process child).pid, (s.thread t).waitRequest) :: s.collected })
        refine schedulerWakeStaleWaiters_waits e parent fun u => ?_
        by_cases hut : u = t
        · exact .inl (.of_not_blocked (hut ▸ hstate))
        · rcases hcollect u with hu | ⟨hmem, hu⟩
          · exact .inl (hu.congr (hne u hut) hprocess)
          · refine .inr ⟨by rw [hprocess]; exact hmem, ?_⟩
            rw [StaleWaiter, hne u hut, hprocess]
            exact hu

theorem notifyParentLoop_tidy (e : Env) (ts : List ThreadRef) (h : Tidy X False s)
    (hz : (s.process child).state = .zombie) :
    Tidy X False (notifyParentLoop e parent child ts s) := by
  induction ts generalizing s with
  | nil => exact h
  | cons t rest ih =>
    unfold notifyParentLoop
    dsimp only
    split
    · exact ih h hz
    · split
      · exact ih (childWake_tidy h e t _) (by rw [(childWake_frame e t _ s).1]; exact hz)
      · have hnote : Tidy X False { s with collected :=
            ((s.process child).pid, (s.thread t).waitRequest) :: s.collected } := h.congr rfl
        exact wakeStaleLoop_tidy e parent _ _
          (childWake_tidy (schedulerCollectChild_tidy hnote hz) e t _)

/-! ## Children are handed over -/

/-- The processes in `R` are in no list of children, although their records still name a
    parent. -/
structure Adrift (R : List ProcessRef) (s : Sched) : Prop where
  children : ∀ p, Roster (s.process p).children fun c => (s.process c).parent = some p ∧ c ∉ R
  orphan : ∀ p ∈ s.reapQueue, (s.process p).parent = none
  parents : ∀ c ∈ R, (s.process c).parent.isSome = true

theorem Lives.rekin {g : KernelProcess → KernelProcess} (h : Lives X s)
    (hlife : (g (s.process p)).life = (s.process p).life) : Lives X (s.modProcess p g) := by
  simp only [KernelProcess.life, ProcessLife.mk.injEq] at hlife
  obtain ⟨hthreads, howner, hlive, hstate, hfault, hreq⟩ := hlife
  refine h.modProcess hthreads ?_ (by rw [hstate]; exact id) ?_ ?_
  · rw [KernelProcess.Over, hstate, hfault]
    exact h.ends p
  · rw [hfault, hreq, howner, hlive]
    exact h.stops p
  · rw [hreq, hlive]
    exact h.counted p

/-- The records after `np` adopted `child`. -/
theorem adoptChild_process (np child q : ProcessRef) (s : Sched) :
    (((s.modProcess child ({ · with parent := some np })).modProcess np fun r =>
      { r with children := r.children ++ [child] }).process q) = { s.process q with
        children := if q = np then (s.process q).children ++ [child] else (s.process q).children
        parent := if q = child then some np else (s.process q).parent } := by
  by_cases hn : q = np
  · subst hn
    by_cases hc : q = child
    · subst hc
      simp
    · simp [modProcess_process_ne s _ hc, hc]
  · rw [modProcess_process_ne _ _ hn]
    by_cases hc : q = child
    · subst hc
      simp [hn]
    · simp [modProcess_process_ne s _ hc, hn, hc]

theorem Adrift.adopt (h : Adrift (child :: rest) s) (hrest : child ∉ rest) (np : ProcessRef) :
    Adrift rest ((s.modProcess child ({ · with parent := some np })).modProcess np fun r =>
      { r with children := r.children ++ [child] }) := by
  have hproc q := adoptChild_process np child q s
  refine ⟨fun q => ?_, fun q hq => ?_, fun c hc => ?_⟩
  · simp only [hproc]
    split
    · next hq =>
      subst hq
      refine (h.children q).push (by simp) fun c => ?_
      by_cases hc : c = child
      · subst hc
        simp [hrest]
      · simp [hc]
    · next hq =>
      refine (h.children q).congr fun c => ?_
      by_cases hc : c = child
      · subst hc
        simp [Ne.symm hq]
      · simp [hc]
  · have hsome := h.parents child (List.mem_cons_self ..)
    have hqc : q ≠ child := by
      rintro rfl
      rw [h.orphan q hq] at hsome
      cases hsome
    simp only [hproc, if_neg hqc]
    exact h.orphan q hq
  · simp only [hproc]
    split
    · rfl
    · exact h.parents c (List.mem_cons_of_mem _ hc)

theorem Adrift.abandon (h : Adrift (child :: rest) s) (hrest : child ∉ rest) :
    Adrift rest (s.modProcess child ({ · with parent := none })) := by
  have hparent : ∀ c, ((s.modProcess child ({ · with parent := none })).process c).parent =
      if c = child then none else (s.process c).parent := by
    intro c
    by_cases hc : c = child
    · subst hc
      simp
    · simp [modProcess_process_ne s _ hc, hc]
  have hchildren := modProcess_proj (s := s) (p := child) (g := ({ · with parent := none }))
    (·.children) rfl
  refine ⟨fun q => ?_, fun q hq => ?_, fun c hc => ?_⟩
  · rw [hchildren]
    refine (h.children q).congr fun c => ?_
    rw [hparent]
    by_cases hc : c = child
    · subst hc
      simp
    · simp [hc]
  · rw [hparent]
    split
    · rfl
    · exact h.orphan q hq
  · have hcc : c ≠ child := by
      rintro rfl
      exact hrest hc
    rw [hparent, if_neg hcc]
    exact h.parents c (List.mem_cons_of_mem _ hc)

theorem schedulerQueueReap_adrift {R : List ProcessRef} (h : Adrift R s) (p : ProcessRef) :
    Adrift R (schedulerQueueReap p s) := by
  have hproc := schedulerQueueReap_process p (s := s)
  simp only [KernelProcess.status, ProcessStatus.mk.injEq] at hproc
  have hchildren q := (hproc q).2.1
  have hparent q := (hproc q).2.2.1
  refine ⟨fun q => ?_, fun q hq => ?_, fun c hc => ?_⟩
  · rw [hchildren]
    exact (h.children q).congr fun c => by rw [hparent]
  · rw [hparent]
    unfold schedulerQueueReap at hq
    split at hq
    · exact h.orphan q hq
    · next hcond =>
      rcases List.mem_append.mp hq with hq | hq
      · exact h.orphan q hq
      · rw [List.mem_singleton.mp hq]
        simpa using fun hsome => hcond (.inl hsome)
  · rw [hparent]
    exact h.parents c hc

theorem schedulerQueueReap_lives (h : Lives X s) (hz : (s.process p).state = .zombie) :
    Lives X (schedulerQueueReap p s) := by
  unfold schedulerQueueReap
  split
  · exact h
  · have hpush : Lives X { s with reapQueue := s.reapQueue ++ [p] } := by
      refine { h with reaped := fun q hq => ?_ }
      rcases List.mem_append.mp hq with hq | hq
      · exact h.reaped q hq
      · exact List.mem_singleton.mp hq ▸ hz
    exact hpush.rekin rfl

theorem schedulerQueueReap_queuesOk (h : QueuesOk s) (p : ProcessRef) :
    QueuesOk (schedulerQueueReap p s) := by
  unfold schedulerQueueReap
  split
  · exact h
  · exact ⟨h.rings, h.run, h.timeout, h.wait, h.reap, h.status⟩

theorem orphanLoop_tidy (np : Option ProcessRef) (cs : List ProcessRef) (hq : QueuesOk s)
    (hl : Lives X s) (hk : Adrift cs s) (hcs : cs.Nodup) : Tidy X False (orphanLoop np cs s) := by
  induction cs generalizing s with
  | nil =>
    exact ⟨hq, hl, ⟨fun p => (hk.children p).congr fun c => by simp [orphanLoop], hk.orphan⟩, nofun⟩
  | cons child rest ih =>
    obtain ⟨hrest, hnodup⟩ := List.nodup_cons.mp hcs
    cases np with
    | some np =>
      exact ih hq.modProcess.modProcess ((hl.rekin rfl).rekin rfl) (hk.adopt hrest np) hnodup
    | none =>
      have hlive : Lives X (s.modProcess child ({ · with parent := none })) := hl.rekin rfl
      have hdrift := hk.abandon hrest
      simp only [orphanLoop]
      split
      · next hz =>
        exact ih (schedulerQueueReap_queuesOk hq.modProcess child)
          (schedulerQueueReap_lives hlive hz) (schedulerQueueReap_adrift hdrift child) hnodup
      · exact ih hq.modProcess hlive hdrift hnodup

theorem schedulerOrphanChildren_tidy (h : Tidy X False s) (p : ProcessRef) :
    Tidy X False (schedulerOrphanChildren p s) := by
  unfold schedulerOrphanChildren
  refine orphanLoop_tidy _ _ h.toQueuesOk.modProcess (h.toLives.rekin rfl) ?_ (h.children p).nodup
  have hparent := modProcess_proj (s := s) (p := p) (g := ({ · with children := [] }))
    (·.parent) rfl
  refine ⟨fun q => ?_, fun q hq => ?_, fun c hc => ?_⟩
  · by_cases hq : q = p
    · subst hq
      rw [modProcess_process_self]
      refine ⟨List.nodup_nil, fun c => ⟨nofun, fun hc => ?_⟩⟩
      rw [hparent] at hc
      exact absurd (((h.children q).mem c).mpr hc.1) hc.2
    · rw [modProcess_process_ne s _ hq]
      refine (h.children q).congr fun c => ?_
      rw [hparent]
      refine ⟨And.left, fun hc => ⟨hc, fun hcp => hq ?_⟩⟩
      exact Option.some.inj (hc.symm.trans (((h.children p).mem c).mp hcp))
  · rw [hparent]
    exact h.orphan q hq
  · rw [hparent, ((h.children p).mem c).mp hc]
    rfl

/-- The records after the children were handed over. -/
theorem orphanLoop_process (np : Option ProcessRef) (cs : List ProcessRef) (s : Sched)
    (q : ProcessRef) :
    ((orphanLoop np cs s).process q).children = (s.process q).children ++
        (if np = some q then cs else []) ∧
      ((orphanLoop np cs s).process q).life = (s.process q).life ∧
      ((orphanLoop np cs s).process q).pid = (s.process q).pid := by
  induction cs generalizing s with
  | nil => simp [orphanLoop]
  | cons child rest ih =>
    cases np with
    | some np =>
      obtain ⟨hchildren, hlife, hpid⟩ := ih ((s.modProcess child
        ({ · with parent := some np })).modProcess np fun r =>
          { r with children := r.children ++ [child] })
      rw [adoptChild_process] at hchildren hlife hpid
      refine ⟨hchildren.trans ?_, hlife, hpid⟩
      by_cases hq : q = np
      · simp [hq]
      · simp [hq, Ne.symm hq]
    | none =>
      have hparent := modProcess_proj (s := s) (p := child) (g := ({ · with parent := none }))
        (fun r => (r.children, r.life, r.pid)) rfl q
      simp only [Prod.mk.injEq] at hparent
      simp only [orphanLoop]
      split
      · have hreap := schedulerQueueReap_process child q
          (s.modProcess child ({ · with parent := none }))
        simp only [KernelProcess.status, ProcessStatus.mk.injEq] at hreap
        obtain ⟨hthreads, hchildren', _, howner, hpid', hlive, hstate, hfault, hreq⟩ := hreap
        obtain ⟨hchildren, hlife, hpid⟩ := ih (schedulerQueueReap child
          (s.modProcess child ({ · with parent := none })))
        refine ⟨hchildren.trans ?_, hlife.trans (Eq.trans ?_ hparent.2.1),
          hpid.trans (hpid'.trans hparent.2.2)⟩
        · simpa using hchildren'.trans hparent.1
        · simp only [KernelProcess.life, hthreads, howner, hlive, hstate, hfault, hreq]
      · obtain ⟨hchildren, hlife, hpid⟩ := ih (s.modProcess child ({ · with parent := none }))
        refine ⟨hchildren.trans ?_, hlife.trans hparent.2.1, hpid.trans hparent.2.2⟩
        simpa using hparent.1

theorem orphanLoop_thread (np : Option ProcessRef) (cs : List ProcessRef) (s : Sched) :
    (orphanLoop np cs s).thread = s.thread := by
  induction cs generalizing s with
  | nil => rfl
  | cons child rest ih =>
    cases np with
    | some np => exact ih _
    | none =>
      simp only [orphanLoop]
      split
      · exact (ih _).trans (schedulerQueueReap_thread child _)
      · exact ih _

/-- No child of `p` has ended that a thread of the process that adopts it waits for. -/
def AdoptsNoEnded (p : ProcessRef) (s : Sched) : Prop :=
  ∀ t pid, (s.thread t).state = .blocked → (s.thread t).blockedIn = some (.waitpid pid) →
    orphanParent s p = some (s.thread t).process → ∀ c ∈ (s.process p).children, c ≠ p →
      schedulerWaitMatches pid (s.process c).pid = true → (s.process c).state ≠ .zombie

/-- Fewer threads wait and the process has fewer children. -/
theorem AdoptsNoEnded.mono (h : AdoptsNoEnded p s)
    (hb : ∀ t, (s'.thread t).state = .blocked → (s.thread t).state = .blocked ∧
      (s'.thread t).blockedIn = (s.thread t).blockedIn ∧
      (s'.thread t).process = (s.thread t).process)
    (hchildren : (s'.process p).children ⊆ (s.process p).children)
    (hid : ∀ q, (s'.process q).state = (s.process q).state ∧
      (s'.process q).pid = (s.process q).pid)
    (hinit : ∀ q, s'.initProcess = some q → s.initProcess = some q) : AdoptsNoEnded p s' := by
  intro t pid hblocked hin hnp c hc hcp
  obtain ⟨hb', hin', hproc⟩ := hb t hblocked
  rw [(hid c).1, (hid c).2]
  refine h t pid hb' (hin' ▸ hin) ?_ c (hchildren hc) hcp
  rw [hproc] at hnp
  have hi := hinit _ (orphanParent_some hnp)
  unfold orphanParent at hnp ⊢
  rw [orphanParent_some hnp] at hnp
  rw [hi]
  simpa only [(hid _).1] using hnp

theorem AdoptsNoEnded.micro {π : Perm} (h : AdoptsNoEnded p s) (hm : MicroSteps π s s')
    (hchildren : (s'.process p).children ⊆ (s.process p).children) : AdoptsNoEnded p s' :=
  h.mono (fun t hb => ⟨hm.blocked t hb, (hm.moves.thread t nofun).blockedIn,
    (hm.moves.home t).process⟩) hchildren hm.identity_eq fun _ => hm.initProcess

/-- Threads of other processes keep their children and may get new ones. -/
theorem schedulerOrphanChildren_waitOk (hok : WaitOk (· = p) s t)
    (hne : (s.thread t).state = .blocked → (s.thread t).process ≠ p) (hadopt : AdoptsNoEnded p s) :
    WaitOk (· = p) (schedulerOrphanChildren p s) t := by
  intro pid
  unfold schedulerOrphanChildren
  have hproc q := orphanLoop_process (orphanParent s p) (s.process p).children
    (s.modProcess p ({ · with children := [] })) q
  have hthread := orphanLoop_thread (orphanParent s p) (s.process p).children
    (s.modProcess p ({ · with children := [] }))
  generalize orphanLoop (orphanParent s p) (s.process p).children
    (s.modProcess p ({ · with children := [] })) = s' at hproc hthread ⊢
  rw [hthread]
  intro hb hin
  obtain ⟨hpid, ⟨c, hc, hm⟩, hz⟩ := hok pid hb hin
  have hkeep q := modProcess_proj (s := s) (p := p) (g := ({ · with children := [] }))
    (fun r => (r.state, r.pid)) rfl q
  simp only [Prod.mk.injEq] at hkeep
  have hstate q : (s'.process q).state = (s.process q).state :=
    (congrArg ProcessLife.state (hproc q).2.1).trans (hkeep q).1
  have hpids q : (s'.process q).pid = (s.process q).pid := (hproc q).2.2.trans (hkeep q).2
  have hchildren : (s'.process (s.thread t).process).children =
      (s.process (s.thread t).process).children ++
        (if orphanParent s p = some (s.thread t).process then (s.process p).children else []) := by
    rw [(hproc _).1, modProcess_process_ne s _ (hne hb)]
  simp only [modProcess_thread, hchildren, hpids, hstate]
  refine ⟨hpid, ⟨c, List.mem_append_left _ hc, hm⟩, fun c hc hcp hm => ?_⟩
  rcases List.mem_append.mp hc with hc | hc
  · exact hz c hc hcp hm
  · split at hc
    · next hnp => exact hadopt t pid hb hin hnp c hc hcp hm
    · cases hc

/-! ## A process has ended -/

theorem Tidy.withWaits (h : Tidy X False s) (hw : w → Waits s) : Tidy X w s :=
  ⟨h.toQueuesOk, h.toLives, h.toKin, hw⟩

/-- Only a thread of the parent can wait for `p`. -/
theorem schedulerNotifyParent_waits (h : Tidy X False s) (hok : ∀ t, WaitOk (· = p) s t)
    (e : Env) : Waits (schedulerNotifyParent e p s) := by
  have hother : ∀ t, (s.process p).parent ≠ some (s.thread t).process → WaitOk noProcess s t := by
    intro t hne
    refine (hok t).weaken fun pid _ _ _ c hc hcp _ _ => ?_
    subst hcp
    exact absurd (((h.children _).mem c).mp hc) hne
  unfold schedulerNotifyParent
  split
  · next hnone => exact fun t => hother t (by rw [hnone]; exact nofun)
  · next parent hparent =>
    refine notifyParentLoop_waits e _ h hparent fun t => ?_
    by_cases hp : (s.thread t).process = parent
    · by_cases hb : (s.thread t).state = .blocked
      · exact .inr ⟨hp ▸ h.member t (by rw [hb]; rfl), hok t⟩
      · exact .inl (.of_not_blocked hb)
    · refine .inl (hother t fun heq => hp ?_)
      exact Option.some.inj (heq.symm.trans hparent)

theorem schedulerNotifyParent_tidy (h : Tidy X False s) (hz : (s.process p).state = .zombie)
    (e : Env) : Tidy X False (schedulerNotifyParent e p s) := by
  unfold schedulerNotifyParent
  split
  · exact h
  · exact notifyParentLoop_tidy e _ h hz

/-- The end of a process leaves no thread waiting for a child that has ended, if none is handed
    over to a process that waits for it. -/
theorem schedulerRecordProcessCompletion_tidy (h : Tidy X False s)
    (hz : (s.process p).state = .zombie)
    (hw : w → (s.process p).liveThreadCount = 0 ∧ AdoptsNoEnded p s ∧ ∀ t, WaitOk (· = p) s t)
    (e : Env) : Tidy X w (schedulerRecordProcessCompletion e p s) := by
  unfold schedulerRecordProcessCompletion
  split
  · next hcond =>
    refine Tidy.withWaits (h.congr rfl) fun hw' => ?_
    rcases hcond with hcond | hcond
    · exact absurd hz hcond
    · exact absurd (hw hw').1 hcond
  · have hnote : Tidy X False
        { s with completionError := s.completionError || completionSuspicious s p } := h.congr rfl
    have horphan := schedulerOrphanChildren_tidy hnote p
    have hzorphan : ((schedulerOrphanChildren p { s with
        completionError := s.completionError || completionSuspicious s p }).process p).state =
        .zombie :=
      ((schedulerOrphanChildren_micro (π := .telling) p _).processState_eq p).trans hz
    have hnotify := schedulerNotifyParent_tidy horphan hzorphan e
    have hznotify := ((schedulerNotifyParent_micro (π := .telling) (e := e) trivial p
      fun _ _ _ _ _ => trivial).processState_eq p).trans hzorphan
    refine (schedulerQueueReap_tidy hnotify hznotify).withWaits fun hw' => ?_
    obtain ⟨_, hadopt, hok⟩ := hw hw'
    -- the threads of the process itself have ended
    have hne : ∀ t, (s.thread t).state = .blocked → (s.thread t).process ≠ p := by
      intro t hb hp
      have hact : (s.thread t).state.isActive = true := by rw [hb]; rfl
      have hmem := h.member t hact
      rw [hp] at hmem
      exact ThreadState.not_isActive (h.ends p (.inl hz) t hmem) hact
    have hwaits := schedulerNotifyParent_waits (p := p) horphan
      (fun t => schedulerOrphanChildren_waitOk ((hok t).congr rfl rfl) (hne t) hadopt) e
    have hstatus := schedulerQueueReap_process p (s := schedulerNotifyParent e p
      (schedulerOrphanChildren p { s with
        completionError := s.completionError || completionSuspicious s p }))
    simp only [KernelProcess.status, ProcessStatus.mk.injEq] at hstatus
    have hchildren q := (hstatus q).2.1
    have hpids q := (hstatus q).2.2.2.2.1
    have hstates q := (hstatus q).2.2.2.2.2.2.1
    intro t
    unfold WaitOk
    simp only [schedulerQueueReap_thread, hchildren, hpids, hstates]
    exact hwaits t

end RiscMv.Kernel
