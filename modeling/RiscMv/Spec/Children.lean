import RiscMv.Spec.Moves

/-!
# Parents and children

The functions that tell a parent about the end of a child, as sequences of small changes.  They
wake threads of the parent's process and of no other (`Perm.WatchesParent`).

## Key results
- `schedulerRecordProcessCompletion_micro`, `schedulerWakeStaleWaiters_micro`
-/

namespace RiscMv.Kernel

variable {π : Perm} {s s' : Sched} {t : ThreadRef} {p q : ProcessRef} {e : Env}

theorem schedulerCollectChild_micro (parent child : ProcessRef) (s : Sched) :
    MicroSteps π s (schedulerCollectChild parent child s) := by
  unfold schedulerCollectChild
  split
  · exact .refl
  · exact ((MicroSteps.process rfl rfl rfl (.inl rfl)).trans
      (MicroSteps.process rfl rfl rfl (.inr rfl))).trans (schedulerQueueReap_micro child _)

theorem schedulerCollectChild_thread (parent child : ProcessRef) (s : Sched) :
    (schedulerCollectChild parent child s).thread = s.thread := by
  unfold schedulerCollectChild schedulerQueueReap
  split
  · rfl
  · split <;> rfl

/-- What a process tells its threads: whether it has faulted, and who has to stop. -/
def KernelProcess.signals (q : KernelProcess) : Bool × Bool × Option ThreadRef :=
  (q.faulted, q.stopRequested, q.stopOwner)

/-- How small changes treat a process: it may lose threads, and its parent or be adopted by the
    init process. -/
structure ProcessKept (init : Option ProcessRef) (q q' : KernelProcess) : Prop where
  threads : q'.threads ⊆ q.threads
  identity : q'.state = q.state ∧ q'.pid = q.pid
  signals : q'.signals = q.signals
  parent : ∀ r, q'.parent = some r → q.parent = some r ∨ init = some r

theorem ProcessKept.refl (init : Option ProcessRef) (q : KernelProcess) : ProcessKept init q q :=
  ⟨List.Subset.refl _, ⟨rfl, rfl⟩, rfl, fun _ => .inl⟩

theorem ProcessKept.trans {i i' : Option ProcessRef} {q q' q'' : KernelProcess}
    (h : ProcessKept i q q') (h' : ProcessKept i' q' q'') (hi : ∀ r, i' = some r → i = some r) :
    ProcessKept i q q'' where
  threads := List.Subset.trans h'.threads h.threads
  identity := ⟨h'.identity.1.trans h.identity.1, h'.identity.2.trans h.identity.2⟩
  signals := h'.signals.trans h.signals
  parent r hr := (h'.parent r hr).elim (h.parent r) fun hinit => .inr (hi r hinit)

theorem Micro.processKept (h : Micro π s s') :
    (∀ p, ProcessKept s.initProcess (s.process p) (s'.process p)) ∧
      ∀ q, s'.initProcess = some q → s.initProcess = some q := by
  have updated : ∀ {s' : Sched} {r f}, ProcessKept s.initProcess (s.process r) (f (s'.process r)) →
      s'.process = s.process →
      ∀ p, ProcessKept s.initProcess (s.process p) ((s'.modProcess r f).process p) :=
    fun h heq p => forall_modProcess (P := fun p q => ProcessKept s.initProcess (s.process p) q) h
      (fun p _ => heq ▸ .refl _ _) p
  cases h with
  | process r f h hthreads hparent =>
    refine ⟨updated ⟨hthreads, ⟨congrArg ProcessCore.state h, congrArg ProcessCore.pid h⟩, ?_,
      hparent⟩ rfl, fun _ => id⟩
    exact congrArg (fun c : ProcessCore => (c.faulted, c.stopRequested, c.stopOwner)) h
  | other _ h =>
    rw [show s'.process = s.process from congrArg SchedCore.process h,
      show s'.initProcess = s.initProcess from congrArg SchedCore.initProcess h]
    exact ⟨fun _ => .refl _ _, fun _ => id⟩
  | destroy r _ =>
    exact ⟨updated ⟨List.nil_subset _, ⟨rfl, rfl⟩, rfl, fun _ => .inl⟩ rfl, fun _ => id⟩
  | unregister r =>
    refine ⟨updated ⟨List.Subset.refl _, ⟨rfl, rfl⟩, rfl, fun _ => .inl⟩ rfl, fun q hq => ?_⟩
    simp only [unregisterProcess, Sched.modProcess] at hq
    split at hq
    · cases hq
    · exact hq
  | _ => exact ⟨fun _ => .refl _ _, fun _ => id⟩

theorem MicroSteps.processKept (h : MicroSteps π s s') :
    (∀ p, ProcessKept s.initProcess (s.process p) (s'.process p)) ∧
      ∀ q, s'.initProcess = some q → s.initProcess = some q :=
  h.lift (R := fun s s' => (∀ p, ProcessKept s.initProcess (s.process p) (s'.process p)) ∧
      ∀ q, s'.initProcess = some q → s.initProcess = some q)
    (fun _ => ⟨fun _ => .refl _ _, fun _ => id⟩)
    (fun h h' => ⟨fun p => (h.1 p).trans (h'.1 p) h.2, fun q hq => h.2 q (h'.2 q hq)⟩)
    Micro.processKept

/-- Every thread the process lists was listed before. -/
theorem MicroSteps.threads_subset (h : MicroSteps π s s') (p : ProcessRef) :
    (s'.process p).threads ⊆ (s.process p).threads :=
  (h.processKept.1 p).threads

/-- Small changes keep the state and the pid of every process. -/
theorem MicroSteps.identity_eq (h : MicroSteps π s s') (q : ProcessRef) :
    (s'.process q).state = (s.process q).state ∧ (s'.process q).pid = (s.process q).pid :=
  (h.processKept.1 q).identity

theorem MicroSteps.processState_eq (h : MicroSteps π s s') (q : ProcessRef) :
    (s'.process q).state = (s.process q).state :=
  (h.identity_eq q).1

/-- Small changes keep the signals of a process. -/
theorem MicroSteps.signals_eq (h : MicroSteps π s s') (p : ProcessRef) :
    (s'.process p).signals = (s.process p).signals :=
  (h.processKept.1 p).signals

/-- The init process stays or ends. -/
theorem MicroSteps.initProcess (h : MicroSteps π s s') (hq : s'.initProcess = some q) :
    s.initProcess = some q :=
  h.processKept.2 q hq

/-- The parent of a process stays, is cleared, or becomes the init process. -/
theorem MicroSteps.parent (h : MicroSteps π s s')
    (hq : (s'.process p).parent = some q ∨ s'.initProcess = some q) :
    (s.process p).parent = some q ∨ s.initProcess = some q :=
  hq.elim ((h.processKept.1 p).parent q) fun hi => .inr (h.initProcess hi)

/-- Permissions of code that wakes threads, also because of a child. -/
def Perm.telling : Perm :=
  ⟨fun _ => False, fun _ => True, fun _ => True, False, False, False, False, False⟩

/-- No thread becomes blocked. -/
theorem MicroSteps.blocked (h : MicroSteps π s s') (t : ThreadRef)
    (hb : (s'.thread t).state = .blocked) : (s.thread t).state = .blocked :=
  (h.moves.thread t nofun).blocked hb

/-- The blocked threads of process `q` are among those that may be woken because of a child. -/
def Perm.Watches (π : Perm) (q : ProcessRef) (s : Sched) : Prop :=
  ∀ t ∈ (s.process q).threads, (s.thread t).state = .blocked → π.child t

theorem MicroSteps.watches (h : MicroSteps π s s') (hc : π.Watches p s) : π.Watches p s' :=
  fun t ht hb => hc t (h.threads_subset p ht) (h.blocked t hb)

theorem childWake_micro (hw : π.wake e.cpu) (hc : π.child t)
    (hb : (s.thread t).state = .blocked) (result : Int64) :
    MicroSteps π s (childWake e t result s) :=
  (Micro.childWake s t hc hb).steps.trans (schedulerWakeWaiter_micro hw t result _)

section

variable (hw : π.wake e.cpu)
include hw

theorem wakeStaleLoop_micro (parent : ProcessRef) (pid : UInt64) (ts : List ThreadRef) (s : Sched)
    (hc : ∀ t ∈ ts, (s.thread t).state = .blocked → π.child t) :
    MicroSteps π s (wakeStaleLoop e parent pid ts s) := by
  induction ts generalizing s with
  | nil => exact .refl
  | cons t rest ih =>
    have hrest := fun u hu => hc u (List.mem_cons_of_mem t hu)
    unfold wakeStaleLoop
    split
    · next hcond =>
      have hwake := childWake_micro (π := π) hw (hc t (List.mem_cons_self ..) hcond.1) hcond.1
        (-kernelErrorNoChild)
      exact hwake.trans (ih _ fun u hu hb => hrest u hu (hwake.blocked u hb))
    · exact ih s hrest

theorem schedulerWakeStaleWaiters_micro (pid : UInt64) (hc : π.Watches p s) :
    MicroSteps π s (schedulerWakeStaleWaiters e p pid s) :=
  wakeStaleLoop_micro hw p pid _ s hc

theorem notifyParentLoop_micro (parent child : ProcessRef) (ts : List ThreadRef) (s : Sched)
    (hts : ∀ t ∈ ts, (s.thread t).state = .blocked → π.child t) (hc : π.Watches parent s) :
    MicroSteps π s (notifyParentLoop e parent child ts s) := by
  induction ts generalizing s with
  | nil => exact .refl
  | cons t rest ih =>
    have hrest := fun u hu => hts u (List.mem_cons_of_mem t hu)
    unfold notifyParentLoop
    dsimp only
    split
    · exact ih s hrest hc
    · next hcond =>
      simp only [not_or, not_not] at hcond
      obtain ⟨hb, hm⟩ := hcond
      have ht := hts t (List.mem_cons_self ..) hb
      split
      · have hwake := childWake_micro (π := π) hw ht hb (-kernelErrorFault)
        exact hwake.trans (ih _ (fun u hu hb => hrest u hu (hwake.blocked u hb))
          (hwake.watches hc))
      · -- the child is collected on behalf of `t`, which stays blocked until it is woken
        have hcollect := (Micro.collect s t _ ht hb hm).steps.trans
          (schedulerCollectChild_micro parent child _)
        have hb' : ((schedulerCollectChild parent child { s with collected :=
            ((s.process child).pid, (s.thread t).waitRequest) :: s.collected }).thread t).state =
            .blocked := by
          rw [schedulerCollectChild_thread]
          exact hb
        have hall := hcollect.trans (childWake_micro hw ht hb' (s.process child).pid.toInt64)
        exact hall.trans (schedulerWakeStaleWaiters_micro hw _ (hall.watches hc))

theorem schedulerNotifyParent_micro (child : ProcessRef)
    (hc : ∀ q, (s.process child).parent = some q → π.Watches q s) :
    MicroSteps π s (schedulerNotifyParent e child s) := by
  unfold schedulerNotifyParent
  split
  · exact .refl
  · next q hq => exact notifyParentLoop_micro hw q child _ s (hc q hq) (hc q hq)

end

theorem orphanLoop_micro (newParent : Option ProcessRef) (ps : List ProcessRef) (s : Sched)
    (hnew : ∀ q, newParent = some q → s.initProcess = some q) :
    MicroSteps π s (orphanLoop newParent ps s) := by
  induction ps generalizing s with
  | nil => exact .refl
  | cons child rest ih =>
    refine (Micro.process s child ({ · with parent := newParent }) rfl (List.Subset.refl _)
      fun q hq => .inr (hnew q hq)).steps.trans ?_
    cases newParent with
    | some np => exact (MicroSteps.process rfl rfl rfl (.inl rfl)).trans (ih _ hnew)
    | none =>
      simp only [orphanLoop]
      split
      · exact (schedulerQueueReap_micro child _).trans (ih _ nofun)
      · exact ih _ nofun

theorem orphanParent_some (h : orphanParent s p = some q) : s.initProcess = some q := by
  unfold orphanParent at h
  split at h
  · next init hinit =>
    split at h
    · rw [hinit, h]
    · cases h
  · cases h

theorem schedulerOrphanChildren_micro (parent : ProcessRef) (s : Sched) :
    MicroSteps π s (schedulerOrphanChildren parent s) := by
  unfold schedulerOrphanChildren
  exact (MicroSteps.process (p := parent) (f := ({ · with children := [] })) rfl rfl rfl
    (.inl rfl)).trans (orphanLoop_micro _ _ _ fun q hq => orphanParent_some (s := s) hq)

/-- The blocked threads of the parent of `p`, and those of the init process, are among those
    that may be woken because of a child. -/
def Perm.WatchesParent (π : Perm) (p : ProcessRef) (s : Sched) : Prop :=
  ∀ q, (s.process p).parent = some q ∨ s.initProcess = some q → π.Watches q s

theorem MicroSteps.watchesParent (h : MicroSteps π s s') (hc : π.WatchesParent p s) :
    π.WatchesParent p s' :=
  fun q hq => h.watches (hc q (h.parent hq))

theorem schedulerRecordProcessCompletion_micro (hw : π.wake e.cpu)
    (hc : π.WatchesParent p s) : MicroSteps π s (schedulerRecordProcessCompletion e p s) := by
  unfold schedulerRecordProcessCompletion
  split
  · exact MicroSteps.other rfl
  · have hnote : MicroSteps π s
        { s with completionError := s.completionError || completionSuspicious s p } := .other rfl
    have horphan := hnote.trans (schedulerOrphanChildren_micro p _)
    exact (horphan.trans (schedulerNotifyParent_micro hw p fun q hq =>
      horphan.watchesParent hc q (.inl hq))).trans (schedulerQueueReap_micro p _)

end RiscMv.Kernel
