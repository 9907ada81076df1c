import RiscMv.Spec.StackSteps

/-!
# Children wake the threads that wait for them

`scheduler_notify_parent` and `scheduler_wake_stale_waiters` recognise a thread in `waitpid` by
its state `BLOCKED` and its `wait_pid`.  But `wait_pid` is 0 in every thread that waits for
something else, and 0 asks for any child.  In runs in which the blocked threads of a process
that may lose a child are all in `waitpid` (`ChildrenAwaited`), children wake only threads in
`waitpid`, and each child is collected for a `waitpid` that asked for it.

## Key results
- `Outcome.wakesOk`: sections record only such wake-ups
- `Vigilant.step`: the invariant is preserved
-/

namespace RiscMv.Kernel

/-- What the history says about children: every thread woken because of a child was in
    `waitpid`, and every child was collected for a `waitpid` that matches its pid. -/
structure WakesOk (σ : Sched) : Prop where
  request : ∀ t, (σ.thread t).RequestOk
  woken : ∀ w ∈ σ.childWakes, ∃ pid, w.2 = some (.waitpid pid)
  collected : ∀ k ∈ σ.collected, ∃ pid, k.2 = some pid ∧ schedulerWaitMatches pid k.1 = true

/-- The blocked threads that may be woken because of a child are in `waitpid`. -/
def Perm.Awaited (π : Perm) (σ : Sched) : Prop :=
  ∀ u, π.child u → (σ.thread u).state = .blocked →
    ∃ pid, (σ.thread u).blockedIn = some (.waitpid pid)

/-- The blocked threads that the step may wake because of a child are in `waitpid`. -/
def ChildrenAwaited (s : State) (a : Action) : Prop :=
  ∀ fp t, sectionFrame s a.cpu = some fp → sectionThread s a.cpu = some t →
    (sectionPerm s a fp t).Awaited s.sched

variable {π : Perm} {s s' : State} {σ σ' : Sched} {c : CpuId} {t u n : ThreadRef}
  {fp : StackAddr} {e : Env} {a : Action} {x : Sect} {ex : Exit} {r : Sect × Exit}

/-! ## Small changes -/

theorem KernelThread.RequestOk.of_core {th th' : KernelThread} (h : th.RequestOk)
    (hcore : th'.core = th.core) : th'.RequestOk := by
  have hstate : th'.state = th.state := congrArg ThreadCore.state hcore
  have hin : th'.blockedIn = th.blockedIn := congrArg ThreadCore.blockedIn hcore
  have hpid : th'.waitPid = th.waitPid := congrArg ThreadCore.waitPid hcore
  intro hb pid hp
  rw [hstate] at hb
  rw [hin] at hp
  rw [hpid]
  exact h hb pid hp

theorem KernelThread.RequestOk.of_not_blocked {th : KernelThread} (h : th.state ≠ .blocked) :
    th.RequestOk :=
  fun hb => absurd hb h

theorem WakesOk.modThread {f : KernelThread → KernelThread} (h : WakesOk σ)
    (hf : (f (σ.thread t)).RequestOk) : WakesOk (σ.modThread t f) where
  request u := forall_modThread (P := fun _ th => th.RequestOk) hf (fun v _ => h.request v) u
  woken := h.woken
  collected := h.collected

theorem WakesOk.of_eq (h : WakesOk σ) (hthread : σ'.thread = σ.thread)
    (hwakes : σ'.childWakes = σ.childWakes) (hcollected : σ'.collected = σ.collected) :
    WakesOk σ' :=
  ⟨by rw [hthread]; exact h.request, by rw [hwakes]; exact h.woken,
    by rw [hcollected]; exact h.collected⟩

theorem Micro.wakesOk (h : Micro π σ σ') (ha : π.Awaited σ) (hw : WakesOk σ) : WakesOk σ' := by
  cases h with
  | thread t f h => exact hw.modThread ((hw.request t).of_core h)
  | other _ h =>
    exact hw.of_eq (congrArg SchedCore.thread h) (congrArg SchedCore.childWakes h)
      (congrArg SchedCore.collected h)
  | wake t result _ _ =>
    refine WakesOk.modThread (t := t) (hw.of_eq rfl rfl rfl) (.of_not_blocked ?_)
    simp
  | push t _ _ | erase t => exact WakesOk.modThread (hw.of_eq rfl rfl rfl) (hw.request t)
  | kill t f _ h =>
    obtain ⟨w, h⟩ := h
    have hz : (f (σ.thread t)).state = .zombie := congrArg ThreadCore.state h
    exact hw.modThread (.of_not_blocked (by simp [hz]))
  | free t _ => exact hw.modThread (.of_not_blocked (by simp))
  | childWake t hc hb =>
    refine ⟨hw.request, fun w hmem => ?_, hw.collected⟩
    rcases List.mem_cons.mp hmem with rfl | hold
    · exact ha t hc hb
    · exact hw.woken w hold
  | collect t childPid hc hb hm =>
    refine ⟨hw.request, hw.woken, fun k hmem => ?_⟩
    rcases List.mem_cons.mp hmem with rfl | hold
    · -- the thread's record holds the pid that its `waitpid` asks for
      obtain ⟨pid, hpid⟩ := ha t hc hb
      refine ⟨pid, by simp [KernelThread.waitRequest, hpid], ?_⟩
      rw [← hw.request t hb pid hpid]
      exact hm
    · exact hw.collected k hold
  | collectNow childPid pid hm =>
    refine ⟨hw.request, hw.woken, fun k hmem => ?_⟩
    rcases List.mem_cons.mp hmem with rfl | hold
    · exact ⟨pid, rfl, hm⟩
    · exact hw.collected k hold
  | _ => exact hw.of_eq rfl rfl rfl

theorem Micro.awaited (h : Micro π σ σ') (ha : π.Awaited σ) : π.Awaited σ' := by
  intro u hc hb
  have hm := h.moves.thread u nofun
  rw [hm.blockedIn]
  exact ha u hc (hm.blocked hb)

theorem MicroSteps.wakesOk (h : MicroSteps π σ σ') (ha : π.Awaited σ) (hw : WakesOk σ) :
    WakesOk σ' ∧ π.Awaited σ' := by
  induction h with
  | refl => exact ⟨hw, ha⟩
  | tail _ h' ih => exact ⟨h'.wakesOk ih.2 ih.1, h'.awaited ih.2⟩

/-! ## Sections -/

theorem Dequeue.wakesOk (h : Dequeue e n σ σ') (hw : WakesOk σ) : WakesOk σ' := by
  obtain ⟨queue, _, _, _, rfl⟩ := h.eq
  exact WakesOk.modThread (hw.of_eq rfl rfl rfl) (.of_not_blocked (by simp))

theorem Act.wakesOk (h : Act π e t σ σ') (hself : ¬ π.child t) (ha : π.Awaited σ)
    (hw : WakesOk σ) : WakesOk σ' ∧ π.Awaited σ' := by
  cases h with
  | micro h => exact h.steps.wakesOk ha hw
  | self f _ _ hwait =>
    refine ⟨hw.modThread (hwait (hw.request t)), fun u hc hb => ?_⟩
    have hu : u ≠ t := by
      rintro rfl
      exact hself hc
    rw [modThread_thread_ne σ f hu] at hb ⊢
    exact ha u hc hb
  | redispatch h _ =>
    refine ⟨h.wakesOk hw, fun u hc hb => ?_⟩
    have hu : u ≠ t := by
      rintro rfl
      exact hself hc
    rw [h.thread_ne hu] at hb ⊢
    exact ha u hc hb
  | _ => exact ⟨hw.of_eq rfl rfl rfl, ha⟩

theorem Acts.wakesOk (h : Acts π e t σ σ') (hself : ¬ π.child t) (ha : π.Awaited σ)
    (hw : WakesOk σ) : WakesOk σ' ∧ π.Awaited σ' := by
  induction h with
  | refl => exact ⟨hw, ha⟩
  | tail _ h' ih => exact h'.wakesOk hself ih.2 ih.1

theorem Closes.wakesOk {b : Bool} (h : Closes π e σ b σ') (ha : π.Awaited σ) (hw : WakesOk σ) :
    WakesOk σ' := by
  have dispatched : ∀ {n σ'}, Dequeue e n σ σ' → WakesOk (setCurrent e (some n) σ') :=
    fun hd => (hd.wakesOk hw).of_eq rfl rfl rfl
  cases h with
  | stay => exact hw
  | idle => exact hw.of_eq rfl rfl rfl
  | start hd _ => exact dispatched hd
  | take hd => exact (dispatched hd).modThread ((dispatched hd).request _)
  | halt h =>
    cases h with
    | panic => exact hw
    | finish h => exact (h.wakesOk ha (hw.of_eq rfl rfl rfl)).1

/-- A section wakes and collects on behalf of threads in `waitpid`, if the threads that it may
    wake because of a child are all there. -/
theorem Outcome.wakesOk (o : Outcome π e t x r) (hself : ¬ π.child t) (ha : π.Awaited x.sched)
    (hw : WakesOk x.sched) : WakesOk r.1.sched := by
  obtain ⟨σ, h, hc⟩ := o.closes
  obtain ⟨hσ, haσ⟩ := h.wakesOk hself ha hw
  exact hc.wakesOk haσ hσ

/-- The thread of a section is not among those it wakes because of a child. -/
theorem sectionPerm_not_child (s : State) (a : Action) (fp : StackAddr) (t : ThreadRef) :
    ¬ (sectionPerm s a fp t).child t := by
  intro hc
  simp only [sectionPerm] at hc
  split at hc
  · next k _ _ =>
    cases k with
    | syscall =>
      rcases hc with ⟨_, hne, _⟩ | ⟨_, hne, _⟩
      · exact hne rfl
      · exact hne rfl
    | _ => exact hc
  · exact hc.1 rfl
  · exact hc
  · exact hc.2.1 rfl

/-! ## Runs -/

/-- The steps in which children wake only threads that wait for them. -/
structure WakesAwaited (s : State) (a : Action) : Prop where
  safe : SwitchSafe s a
  awaited : ChildrenAwaited s a

/-- The invariant together with what the history says about children. -/
structure Vigilant (s : State) : Prop extends Inv s where
  wakes : WakesOk s.sched

theorem step_wakesOk (hs : Vigilant s) (hok : ChildrenAwaited s a) (h : step s a = some s') :
    WakesOk s'.sched := by
  have hquiet : ∀ {σ}, Perm.waking.Awaited σ := fun u hc => hc.elim
  have hlock : WakesOk (lockTaken a.env s.sched) := hs.wakes.of_eq rfl rfl rfl
  obtain ⟨_, _, ht⟩ := step_trans h
  rcases ht.closes with ⟨fp, x, ex, hsec, rfl⟩ | hstill | ⟨σ, _, hm, hc, _⟩
  · obtain ⟨t, hstart, ho⟩ := runSection_outcome hs.toInv hsec
    exact ho.wakesOk (sectionPerm_not_child s a fp t) (hok fp t hstart.frame hstart.thread) hlock
  · refine ⟨fun u => ?_, ?_, ?_⟩
    · rw [hstill.thread u]
      exact hs.wakes.request u
    · rw [hstill.rest]
      exact hs.wakes.woken
    · rw [hstill.rest]
      exact hs.wakes.collected
  · exact hc.wakesOk hquiet (hm.wakesOk hquiet hlock).1

/-- Every such transition keeps the history right. -/
theorem Vigilant.step (hs : Vigilant s) (hok : WakesAwaited s a)
    (h : Kernel.step s a = some s') : Vigilant s' :=
  ⟨hs.toInv.step (step_keeps hs.toInv hok.safe h), step_wakesOk hs hok.awaited h⟩

theorem Boot.vigilant (h : Boot s t) : Vigilant s where
  toInv := h.inv
  wakes := by
    obtain ⟨_, hwakes, hcollected⟩ := h.history
    refine ⟨fun u _ pid hp => ?_, ?_, ?_⟩
    · rw [(h.thread u).blockedIn] at hp
      cases hp
    · simp [hwakes]
    · simp [hcollected]

/-- In every run in which the blocked threads of a process that may lose a child are in
    `waitpid`, children wake only threads in `waitpid`, and each child is collected for a
    `waitpid` that matches its pid. -/
theorem childWakes_awaited {s₀ : State} {t₀ : ThreadRef} (hb : Boot s₀ t₀)
    (hr : Run step WakesAwaited s₀ s) :
    (∀ u reason, (u, reason) ∈ s.sched.childWakes → ∃ pid, reason = some (.waitpid pid)) ∧
      ∀ childPid request, (childPid, request) ∈ s.sched.collected →
        ∃ pid, request = some pid ∧ schedulerWaitMatches pid childPid = true := by
  have hs : Vigilant s := hr.invariant hb.vigilant fun _ _ _ hs hok h => hs.step hok h
  exact ⟨fun u reason hmem => hs.wakes.woken _ hmem,
    fun childPid request hmem => hs.wakes.collected _ hmem⟩

/-- The parent waits for any child, and the child exits. -/
theorem childWakes_awaited_wait : ∃ s, Run step WakesAwaited parentAndChild.state s ∧
    (0, some (.waitpid uint64Max)) ∈ s.sched.childWakes ∧
    (2, some uint64Max) ∈ s.sched.collected ∧
    ∀ u reason, (u, reason) ∈ s.sched.childWakes → ∃ pid, reason = some (.waitpid pid) := by
  have none : ∀ {s : State} {a : Action}, sectionFrame s a.cpu = none → ChildrenAwaited s a := by
    intro s a hnone fp t hf
    rw [hnone] at hf
    cases hf
  have h₁ : Run step WakesAwaited parentAndChild.state _ :=
    Run.refl.tail (a := bootAct .switch) ⟨(fun _ _ h => by cases h), none rfl⟩ rfl
  have h₂ := h₁.tail (a := bootAct (.user (userContext false 5))) ⟨trivial, none rfl⟩ rfl
  have h₃ := h₂.tail (a := bootAct (.trap .syscall)) ⟨trivial, none rfl⟩ rfl
  have h₄ := h₃.tail (a := bootAct (.dispatch (.done 0) .none)) ⟨trivial, fun _ _ _ _ u _ hb => by
    rcases u with _ | _ | u <;> cases hb⟩ rfl
  have h₅ := h₄.tail (a := bootAct .iret) ⟨trivial, none rfl⟩ rfl
  have h₆ := h₅.tail (a := bootAct (.trap .syscall)) ⟨trivial, none rfl⟩ rfl
  -- the only blocked thread is the parent's, in `waitpid`
  have h₇ := h₆.tail (a := bootAct (.dispatch (.done 0) .none)) ⟨trivial, fun _ _ _ _ u _ hb => by
    rcases u with _ | _ | u
    · exact ⟨uint64Max, rfl⟩
    · cases hb
    · cases hb⟩ rfl
  exact ⟨_, h₇, List.mem_cons_self .., List.mem_cons_self ..,
    (childWakes_awaited (parentAndChild.state_boot Nat.one_pos) h₇).1⟩

/-- The parent sleeps for a second, and its child exits. -/
def sleepingParent : List Action :=
  let sleep : UserContext := { userContext false 13 with
    registers := Function.update (userContext false 13).registers 1 1000 }
  [bootAct .switch, bootAct (.user sleep), bootAct (.trap .syscall),
    bootAct (.dispatch (.done 0) .none), bootAct .iret, bootAct (.trap .syscall),
    bootAct (.dispatch (.done 0) .none)]

/-- The sleeping thread is woken, and the child is collected although nobody waits for it. -/
theorem sleepingParent_woken : ∃ s, Boot parentAndChild.state 0 ∧
    Run step (fun _ _ => True) parentAndChild.state s ∧
    s.sched.childWakes = [(0, some (.queue .sleep))] ∧ s.sched.collected = [(2, none)] := by
  obtain ⟨s, hr, hs⟩ := Run.exists_of_runList step parentAndChild.state sleepingParent
    (fun s => s.sched.childWakes == [(0, some (.queue .sleep))] && s.sched.collected == [(2, none)])
    (by decide +kernel)
  simp only [Bool.and_eq_true, beq_iff_eq] at hs
  exact ⟨s, parentAndChild.state_boot Nat.one_pos, hr, hs.1, hs.2⟩

end RiscMv.Kernel
