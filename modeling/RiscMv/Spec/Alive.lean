import RiscMv.Spec.StackSteps

/-!
# Threads that reach user mode are running or about to stop

The handlers ask `kernel_scheduler_current_space` for the current thread, and a thread that is
not `RUNNING` gets no service.  In runs in which exec discards the other threads of its process
only while no processor works for them (`ExecAlone`), a thread that a processor returns to is
`RUNNING`, or its process has a stop request that ends it at its next trap.

## Key results
- `section_alive_other`: a section does not take the life of another processor's thread
- `Lively.step`: the invariant is preserved
-/

namespace RiscMv.Kernel

/-- The thread runs, or its process makes it stop at its next trap. -/
def Alive (s : Sched) (t : ThreadRef) : Prop :=
  (s.thread t).state = .running ∨ (s.process (s.thread t).process).Stops t

/-- When exec discards the other threads of its process, no processor works for them. -/
def ExecAlone (s : State) (a : Action) : Prop :=
  match (s.cpu a.cpu).phase with
  | .spin (.exec t p _) _ true => processOtherThreadActive s.sched p t = false
  | _ => True

/-- What holds of the thread that a processor returns to. -/
def AlivePhase (s : State) (c : CpuId) : Phase → Prop
  | .user | .trap _ _ | .start _ | .suspend _ _ _ _ _ | .resume _ _ | .reacquire _ =>
    ∀ t, s.sched.current c = some t → Alive s.sched t
  | .restore fp => (s.stack fp.stack).frame.flags.userMode = true →
      ∀ t, s.sched.current c = some t → Alive s.sched t
  | .idle _ _ _ => s.sched.current c = none
  | .spin _ _ _ | .retire _ | .main | .mainIdle _ | .halted | .wild => True

/-- Every thread that a processor returns to is alive, and the scheduler is active until the
    boot processor halts with the big kernel lock. -/
structure Lively (s : State) : Prop extends Inv s where
  phase : ∀ c, AlivePhase s c (s.cpu c).phase
  active : s.sched.active = true ∨ s.lockHeld = true

variable {π : Perm} {s s' : State} {σ σ' : Sched} {c d : CpuId} {t u n : ThreadRef}
  {p : ProcessRef} {sp fp : StackAddr} {e : Env} {a : Action} {x : Sect} {ex : Exit}
  {r : Sect × Exit}

theorem Alive.of_eq (h : Alive σ u) (hstate : (σ'.thread u).state = (σ.thread u).state)
    (hproc : (σ'.thread u).process = (σ.thread u).process)
    (hsignals : ∀ p, (σ'.process p).signals = (σ.process p).signals) : Alive σ' u := by
  rcases h with h | ⟨hreq, howner⟩
  · exact .inl (hstate.trans h)
  · refine .inr ?_
    have hs := hsignals (σ.thread u).process
    simp only [KernelProcess.signals, Prod.mk.injEq] at hs
    rw [hproc]
    exact ⟨hs.2.1.trans hreq, by rw [hs.2.2]; exact howner⟩

/-! ## Other processors' threads -/

theorem MicroSteps.alive (h : MicroSteps π σ σ') (hu : Ready d u σ) (hk : ¬ π.kill u)
    (ha : Alive σ u) : Alive σ' u :=
  ha.of_eq (h.state_eq hu hk) (h.moves.home u).process h.signals_eq

theorem Act.alive (h : Act π e t σ σ') (hu : Ready d u σ) (hut : u ≠ t) (hk : ¬ π.kill u)
    (hc : π.clear → (σ.thread u).process ≠ (σ.thread t).process) (ha : Alive σ u) :
    Alive σ' u := by
  cases h with
  | micro h => exact h.steps.alive hu hk ha
  | self f _ _ _ =>
    have hthread := modThread_thread_ne σ f hut
    exact ha.of_eq (by rw [hthread]) (by rw [hthread]) fun _ => rfl
  | process p f hp _ _ hstop _ =>
    by_cases hup : (σ.thread u).process = p
    · -- a thread of the same process keeps its stop request, unless exec withdraws it
      rcases ha with hrun | hstops
      · exact .inl hrun
      · refine .inr ?_
        have hstop := hstop.resolve_left fun hclear => hc hclear (hup.trans hp.symm)
        simpa [Sched.modProcess, hup] using hstop u hut (hup ▸ hstops)
    · rcases ha with hrun | hstops
      · exact .inl hrun
      · exact .inr (by simpa [Sched.modProcess, hup] using hstops)
  | redispatch h _ =>
    refine ha.of_eq (by rw [h.thread_ne hut]) (by rw [h.thread_ne hut]) fun p => ?_
    rw [h.process_eq]
  | _ => exact ha

/-- A section that may not kill another processor's thread leaves it alive. -/
theorem Acts.alive (h : Acts π e t σ σ') (ht : (σ.thread t).cpuAffinity = e.cpu + 1)
    (hu : Ready d u σ) (hd : d ≠ e.cpu) (hk : ¬ π.kill u)
    (hc : π.clear → (σ.thread u).process ≠ (σ.thread t).process) (ha : Alive σ u) :
    Alive σ' u := by
  have hut : u ≠ t := by
    rintro rfl
    exact hd (Nat.succ.inj (hu.affinity.symm.trans ht))
  induction h with
  | refl => exact ha
  | tail h h' ih =>
    have hproc := fun v => (h.moves.home v).process
    refine h'.alive (hu.frame (h.schedFrame ht) hd) hut hk (fun hclear => ?_) ih
    rw [hproc u, hproc t]
    exact hc hclear

/-- A thread that another processor works for is not the one a dequeue finds. -/
theorem Dequeue.ne_of_ready (h : Dequeue e n σ σ') (hu : Ready d u σ) : u ≠ n := by
  rintro rfl
  exact hu.notWaiting (.inr (.inr ((hu.queue.queued u).mp h.mem)))

/-- A dispatch, with or without a continuation to take, changes no thread but the one it
    dispatches. -/
theorem Closes.alive {b : Bool} (h : Closes π e σ b σ') (hu : Ready d u σ) (hk : ¬ π.kill u)
    (ha : Alive σ u) : Alive σ' u := by
  have dispatched : ∀ {n σ'}, Dequeue e n σ σ' → Alive (setCurrent e (some n) σ') u :=
    fun hd => ha.of_eq (congrArg KernelThread.state (hd.thread_ne (hd.ne_of_ready hu)))
      (congrArg KernelThread.process (hd.thread_ne (hd.ne_of_ready hu))) fun p => by
        simp [setCurrent, Sched.modCpu, hd.process_eq]
  cases h with
  | stay => exact ha
  | idle => exact ha
  | start hd _ => exact dispatched hd
  | take hd =>
    refine (dispatched hd).of_eq ?_ ?_ fun _ => rfl <;>
      rw [modThread_thread_ne _ _ (hd.ne_of_ready hu)]
  | halt h =>
    cases h with
    | panic => exact ha
    | finish h =>
      exact h.alive ⟨⟨hu.online, hu.listed, hu.affinity, ⟨hu.queue.nodup, hu.queue.queued⟩⟩,
        hu.current, hu.process, hu.notWaiting⟩ hk ha

/-- If no processor works for another thread of `p` than `t`, a processor's thread belongs to
    another process. -/
theorem Ready.process_ne (h : Ready d u σ) (halone : processOtherThreadActive σ p t = false)
    (hut : u ≠ t) : (σ.thread u).process ≠ p := by
  intro hp
  have hany := List.any_eq_false.mp halone d (List.mem_range.mpr h.online)
  have hcur : (σ.cpu d).currentThread = some u := h.current
  simp [h.process, hp, hcur, hut] at hany

theorem Outcome.alive_other (o : Outcome π e t x r)
    (ht : (x.sched.thread t).cpuAffinity = e.cpu + 1) (hu : Ready d u x.sched) (hd : d ≠ e.cpu)
    (hk : ¬ π.kill u) (hc : π.clear → (x.sched.thread u).process ≠ (x.sched.thread t).process)
    (ha : Alive x.sched u) : Alive r.1.sched u := by
  obtain ⟨σ, h, hc'⟩ := o.closes
  exact hc'.alive (hu.frame (h.schedFrame ht) hd) hk (h.alive ht hu hd hk hc ha)

/-- A handler that gets to `kernel_scheduler_fault` ends in the rendezvous loop. -/
theorem runSection_faultPath {cause address info : UInt64}
    (hp : (s.cpu a.cpu).phase = .trap (.exception cause address info) fp)
    (hpath : faultPath s a fp t) (h : runSection s a = some (fp, x, ex)) : ∃ v, ex = .spin v := by
  unfold runSection at h
  rw [hp] at h
  split at h
  · next script event k fp' hin hphase =>
    cases hphase
    simp only [trapHandler, kernelExceptionDispatch, hpath.1, hpath.2, Option.some.injEq,
      Prod.mk.injEq] at h
    exact ⟨_, (congrArg Prod.snd h.2).symm⟩
  all_goals simp_all

/-- A section does not take the life of another processor's thread. -/
theorem section_alive_other (hs : Inv s) (halone : ExecAlone s a)
    (h : runSection s a = some (fp, x, ex)) (hd : d ≠ a.cpu) (hu : Ready d u s.sched)
    (ha : Alive s.sched u) : Alive x.sched u := by
  obtain ⟨t, hstart, ho⟩ := runSection_outcome hs h
  have hut : u ≠ t := by
    rintro rfl
    exact hd (Nat.succ.inj (hu.affinity.symm.trans hstart.pinned.affinity))
  have hu' : Ready d u (Sect.enter s a.env fp).sched := hu.frame (lockTaken_frame a.env s.sched) hd
  -- a rendezvous of exec has no other thread of its process to kill
  have hexec : ∀ {q image fp' left}, (s.cpu a.cpu).phase = .spin (.exec t q image) fp' left →
      (s.sched.thread u).process ≠ q := by
    intro q image fp' left hp
    cases left with
    | false =>
      unfold runSection at h
      split at h <;> simp_all
    | true =>
      simp only [ExecAlone, hp] at halone
      exact hu.process_ne halone hut
  by_cases hk : (sectionPerm s a fp t).kill u
  · simp only [sectionPerm] at hk
    split at hk
    · -- a fault stops every thread it kills
      next cause address info fp' hp =>
      obtain ⟨hpath, hmem⟩ := hk
      have hfp : fp' = fp := by simpa [sectionFrame, hp] using hstart.frame
      obtain ⟨v, rfl⟩ := runSection_faultPath (hfp ▸ hp) hpath h
      have hproc := (ho.schedFrame (e := a.env) hstart.pinned.affinity).process
      cases ho with
      | spin _ _ hv _ _ _ hstop =>
        refine .inr ?_
        rw [hproc u, show ((Sect.enter s a.env fp).sched.thread u).process =
          ((Sect.enter s a.env fp).sched.thread t).process from hs.listed _ u hmem, ← hproc t, ← hv]
        exact hstop u hut
    · next t' q image fp' left hp =>
      have ht : t' = t := by simpa [sectionThread, hp, Rendezvous.thread] using hstart.thread
      exact absurd (hs.listed q u hk.1) (hexec (ht ▸ hp))
    · exact hk.elim
  · refine ho.alive_other (e := a.env) hstart.pinned.affinity hu' hd hk (fun hclear => ?_) ha
    simp only [sectionPerm] at hclear
    split at hclear
    · next t' q image fp' left hp =>
      have ht : t' = t := by simpa [sectionThread, hp, Rendezvous.thread] using hstart.thread
      have hphase := (hs.cpu a.cpu).phase
      rw [hp] at hphase
      subst ht
      exact fun heq => hexec hp (heq.trans hphase.2.2.symm)
    · exact hclear.elim

/-! ## The processor's own thread -/

theorem section_alivePhase (hs : Lively s) (h : runSection s a = some (fp, x, ex)) :
    AlivePhase (applySection s a.cpu fp x ex) a.cpu (ex.phase fp) := by
  obtain ⟨t, hstart, ho⟩ := runSection_outcome hs.toInv h
  have hphase := hs.phase a.cpu
  have current : Ready a.env.cpu t x.sched → Alive x.sched t →
      ∀ v, x.sched.current a.cpu = some v → Alive x.sched v := by
    intro hr ha v hv
    obtain rfl := Option.some.inj (hr.current.symm.trans hv)
    exact ha
  -- outside a rendezvous, the thread of a section that was current before was alive
  have before : (sectionPerm s a fp t).quiet ∨ (sectionPerm s a fp t).call →
      (Sect.enter s a.env fp).sched.current a.cpu = some t → Alive s.sched t := by
    intro hq hc
    have hc' : s.sched.current a.cpu = some t := by
      simpa [Sect.enter, lockTaken, Sched.current, Sched.modCpu, Action.env] using hc
    have hthread := hstart.thread
    unfold sectionThread at hthread
    split at hthread
    · next hp => rw [hp] at hphase; exact hphase t hc'
    · next hp => rw [hp] at hphase; cases hphase.symm.trans hc'
    · next hp => simp [sectionPerm, hp] at hq
    · next hp => rw [hp] at hphase; exact hphase t hc'
    · cases hthread
  have served : (sectionPerm s a fp t).quiet ∨ (sectionPerm s a fp t).call →
      Acts (sectionPerm s a fp t) a.env t (Sect.enter s a.env fp).sched x.sched →
      ((Sect.enter s a.env fp).sched.current a.cpu = some t ∧
          (x.sched.thread t).state = (s.sched.thread t).state ∨
        (x.sched.thread t).state = .running) →
      (∀ p, (x.sched.process p).signals = (s.sched.process p).signals) → Alive x.sched t := by
    intro hq hacts hstate hsignals
    rcases hstate with ⟨hc, hstate⟩ | hrun
    · exact (before hq hc).of_eq hstate (hacts.moves.home t).process hsignals
    · exact .inl hrun
  have dispatched : ∀ {n}, Ready a.cpu n x.sched → (x.sched.thread n).state = .running →
      ∀ v, x.sched.current a.cpu = some v → Alive x.sched v := by
    intro n hr hrun v hv
    obtain rfl := Option.some.inj (hr.current.symm.trans hv)
    exact .inl hrun
  cases ho with
  | kept hq hb => exact fun _ => current hb.ready (served (.inl hq) hb.acts hb.state hb.signals)
  | result _ hcall hb _ _ hstate hsignals =>
    exact fun _ => current hb.ready (served (.inr hcall) hb.acts hstate hsignals)
  | exec _ _ hb _ _ _ hrun => exact fun _ => current hb.ready (.inl hrun)
  | stopped _ hmode =>
    intro hm
    rw [applySection_frame, hmode.1] at hm
    cases hm
  | load _ hl hd _ hsched =>
    have hr := (hl.dispatch_ready hd hs.listed).1
    rw [← hsched] at hr
    exact fun _ => dispatched hr (by rw [hsched]; exact hd.state_eq)
  | suspend _ _ hl hd _ _ hsched =>
    have hr := (hl.dispatch_ready hd hs.listed).1
    rw [← hsched] at hr
    exact dispatched hr (by rw [hsched]; exact hd.state_eq)
  | resume hl hd _ hsched | switch _ _ hl hd _ _ hsched =>
    have hr := (hl.dispatch_ready hd hs.listed).2
    rw [← hsched] at hr
    exact dispatched hr (by
      rw [hsched, modThread_thread_self]
      exact hd.state_eq)
  | idle _ _ _ hsched =>
    simp [AlivePhase, Exit.phase, hsched, idleEnter, setCurrent, Sched.modCpu, Sched.current,
      Action.env]
  | spin | retire | halt => trivial

/-! ## Transitions -/

theorem Alive.still (ha : Alive s.sched u) (h : Still c s s') : Alive s'.sched u :=
  ha.of_eq (by rw [h.thread u]) (by rw [h.thread u]) fun p => by rw [h.process]

/-- Every transition leaves the threads of other processors alive. -/
theorem step_alive_other (hs : Inv s) (halone : ExecAlone s a) (h : step s a = some s')
    (hd : d ≠ a.cpu) (hu : Ready d u s.sched) (ha : Alive s.sched u) : Alive s'.sched u := by
  obtain ⟨_, _, ht⟩ := step_trans h
  have hu' : Ready d u (lockTaken a.env s.sched) :=
    hu.frame (lockTaken_frame a.env s.sched) hd
  rcases ht.closes with ⟨fp, x, ex, hsec, rfl⟩ | hstill | ⟨σ, _, hm, hc, _⟩
  · exact section_alive_other hs halone hsec hd hu ha
  · exact ha.still hstill
  · exact hc.alive (hm.ready hu') id (hm.alive hu' id ha)

theorem AlivePhase.frame {ph : Phase} (h : AlivePhase s d ph) (hok : PhaseOk s d ph)
    (hf : Frame c s s') (hd : d ≠ c)
    (halive : ∀ u, s.sched.current d = some u → Alive s.sched u → Alive s'.sched u) :
    AlivePhase s' d ph := by
  have current : (∀ u, s.sched.current d = some u → Alive s.sched u) →
      ∀ u, s'.sched.current d = some u → Alive s'.sched u := by
    intro h u hu
    rw [hf.current hd] at hu
    exact halive u hu (h u hu)
  cases ph with
  | restore fp =>
    intro hmode
    rw [hok.1.stack_eq hf hd] at hmode
    exact current (h hmode)
  | idle p fp _ => exact (hf.current hd).trans h
  | user | trap k fp | start t | suspend w n depth sp fp | resume sp i | reacquire k =>
    exact current h
  | _ => trivial

/-- A thread that is current before and after a still transition. -/
theorem Still.current_alive (h : Still c s s') (hcur : s'.sched.current c = s.sched.current c)
    (ha : ∀ t, s.sched.current c = some t → Alive s.sched t) :
    ∀ t, s'.sched.current c = some t → Alive s'.sched t := by
  intro t ht
  rw [hcur] at ht
  exact (ha t ht).still h

theorem startUser_phase : ((startUser s c n).cpu c).phase = .user := by
  simp [startUser]

theorem resumeContinuation_phase (h : ContAt s d n sp) :
    ∃ k, ((resumeContinuation s c sp).cpu c).phase = .reacquire k := by
  obtain ⟨m, _, _, heq⟩ := h.resume c
  exact ⟨_, by rw [heq, modCpu_cpu_self]⟩

theorem switchContinuation_phase {depth : Nat} (h : PhaseOk s c (.suspend t n depth (some sp) fp)) :
    ∃ k, ((resumeContinuation (saveContinuation s fp t depth) c sp).cpu c).phase =
      .reacquire k := by
  obtain ⟨_, _, _, _, _, hcont⟩ := h
  exact resumeContinuation_phase ((hcont sp rfl).1.save (hcont sp rfl).2 t depth)

/-- The processor enters the handler, unless an exception stops the machine. -/
theorem takeTrap_phase (hp : (s.cpu c).phase = .user) (k : TrapKind) (i : CpuId → Bool) :
    ((takeTrap { s with sched.ipiPending := i } c k).cpu c).phase = .user ∨
      ((takeTrap { s with sched.ipiPending := i } c k).cpu c).phase =
        .trap k (trapFramePointer (s.cpu c).ksp) := by
  unfold takeTrap
  dsimp only
  split
  · exact .inl hp
  · exact .inr (by rw [modCpu_cpu_self])

theorem takeTrap_current (k : TrapKind) :
    (takeTrap s c k).sched.current d = s.sched.current d := by
  unfold takeTrap
  dsimp only
  split
  · rfl
  · simp [State.modCpu, State.modStack]

theorem step_alivePhase (hs : Lively s) (h : step s a = some s') :
    AlivePhase s' a.cpu (s'.cpu a.cpu).phase := by
  have hphase := hs.phase a.cpu
  have hok := (hs.cpu a.cpu).phase
  obtain ⟨_, _, ht⟩ := step_trans h
  cases ht with
  | sect hsec =>
    rw [applySection_cpu_self]
    exact section_alivePhase hs hsec
  | user hp _ =>
    rw [hp] at hphase
    rw [modCpu_cpu_self, hp]
    exact hphase
  | @trap k i hp _ =>
    rw [hp] at hphase
    have hcur := (takeTrap_still k i).current_alive (takeTrap_current k) hphase
    rcases takeTrap_phase hp k i with hph | hph <;> rw [hph] <;> exact hcur
  | iret hp =>
    rw [hp] at hphase
    unfold trapRestore
    dsimp only
    rw [modCpu_cpu_self]
    split
    · next hmode => exact hphase hmode
    · trivial
  | @interrupt p fp woken i hp =>
    rw [hp] at hphase
    rw [modCpu_cpu_self]
    have hm := idleInterrupt_waking a.env i (lockTaken a.env s.sched)
    simp only [AlivePhase, Sched.current, hm.cpu_eq.1]
    simpa [lockTaken, Sched.modCpu, Action.env] using
      (show (s.sched.cpu a.cpu).currentThread = none from hphase)
  | @suspendToUser w n depth fp hp =>
    rw [hp] at hphase
    rw [startUser_phase]
    exact ((saveContinuation_still hp).then_eq rfl rfl).current_alive rfl hphase
  | @switchContinuation w n depth sp fp hp =>
    rw [hp] at hphase hok
    obtain ⟨k, hk⟩ := switchContinuation_phase hok
    rw [hk]
    exact (saveContinuation_still hp).resumed.current_alive
      (by rw [resumeContinuation_sched]; rfl) hphase
  | @resume sp i hp =>
    rw [hp] at hphase hok
    obtain ⟨n, _, hcont⟩ := hok
    obtain ⟨k, hk⟩ := resumeContinuation_phase (c := a.cpu) hcont
    rw [hk]
    exact (Still.of_eq rfl rfl).resumed.current_alive (by rw [resumeContinuation_sched]) hphase
  | start hp =>
    rw [hp] at hphase
    rw [startUser_phase]
    exact hphase
  | secondaryStart hp _ hmain =>
    cases hmain with
    | @start σ σ' n hm hd hn =>
      rw [Action.env_cpu, modCpu_cpu_self]
      intro v hv
      have hnv : n = v := by simpa [setCurrent, Sched.current, Sched.modCpu] using hv
      exact .inl (hnv ▸ hd.state_eq)
    | @resume σ σ' n sp ptbr hm hd hn =>
      rw [Action.env_cpu, modCpu_cpu_self]
      intro v hv
      have hnv : n = v := by simpa [setCurrent, Sched.current, Sched.modCpu] using hv
      subst hnv
      refine .inl ?_
      rw [modThread_thread_self]
      exact hd.state_eq
    | _ => rw [Action.env_cpu, modCpu_cpu_self]; trivial
  | _ => rw [modCpu_cpu_self]; trivial

/-- The scheduler is switched off only by a processor that keeps the big kernel lock. -/
theorem MicroSteps.active_eq (h : MicroSteps π σ σ') : σ'.active = σ.active :=
  h.lift (R := fun σ σ' => σ'.active = σ.active) (fun _ => rfl) (fun h h' => h'.trans h)
    fun h => by
      cases h with
      | other _ h => exact congrArg SchedCore.active h
      | _ => rfl

theorem Dequeue.active_eq (h : Dequeue e n σ σ') : σ'.active = σ.active := by
  obtain ⟨queue, _, _, _, rfl⟩ := h.eq
  rfl

theorem Acts.active_eq (h : Acts π e t σ σ') : σ'.active = σ.active :=
  h.lift (P := fun σ σ' => σ'.active = σ.active) (fun _ => rfl) (fun h h' => h'.trans h)
    fun h => by
      cases h with
      | micro h => exact h.steps.active_eq
      | redispatch h _ => exact h.active_eq
      | _ => rfl

theorem Closes.active_eq (h : Closes π e σ false σ') : σ'.active = σ.active := by
  cases h with
  | stay => rfl
  | idle => rfl
  | start hd _ => exact hd.active_eq
  | take hd => exact hd.active_eq

theorem step_active (hs : Lively s) (h : step s a = some s') :
    s'.sched.active = true ∨ s'.lockHeld = true := by
  obtain ⟨_, _, ht⟩ := step_trans h
  have hfree : a.input.takesLock = true → s.sched.active = true := by
    intro hlock
    refine hs.active.resolve_right fun hheld => ?_
    simp [step, hheld, hlock] at h
  rcases ht.closes with ⟨fp, x, ex, hsec, rfl⟩ | hstill | ⟨σ, halts, hm, hc, hlock⟩
  · obtain ⟨t, _, ho⟩ := runSection_outcome hs.toInv hsec
    obtain ⟨σ, ha, hc⟩ := ho.closes
    cases hex : ex.isHalt with
    | true => exact .inr hex
    | false =>
      rw [hex] at hc
      exact .inl (hc.active_eq.trans (ha.active_eq.trans (hfree (runSection_takesLock hsec))))
  · rw [hstill.active, hstill.lockHeld]
    exact hs.active
  · cases halts with
    | true => exact .inr (hlock.trans (Bool.or_true _))
    | false =>
      rw [hlock, Bool.or_false, hc.active_eq, hm.active_eq]
      exact hs.active

/-- Every transition keeps the threads that processors return to alive. -/
theorem Lively.step (hs : Lively s) (hsafe : SwitchSafe s a) (halone : ExecAlone s a)
    (h : step s a = some s') : Lively s' := by
  have hk := step_keeps hs.toInv hsafe h
  refine ⟨hs.toInv.step hk, fun d => ?_, step_active hs h⟩
  by_cases hd : d = a.cpu
  · exact hd ▸ step_alivePhase hs h
  · rw [hk.frame.cpu d hd]
    exact (hs.phase d).frame (hs.cpu d).phase hk.frame hd fun u hu =>
      step_alive_other hs.toInv halone h hd ((hs.cpu d).current u hu).1

/-- A live thread that need not stop is served by the handlers. -/
theorem Lively.currentSpace (hs : Lively s) (hlock : s.lockHeld = false)
    (hcur : s.sched.current a.cpu = some t) (ha : Alive s.sched t)
    (hstop : ¬ (s.sched.process (s.sched.thread t).process).Stops t) :
    currentSpace a.env (Sect.enter s a.env fp).sched = some t := by
  have hactive : s.sched.active = true := hs.active.resolve_right (by simp [hlock])
  have hrun : (s.sched.thread t).state = .running := ha.resolve_right hstop
  have hc : (Sect.enter s a.env fp).sched.current a.env.cpu = some t := by
    simpa [Sect.enter, lockTaken, Sched.current, Sched.modCpu] using hcur
  unfold Kernel.currentSpace
  rw [hc]
  exact if_pos ⟨hactive, hrun⟩

theorem Boot.lively (h : Boot s t) : Lively s where
  toInv := h.inv
  phase c := by
    by_cases hc : c = 0
    · subst hc
      rw [h.boot]
      intro v hv
      rw [Sched.current, h.bootCpu] at hv
      obtain rfl := Option.some.inj hv
      exact .inl h.first.1
    · rcases h.secondary c hc with hp | ⟨woken, hp⟩ <;> rw [hp] <;> trivial
  active := .inl h.active

end RiscMv.Kernel
