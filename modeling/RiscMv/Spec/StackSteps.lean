import RiscMv.Spec.Trans

/-!
# Every transition keeps the kernel stacks apart

Step lemmas for `Inv`, one per kind of transition.

## Key results
- `step_keeps`: every transition that is `SwitchSafe` leaves the other processors alone and
  re-establishes the invariant of its own
- `step_inv`: it preserves the invariant
-/

namespace RiscMv.Kernel

variable {s s' s'' : State} {c d : CpuId} {t u w n : ThreadRef} {sp fp : StackAddr} {e : Env}
  {a : Action} {x : Sect} {ex : Exit} {i : StackId} {σ : Sched} {depth : Nat}

/-! ## State updates -/

@[simp] theorem modCpu_sched (s : State) (c : CpuId) (f : Cpu → Cpu) :
    (s.modCpu c f).sched = s.sched := rfl

@[simp] theorem modCpu_stack (s : State) (c : CpuId) (f : Cpu → Cpu) :
    (s.modCpu c f).stack = s.stack := rfl

@[simp] theorem modStack_sched (s : State) (i : StackId) (f : Stack → Stack) :
    (s.modStack i f).sched = s.sched := rfl

@[simp] theorem modStack_cpu (s : State) (i : StackId) (f : Stack → Stack) :
    (s.modStack i f).cpu = s.cpu := rfl

@[simp] theorem modCpu_cpu_self (s : State) (c : CpuId) (f : Cpu → Cpu) :
    (s.modCpu c f).cpu c = f (s.cpu c) := by simp [State.modCpu]

theorem modCpu_cpu_ne (s : State) (f : Cpu → Cpu) (h : d ≠ c) :
    (s.modCpu c f).cpu d = s.cpu d := by simp [State.modCpu, h]

@[simp] theorem modStack_stack_self (s : State) (i : StackId) (f : Stack → Stack) :
    (s.modStack i f).stack i = f (s.stack i) := by simp [State.modStack]

theorem modStack_stack_ne (s : State) (f : Stack → Stack) {j : StackId} (h : j ≠ i) :
    (s.modStack i f).stack j = s.stack j := by simp [State.modStack, h]

@[simp] theorem applySection_sched : (applySection s c fp x ex).sched = x.sched := rfl

theorem applySection_cpu_self : (applySection s c fp x ex).cpu c =
    { s.cpu c with ptbr := x.ptbr, ksp := x.ksp, phase := ex.phase fp } := by
  simp [applySection, State.modCpu, State.modStack]

theorem applySection_cpu_ne (h : d ≠ c) : (applySection s c fp x ex).cpu d = s.cpu d := by
  simp [applySection, State.modCpu, State.modStack, h]

@[simp] theorem applySection_frame :
    ((applySection s c fp x ex).stack fp.stack).frame = x.frame := by
  simp [applySection, State.modCpu, State.modStack]

theorem applySection_stack_ne (h : i ≠ fp.stack) :
    (applySection s c fp x ex).stack i = s.stack i := by
  simp [applySection, State.modCpu, State.modStack, h]

/-- A section rewrites the trap frame and leaves the continuations alone. -/
@[simp] theorem applySection_kont :
    ((applySection s c fp x ex).stack i).kont = (s.stack i).kont := by
  by_cases h : i = fp.stack
  · subst h
    simp [applySection, State.modCpu, State.modStack]
  · rw [applySection_stack_ne h]

theorem FrameAt.stack (h : FrameAt σ c fp) :
    ∃ m, fp.stack = .thread m ∧ (σ.thread m).cpuAffinity = c + 1 := by
  obtain ⟨m, rfl, hm⟩ := h
  exact ⟨m, rfl, hm⟩

theorem FrameAt.stack_of_mem (h : FrameAt σ c fp) (hi : i ∈ [fp.stack]) :
    ∃ m, i = .thread m ∧ (σ.thread m).cpuAffinity = c + 1 := by
  rw [List.mem_singleton.mp hi]
  exact h.stack

/-- A change of the stack a processor runs on leaves the stacks of other processors alone. -/
theorem stack_frame {st st' : StackId → Stack} (h : FrameAt σ c fp)
    (hne : ∀ i, i ≠ fp.stack → st' i = st i) (m : ThreadRef)
    (hm : (σ.thread m).cpuAffinity ≠ c + 1) :
    st' (.thread m) = st (.thread m) := by
  obtain ⟨m', hfp, hm'⟩ := h.stack
  refine hne _ fun heq => hm ?_
  rw [hfp] at heq
  cases heq
  exact hm'

/-! ## Sections -/

theorem section_frame (hs : Inv s) (h : runSection s a = some (fp, x, ex)) :
    Frame a.cpu s (applySection s a.cpu fp x ex) := by
  obtain ⟨t, hstart, ho⟩ := runSection_outcome hs h
  have hsched : SchedFrame a.cpu s.sched x.sched :=
    (lockTaken_frame a.env s.sched).trans (ho.schedFrame hstart.pinned.affinity)
  refine ⟨hsched, fun d hd => applySection_cpu_ne hd, fun m hm => ?_⟩
  exact stack_frame (hstart.frameAt.frame hsched) (fun i hi => applySection_stack_ne hi) m hm

/-- Two continuations on one stack belong to the same thread. -/
theorem ContAt.waiter_eq {sp' : StackAddr} (h : ContAt s c u sp) (h' : ContAt s d n sp')
    (hstack : sp.stack = sp'.stack) : u = n := by
  obtain ⟨m, hm, _, hk⟩ := h
  obtain ⟨m', hm', _, hk'⟩ := h'
  rw [hm, hm'] at hstack
  cases hstack
  rw [hk] at hk'
  simp only [Option.some.injEq, Prod.mk.injEq, Kont.mk.injEq] at hk'
  exact hk'.2.1

theorem section_cpuOk (hs : Inv s) (h : runSection s a = some (fp, x, ex)) :
    CpuOk (applySection s a.cpu fp x ex) a.cpu := by
  have hframe := section_frame hs h
  obtain ⟨t, hstart, ho⟩ := runSection_outcome hs h
  have hfp := hstart.frameAt.frame hframe.sched
  have hpin := hstart.pinned.frame hframe.sched
  have hsusp := (hs.cpu a.cpu).suspended
  rw [hstart.uses] at hsusp
  have hcont : ∀ {u sp}, ContAt s a.cpu u sp →
      ContAt (applySection s a.cpu fp x ex) a.cpu u sp := by
    rintro u sp ⟨m, hsp, hm, hk⟩
    exact ⟨m, hsp, by rw [hframe.sched.pinned m (by omega)]; exact hm, by simpa using hk⟩
  have hcur := fun v => ho.current_ok (n := v) hs.listed hstart.resumeSp
  -- the continuation of a thread that can be dispatched here lies on another stack
  have hdisp : ∀ {n σ σ' sp}, Left (sectionPerm s a fp t) a.env t (.enter s a.env fp) σ →
      Dequeue a.env n σ σ' → (σ.thread n).kernelResumeSp = some sp →
      ContAt s a.cpu n sp ∧ sp.stack ≠ fp.stack := by
    intro n σ σ' sp hl hd hsp
    have hsp' : (s.sched.thread n).kernelResumeSp = some sp :=
      (hl.acts.moves.home n).resumeSp ▸ hsp
    have haff : (σ.thread n).cpuAffinity = (s.sched.thread n).cpuAffinity :=
      (hl.acts.moves.home n).affinity
    have hn : (s.sched.thread n).cpuAffinity = a.cpu + 1 := by
      rcases hd.affinity with hzero | hc
      · rw [haff] at hzero
        rw [hs.fresh n hzero] at hsp'
        cases hsp'
      · exact haff ▸ hc
    simpa using hsusp n sp hn hsp'
  -- threads still suspended keep their continuation, off the stack of the section
  have hold : ∀ {u sp}, (x.sched.thread u).cpuAffinity = a.cpu + 1 →
      (x.sched.thread u).kernelResumeSp = some sp →
      (s.sched.thread u).kernelResumeSp = some sp ∧ ContAt s a.cpu u sp ∧ sp.stack ≠ fp.stack := by
    intro u sp hu hsp
    obtain ⟨hsp', haff⟩ := ho.resumeSp_some hsp
    obtain ⟨hc, hne⟩ := hsusp u sp (haff ▸ hu) hsp'
    exact ⟨hsp', hc, by simpa using hne⟩
  have finish : PhaseOk (applySection s a.cpu fp x ex) a.cpu (ex.phase fp) →
      (∀ u sp, (x.sched.thread u).kernelResumeSp = some sp → ContAt s a.cpu u sp →
        sp.stack ≠ fp.stack →
        sp.stack ∉ ({ s.cpu a.cpu with ptbr := x.ptbr, ksp := x.ksp, phase := ex.phase fp } :
          Cpu).kernelStacks) → CpuOk (applySection s a.cpu fp x ex) a.cpu := by
    intro hphase huses
    refine ⟨hcur, by rw [applySection_cpu_self]; exact hphase, fun u sp hu hsp => ?_⟩
    obtain ⟨_, hc, hne⟩ := hold hu hsp
    rw [applySection_cpu_self]
    exact ⟨hcont hc, huses u sp hsp hc hne⟩
  -- most exits go on on the stack of the section
  have stay : PhaseOk (applySection s a.cpu fp x ex) a.cpu (ex.phase fp) →
      ({ s.cpu a.cpu with ptbr := x.ptbr, ksp := x.ksp, phase := ex.phase fp } :
        Cpu).kernelStacks = [fp.stack] → CpuOk (applySection s a.cpu fp x ex) a.cpu := by
    intro hphase hstacks
    refine finish hphase fun u sp _ _ hne => ?_
    rw [hstacks, List.mem_singleton]
    exact hne
  cases ho with
  | kept _ hb | result _ _ hb | exec _ _ hb => exact stay ⟨hfp, fun _ => ⟨t, hb.ready.current⟩⟩ rfl
  | stopped _ hmode =>
    refine stay ⟨hfp, fun hm => ?_⟩ rfl
    rw [applySection_frame, hmode.1] at hm
    cases hm
  | @load _ n _ _ _ hl hd hn hsched =>
    have hnext : x.sched.current a.cpu = some n := by
      rw [hsched]; exact (hl.dispatch_ready hd hs.listed).1.current
    exact stay ⟨hfp, fun _ => ⟨n, hnext⟩⟩ rfl
  | @resume _ n _ _ sp' hl hd hn hsched =>
    have hnext : x.sched.current a.cpu = some n := by
      rw [hsched]; exact (hl.dispatch_ready hd hs.listed).2.current
    obtain ⟨hc, _⟩ := hdisp hl hd hn
    refine finish ⟨n, hnext, hcont hc⟩ fun u sp hsp hcu _ => ?_
    simp only [Cpu.kernelStacks, Exit.phase, List.mem_singleton]
    intro heq
    obtain rfl := hcu.waiter_eq hc heq
    simp [hsched] at hsp
  | @suspend _ n _ _ depth _ hl hd hne hn hsched =>
    have hnext : x.sched.current a.cpu = some n := by
      rw [hsched]; exact (hl.dispatch_ready hd hs.listed).1.current
    refine stay ⟨hfp, hpin, ?_, hne, hnext, fun _ h => by cases h⟩ rfl
    simp only [applySection_sched, hsched, setCurrent, Sched.modCpu, hd.thread_ne (Ne.symm hne)]
    exact (hl.acts.moves.home t).resumeSp.trans hstart.resumeSp
  | @switch _ n _ _ sp' depth _ hl hd hne hn hsched =>
    have hnext : x.sched.current a.cpu = some n := by
      rw [hsched]; exact (hl.dispatch_ready hd hs.listed).2.current
    obtain ⟨hc, hstack⟩ := hdisp hl hd hn
    refine finish ⟨hfp, hpin, ?_, hne, hnext, ?_⟩ fun u sp hsp hcu hne' => ?_
    · simp only [applySection_sched, hsched, modThread_thread_ne _ _ (Ne.symm hne), setCurrent,
        Sched.modCpu, hd.thread_ne (Ne.symm hne)]
      exact (hl.acts.moves.home t).resumeSp.trans hstart.resumeSp
    · rintro b hb
      cases hb
      exact ⟨hcont hc, hstack⟩
    · simp only [Cpu.kernelStacks, Exit.phase, List.mem_cons, List.not_mem_nil, or_false, not_or]
      refine ⟨hne', fun heq => ?_⟩
      obtain rfl := hcu.waiter_eq hc heq
      simp [hsched] at hsp
  | idle hp _ hl hsched =>
    subst hp
    refine stay ⟨hfp, hpin, ?_⟩ rfl
    simp only [applySection_sched, hsched, idleEnter, setCurrent, Sched.modCpu]
    exact (hl.acts.moves.home _).resumeSp.trans hstart.resumeSp
  | spin hv _ hp hb =>
    subst hv
    exact stay ⟨hfp, hb.ready.current, hp⟩ rfl
  | retire _ => exact stay hfp rfl
  | halt _ => exact finish trivial fun u sp _ _ hne => by simp [Cpu.kernelStacks, Exit.phase]

/-! ## Transitions that only change the scheduler -/

theorem Ready.modCpu {f : KernelCpuLocal → KernelCpuLocal} (h : Ready c t σ)
    (ht : (f (σ.cpu c)).currentThread = (σ.cpu c).currentThread)
    (hp : (f (σ.cpu c)).currentProcess = (σ.cpu c).currentProcess) : Ready c t (σ.modCpu c f) where
  toPinned := h.toPinned.frame (.modCpu c σ f)
  current := by simpa [Sched.current, Sched.modCpu, ht] using h.current
  process := by simpa [Sched.modCpu, hp] using h.process
  notWaiting := h.notWaiting

theorem Ready.lockTaken (h : Ready e.cpu t σ) : Ready e.cpu t (lockTaken e σ) :=
  h.modCpu rfl rfl

theorem Ready.idleEnter (h : Ready e.cpu t σ) : Ready e.cpu t (idleEnter e σ) :=
  h.modCpu rfl rfl

theorem Ready.idleLeave (h : Ready e.cpu t σ) : Ready e.cpu t (idleLeave e σ) :=
  h.modCpu rfl rfl

/-- A transition of `c` that takes no continuation, writes no stack and uses no new one. -/
theorem CpuOk.keeps (ph : Phase) (h : CpuOk s c) (hsched : SchedFrame c s.sched s'.sched)
    (hcpu : s'.cpu = (s.modCpu c ({ · with phase := ph })).cpu) (hstack : s'.stack = s.stack)
    (hhome : ∀ u, SameHome (s.sched.thread u) (s'.sched.thread u))
    (hcur : ∀ t, s'.sched.current c = some t → Ready c t s'.sched ∧
      (s'.sched.thread t).kernelResumeSp = none)
    (hphase : PhaseOk s' c ph)
    (huses : ({ s.cpu c with phase := ph } : Cpu).kernelStacks ⊆ (s.cpu c).kernelStacks) :
    Keeps s c s' := by
  refine ⟨⟨hsched, fun d hd => by rw [hcpu]; exact modCpu_cpu_ne s _ hd, fun m _ => by rw [hstack]⟩,
    hcur, by rw [hcpu, modCpu_cpu_self]; exact hphase, fun u sp hu hsp => ?_⟩
  rw [(hhome u).affinity] at hu
  rw [(hhome u).resumeSp] at hsp
  obtain ⟨⟨m, hm, haff, hk⟩, hne⟩ := h.suspended u sp hu hsp
  rw [hcpu, modCpu_cpu_self]
  refine ⟨⟨m, hm, by rw [(hhome m).affinity]; exact haff, by rw [hstack]; exact hk⟩, ?_⟩
  exact fun hmem => hne (huses hmem)

theorem MicroSteps.frame_locked (h : MicroSteps .waking (lockTaken e s.sched) σ) :
    SchedFrame e.cpu s.sched σ :=
  (lockTaken_frame e s.sched).trans (h.schedFrame e.cpu)

/-- Where threads are only woken, the current thread stays as it was. -/
theorem CpuOk.woken (h : CpuOk s e.cpu) (hm : MicroSteps .waking (lockTaken e s.sched) σ)
    (ht : σ.current e.cpu = some t) :
    Ready e.cpu t σ ∧ (σ.thread t).kernelResumeSp = none := by
  rw [Sched.current, hm.cpu_eq.1] at ht
  obtain ⟨hr, hn⟩ := h.current t (by simpa [lockTaken, Sched.modCpu, Sched.current] using ht)
  exact ⟨hm.ready hr.lockTaken, (hm.moves.home t).resumeSp.trans hn⟩

theorem interrupt_ok {p : Pending} {woken : Bool} (hs : Inv s)
    (hp : (s.cpu a.cpu).phase = .idle p fp woken) (i : IdleInterrupt) :
    Keeps s a.cpu { s.modCpu a.cpu ({ · with phase := .idle p fp true }) with
      sched := idleInterrupt a.env i (lockTaken a.env s.sched) } := by
  have hm := idleInterrupt_waking a.env i (lockTaken a.env s.sched)
  have hok := (hs.cpu a.cpu).phase
  rw [hp] at hok
  obtain ⟨hfp, hpin, hres⟩ := hok
  refine (hs.cpu a.cpu).keeps (.idle p fp true) hm.frame_locked rfl rfl hm.moves.home
    (fun t => (hs.cpu a.env.cpu).woken hm) ?_ ?_
  · exact ⟨hfp.frame hm.frame_locked, hpin.frame hm.frame_locked,
      (hm.moves.home _).resumeSp.trans hres⟩
  · simp [Cpu.kernelStacks, hp]

theorem interruptMain_ok (hs : Inv s) (i : IdleInterrupt) :
    Keeps s a.cpu { s.modCpu a.cpu ({ · with phase := .mainIdle true }) with
      sched := idleInterrupt a.env i (lockTaken a.env s.sched) } := by
  have hm := idleInterrupt_waking a.env i (lockTaken a.env s.sched)
  refine (hs.cpu a.cpu).keeps (.mainIdle true) hm.frame_locked rfl rfl hm.moves.home
    (fun t => (hs.cpu a.env.cpu).woken hm) trivial ?_
  simp [Cpu.kernelStacks]

theorem wakeMain_ok (hs : Inv s) :
    Keeps s a.cpu { s.modCpu a.cpu ({ · with phase := .main }) with
      sched := idleLeave a.env s.sched } := by
  refine (hs.cpu a.cpu).keeps .main (idleLeave_frame a.env s.sched) rfl rfl (fun _ => .refl _)
    (fun t ht => ?_) trivial (by simp [Cpu.kernelStacks])
  have ht' : s.sched.current a.cpu = some t := by
    simpa [idleLeave, Sched.modCpu, Sched.current, Action.env] using ht
  obtain ⟨hr, hn⟩ := (hs.cpu a.cpu).current t ht'
  exact ⟨hr.idleLeave (e := a.env), hn⟩

theorem spinLeave_ok {v : Rendezvous} (hs : Inv s)
    (hp : (s.cpu a.cpu).phase = .spin v fp false) :
    Keeps s a.cpu (s.modCpu a.cpu ({ · with phase := .spin v fp true })) := by
  have hok := (hs.cpu a.cpu).phase
  rw [hp] at hok
  exact (hs.cpu a.cpu).keeps (.spin v fp true) (.refl _ _) rfl rfl (fun _ => .refl _)
    (hs.cpu a.cpu).current hok (by simp [Cpu.kernelStacks, hp])

theorem retire_ok (hs : Inv s) :
    Keeps s a.cpu { s.modCpu a.cpu ({ · with phase := .main }) with
      sched := retireFinalize a.env (lockTaken a.env s.sched) } := by
  have hfin : ∀ σ : Sched, SchedFrame a.cpu σ (retireFinalize a.env σ) ∧
      (retireFinalize a.env σ).thread = σ.thread ∧
      (retireFinalize a.env σ).current a.cpu = none := by
    intro σ
    unfold retireFinalize
    dsimp only
    split
    · exact ⟨.modCpu a.cpu σ _, rfl, by simp [Sched.current, Sched.modCpu, Action.env]⟩
    · exact ⟨(SchedFrame.modCpu a.cpu σ _).trans
        ((sendIpi_micro (π := .waking) 0 _).schedFrame a.cpu), rfl,
        by simp [sendIpi, Sched.current, Sched.modCpu, Action.env]⟩
  obtain ⟨hframe, hthread, hnone⟩ := hfin (lockTaken a.env s.sched)
  refine (hs.cpu a.cpu).keeps .main ((lockTaken_frame a.env s.sched).trans hframe) rfl rfl
    (fun u => ?_) (fun t ht => ?_) trivial (by simp [Cpu.kernelStacks])
  · dsimp only
    rw [hthread]
    exact .refl _
  · cases hnone.symm.trans ht

/-! ## User mode -/

/-- Changes that affect no processor. -/
theorem MicroSteps.keeps {π : Perm} (hm : MicroSteps π s.sched s'.sched) (h : CpuOk s c)
    (hcpu : s'.cpu = s.cpu) (hstack : s'.stack = s.stack) : Keeps s c s' := by
  have hframe : ∀ c, Frame c s s' := fun c =>
    ⟨hm.schedFrame c, fun _ _ => by rw [hcpu], fun _ _ => by rw [hstack]⟩
  exact ⟨hframe c, h.frame (hframe (c + 1)) (Nat.lt_succ_self c).ne⟩

theorem user_ok (hs : Inv s) (hp : (s.cpu a.cpu).phase = .user) (ctx : UserContext) :
    Keeps s a.cpu (s.modCpu a.cpu ({ · with ctx := ctx })) := by
  have hok := (hs.cpu a.cpu).phase
  rw [hp] at hok
  refine .mk ⟨.refl _ _, fun d hd => modCpu_cpu_ne s _ hd, fun _ _ => rfl⟩
    ⟨(hs.cpu a.cpu).current, ?_, fun u sp hu hsp => ?_⟩
  · rw [modCpu_cpu_self, hp]
    exact ⟨hok.1, by rw [modCpu_cpu_self]; exact hok.2⟩
  · obtain ⟨hc, hne⟩ := (hs.cpu a.cpu).suspended u sp hu hsp
    refine ⟨hc, ?_⟩
    rw [modCpu_cpu_self]
    simpa [Cpu.kernelStacks, hp] using hne

theorem recordExit_frame (l : UserExit)
    (h : ∀ t, σ.current c = some t → (σ.thread t).cpuAffinity = c + 1) :
    SchedFrame c σ (recordExit c l σ) := by
  unfold recordExit
  split
  · next t ht =>
    refine { SchedFrame.refl c σ with
      thread := fun u hu => ?_, queue := fun hq => ⟨hq.nodup, hq.queued⟩ }
    have hut : u ≠ t := by rintro rfl; exact hu (h u ht)
    simp only [Function.update_of_ne hut]
    exact .refl _ _
  · exact .refl c σ

theorem Ready.recordExit (h : Ready c t σ) (l : UserExit) : Ready c t (recordExit c l σ) := by
  unfold Kernel.recordExit
  rw [h.current]
  exact ⟨⟨h.online, h.listed, h.affinity, ⟨h.queue.nodup, h.queue.queued⟩⟩, h.current, h.process,
    h.notWaiting⟩

@[simp] theorem recordExit_thread (c : CpuId) (l : UserExit) (σ : Sched) :
    (recordExit c l σ).thread = σ.thread := by
  unfold recordExit
  split <;> rfl

@[simp] theorem recordExit_current (c : CpuId) (l : UserExit) (σ : Sched) :
    (recordExit c l σ).current d = σ.current d := by
  unfold recordExit
  split <;> rfl

theorem takeTrap_ok (hs : Inv s) (hp : (s.cpu c).phase = .user) (k : TrapKind) :
    Keeps s c (takeTrap s c k) := by
  have hok := (hs.cpu c).phase
  rw [hp] at hok
  obtain ⟨⟨t, ht⟩, m, hksp, hm⟩ := hok
  obtain ⟨hready, hres⟩ := (hs.cpu c).current t ht
  unfold takeTrap
  dsimp only
  split
  · exact MicroSteps.keeps (π := .waking) .refl (hs.cpu c) rfl rfl
  · refine .mk ⟨?_, fun d hd => Function.update_of_ne hd _ _, fun m' hm' => ?_⟩
      ⟨fun v hv => ?_, ?_, fun u sp hu hsp => ?_⟩
    · exact recordExit_frame _ fun v hv => by
        obtain rfl := Option.some.inj (ht.symm.trans hv)
        exact hready.affinity
    · have hne : m' ≠ m := by
        rintro rfl
        exact hm' (by simpa [State.modCpu, State.modStack] using hm)
      simp [State.modCpu, State.modStack, hksp, kernelStackTop, hne]
    · have hv' : s.sched.current c = some v := by
        simpa [State.modCpu, State.modStack] using hv
      obtain rfl := Option.some.inj (ht.symm.trans hv')
      exact ⟨hready.recordExit _, by simpa [State.modCpu, State.modStack] using hres⟩
    · rw [modCpu_cpu_self]
      refine ⟨⟨t, by simpa [State.modCpu, State.modStack] using ht⟩, m, by rw [hksp], ?_⟩
      simpa [State.modCpu, State.modStack] using hm
    · have hu' : (s.sched.thread u).cpuAffinity = c + 1 := by
        simpa [State.modCpu, State.modStack] using hu
      have hsp' : (s.sched.thread u).kernelResumeSp = some sp := by
        simpa [State.modCpu, State.modStack] using hsp
      obtain ⟨⟨m', hm', haff, hk⟩, hne⟩ := (hs.cpu c).suspended u sp hu' hsp'
      have hmm : m' ≠ m := by
        rintro rfl
        simp [Cpu.kernelStacks, hp, hksp, hm', kernelStackTop] at hne
      refine ⟨⟨m', hm', by simpa [State.modCpu, State.modStack] using haff, ?_⟩, ?_⟩
      · simpa [State.modCpu, State.modStack, hksp, kernelStackTop, hmm] using hk
      · simp [modCpu_cpu_self, Cpu.kernelStacks, trapFramePointer, StackAddr.down, hksp, hm',
          kernelStackTop, hmm]

theorem iret_ok (hs : Inv s) (hp : (s.cpu c).phase = .restore fp) :
    Keeps s c (trapRestore s c fp) := by
  have hok := (hs.cpu c).phase
  rw [hp] at hok
  obtain ⟨⟨m, rfl, hm⟩, hcur⟩ := hok
  refine .mk ⟨.refl _ _, fun d hd => Function.update_of_ne hd _ _, fun _ _ => rfl⟩
    ⟨(hs.cpu c).current, ?_, fun u sp hu hsp => ?_⟩
  · unfold trapRestore
    dsimp only
    rw [modCpu_cpu_self]
    split
    · next hmode =>
      exact ⟨hcur hmode, m, by rw [modCpu_cpu_self]; simp, hm⟩
    · exact ⟨m, rfl, hm⟩
  · obtain ⟨hc, hne⟩ := (hs.cpu c).suspended u sp hu hsp
    refine ⟨hc, ?_⟩
    unfold trapRestore
    dsimp only
    rw [modCpu_cpu_self]
    split
    · rw [iretKsp_trapFramePointer]
      simpa [Cpu.kernelStacks, hp, trapFramePointer, StackAddr.down] using hne
    · simpa [Cpu.kernelStacks, hp] using hne

/-! ## The assembly sequences -/

theorem Frame.trans (h : Frame c s s') (h' : Frame c s' s'') : Frame c s s'' where
  sched := h.sched.trans h'.sched
  cpu d hd := (h'.cpu d hd).trans (h.cpu d hd)
  stack m hm := (h'.stack m hm).trans (h.stack m (h'.sched.not_pinned hm))

/-- Entering user mode for `n` on its own kernel stack, where no continuation is suspended. -/
theorem startUser_ok (hcur : s.sched.current c = some n)
    (hready : Ready c n s.sched ∧ (s.sched.thread n).kernelResumeSp = none)
    (hsusp : ∀ u sp, (s.sched.thread u).cpuAffinity = c + 1 →
      (s.sched.thread u).kernelResumeSp = some sp → ContAt s c u sp ∧ sp.stack ≠ .thread n) :
    Keeps s c (startUser s c n) := by
  have hcpu : (startUser s c n).cpu c = { (startUser s c n).cpu c with
      phase := .user, ksp := kernelStackTop n } := by
    simp [startUser, State.modCpu]
  refine ⟨⟨.refl _ _, fun d hd => Function.update_of_ne hd _ _, fun m hm => ?_⟩,
    ⟨fun v hv => ?_, ?_, fun u sp hu hsp => ?_⟩⟩
  · have hne : m ≠ n := by rintro rfl; exact hm hready.1.affinity
    simp [startUser, State.modCpu, State.modStack, kernelStackTop, hne]
  · obtain rfl := Option.some.inj (hcur.symm.trans hv)
    exact hready
  · rw [hcpu]
    exact ⟨⟨n, hcur⟩, n, by rw [hcpu], hready.1.affinity⟩
  · obtain ⟨⟨m, hm, haff, hk⟩, hne⟩ := hsusp u sp hu hsp
    have hmn : m ≠ n := by rintro rfl; exact hne hm
    refine ⟨⟨m, hm, haff, ?_⟩, ?_⟩
    · simpa [startUser, State.modCpu, State.modStack, kernelStackTop, hmn] using hk
    · rw [hcpu]
      simpa [Cpu.kernelStacks, kernelStackTop] using hne

/-- Where a continuation lies, the jump to it goes on in its C frames. -/
theorem ContAt.resume (h : ContAt s d n sp) (c : CpuId) : ∃ m, sp.stack = .thread m ∧
    (s.sched.thread m).cpuAffinity = d + 1 ∧ resumeContinuation s c sp =
      (s.modStack (.thread m) ({ · with kont := none })).modCpu c
        ({ · with phase := .reacquire ⟨n, trapFramePointer (kernelStackTop m)⟩ }) := by
  obtain ⟨m, hm, haff, hk⟩ := h
  exact ⟨m, hm, haff, by simp [resumeContinuation, hm, hk]⟩

/-- Jumping to the suspended continuation of the current thread. -/
theorem resumeContinuation_ok (hcur : s.sched.current c = some n)
    (hready : Ready c n s.sched ∧ (s.sched.thread n).kernelResumeSp = none)
    (hcont : ContAt s c n sp)
    (hsusp : ∀ u sp', (s.sched.thread u).cpuAffinity = c + 1 →
      (s.sched.thread u).kernelResumeSp = some sp' → ContAt s c u sp' ∧ sp'.stack ≠ sp.stack) :
    Keeps s c (resumeContinuation s c sp) := by
  obtain ⟨m, hm, haff, heq⟩ := hcont.resume c
  rw [heq]
  refine ⟨⟨.refl _ _, fun d hd => Function.update_of_ne hd _ _, fun m' hm' => ?_⟩,
    ⟨fun v hv => ?_, ?_, fun u sp' hu hsp => ?_⟩⟩
  · have hne : m' ≠ m := by rintro rfl; exact hm' haff
    simp [State.modCpu, State.modStack, hne]
  · obtain rfl := Option.some.inj (hcur.symm.trans hv)
    exact hready
  · rw [modCpu_cpu_self]
    exact ⟨hcur, m, rfl, haff⟩
  · obtain ⟨⟨m', hm', haff', hk'⟩, hne⟩ := hsusp u sp' hu hsp
    have hmm : m' ≠ m := by rintro rfl; exact hne (hm'.trans hm.symm)
    refine ⟨⟨m', hm', haff', ?_⟩, ?_⟩
    · simpa [State.modCpu, State.modStack, hmm] using hk'
    · rw [modCpu_cpu_self]
      simp [Cpu.kernelStacks, trapFramePointer, StackAddr.down, kernelStackTop, hm', hmm]

@[simp] theorem resumeContinuation_sched (s : State) (c : CpuId) (sp : StackAddr) :
    (resumeContinuation s c sp).sched = s.sched := by
  unfold resumeContinuation
  repeat' split
  all_goals rfl

/-- Jumping to a continuation takes it off its stack and leaves the trap frames alone. -/
@[simp] theorem resumeContinuation_frame (s : State) (c : CpuId) (sp : StackAddr) (i : StackId) :
    ((resumeContinuation s c sp).stack i).frame = (s.stack i).frame := by
  unfold resumeContinuation
  repeat' split
  · by_cases hi : i = sp.stack
    · simp [hi]
    · simp [modStack_stack_ne s _ hi]
  all_goals rfl

@[simp] theorem saveContinuation_frame (s : State) (fp : StackAddr) (w : ThreadRef) (depth : Nat)
    (i : StackId) : ((saveContinuation s fp w depth).stack i).frame = (s.stack i).frame := by
  by_cases hi : i = fp.stack <;> simp [saveContinuation, State.modStack, hi]

theorem saveContinuation_sched (s : State) (fp : StackAddr) (w : ThreadRef) (depth : Nat) :
    (saveContinuation s fp w depth).sched =
      s.sched.modThread w ({ · with kernelResumeSp := some (fp.down depth) }) := rfl

/-- Saving the continuation of `w` on the stack the processor runs on. -/
theorem saveContinuation_ok (hs : Inv s) (hfp : FrameAt s.sched c fp)
    (huses : fp.stack ∈ (s.cpu c).kernelStacks) (hw : (s.sched.thread w).cpuAffinity = c + 1)
    (depth : Nat) :
    Frame c s (saveContinuation s fp w depth) ∧
      ∀ u sp, ((saveContinuation s fp w depth).sched.thread u).cpuAffinity = c + 1 →
        ((saveContinuation s fp w depth).sched.thread u).kernelResumeSp = some sp →
        ContAt (saveContinuation s fp w depth) c u sp ∧
          (sp.stack = fp.stack ∨ (s.sched.thread u).kernelResumeSp = some sp ∧
            sp.stack ∉ (s.cpu c).kernelStacks) := by
  obtain ⟨m, rfl, hm⟩ := hfp
  have haff : ∀ v, ((saveContinuation s (trapFramePointer (kernelStackTop m)) w depth).sched.thread
      v).cpuAffinity = (s.sched.thread v).cpuAffinity := by
    rw [saveContinuation_sched]
    exact forall_modThread (P := fun v th => th.cpuAffinity = (s.sched.thread v).cpuAffinity) rfl
      fun _ _ => rfl
  refine ⟨⟨?_, fun _ _ => rfl, fun m' hm' => ?_⟩, fun u sp hu hsp => ?_⟩
  · rw [saveContinuation_sched]
    exact .modThread hw hw rfl rfl
  · have hne : m' ≠ m := by rintro rfl; exact hm' ((haff m').trans hm)
    simp [saveContinuation, State.modStack, trapFramePointer, StackAddr.down, kernelStackTop, hne]
  · rw [haff] at hu
    by_cases huw : u = w
    · subst huw
      have hsp' : sp = (trapFramePointer (kernelStackTop m)).down depth := by
        simpa [saveContinuation_sched] using hsp.symm
      subst hsp'
      refine ⟨⟨m, rfl, (haff m).trans hm, ?_⟩, .inl rfl⟩
      simp [saveContinuation, State.modStack, trapFramePointer, StackAddr.down, kernelStackTop]
    · have hsp' : (s.sched.thread u).kernelResumeSp = some sp := by
        simpa [saveContinuation_sched, modThread_thread_ne _ _ huw] using hsp
      obtain ⟨⟨m', hm', haff', hk⟩, hne⟩ := (hs.cpu c).suspended u sp hu hsp'
      have hmm : m' ≠ m := by
        rintro rfl
        exact hne (by rw [hm']; exact huses)
      refine ⟨⟨m', hm', (haff m').trans haff', ?_⟩, .inr ⟨hsp', hne⟩⟩
      simpa [saveContinuation, State.modStack, trapFramePointer, StackAddr.down, kernelStackTop,
        hmm] using hk

/-- Saving a continuation leaves those on other stacks alone. -/
theorem ContAt.save (h : ContAt s c n sp) (hne : sp.stack ≠ fp.stack) (w : ThreadRef)
    (depth : Nat) : ContAt (saveContinuation s fp w depth) c n sp := by
  obtain ⟨m, hm, haff, hk⟩ := h
  refine ⟨m, hm, ?_, ?_⟩
  · rw [saveContinuation_sched]
    exact (forall_modThread (P := fun v th => th.cpuAffinity = (s.sched.thread v).cpuAffinity) rfl
      (fun _ _ => rfl) m).trans haff
  · have hne' : StackId.thread m ≠ fp.stack := hm ▸ hne
    simpa [saveContinuation, State.modStack, hne'] using hk

/-- Where a thread is started in user mode, its kernel stack holds no suspended continuation
    and is not the stack the processor leaves. -/
def SwitchSafe (s : State) (a : Action) : Prop :=
  match (s.cpu a.cpu).phase with
  | .suspend _ n _ none fp => fp.stack ≠ .thread n ∧
      ∀ u sp, (s.sched.thread u).kernelResumeSp = some sp → sp.stack ≠ .thread n
  | .start t => ∀ u sp, (s.sched.thread u).kernelResumeSp = some sp → sp.stack ≠ .thread t
  | _ => True

theorem start_ok (hs : Inv s) (hp : (s.cpu a.cpu).phase = .start t) (hsafe : SwitchSafe s a) :
    Keeps s a.cpu (startUser s a.cpu t) := by
  have hok := (hs.cpu a.cpu).phase
  rw [hp] at hok
  simp only [SwitchSafe, hp] at hsafe
  exact startUser_ok hok ((hs.cpu a.cpu).current t hok) fun u sp hu hsp =>
    ⟨((hs.cpu a.cpu).suspended u sp hu hsp).1, hsafe u sp hsp⟩

theorem resume_ok {i : StackId} (hs : Inv s) (hp : (s.cpu a.cpu).phase = .resume sp i) :
    Keeps s a.cpu (resumeContinuation s a.cpu sp) := by
  have hok := (hs.cpu a.cpu).phase
  rw [hp] at hok
  obtain ⟨n, hcur, hcont⟩ := hok
  refine resumeContinuation_ok hcur ((hs.cpu a.cpu).current n hcur) hcont fun u sp' hu hsp => ?_
  have h := (hs.cpu a.cpu).suspended u sp' hu hsp
  simpa [Cpu.kernelStacks, hp] using h

/-- What the processor goes on with after `w` is saved: its thread is ready, and the continuations
    lie on the stack of `w` or on stacks that it did not use before. -/
theorem suspend_ok {o : Option StackAddr} (hs : Inv s)
    (hp : (s.cpu c).phase = .suspend w n depth o fp)
    (h : (Ready c n (saveContinuation s fp w depth).sched ∧
        ((saveContinuation s fp w depth).sched.thread n).kernelResumeSp = none) →
      (∀ u sp, ((saveContinuation s fp w depth).sched.thread u).cpuAffinity = c + 1 →
        ((saveContinuation s fp w depth).sched.thread u).kernelResumeSp = some sp →
        ContAt (saveContinuation s fp w depth) c u sp ∧
          (sp.stack = fp.stack ∨ (s.sched.thread u).kernelResumeSp = some sp ∧
            sp.stack ∉ (s.cpu c).kernelStacks)) → Keeps (saveContinuation s fp w depth) c s') :
    Keeps s c s' := by
  have hok := (hs.cpu c).phase
  rw [hp] at hok
  obtain ⟨hfp, hpin, -, hne, hcur, -⟩ := hok
  have huses : fp.stack ∈ (s.cpu c).kernelStacks := by
    cases o <;> simp [Cpu.kernelStacks, hp]
  obtain ⟨hf, hsusp⟩ := saveContinuation_ok hs hfp huses hpin.affinity depth
  obtain ⟨hready, hres⟩ := (hs.cpu c).current n hcur
  have hthread : (saveContinuation s fp w depth).sched.thread n = s.sched.thread n := by
    rw [saveContinuation_sched, modThread_thread_ne _ _ hne]
  have hready' : Ready c n (saveContinuation s fp w depth).sched :=
    ⟨hready.toPinned.frame hf.sched, hready.current, by rw [hthread]; exact hready.process,
      by rw [hthread]; exact hready.notWaiting⟩
  have hk := h ⟨hready', by rw [hthread]; exact hres⟩ hsusp
  exact ⟨hf.trans hk.frame, hk.cpuOk⟩

theorem suspendToUser_ok (hs : Inv s) (hp : (s.cpu a.cpu).phase = .suspend w n depth none fp)
    (hsafe : SwitchSafe s a) :
    Keeps s a.cpu (startUser (saveContinuation s fp w depth) a.cpu n) := by
  have hok := (hs.cpu a.cpu).phase
  rw [hp] at hok
  obtain ⟨-, -, -, -, hcur, -⟩ := hok
  simp only [SwitchSafe, hp] at hsafe
  refine suspend_ok hs hp fun hready hsusp => startUser_ok hcur hready fun u sp hu hsp => ?_
  obtain ⟨hcont, hwhere⟩ := hsusp u sp hu hsp
  refine ⟨hcont, ?_⟩
  rcases hwhere with heq | ⟨hold, _⟩
  · rw [heq]; exact hsafe.1
  · exact hsafe.2 u sp hold

theorem switchContinuation_ok (hs : Inv s)
    (hp : (s.cpu a.cpu).phase = .suspend w n depth (some sp) fp) :
    Keeps s a.cpu (resumeContinuation (saveContinuation s fp w depth) a.cpu sp) := by
  have hok := (hs.cpu a.cpu).phase
  rw [hp] at hok
  obtain ⟨-, -, -, -, hcur, hsp⟩ := hok
  obtain ⟨hcont, hstack⟩ := hsp sp rfl
  refine suspend_ok hs hp fun hready hsusp =>
    resumeContinuation_ok hcur hready (hcont.save hstack w depth) fun u sp' hu hsp' => ?_
  obtain ⟨hcont', hwhere⟩ := hsusp u sp' hu hsp'
  refine ⟨hcont', ?_⟩
  rcases hwhere with heq | ⟨_, hout⟩
  · rw [heq]; exact hstack.symm
  · simp only [Cpu.kernelStacks, hp, List.mem_cons, List.not_mem_nil, or_false, not_or] at hout
    exact hout.2

/-! ## The idle loop of a secondary processor -/

/-- A transition of processor `c` that schedules nothing: of the thread records it changes at
    most the continuation of a thread that it suspends, and of the history only how the current
    thread left user mode. -/
structure Still (c : CpuId) (s s' : State) : Prop where
  thread : ∀ u, s'.sched.thread u =
    { s.sched.thread u with kernelResumeSp := (s'.sched.thread u).kernelResumeSp }
  resumeSp : ∀ u sp, (s'.sched.thread u).kernelResumeSp = some sp →
    (s.sched.thread u).kernelResumeSp = some sp ∨
      ∃ n depth o fp, (s.cpu c).phase = .suspend u n depth o fp ∧ sp = fp.down depth
  rest : s'.sched = { s.sched with
    thread := s'.sched.thread, cpu := s'.sched.cpu, ipiPending := s'.sched.ipiPending
    lastUser := s'.sched.lastUser }
  lastUser : ∀ u, s.sched.current c ≠ some u → s'.sched.lastUser u = s.sched.lastUser u
  lockHeld : s'.lockHeld = s.lockHeld

theorem Still.process (h : Still c s s') : s'.sched.process = s.sched.process := by rw [h.rest]

theorem Still.active (h : Still c s s') : s'.sched.active = s.sched.active := by rw [h.rest]

/-- A still transition goes on without touching the thread records. -/
theorem Still.then_eq (h : Still c s s') (hrest : s''.sched = { s'.sched with
    cpu := s''.sched.cpu, ipiPending := s''.sched.ipiPending })
    (hlock : s''.lockHeld = s'.lockHeld) : Still c s s'' where
  thread u := by rw [hrest]; exact h.thread u
  resumeSp u sp hsp := by rw [hrest] at hsp; exact h.resumeSp u sp hsp
  rest := by rw [hrest, h.rest]
  lastUser u hu := by rw [hrest]; exact h.lastUser u hu
  lockHeld := hlock.trans h.lockHeld

/-- Transitions that leave the thread records alone are still. -/
theorem Still.of_eq (hrest : s'.sched = { s.sched with
    cpu := s'.sched.cpu, ipiPending := s'.sched.ipiPending }) (hlock : s'.lockHeld = s.lockHeld) :
    Still c s s' :=
  Still.then_eq ⟨fun _ => rfl, fun _ _ => .inl, rfl, fun _ _ => rfl, rfl⟩ hrest hlock

theorem takeTrap_still (k : TrapKind) (i : CpuId → Bool) :
    Still c s (takeTrap { s with sched := { s.sched with ipiPending := i } } c k) := by
  unfold takeTrap
  dsimp only
  split
  · exact .of_eq rfl rfl
  · unfold recordExit
    split
    · next t ht =>
      refine ⟨fun _ => rfl, fun _ _ => .inl, rfl, fun u hu => Function.update_of_ne ?_ _ _, rfl⟩
      rintro rfl
      exact hu ht
    · exact .of_eq rfl rfl

theorem saveContinuation_still {w n : ThreadRef} {depth : Nat} {o : Option StackAddr}
    (hp : (s.cpu c).phase = .suspend w n depth o fp) :
    Still c s (saveContinuation s fp w depth) where
  thread u := by
    rw [saveContinuation_sched]
    exact forall_modThread
      (P := fun u th => th = { s.sched.thread u with kernelResumeSp := th.kernelResumeSp })
      rfl (fun _ _ => rfl) u
  resumeSp u sp hsp := by
    rw [saveContinuation_sched] at hsp
    by_cases huw : u = w
    · subst huw
      exact .inr ⟨n, depth, o, fp, hp, by simpa using hsp.symm⟩
    · rw [modThread_thread_ne _ _ huw] at hsp
      exact .inl hsp
  rest := rfl
  lastUser _ _ := rfl
  lockHeld := rfl

theorem Still.resumed (h : Still c s s') : Still c s (resumeContinuation s' c sp) := by
  unfold resumeContinuation
  repeat' split
  all_goals exact h.then_eq rfl rfl

theorem retireFinalize_still (e : Env) :
    Still c s { s.modCpu e.cpu ({ · with phase := .main }) with
      sched := retireFinalize e (lockTaken e s.sched) } := by
  unfold retireFinalize
  dsimp only
  split <;> exact .of_eq rfl rfl

/-- What a transition does to the scheduler: a section, nothing, the handler of an interrupt
    taken while idle, or `kernel_scheduler_secondary_start`. -/
theorem Trans.sched_cases (h : Trans s a s') :
    (∃ fp x ex, runSection s a = some (fp, x, ex) ∧ s' = applySection s a.cpu fp x ex) ∨
      Still a.cpu s s' ∨
      (∃ i, s'.sched = idleInterrupt a.env i (lockTaken a.env s.sched) ∧
        s'.lockHeld = s.lockHeld) ∨
      s' = Kernel.secondaryStart s a.env := by
  cases h with
  | sect hsec => exact .inl ⟨_, _, _, hsec, rfl⟩
  | user _ _ => exact .inr (.inl (.of_eq rfl rfl))
  | trap _ _ => exact .inr (.inl (takeTrap_still _ _))
  | iret _ => exact .inr (.inl (.of_eq rfl rfl))
  | interrupt _ | interruptMain _ => exact .inr (.inr (.inl ⟨_, rfl, rfl⟩))
  | wakeMain _ | spinLeave _ _ => exact .inr (.inl (.of_eq rfl rfl))
  | suspendToUser hp => exact .inr (.inl ((saveContinuation_still hp).then_eq rfl rfl))
  | switchContinuation hp => exact .inr (.inl (saveContinuation_still hp).resumed)
  | resume _ => exact .inr (.inl (Still.of_eq rfl rfl).resumed)
  | start _ => exact .inr (.inl (.of_eq rfl rfl))
  | retire _ => exact .inr (.inl (retireFinalize_still a.env))
  | secondaryStart _ he _ => exact .inr (.inr (.inr he))

/-- Outside sections a transition that schedules wakes threads, and goes on as `Closes` says. -/
theorem Trans.closes (h : Trans s a s') :
    (∃ fp x ex, runSection s a = some (fp, x, ex) ∧ s' = applySection s a.cpu fp x ex) ∨
      Still a.cpu s s' ∨
      ∃ σ halts, MicroSteps .waking (lockTaken a.env s.sched) σ ∧
        Closes .waking a.env σ halts s'.sched ∧ s'.lockHeld = (s.lockHeld || halts) := by
  rcases h.sched_cases with hsec | hstill | ⟨i, hsched, hlock⟩ | rfl
  · exact .inl hsec
  · exact .inr (.inl hstill)
  · refine .inr (.inr ⟨_, false, idleInterrupt_waking a.env i _, hsched ▸ .stay, ?_⟩)
    rw [hlock, Bool.or_false]
  · exact .inr (.inr (secondaryStart_cases s a.env).closes)

/-- Transitions outside sections keep the signals of every process. -/
theorem step_signals (h : step s a = some s') :
    (∃ fp x ex, runSection s a = some (fp, x, ex) ∧ s' = applySection s a.cpu fp x ex) ∨
      ∀ p, (s'.sched.process p).signals = (s.sched.process p).signals := by
  obtain ⟨_, _, ht⟩ := step_trans h
  rcases ht.closes with hsec | hstill | ⟨σ, _, hm, hc, _⟩
  · exact .inl hsec
  · exact .inr fun p => by rw [hstill.process]
  · exact .inr fun p => (hc.signals_eq p).trans (hm.signals_eq p)

theorem ContAt.of_sched (h : ContAt s d n sp) (hf : SchedFrame c s.sched s'.sched)
    (hstack : s'.stack = s.stack) : ContAt s' d n sp := by
  obtain ⟨m, hm, haff, hk⟩ := h
  exact ⟨m, hm, by rw [hf.pinned m (by omega)]; exact haff, by rw [hstack]; exact hk⟩

/-- A dispatch by a secondary processor: the thread is ready, and what is still suspended was
    suspended before. -/
private theorem main_dispatch {σ' : Sched} (hs : Inv s) (honline : e.cpu < s.sched.cpuCount)
    (h : MicroSteps .waking (lockTaken e s.sched) σ) (hd : Dequeue e n σ σ') :
    SchedFrame e.cpu s.sched (setCurrent e (some n) σ') ∧
      Ready e.cpu n (setCurrent e (some n) σ') ∧
      (∀ u sp, u ≠ n → (σ'.thread u).cpuAffinity = e.cpu + 1 →
        (σ'.thread u).kernelResumeSp = some sp → ContAt s e.cpu u sp) ∧
      ∀ sp, (σ.thread n).kernelResumeSp = some sp → ContAt s e.cpu n sp := by
  have hframe := h.frame_locked
  have hhome : ∀ u, SameHome (s.sched.thread u) (σ.thread u) := h.moves.home
  refine ⟨hframe.trans hd.dispatch_frame.1,
    hd.ready (hframe.queue hs.queue) (by rw [hframe.count]; exact honline) fun p hp => ?_,
    fun u sp hu haff hsp => ?_, fun sp hsp => ?_⟩
  · rw [hframe.process n]
    exact hs.listed p n (hframe.threads p hp)
  · rw [hd.thread_ne hu] at haff hsp
    exact ((hs.cpu e.cpu).suspended u sp ((hhome u).affinity ▸ haff)
      ((hhome u).resumeSp ▸ hsp)).1
  · have hsp' : (s.sched.thread n).kernelResumeSp = some sp := (hhome n).resumeSp ▸ hsp
    refine ((hs.cpu e.cpu).suspended n sp ?_ hsp').1
    rcases hd.affinity with hzero | hc
    · rw [hs.fresh n ((hhome n).affinity ▸ hzero)] at hsp'
      cases hsp'
    · exact (hhome n).affinity ▸ hc

theorem MainStep.keeps (h : MainStep s e s') (hs : Inv s) (honline : e.cpu < s.sched.cpuCount) :
    Keeps s e.cpu s' := by
  have hok := hs.cpu e.cpu
  cases h with
  | @idle σ h =>
    refine hok.keeps (.mainIdle false) (h.frame_locked.trans (idleEnter_frame e σ)) rfl rfl
      h.moves.home (fun t ht => ?_) trivial (by simp [Cpu.kernelStacks])
    obtain ⟨hr, hn⟩ := hok.woken h (t := t)
      (by simpa [idleEnter, Sched.modCpu, Sched.current] using ht)
    exact ⟨hr.idleEnter, hn⟩
  | @halt σ σ' h hh =>
    refine hok.keeps .halted (h.frame_locked.trans (hh.schedFrame e.cpu)) rfl rfl
      (fun u => (h.moves.home u).trans (hh.home u)) (fun t ht => ?_) trivial
      (by simp [Cpu.kernelStacks])
    obtain ⟨hr, hn⟩ := hok.woken h ((hh.current e.cpu).symm.trans ht)
    exact ⟨hh.ready hr, (hh.home t).resumeSp.trans hn⟩
  | @start σ σ' n h hd hn =>
    obtain ⟨hframe, hready, hsusp, _⟩ := main_dispatch hs honline h hd
    refine .mk ⟨hframe, fun d hd => Function.update_of_ne hd _ _, fun _ _ => rfl⟩
      ⟨fun t ht => ?_, by rw [modCpu_cpu_self]; exact hready.current, fun u sp hu hsp => ?_⟩
    · obtain rfl := Option.some.inj (hready.current.symm.trans ht)
      exact ⟨hready, hd.resumeSp.trans hn⟩
    · have hun : u ≠ n := by
        rintro rfl
        have hnone : (σ'.thread u).kernelResumeSp = none := hd.resumeSp.trans hn
        rw [show (σ'.thread u).kernelResumeSp = some sp from hsp] at hnone
        cases hnone
      exact ⟨(hsusp u sp hun hu hsp).of_sched hframe rfl, by simp [Cpu.kernelStacks]⟩
  | @resume σ σ' n sp ptbr h hd hn =>
    obtain ⟨hframe, hready, hsusp, hcont⟩ := main_dispatch hs honline h hd
    have hframe' := hframe.trans (.modThread (f := ({ · with kernelResumeSp := none }))
      hready.affinity hready.affinity rfl rfl)
    have hready' : Ready e.cpu n ((setCurrent e (some n) σ').modThread n
        ({ · with kernelResumeSp := none })) :=
      ⟨hready.toPinned.frame (.modThread hready.affinity hready.affinity rfl rfl),
        hready.current, by simpa using hready.process,
        by simpa [KernelThread.Waiting] using hready.notWaiting⟩
    refine .mk ⟨hframe', fun d hd => Function.update_of_ne hd _ _, fun _ _ => rfl⟩
      ⟨fun t ht => ?_, ?_, fun u sp' hu hsp => ?_⟩
    · obtain rfl := Option.some.inj (hready'.current.symm.trans ht)
      exact ⟨hready', by simp⟩
    · rw [modCpu_cpu_self]
      exact ⟨n, hready'.current, (hcont sp hn).of_sched hframe' rfl⟩
    · have hun : u ≠ n := by rintro rfl; simp at hsp
      dsimp only at hu hsp
      rw [modThread_thread_ne _ _ hun] at hu hsp
      have hc := hsusp u sp' hun hu hsp
      refine ⟨hc.of_sched hframe' rfl, ?_⟩
      rw [modCpu_cpu_self]
      simp only [Cpu.kernelStacks, List.mem_singleton]
      exact fun heq => hun (hc.waiter_eq (hcont sp hn) heq)

/-- What every transition keeps that starts no thread over a suspended continuation. -/
theorem step_keeps (hs : Inv s) (hsafe : SwitchSafe s a) (h : step s a = some s') :
    Keeps s a.cpu s' := by
  obtain ⟨honline, _, ht⟩ := step_trans h
  cases ht with
  | sect hsec => exact ⟨section_frame hs hsec, section_cpuOk hs hsec⟩
  | user hp _ => exact user_ok hs hp _
  | @trap k i hp _ =>
    have hk : Keeps s a.cpu { s with sched := { s.sched with ipiPending := i } } :=
      MicroSteps.keeps (π := .waking) (Micro.ipi _ i fun _ _ => .inr trivial).steps (hs.cpu a.cpu)
        rfl rfl
    have htrap := takeTrap_ok (hs.step hk) hp k
    exact ⟨hk.frame.trans htrap.frame, htrap.cpuOk⟩
  | iret hp => exact iret_ok hs hp
  | interrupt hp => exact interrupt_ok hs hp _
  | interruptMain _ => exact interruptMain_ok hs _
  | wakeMain _ => exact wakeMain_ok hs
  | spinLeave hp _ => exact spinLeave_ok hs hp
  | suspendToUser hp => exact suspendToUser_ok hs hp hsafe
  | switchContinuation hp => exact switchContinuation_ok hs hp
  | resume hp => exact resume_ok hs hp
  | start hp => exact start_ok hs hp hsafe
  | retire _ => exact retire_ok hs
  | secondaryStart _ _ hmain => exact hmain.keeps hs honline

/-- A continuation is saved only by the assembly sequences that suspend a thread. -/
theorem step_resumeSp_some (hs : Inv s) (h : step s a = some s')
    (hsp : (s'.sched.thread u).kernelResumeSp = some sp) :
    (s.sched.thread u).kernelResumeSp = some sp ∨ ∃ n depth o fp,
      (s.cpu a.cpu).phase = .suspend u n depth o fp ∧ sp = fp.down depth := by
  obtain ⟨_, _, ht⟩ := step_trans h
  rcases ht.closes with ⟨fp, x, ex, hsec, rfl⟩ | hstill | ⟨σ, _, hm, hc, _⟩
  · obtain ⟨t, _, ho⟩ := runSection_outcome hs hsec
    exact .inl (ho.resumeSp_some hsp).1
  · exact hstill.resumeSp u sp hsp
  · have hhome := (hm.moves.home u).trans (hc.suspended hsp).1
    exact .inl (hhome.resumeSp.symm.trans hsp)

theorem step_inv (hs : Inv s) (hsafe : SwitchSafe s a) (h : step s a = some s') : Inv s' :=
  hs.step (step_keeps hs hsafe h)

end RiscMv.Kernel
