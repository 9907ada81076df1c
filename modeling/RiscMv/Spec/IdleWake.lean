import RiscMv.Kernel.IdleWait
import RiscMv.Spec.Boot
import RiscMv.Spec.StackSteps
import RiscMv.Spec.ToldSections

/-!
# No wake-up is lost

A processor that waits in `kernel_idle_wait` looked at the run queue under the big kernel lock and
found no thread for itself.  A thread that is queued for it later comes with an IPI, and an
interrupt that it takes makes it look again, wherever in `kernel_idle_wait` it is taken.

## Key results
- `step_goes`: what a transition of the system preserves
- `waitStep_attentive`: what a transition of a processor in `kernel_idle_wait` preserves
- `no_lost_wakeup`: in every reachable state
-/

namespace RiscMv.Kernel

/-- An IPI is pending for a processor that threads are queued for. -/
def Announced (d : CpuId) (s : Sched) : Prop :=
  ∀ t ∈ s.runQueue, (s.thread t).cpuAffinity = d + 1 → s.ipiPending d = true

/-- What every transition of the system preserves. -/
structure Steady (s : State) : Prop where
  owns : ∀ c, OwnsCurrent c s.sched
  waiter : ∀ c p fp woken, (s.cpu c).phase = .idle p fp woken → ∀ t, p.returns = some t →
    (s.sched.thread t).cpuAffinity = c + 1
  active : s.lockHeld = false → s.sched.active = true

variable {s s' : State} {a : Action} {c d : CpuId} {fp : StackAddr} {x : Sect} {ex : Exit}
  {σ σ' : Sched}

/-! ## Transitions with and without the big kernel lock -/

/-- A transition of processor `c` that leaves the others alone. -/
structure Leaves (c : CpuId) (s s' : State) : Prop where
  steady : Steady s'
  cpu : ∀ d, d ≠ c → s'.cpu d = s.cpu d
  announced : ∀ d, d ≠ c → Announced d s.sched → Announced d s'.sched

/-- It does so if the other processors are told of the threads queued for them. -/
theorem Leaves.of_tells (hs : Steady s) (ht : Tells c s.sched s'.sched)
    (hann : ∀ d, d ≠ c → Announced d s.sched → Announced d s'.sched)
    (hact : s'.lockHeld = false → s'.sched.active = true)
    (hwaiter : ∀ p fp woken, (s'.cpu c).phase = .idle p fp woken → ∀ t, p.returns = some t →
      (s'.sched.thread t).cpuAffinity = c + 1)
    (hcpu : ∀ d, d ≠ c → s'.cpu d = s.cpu d) : Leaves c s s' := by
  refine ⟨⟨fun d => ?_, fun d p fp woken hp t hret => ?_, hact⟩, hcpu, hann⟩
  · by_cases hd : d = c
    · rw [hd]
      exact ht.own (hs.owns c)
    · exact (hs.owns d).tells_other ht hd
  · by_cases hd : d = c
    · subst hd
      exact hwaiter p fp woken hp t hret
    · rw [hcpu d hd] at hp
      have haff := hs.waiter d p fp woken hp t hret
      rw [ht.pinned t (by omega), haff]

/-- A transition, and how its processor gets to idle: it did so before, or found no thread. -/
structure Goes (s : State) (a : Action) (s' : State) : Prop extends Leaves a.cpu s s' where
  found : (s'.cpu a.cpu).phase.isIdle = true →
    (∃ i, a.input = .interrupt i) ∨ Vacant a.cpu s'.sched

theorem Leaves.goes (h : Leaves a.cpu s s') (hp : (s'.cpu a.cpu).phase.isIdle = false) :
    Goes s a s' :=
  ⟨h, fun hidle => by cases hp.symm.trans hidle⟩

/-- A transition without the lock. -/
theorem Still.goes (h : Still a.cpu s s') (hs : Steady s) (hlocal : s'.sched.cpu = s.sched.cpu)
    (hipi : ∀ d, d ≠ a.cpu → s'.sched.ipiPending d = s.sched.ipiPending d)
    (hphase : (s'.cpu a.cpu).phase.isIdle = false) (hcpu : ∀ d, d ≠ a.cpu → s'.cpu d = s.cpu d) :
    Goes s a s' := by
  have haff : ∀ t, (s'.sched.thread t).cpuAffinity = (s.sched.thread t).cpuAffinity := by
    intro t
    rw [h.thread t]
  have hqueue : s'.sched.runQueue = s.sched.runQueue := by rw [h.rest]
  have hcur : ∀ d, s'.sched.current d = s.sched.current d := by
    intro d
    rw [Sched.current, hlocal]
    rfl
  have htells : Tells a.cpu s.sched s'.sched :=
    { pending := fun d hd hp => (hipi d hd).trans hp
      told := fun _ _ _ t ht h => .inr ⟨hqueue ▸ ht, haff t ▸ h⟩
      pinned := fun t _ => haff t
      others := fun d _ => hcur d
      own := fun hown t ht => (haff t).trans (hown t (hcur a.cpu ▸ ht)) }
  refine (Leaves.of_tells hs htells (fun d hd ha t ht h => ?_) (fun hl => ?_)
    (fun p fp woken hp => ?_) hcpu).goes hphase
  · rw [hipi d hd]
    exact ha t (hqueue ▸ ht) (haff t ▸ h)
  · rw [h.active]
    exact hs.active (h.lockHeld ▸ hl)
  · rw [hp] at hphase
    cases hphase

section

variable (hs : Steady s) (hl : s.lockHeld = false)
include hs hl

/-- A transition with the lock. -/
theorem Leaves.locked (ht : Tells c s.sched s'.sched)
    (hact : s'.lockHeld = false → s'.sched.active = true)
    (hwaiter : ∀ p fp woken, (s'.cpu c).phase = .idle p fp woken → ∀ t, p.returns = some t →
      (s'.sched.thread t).cpuAffinity = c + 1)
    (hcpu : ∀ d, d ≠ c → s'.cpu d = s.cpu d) : Leaves c s s' := by
  refine .of_tells hs ht (fun d hd ha t hmem haff => ?_) hact hwaiter hcpu
  rcases ht.told (hs.active hl) d hd t hmem haff with hipi | ⟨hmem', haff'⟩
  · exact hipi
  · exact ht.pending d hd (ha t hmem' haff')

/-- A transition with the lock that leaves the processor at a point which is not idle. -/
theorem Told.goes (ht : Told a.cpu s.sched s'.sched) (hp : (s'.cpu a.cpu).phase.isIdle = false)
    (hcpu : ∀ d, d ≠ a.cpu → s'.cpu d = s.cpu d) : Goes s a s' := by
  refine (Leaves.locked hs hl ht.toTells (fun _ => ht.active (hs.active hl)) ?_ hcpu).goes hp
  intro p fp woken h
  rw [h] at hp
  cases hp

end

theorem runSection_ending {r : Sect × Exit} (hs : Steady s)
    (h : runSection s a = some (fp, r)) : Ending a.cpu s.sched r := by
  have hlock : ∀ fp, Told a.cpu s.sched (Sect.enter s a.env fp).sched :=
    fun _ => lockTaken_told a.env s.sched
  have howns : ∀ fp, OwnsCurrent a.cpu (Sect.enter s a.env fp).sched :=
    fun fp => (hlock fp).own (hs.owns a.cpu)
  unfold runSection at h
  split at h
  · cases h
    exact Ending.after (trapHandler_ending (e := a.env) _ _ _ (howns fp)) (hlock fp)
  · next p _ _ hp =>
    cases h
    refine Ending.after (idleWake_ending (e := a.env) fun t ht => ?_) (hlock fp)
    exact (hlock fp).keeps (hs.waiter a.cpu p _ _ hp t ht)
  · cases h
    exact Ending.after (rendezvousSection_ending (e := a.env) _ _) (hlock fp)
  · next k _ _ =>
    cases h
    exact Ending.after (resumedSection_ending (e := a.env) k _ (howns k.framePointer))
      (hlock k.framePointer)
  · cases h

theorem Exit.phase_isIdle (h : (ex.phase fp).isIdle = true) : ∃ p, ex = .idle p := by
  cases ex with
  | idle p => exact ⟨p, rfl⟩
  | _ => cases h

theorem section_goes (hs : Steady s) (hl : s.lockHeld = false)
    (h : runSection s a = some (fp, x, ex)) : Goes s a (applySection s a.cpu fp x ex) := by
  have hend := runSection_ending hs h
  have hphase : ((applySection s a.cpu fp x ex).cpu a.cpu).phase = ex.phase fp := by
    rw [applySection_cpu_self]
  refine ⟨.locked hs hl hend.tells (fun hhalt => hend.active hhalt (hs.active hl)) ?_
    fun d hd => applySection_cpu_ne hd, ?_⟩
  · intro p fp' woken hp
    rw [hphase] at hp
    have hidle : (ex.phase fp).isIdle = true := by
      rw [hp]
      rfl
    obtain ⟨q, rfl⟩ := Exit.phase_isIdle hidle
    cases hp
    exact hend.waiter p rfl
  · intro hidle
    rw [hphase] at hidle
    obtain ⟨q, rfl⟩ := Exit.phase_isIdle hidle
    exact .inr (hend.empty q rfl)

theorem retireFinalize_told (e : Env) (σ : Sched) : Told e.cpu σ (retireFinalize e σ) := by
  have hclear : Told e.cpu σ (σ.modCpu e.cpu fun _ =>
      { currentThread := none, currentProcess := none, kernelStackThread := none,
        kernelStackProcess := none, idleActive := false }) :=
    .modCpu fun _ t ht => by simp [Sched.current, Sched.modCpu] at ht
  unfold retireFinalize
  dsimp only
  split
  · exact hclear
  · exact hclear.trans (sendIpi_micro 0 _).told

theorem secondaryStart_goes (hs : Steady s) (hl : s.lockHeld = false) :
    Goes s a (secondaryStart s a.env) := by
  have hlock := lockTaken_told a.env s.sched
  have hreap : Told a.cpu s.sched (schedulerReapDeferred (lockTaken a.env s.sched)) :=
    hlock.trans (reap_told a.cpu _)
  have hact : (lockTaken a.env s.sched).active = true := hlock.active (hs.active hl)
  unfold secondaryStart
  simp only [hact, Bool.not_true, Bool.false_eq_true, if_false]
  split
  · next σ hdeq =>
    have hturn := hreap.trans (schedulerDequeue_none hdeq).1.told
    split
    · -- the scheduler ends here, with the lock held
      refine Leaves.goes (.locked hs hl (.of_told hturn (finish_tells σ)) nofun ?_
        fun d hd => Function.update_of_ne hd _ _) ?_
      · intro p fp woken h
        simp [State.modCpu] at h
      · simp [State.modCpu, Phase.isIdle]
    · have hidle := hturn.trans (idleEnter_told a.env _)
      refine ⟨.locked hs hl hidle.toTells (fun _ => hidle.active (hs.active hl)) ?_
        fun d hd => Function.update_of_ne hd _ _, fun _ => .inr (schedulerDequeue_vacant hdeq)⟩
      intro p fp woken h
      simp [State.modCpu] at h
  · next n σ hdeq =>
    have hd := schedulerDequeue_some hdeq
    have hset : Told a.cpu σ (setCurrent a.env (some n) σ) :=
      setCurrent_told (e := a.env) (o := some n) fun u hu => by cases hu; exact hd.pinned
    have hcur := (hreap.trans hd.told).trans hset
    split
    · refine Told.goes hs hl (hcur.trans (.of_view (modThread_view rfl))) ?_
        fun d hd => Function.update_of_ne hd _ _
      simp [State.modCpu, Phase.isIdle]
    · refine Told.goes hs hl hcur ?_ fun d hd => Function.update_of_ne hd _ _
      simp [State.modCpu, Phase.isIdle]

/-! ## Runs of the system -/

theorem takeTrap_goes {k : TrapKind} {i : CpuId → Bool} (hs : Steady s)
    (hp : (s.cpu a.cpu).phase = .user) (hi : ∀ d, d ≠ a.cpu → i d = s.sched.ipiPending d) :
    Goes s a (takeTrap { s with sched := { s.sched with ipiPending := i } } a.cpu k) := by
  have hstill := takeTrap_still (s := s) (c := a.cpu) k i
  revert hstill
  unfold takeTrap
  dsimp only
  split
  · intro hstill
    exact hstill.goes hs rfl hi (by simp [hp, Phase.isIdle]) fun _ _ => rfl
  · intro hstill
    refine hstill.goes hs ?_ (fun d hd => ?_) (by simp [Phase.isIdle])
      fun d hd => Function.update_of_ne hd _ _
    · unfold recordExit
      split <;> rfl
    · rw [← hi d hd]
      unfold recordExit
      split <;> rfl

theorem resumeContinuation_goes {σ : State} {sp : StackAddr} (hs : Steady s)
    (h : Still a.cpu s (resumeContinuation σ a.cpu sp)) (hlocal : σ.sched.cpu = s.sched.cpu)
    (hipi : σ.sched.ipiPending = s.sched.ipiPending) (hcpu : σ.cpu = s.cpu) :
    Goes s a (resumeContinuation σ a.cpu sp) := by
  refine h.goes hs ?_ (fun d _ => ?_) ?_ fun d hd => ?_
  · rw [resumeContinuation_sched, hlocal]
  · rw [resumeContinuation_sched, hipi]
  · unfold resumeContinuation
    repeat' split
    all_goals simp [Phase.isIdle]
  · rw [← hcpu]
    unfold resumeContinuation
    repeat' split
    all_goals exact modCpu_cpu_ne _ _ hd

/-- The interrupt handlers that run in `kernel_idle_wait`. -/
theorem idleInterrupt_goes {ph : Phase} {i : IdleInterrupt} (hs : Steady s)
    (hl : s.lockHeld = false) (hin : a.input = .interrupt i)
    (hwaiter : ∀ p fp woken, ph = .idle p fp woken → ∀ t, p.returns = some t →
      (s.sched.thread t).cpuAffinity = a.cpu + 1) :
    Goes s a { s.modCpu a.cpu ({ · with phase := ph }) with
      sched := idleInterrupt a.env i (lockTaken a.env s.sched) } := by
  have hint := (lockTaken_told a.env s.sched).trans (idleInterrupt_told a.env i _)
  refine ⟨.locked hs hl hint.toTells (fun _ => hint.active (hs.active hl)) ?_
    fun d hd => Function.update_of_ne hd _ _, fun _ => .inl ⟨i, hin⟩⟩
  intro p fp woken hp t ht
  simp only [State.modCpu, Function.update_self] at hp
  exact hint.keeps (hwaiter p fp woken hp t ht)

theorem step_goes (hs : Steady s) (h : step s a = some s') : Goes s a s' := by
  have hl := step_lockHeld h
  have hne : ∀ (p : Cpu) d, d ≠ a.cpu → Function.update s.cpu a.cpu p d = s.cpu d :=
    fun p d hd => Function.update_of_ne hd p s.cpu
  obtain ⟨_, _, ht⟩ := step_trans h
  cases ht with
  | sect hsec => exact section_goes hs (section_unlocked h hsec) hsec
  | user hp _ _ =>
    exact Still.goes (.of_eq rfl rfl) hs rfl (fun _ _ => rfl) (by simp [hp, Phase.isIdle]) (hne _)
  | trap hp _ hi => exact takeTrap_goes hs hp hi
  | iret _ =>
    refine Still.goes (.of_eq rfl rfl) hs rfl (fun _ _ => rfl) ?_ (hne _)
    rw [trapRestore, modCpu_cpu_self]
    split <;> rfl
  | @interrupt p fp woken i hp hin =>
    refine idleInterrupt_goes hs (hl (hin ▸ rfl)) hin fun p' fp' woken' hp' => ?_
    cases hp'
    exact hs.waiter a.cpu p fp woken hp
  | interruptMain _ hin => exact idleInterrupt_goes hs (hl (hin ▸ rfl)) hin nofun
  | wakeMain _ hin =>
    exact Told.goes hs (hl (hin ▸ rfl)) (idleLeave_told a.env s.sched) (by simp [Phase.isIdle])
      (hne _)
  | spinLeave _ _ =>
    exact Still.goes (.of_eq rfl rfl) hs rfl (fun _ _ => rfl) (by simp [Phase.isIdle]) (hne _)
  | suspendToUser hp =>
    exact Still.goes ((saveContinuation_still hp).then_eq rfl rfl) hs rfl (fun _ _ => rfl)
      (by simp [startUser, Phase.isIdle]) (hne _)
  | switchContinuation hp =>
    exact resumeContinuation_goes hs (saveContinuation_still hp).resumed rfl rfl rfl
  | resume _ => exact resumeContinuation_goes hs (Still.of_eq rfl rfl).resumed rfl rfl rfl
  | start _ =>
    exact Still.goes (.of_eq rfl rfl) hs rfl (fun _ _ => rfl) (by simp [startUser, Phase.isIdle])
      (hne _)
  | retire _ hin =>
    have hretire := (lockTaken_told a.env s.sched).trans (retireFinalize_told a.env _)
    exact Told.goes hs (hl (hin ▸ rfl)) hretire (by simp [Phase.isIdle]) (hne _)
  | secondaryStart _ he _ hin =>
    rw [he]
    exact secondaryStart_goes hs (hl (hin ▸ rfl))

/-- A processor that starts to wait has found no thread for itself. -/
theorem Goes.announced_self (h : Goes s a s') (hin : ∀ i, a.input ≠ .interrupt i)
    (hidle : (s'.cpu a.cpu).phase.isIdle = true) : Announced a.cpu s'.sched := by
  rcases h.found hidle with ⟨i, hi⟩ | hnone
  · exact absurd hi (hin i)
  · exact fun t ht haff => absurd haff (hnone t ht)

/-! ## Processors in `kernel_idle_wait` -/

/-- The points of `kernel_idle_wait` that a processor can be at. -/
def IdleCpu.Ok (p : IdleCpu) : Prop :=
  match p.handler with
  | .none =>
    match p.pc with
    | .enter | .ret => p.interruptEnable = false ∧ p.waiting = false
    | .instruction => p.waiting = false
    | .resume => True
  | .entered _ pc => p.waiting = false ∧ (pc = .instruction ∨ pc = .resume)
  | .left pc => p.waiting = false ∧ pc = .resume

/-- Whether the processor has taken no interrupt since it looked at the run queue. -/
def IdleCpu.relies (p : IdleCpu) : Bool :=
  match p.handler with
  | .none => p.pc = .enter || p.pc = .instruction || p.waiting
  | _ => false

/-- Every processor that waits, or is about to, has been told of the threads queued for it. -/
structure Attentive (w : WaitState) : Prop where
  steady : Steady w.sys
  ok : ∀ c, (w.sys.cpu c).phase.isIdle = true → (w.idle c).Ok
  announced : ∀ c, (w.sys.cpu c).phase.isIdle = true → (w.idle c).relies = true →
    Announced c w.sys.sched

variable {w w' : WaitState} {p p' : IdleCpu} {i : IdleInterrupt}

theorem IdleCpu.call_ok : IdleCpu.call.Ok := ⟨rfl, rfl⟩

theorem IdleCpu.execute_ok (h : p.execute = some p') :
    p'.Ok ∧ (p'.relies = true → p.relies = true) := by
  unfold IdleCpu.execute at h
  split at h
  · next hh hw hpc =>
    cases h
    exact ⟨by simp [IdleCpu.Ok, hh, hw], fun _ => by simp [IdleCpu.relies, hh, hpc]⟩
  · next hh hw hpc =>
    cases h
    exact ⟨by simp [IdleCpu.Ok, hh], fun _ => by simp [IdleCpu.relies, hh, hpc]⟩
  · next hh hw hpc =>
    cases h
    exact ⟨by simp [IdleCpu.Ok, hh, hw], by simp [IdleCpu.relies, hh, hw]⟩
  · cases h

/-- An interrupt is taken only where interrupts are enabled: at WAIT or after it. -/
theorem IdleCpu.interrupt_ok (h : p.interrupt i = some p') (hp : p.Ok) :
    p'.Ok ∧ p'.relies = false := by
  unfold IdleCpu.interrupt at h
  split at h
  · next hh hie =>
    cases h
    refine ⟨?_, by simp [IdleCpu.relies]⟩
    cases hpc : p.pc with
    | enter => simp [IdleCpu.Ok, hh, hpc, hie] at hp
    | instruction => simp [IdleCpu.Ok]
    | resume => simp [IdleCpu.Ok]
    | ret => simp [IdleCpu.Ok, hh, hpc, hie] at hp
  · cases h

theorem IdleCpu.iret_ok (h : p.iret = some p') (hp : p.Ok) : p'.Ok ∧ p'.relies = false := by
  unfold IdleCpu.iret at h
  split at h
  · next pc hh =>
    cases h
    have hpc : pc = .resume := by
      simp only [IdleCpu.Ok, hh] at hp
      exact hp.2
    subst hpc
    exact ⟨by simp [IdleCpu.Ok], by simp [IdleCpu.relies]⟩
  · cases h

/-- Interrupts are taken here only in `kernel_idle_wait`. -/
theorem interrupt_isIdle {copy : SpaceRef → UInt64 → Bool}
    (h : step s ⟨c, .interrupt i, copy⟩ = some s') : (s.cpu c).phase.isIdle = true := by
  cases hp : (s.cpu c).phase with
  | idle q fp woken => rfl
  | mainIdle woken => rfl
  | _ => simp [step, runSection, machineStep, hp] at h

/-- The processor goes on in `kernel_idle_wait`. -/
theorem Attentive.goes_on (h : Attentive w) (hl : Leaves c w.sys s) (hok : p.Ok)
    (hrelies : p.relies = true → Announced c s.sched) :
    Attentive { w.setIdle c p with sys := s } := by
  refine ⟨hl.steady, fun d hidle => ?_, fun d hidle hrel => ?_⟩
  · by_cases hd : d = c
    · simpa [WaitState.setIdle, hd] using hok
    · rw [hl.cpu d hd] at hidle
      simpa [WaitState.setIdle, hd] using h.ok d hidle
  · by_cases hd : d = c
    · subst hd
      simp only [WaitState.setIdle, Function.update_self] at hrel
      exact hrelies hrel
    · rw [hl.cpu d hd] at hidle
      simp only [WaitState.setIdle, Function.update_of_ne hd] at hrel
      exact hl.announced d hd (h.announced d hidle hrel)

/-- The processor was not in `kernel_idle_wait`, or has left it. -/
theorem Attentive.after (h : Attentive w) (hl : Leaves c w.sys s)
    (hfound : (s.cpu c).phase.isIdle = true → Announced c s.sched) : Attentive (w.after c s) := by
  unfold WaitState.after
  split
  · next hidle => exact h.goes_on hl IdleCpu.call_ok fun _ => hfound hidle
  · next hnot =>
    refine ⟨hl.steady, fun d hidle => ?_, fun d hidle hrel => ?_⟩
    · have hd : d ≠ c := by rintro rfl; exact hnot hidle
      rw [hl.cpu d hd] at hidle
      exact h.ok d hidle
    · have hd : d ≠ c := by rintro rfl; exact hnot hidle
      rw [hl.cpu d hd] at hidle
      exact hl.announced d hd (h.announced d hidle hrel)

theorem Leaves.refl (hs : Steady s) (c : CpuId) : Leaves c s s :=
  ⟨hs, fun _ _ => rfl, fun _ _ ha => ha⟩

theorem takeIpi_leaves (hs : Steady s) (c : CpuId) (i : IdleInterrupt) :
    Leaves c s (s.takeIpi c i) := by
  cases i with
  | ipi =>
    refine ⟨⟨hs.owns, hs.waiter, hs.active⟩, fun _ _ => rfl, fun d hd ha t ht haff => ?_⟩
    simpa [State.takeIpi, hd] using ha t ht haff
  | timer => exact .refl hs c
  | device d => exact .refl hs c

/-- `kernel_idle_wait` returns after an interrupt was taken there. -/
theorem wake_leaves (hs : Steady s) (c : CpuId) :
    Leaves c s (s.modCpu c fun p => { p with phase := p.phase.wake }) := by
  refine ⟨⟨hs.owns, fun d q fp woken hp => ?_, hs.active⟩, fun d hd => modCpu_cpu_ne s _ hd,
    fun _ _ ha => ha⟩
  by_cases hd : d = c
  · subst hd
    rw [modCpu_cpu_self] at hp
    cases hphase : (s.cpu d).phase with
    | idle q' fp' woken' =>
      simp only [hphase, Phase.wake, Phase.idle.injEq] at hp
      obtain ⟨rfl, _, _⟩ := hp
      exact hs.waiter d q' fp' woken' hphase
    | _ => simp [hphase, Phase.wake] at hp
  · rw [modCpu_cpu_ne s _ hd] at hp
    exact hs.waiter d q fp woken hp

theorem Leaves.trans {s'' : State} (h : Leaves c s s') (h' : Leaves c s' s'') : Leaves c s s'' :=
  ⟨h'.steady, fun d hd => (h'.cpu d hd).trans (h.cpu d hd),
    fun d hd ha => h'.announced d hd (h.announced d hd ha)⟩

/-- Whether a processor that calls `kernel_idle_wait` has looked at the run queue. -/
def WaitAction.looksFirst : WaitAction → Bool
  | .ended _ => false
  | _ => true

theorem waitStep_attentive {b : WaitAction} (h : Attentive w) (hb : b.looksFirst = true)
    (hstep : waitStep w b = some w') : Attentive w' := by
  cases b with
  | system a =>
    simp only [waitStep] at hstep
    split at hstep
    · cases hstep
    · next hin =>
      obtain ⟨sys, hsys, rfl⟩ := Option.map_eq_some_iff.mp hstep
      have hgoes := step_goes h.steady hsys
      refine h.after hgoes.toLeaves (hgoes.announced_self fun i hi => hin ?_)
      rw [hi]
      rfl
  | execute c =>
    simp only [waitStep] at hstep
    split at hstep
    · next hidle =>
      obtain ⟨p, hp, rfl⟩ := Option.map_eq_some_iff.mp hstep
      obtain ⟨hok, hrel⟩ := IdleCpu.execute_ok hp
      exact h.goes_on (.refl h.steady c) hok fun hr => h.announced c hidle (hrel hr)
    · cases hstep
  | interrupt c i =>
    simp only [waitStep] at hstep
    split at hstep
    · next hcond =>
      obtain ⟨p, hp, rfl⟩ := Option.map_eq_some_iff.mp hstep
      obtain ⟨hok, hrel⟩ := IdleCpu.interrupt_ok hp (h.ok c hcond.1)
      exact h.goes_on (takeIpi_leaves h.steady c i) hok fun hr => by simp [hrel] at hr
    · cases hstep
  | handler c copy =>
    simp only [waitStep] at hstep
    split at hstep
    · next i pc hh =>
      obtain ⟨sys, hsys, rfl⟩ := Option.map_eq_some_iff.mp hstep
      -- the handler runs only for a processor in `kernel_idle_wait`
      have hidle : (w.sys.cpu c).phase.isIdle = true := interrupt_isIdle hsys
      refine h.goes_on (step_goes h.steady hsys).toLeaves ?_ nofun
      have hok := h.ok c hidle
      simp only [IdleCpu.Ok, hh] at hok
      obtain ⟨hw, hpc⟩ := hok
      refine ⟨hw, ?_⟩
      rcases hpc with rfl | rfl <;> rfl
    · cases hstep
  | iret c =>
    simp only [waitStep] at hstep
    split at hstep
    · next hidle =>
      obtain ⟨p, hp, rfl⟩ := Option.map_eq_some_iff.mp hstep
      obtain ⟨hok, hrel⟩ := IdleCpu.iret_ok hp (h.ok c hidle)
      exact h.goes_on (.refl h.steady c) hok fun hr => by simp [hrel] at hr
    · cases hstep
  | ret c copy =>
    simp only [waitStep] at hstep
    split at hstep
    · obtain ⟨sys, hsys, rfl⟩ := Option.map_eq_some_iff.mp hstep
      have hwake := wake_leaves h.steady c
      have hgoes := step_goes hwake.steady hsys
      exact h.after (hwake.trans hgoes.toLeaves) (hgoes.announced_self nofun)
    · cases hstep
  | ended c => cases hb

/-! ## Runs -/

theorem Boot.steady {t : ThreadRef} (h : Boot s t) : Steady s := by
  refine ⟨fun c u hu => ?_, fun c q fp woken hp => ?_, fun _ => h.active⟩
  · by_cases hc : c = 0
    · subst hc
      simp only [Sched.current, h.bootCpu, Option.some.injEq] at hu
      rw [← hu]
      exact h.first.2.2
    · rw [Sched.current, (h.secondaryCpu c hc).1] at hu
      cases hu
  · by_cases hc : c = 0
    · rw [hc, h.boot] at hp
      cases hp
    · rcases h.secondary c hc with hmain | ⟨woken', hmain⟩
      · rw [hmain] at hp
        cases hp
      · rw [hmain] at hp
        cases hp

/-- No thread in the run queue is pinned to a processor yet. -/
theorem Boot.announced {t : ThreadRef} (h : Boot s t) (c : CpuId) : Announced c s.sched := by
  intro u hu haff
  have hne : u ≠ t := by
    rintro rfl
    rw [h.runQueue.queued, h.first.2.1] at hu
    cases hu
  rw [(h.other u hne).1] at haff
  cases haff

/-- No processor waits without a pending interrupt while a runnable thread that is pinned to it
    is in the run queue. -/
theorem no_lost_wakeup {w₀ : WaitState} {t₀ : ThreadRef} (hboot : Boot w₀.sys t₀)
    (hidle : ∀ c, (w₀.sys.cpu c).phase.isIdle = true → (w₀.idle c).Ok)
    (hrun : Run waitStep (fun _ b => b.looksFirst = true) w₀ w) (c : CpuId) :
    ¬ (w.waits c = true ∧ w.sys.sched.ipiPending c = false ∧
      ∃ t ∈ w.sys.sched.runQueue, (w.sys.sched.thread t).state = .runnable ∧
        (w.sys.sched.thread t).cpuAffinity = c + 1) := by
  have hinv : Attentive w := hrun.invariant
    ⟨hboot.steady, hidle, fun c _ _ => hboot.announced c⟩
    fun _ _ _ h hb hstep => waitStep_attentive h hb hstep
  rintro ⟨hwaits, hipi, t, hmem, _, haff⟩
  simp only [WaitState.waits, Bool.and_eq_true] at hwaits
  obtain ⟨hphase, hwaiting⟩ := hwaits
  -- a processor that waits is in no handler
  have hrelies : (w.idle c).relies = true := by
    have hok := hinv.ok c hphase
    cases hh : (w.idle c).handler with
    | none => simp [IdleCpu.relies, hh, hwaiting]
    | entered i pc | left pc => simp [IdleCpu.Ok, hh, hwaiting] at hok
  have hpending := hinv.announced c hphase hrelies t hmem haff
  rw [hpending] at hipi
  cases hipi

/-- Two processors and two threads of one process. -/
def twoProcessors : BootConfig := ⟨2, [0, 0], fun _ => none⟩

/-- The context of a thread that calls sleep for one millisecond. -/
def sleepContext : UserContext :=
  { BootConfig.context with registers := fun r => if r = 0 then 13 else if r = 1 then 1 else 0 }

/-- The second processor runs a thread that sleeps, and waits; the first processor's timer
    interrupt then wakes the thread. -/
def sleepAndWake : List WaitAction :=
  [.system (secondAct .secondaryStart), .system (secondAct .switch),
    .system (secondAct (.trap .ipi)), .system (secondAct (.dispatch (.done 0) .none)),
    .system (secondAct .iret), .system (secondAct (.user sleepContext)),
    .system (secondAct (.trap .syscall)), .system (secondAct (.dispatch (.done 0) .none)),
    .execute 1, .execute 1,
    .system (bootAct .switch), .system (bootAct (.trap .timer)),
    .system (bootAct (.dispatch (.done 0) .none))]

/-- The woken thread is queued for the processor that waits, and its IPI is pending. -/
theorem no_lost_wakeup_sleeper :
    ∃ w, Run waitStep (fun _ b => b.looksFirst = true) ⟨twoProcessors.state, fun _ => .call⟩ w ∧
      (w.waits 1 = true ∧ w.sys.sched.runQueue = [1] ∧
        (w.sys.sched.thread 1).state = .runnable ∧ (w.sys.sched.thread 1).cpuAffinity = 2) ∧
      w.sys.sched.ipiPending 1 = true := by
  obtain ⟨w, hrun, hw⟩ := Run.exists_of_guarded waitStep (fun _ b => b.looksFirst)
    ⟨twoProcessors.state, fun _ => .call⟩ sleepAndWake
    (fun w => w.waits 1 && w.sys.sched.runQueue == [1] &&
      (w.sys.sched.thread 1).state == .runnable && (w.sys.sched.thread 1).cpuAffinity == 2)
    (by decide +kernel)
  simp only [Bool.and_eq_true, beq_iff_eq] at hw
  obtain ⟨⟨⟨hwaits, hqueue⟩, hstate⟩, haff⟩ := hw
  refine ⟨w, hrun, ⟨hwaits, hqueue, hstate, haff⟩, ?_⟩
  have hboot : Boot (WaitState.mk twoProcessors.state fun _ => .call).sys 0 :=
    twoProcessors.state_boot (by decide)
  have hnone := no_lost_wakeup hboot (fun _ _ => IdleCpu.call_ok) hrun 1
  by_contra hipi
  exact hnone ⟨hwaits, by simpa using hipi, 1, by simp [hqueue], hstate, haff⟩

end RiscMv.Kernel
