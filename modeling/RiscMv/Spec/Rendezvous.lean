import RiscMv.Spec.Alive

/-!
# At most one processor stops a process

`kernel_scheduler_exec` and `kernel_scheduler_fault` tell the other threads of their process to
stop and spin until no processor works for them.  Such a thread stops at its next trap, but a
thread that comes out of a wait in the kernel is not asked again: its system call goes on, and
may start a second stop of the same process.  In runs without that (`ObeysStop`) the thread that
spins is the only one of its process that is not told to stop.

## Key results
- `Outcome.signals`, `Outcome.signals_ne`: which sections change what a process tells its threads
- `SoleStop.step`: the invariant is preserved
-/

namespace RiscMv.Kernel

/-- The thread whose system call goes on in the section after it has waited. -/
def continuesCall (s : State) (a : Action) : Option ThreadRef :=
  match a.input, (s.cpu a.cpu).phase with
  | .resumed _, .reacquire k => some k.waiter
  | .wake, .idle p _ true =>
    match p, (schedulerDequeueOrIdle a.env
        (schedulerReapDeferred (idleLeave a.env (lockTaken a.env s.sched)))).2 with
    | .exit _, _ | .fault _, _ => none
    | p, .none => some p.waiter
    | .blockKernel w _ _, .next n => if n = w then some w else none
    | _, _ => none
  | _, _ => none

/-- A thread whose system call goes on after a wait is not told to stop. -/
def ObeysStop (s : State) (a : Action) : Prop :=
  ∀ t, continuesCall s a = some t → ¬ (s.sched.process (s.sched.thread t).process).Stops t

/-- Whether the section ends in a rendezvous loop. -/
def Exit.isSpin : Exit → Bool
  | .spin _ => true
  | _ => false

variable {π : Perm} {s s' : State} {σ σ' : Sched} {c d : CpuId} {t u n : ThreadRef} {p : ProcessRef}
  {sp fp : StackAddr} {e : Env} {a : Action} {x y : Sect} {ex : Exit} {r : Sect × Exit}
  {v w : Rendezvous} {left : Bool}

/-! ## What a process tells its threads -/

/-- A process tells its threads to stop by its signals. -/
theorem stops_iff_of_signals {q q' : KernelProcess} (h : q'.signals = q.signals) :
    q'.Stops u ↔ q.Stops u := by
  simp only [KernelProcess.signals, Prod.mk.injEq] at h
  simp [KernelProcess.Stops, h.2.1, h.2.2]

theorem Act.signals_ne (h : Act π e t σ σ') (hp : p ≠ (σ.thread t).process) :
    (σ'.process p).signals = (σ.process p).signals := by
  cases h with
  | micro h => exact h.steps.signals_eq p
  | process q f hq _ _ _ _ =>
    have hpq : p ≠ q := by rw [← hq]; exact hp
    simp [Sched.modProcess, hpq]
  | redispatch h _ => rw [h.process_eq]
  | _ => rfl

/-- A section changes the signals of no other process than that of its thread. -/
theorem Acts.signals_ne (h : Acts π e t σ σ') (hp : p ≠ (σ.thread t).process) :
    (σ'.process p).signals = (σ.process p).signals := by
  induction h with
  | refl => rfl
  | tail h h' ih =>
    refine (h'.signals_ne ?_).trans ih
    rw [(h.moves.home t).process]
    exact hp

theorem Outcome.signals_ne (o : Outcome π e t x r) (hp : p ≠ (x.sched.thread t).process) :
    (r.1.sched.process p).signals = (x.sched.process p).signals := by
  obtain ⟨σ, h, hc⟩ := o.closes
  exact (hc.signals_eq p).trans (h.signals_ne hp)

/-- Only the start of a rendezvous and the end of exec change signals. -/
theorem Outcome.signals (o : Outcome π e t x r) (hclear : ¬ π.clear) (hr : r.2.isSpin = false)
    (p : ProcessRef) : (r.1.sched.process p).signals = (x.sched.process p).signals := by
  have left : ∀ {σ σ' b}, Left π e t x σ → Closes π e σ b σ' →
      (σ'.process p).signals = (x.sched.process p).signals :=
    fun hl hc => (hc.signals_eq p).trans (hl.signals p)
  cases o with
  | kept _ h => exact h.signals p
  | result _ _ _ _ _ _ hsignals => exact hsignals p
  | exec _ h => exact absurd h hclear
  | stopped h => exact h.signals p
  | load _ hl hd hn hsched => rw [hsched]; exact left hl (.start hd hn)
  | resume hl hd _ hsched => rw [hsched]; exact left hl (.take hd)
  | suspend _ _ hl hd _ hn hsched => rw [hsched]; exact left hl (.start hd hn)
  | switch _ _ hl hd _ _ hsched => rw [hsched]; exact left hl (.take hd)
  | idle _ _ hl hsched =>
    rw [hsched]
    simpa [idleEnter, setCurrent, Sched.modCpu] using hl.signals p
  | spin => cases hr
  | retire h => exact h.signals p
  | halt h hh => exact (hh.signals_eq p).trans (h.signals p)

/-! ## Who starts a rendezvous -/

theorem schedulerLoad_isSpin (previous : Option ThreadRef) (n : ThreadRef) (y : Sect) :
    (schedulerLoad previous n y).2.isSpin = false := by
  unfold schedulerLoad
  split <;> rfl

theorem blockKernelSwitch_isSpin (t n : ThreadRef) (depth : Nat) (y : Sect) :
    (blockKernelSwitch t n depth y).2.isSpin = false := by
  unfold blockKernelSwitch
  split <;> rfl

theorem exitDequeued_isSpin (q : Pending) (d : Dequeued) :
    (exitDequeued e t q y d).2.isSpin = false := by
  cases d with
  | idle => rfl
  | next n => exact schedulerLoad_isSpin _ _ _
  | none =>
    unfold exitDequeued schedulerCompleteOrWait
    dsimp only
    split <;> rfl

/-- A function that waits in the run queue loop starts a rendezvous only if its thread goes on
    with its system call. -/
theorem idleWake_isSpin {q : Pending} (hin : a.input = .wake)
    (hp : (s.cpu a.cpu).phase = .idle q fp true)
    (h : (idleWake a.env fp q (.enter s a.env fp)).2.isSpin = true) :
    continuesCall s a = some q.waiter := by
  simp only [continuesCall, hin, hp]
  simp only [idleWake, dequeueThen, Sect.on, Sect.enter] at h
  generalize schedulerDequeueOrIdle a.env (schedulerReapDeferred (idleLeave a.env
    (lockTaken a.env s.sched))) = r at h ⊢
  obtain ⟨σ, d⟩ := r
  have load : ∀ {prev n y}, (schedulerLoad prev n y).2.isSpin = true → False := by
    intro prev n y hload
    rw [schedulerLoad_isSpin] at hload
    cases hload
  cases q with
  | exit t | fault t => simp [pendingDequeued, exitDequeued_isSpin] at h
  | blockCurrent t caller | waitpid t | join t target =>
    cases d with
    | none => rfl
    | idle => cases h
    | next n => exact (load h).elim
  | blockKernel t depth k =>
    cases d with
    | none => rfl
    | idle => cases h
    | next n =>
      simp only [pendingDequeued, blockKernelDequeued] at h
      split at h
      · rw [blockKernelSwitch_isSpin] at h
        cases h
      · next hn =>
        have hn : n = t := not_not.mp hn
        simp [hn, Pending.waiter]

/-- The handler of a trap leaves a thread that is told to stop with the frame that retires it. -/
theorem trapHandler_isSpin {k : TrapKind} {script : Script} {event : DeviceEvent}
    (h : (trapHandler e k fp script event x).2.isSpin = true) : stopCurrent e x = none := by
  cases k with
  | device =>
    simp only [trapHandler, kernelDevicesInterrupt] at h
    split at h <;> cases h
  | syscall =>
    simp only [trapHandler, kernelSyscallDispatch] at h
    split at h
    · cases h
    · assumption
  | exception cause address info =>
    simp only [trapHandler, kernelExceptionDispatch] at h
    split at h
    · cases h
    · assumption
  | timer =>
    simp only [trapHandler, kernelSchedulerTimer] at h
    split at h
    · cases h
    · assumption
  | ipi =>
    simp only [trapHandler, kernelSchedulerIpi] at h
    split at h
    · cases h
    · assumption

theorem rendezvousSection_isSpin (e : Env) (fp : StackAddr) (v : Rendezvous) (x : Sect) :
    (rendezvousSection e fp v x).2.isSpin = false := by
  cases v with
  | exec => rfl
  | fault t p =>
    unfold rendezvousSection faultRendezvous exitTail
    dsimp only
    split
    · exact exitDequeued_isSpin _ _
    · rfl

/-- A thread that starts a rendezvous is not told to stop, unless its call goes on after a
    wait. -/
theorem section_spin_cases (hs : Inv s) (h : runSection s a = some (fp, x, .spin v))
    (hstart : SectionStart s a.cpu fp t) :
    continuesCall s a = some t ∨ ¬ (s.sched.process (s.sched.thread t).process).Stops t := by
  have hthread := hstart.thread
  unfold sectionThread at hthread
  unfold runSection at h
  split at h
  · next script event k fp' hin hp =>
    rw [hp] at hthread
    have hready := ((hs.cpu a.cpu).current t hthread).1
    simp only [Option.some.injEq, Prod.mk.injEq] at h
    obtain ⟨rfl, h⟩ := h
    have hspin : (trapHandler a.env k fp' script event (.enter s a.env fp')).2.isSpin = true := by
      rw [h]
      rfl
    exact .inr (stopCurrent_none (Ready.enter (e := a.env) hready) (trapHandler_isSpin hspin))
  · next q fp' hin hp =>
    rw [hp] at hthread
    simp only [Option.some.injEq, Prod.mk.injEq] at h hthread
    obtain ⟨rfl, h⟩ := h
    rw [← hthread]
    exact .inl (idleWake_isSpin hin hp (by rw [h]; rfl))
  · next w fp' hin hp =>
    simp only [Option.some.injEq, Prod.mk.injEq] at h
    have hspin := rendezvousSection_isSpin a.env fp' w (.enter s a.env fp')
    rw [h.2] at hspin
    cases hspin
  · next script k hin hp =>
    rw [hp] at hthread
    simp only [Option.some.injEq] at hthread
    exact .inl (by simp [continuesCall, hin, hp, hthread])
  · cases h

/-- A thread that is told to stop starts no rendezvous. -/
theorem section_spin_not_stops (hs : Inv s) (hobey : ObeysStop s a)
    (h : runSection s a = some (fp, x, .spin v)) (hstart : SectionStart s a.cpu fp t) :
    ¬ (s.sched.process (s.sched.thread t).process).Stops t :=
  (section_spin_cases hs h hstart).elim (hobey t) id

/-! ## The invariant -/

/-- The steps that keep the stops of a process apart. -/
structure StopsInOrder (s : State) (a : Action) : Prop where
  safe : SwitchSafe s a
  obeys : ObeysStop s a

/-- A thread in a rendezvous loop is the only one of its process that is not told to stop, and
    no other processor spins for the process. -/
structure SoleStop (s : State) : Prop extends Inv s where
  stops : ∀ c v fp left, (s.cpu c).phase = .spin v fp left →
    ∀ u, u ≠ v.thread → (s.sched.process v.process).Stops u
  sole : ∀ c d v w fp fp' left left', c ≠ d → (s.cpu c).phase = .spin v fp left →
    (s.cpu d).phase = .spin w fp' left' → v.process ≠ w.process

theorem Inv.spin (hs : Inv s) (hp : (s.cpu c).phase = .spin v fp left) :
    s.sched.current c = some v.thread ∧ v.process = (s.sched.thread v.thread).process := by
  have hok := (hs.cpu c).phase
  rw [hp] at hok
  exact hok.2

/-- While a processor spins for a process, the threads of the process that other processors
    work for are told to stop. -/
theorem SoleStop.stops_of_spin (hs : SoleStop s) (hp : (s.cpu d).phase = .spin w fp left)
    (ht : (s.sched.thread t).cpuAffinity = c + 1) (hcd : c ≠ d)
    (hproc : w.process = (s.sched.thread t).process) :
    (s.sched.process (s.sched.thread t).process).Stops t := by
  have hd := ((hs.cpu d).current _ (hs.toInv.spin hp).1).1.affinity
  rw [← hproc]
  refine hs.stops d w fp left hp t ?_
  rintro rfl
  exact hcd (Nat.succ.inj (ht.symm.trans hd))

/-- The processor enters a rendezvous loop by a section, or was in it before. -/
theorem step_spin_cases (h : step s a = some s') (hp : (s'.cpu a.cpu).phase = .spin v fp left) :
    (∃ x, runSection s a = some (fp, x, .spin v) ∧ s' = applySection s a.cpu fp x (.spin v)) ∨
      s'.sched = s.sched ∧ ∃ left', (s.cpu a.cpu).phase = .spin v fp left' := by
  obtain ⟨_, _, ht⟩ := step_trans h
  cases ht with
  | @sect fp' x ex hsec =>
    rw [applySection_cpu_self] at hp
    cases ex with
    | spin w =>
      cases hp
      exact .inl ⟨x, hsec, rfl⟩
    | _ => cases hp
  | spinLeave hold =>
    rw [modCpu_cpu_self] at hp
    cases hp
    exact .inr ⟨rfl, _, hold⟩
  | user hold =>
    rw [modCpu_cpu_self, hold] at hp
    cases hp
  | @trap k i hold =>
    rcases takeTrap_phase hold k i with hph | hph <;> cases hph.symm.trans hp
  | iret =>
    unfold trapRestore at hp
    dsimp only at hp
    rw [modCpu_cpu_self] at hp
    split at hp <;> cases hp
  | switchContinuation | resume =>
    unfold resumeContinuation at hp
    repeat' split at hp
    all_goals rw [modCpu_cpu_self] at hp; cases hp
  | secondaryStart _ _ hmain =>
    cases hmain <;> rw [Action.env_cpu, modCpu_cpu_self] at hp <;> cases hp
  | suspendToUser | start => cases startUser_phase.symm.trans hp
  | _ => rw [modCpu_cpu_self] at hp; cases hp

/-- A section leaves the signals of a process alone that another processor spins for. -/
theorem SoleStop.section_signals (hs : SoleStop s) (hobey : ObeysStop s a)
    (h : runSection s a = some (fp, x, ex)) {fp' : StackAddr} (hd : d ≠ a.cpu)
    (hw : (s.cpu d).phase = .spin w fp' left) :
    (x.sched.process w.process).signals = (s.sched.process w.process).signals := by
  obtain ⟨t, hstart, ho⟩ := runSection_outcome hs.toInv h
  by_cases hproc : w.process = (s.sched.thread t).process
  · have hclear : ¬ (sectionPerm s a fp t).clear := by
      intro hclear
      have hthread := hstart.thread
      unfold sectionThread at hthread
      simp only [sectionPerm] at hclear
      split at hclear
      · next hp =>
        rw [hp] at hthread
        have hv := (hs.toInv.spin hp).2
        rw [Option.some.inj hthread] at hv
        exact hs.sole _ _ _ _ _ _ _ _ hd.symm hp hw (hv.trans hproc.symm)
      · exact hclear
    refine ho.signals hclear ?_ w.process
    cases ex with
    | spin v =>
      -- the thread would be told to stop
      have hstops := hs.stops_of_spin hw hstart.pinned.affinity hd.symm hproc
      exact absurd hstops (section_spin_not_stops hs.toInv hobey h hstart)
    | _ => rfl
  · exact ho.signals_ne hproc

/-- The transitions of a processor leave the signals of a process alone that another processor
    spins for. -/
theorem SoleStop.step_signals_of_spin (hs : SoleStop s) (hobey : ObeysStop s a)
    (h : Kernel.step s a = some s') (hd : d ≠ a.cpu) (hw : (s.cpu d).phase = .spin w fp left) :
    (s'.sched.process w.process).signals = (s.sched.process w.process).signals := by
  rcases step_signals h with ⟨fp', x, ex, hsec, rfl⟩ | hsignals
  · exact hs.section_signals hobey hsec hd hw
  · exact hsignals w.process

/-- Every such transition keeps the stops of a process apart. -/
theorem SoleStop.step (hs : SoleStop s) (hok : StopsInOrder s a) (h : Kernel.step s a = some s') :
    SoleStop s' := by
  have hk := step_keeps hs.toInv hok.safe h
  have hinv := hs.toInv.step hk
  have hother : ∀ {d w fp left}, d ≠ a.cpu → (s'.cpu d).phase = .spin w fp left →
      (s.cpu d).phase = .spin w fp left := by
    intro d w fp left hd hw
    rwa [hk.frame.cpu d hd] at hw
  -- a rendezvous that starts now is for another process than those that run
  have hnew : ∀ {v w fp fp' left left' d}, d ≠ a.cpu → (s'.cpu a.cpu).phase = .spin v fp left →
      (s'.cpu d).phase = .spin w fp' left' → v.process ≠ w.process := by
    intro v w fp fp' left left' d hd hv hw heq
    have hw' := hother hd hw
    rcases step_spin_cases h hv with ⟨x, hsec, rfl⟩ | ⟨_, left'', hold⟩
    · obtain ⟨t, hstart, ho⟩ := runSection_outcome hs.toInv hsec
      have hproc : v.process = (s.sched.thread t).process := by
        cases ho with
        | spin _ _ hp hret => exact hp.trans (hret.acts.moves.home t).process
      exact section_spin_not_stops hs.toInv hok.obeys hsec hstart
        (hs.stops_of_spin hw' hstart.pinned.affinity hd.symm (heq.symm.trans hproc))
    · exact hs.sole _ _ _ _ _ _ _ _ hd.symm hold hw' heq
  refine ⟨hinv, fun c v fp left hv u hu => ?_, fun c d v w fp fp' left left' hcd hv hw => ?_⟩
  · by_cases hc : c = a.cpu
    · subst hc
      rcases step_spin_cases h hv with ⟨x, hsec, rfl⟩ | ⟨hsched, left', hold⟩
      · obtain ⟨t, hstart, ho⟩ := runSection_outcome hs.toInv hsec
        cases ho with
        | spin ht _ _ _ _ _ hstop => exact hstop u (by rw [← ht]; exact hu)
      · rw [hsched]
        exact hs.stops _ _ _ _ hold u hu
    · have hv := hother hc hv
      exact (stops_iff_of_signals (hs.step_signals_of_spin hok.obeys h hc hv)).mpr
        (hs.stops c v fp left hv u hu)
  · by_cases hc : c = a.cpu
    · subst hc
      exact hnew hcd.symm hv hw
    · by_cases hd : d = a.cpu
      · subst hd
        exact (hnew hc hw hv).symm
      · exact hs.sole c d v w fp fp' left left' hcd (hother hc hv) (hother hd hw)

/-! ## Runs -/

theorem Boot.soleStop (h : Boot s t) : SoleStop s := by
  have hspin : ∀ {c v fp left}, (s.cpu c).phase ≠ .spin v fp left := by
    intro c v fp left
    by_cases hc : c = 0
    · rw [hc, h.boot]
      exact nofun
    · rcases h.secondary c hc with hp | ⟨woken, hp⟩ <;> rw [hp] <;> exact nofun
  exact ⟨h.inv, fun _ _ _ _ hv => absurd hv hspin, fun _ _ _ _ _ _ _ _ _ hv => absurd hv hspin⟩

/-- In every run in which no thread goes on with a system call after it was told to stop, a
    processor in a rendezvous loop is the only one that spins for its process, and all other
    threads of the process are told to stop. -/
theorem rendezvous_sole {s₀ : State} {t₀ : ThreadRef} {left : Bool} (hb : Boot s₀ t₀)
    (hr : Run step StopsInOrder s₀ s) (hp : (s.cpu c).phase = .spin v fp left) :
    (∀ u, u ≠ v.thread → (s.sched.process v.process).Stops u) ∧
      ∀ d w fp' left', (s.cpu d).phase = .spin w fp' left' → w.process = v.process → d = c := by
  have hs : SoleStop s := hr.invariant hb.soleStop fun _ _ _ hs hok h => hs.step hok h
  refine ⟨hs.stops c v fp left hp, fun d w fp' left' hw heq => ?_⟩
  by_contra hdc
  exact hs.sole d c w v fp' fp left' left hdc hw hp heq

/-- The second processor faults and spins while the first one runs another thread of the
    process. -/
theorem rendezvous_sole_threeThreads : ∃ s v fp left, Run step StopsInOrder threeThreads.state s ∧
    (s.cpu 1).phase = .spin v fp left ∧ v.thread = 1 ∧
    (s.sched.process v.process).Stops 0 ∧
    ∀ d w fp' left', (s.cpu d).phase = .spin w fp' left' → w.process = v.process → d = 1 := by
  have h₁ : Run step StopsInOrder threeThreads.state _ :=
    Run.refl.tail (a := bootAct .switch) ⟨nofun, nofun⟩ rfl
  have h₂ := h₁.tail (a := secondAct .secondaryStart) ⟨trivial, nofun⟩ rfl
  have h₃ := h₂.tail (a := secondAct .switch)
    ⟨fun u => match u with | 0 => nofun | 1 => nofun | _ + 2 => nofun, nofun⟩ rfl
  have h₄ := h₃.tail (a := secondAct (.trap nullLoad)) ⟨trivial, nofun⟩ rfl
  have h₅ := h₄.tail (a := secondAct (.dispatch (.done 0) .none)) ⟨trivial, nofun⟩ rfl
  obtain ⟨hstops, hsole⟩ := rendezvous_sole (c := 1) (threeThreads.state_boot Nat.two_pos) h₅ rfl
  exact ⟨_, _, _, _, h₅, rfl, rfl, hstops 0 nofun, hsole⟩

/-- The first thread waits for the disk and is resumed; before it takes the lock again, the second
    thread faults on the other processor. -/
def resumedInFault : List Action :=
  [bootAct .switch, secondAct .secondaryStart, secondAct .switch,
    bootAct (.user (userContext false 12)), bootAct (.trap .syscall),
    bootAct (.dispatch (.block .block 0 0 64 (.done 0)) .none), bootAct .switch,
    bootAct (.trap .device), bootAct (.dispatch (.done 0) (.wakeOne .block 0)), bootAct .iret,
    bootAct (.trap .timer), bootAct (.dispatch (.done 0) .none), bootAct .switch,
    secondAct (.trap nullLoad), secondAct (.dispatch (.done 0) .none)]

/-- The first thread goes on with an exec then. -/
def doubleStop : List Action :=
  resumedInFault ++ [bootAct (.resumed (.exec ⟨1, BootConfig.context⟩))]

/-- Both processors spin for one process, each waiting for the other's thread. -/
def bothSpin (s : State) : Bool :=
  match (s.cpu 0).phase, (s.cpu 1).phase with
  | .spin v _ false, .spin w _ false => v.process == w.process && v.thread != w.thread &&
      (step s (bootAct .spinLeave)).isNone && (step s (secondAct .spinLeave)).isNone
  | _, _ => false

theorem doubleStop_spins : ∃ s v w fp fp', Boot threeThreads.state 0 ∧
    Run step (fun _ _ => True) threeThreads.state s ∧ (s.cpu 0).phase = .spin v fp false ∧
    (s.cpu 1).phase = .spin w fp' false ∧ v.process = w.process ∧ v.thread ≠ w.thread ∧
    step s (bootAct .spinLeave) = none ∧ step s (secondAct .spinLeave) = none := by
  obtain ⟨s, hr, hs⟩ := Run.exists_of_runList step threeThreads.state doubleStop bothSpin
    (by decide +kernel)
  unfold bothSpin at hs
  split at hs
  · next v fp w fp' hv hw =>
    simp only [Bool.and_eq_true, beq_iff_eq, bne_iff_ne, Option.isNone_iff_eq_none] at hs
    obtain ⟨⟨⟨hproc, hthread⟩, hboot⟩, hsecond⟩ := hs
    exact ⟨s, v, w, fp, fp', threeThreads.state_boot Nat.two_pos, hr, hv, hw, hproc, hthread,
      hboot, hsecond⟩
  · cases hs

end RiscMv.Kernel
