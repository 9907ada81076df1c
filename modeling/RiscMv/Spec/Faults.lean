import RiscMv.Spec.Alive

/-!
# User faults end the faulting process and nothing else

`exception_active` is set when an exception is delivered and cleared only by an IRET through a
frame with the exception bit.  The fault path keeps that frame through its rendezvous and while
it idles, but a processor that leaves it by resuming a suspended continuation never returns
through the frame.  In runs without that (`FaultSafe`) the flag is set only while the processor
handles a fault.

## Key results
- `Outcome.spares`: the sections of a fault end no other process
- `Contained.step`: the invariant is preserved
- `Contained.faultContained`: what a step from a state with the invariant does with a fault
-/

namespace RiscMv.Kernel

/-- From `σ` to `σ'` no process except `p` ends, and no thread of another process. -/
structure Spares (p : ProcessRef) (σ σ' : Sched) : Prop where
  home : ∀ u, (σ'.thread u).process = (σ.thread u).process
  thread : ∀ u, (σ.thread u).process ≠ p → (σ'.thread u).state = .zombie →
    (σ.thread u).state = .zombie
  process : ∀ q, q ≠ p → (σ'.process q).state = (σ.process q).state ∧
    (σ'.process q).signals = (σ.process q).signals

variable {π : Perm} {s s' : State} {σ σ' σ'' : Sched} {c d : CpuId} {t u n : ThreadRef}
  {p : ProcessRef} {sp fp : StackAddr} {e : Env} {a : Action} {x y : Sect} {ex : Exit}
  {r : Sect × Exit} {q : Pending}

theorem Spares.refl (p : ProcessRef) (σ : Sched) : Spares p σ σ :=
  ⟨fun _ => rfl, fun _ _ => id, fun _ _ => ⟨rfl, rfl⟩⟩

theorem Spares.trans (h : Spares p σ σ') (h' : Spares p σ' σ'') : Spares p σ σ'' where
  home u := (h'.home u).trans (h.home u)
  thread u hu hz := h.thread u hu (h'.thread u (by rw [h.home u]; exact hu) hz)
  process q hq := ⟨(h'.process q hq).1.trans (h.process q hq).1,
    (h'.process q hq).2.trans (h.process q hq).2⟩

/-- Code that leaves the thread and process records alone. -/
theorem Spares.of_eq (hthread : σ'.thread = σ.thread) (hprocess : σ'.process = σ.process) :
    Spares p σ σ' :=
  ⟨fun u => by rw [hthread], fun u _ => by rw [hthread]; exact id,
    fun q _ => by rw [hprocess]; exact ⟨rfl, rfl⟩⟩

theorem lockTaken_spares (p : ProcessRef) (e : Env) (σ : Sched) : Spares p σ (lockTaken e σ) :=
  .of_eq rfl rfl

/-- An update of a thread record that keeps its process and its state. -/
theorem Spares.modThread {f : KernelThread → KernelThread}
    (hprocess : (f (σ.thread t)).process = (σ.thread t).process)
    (hstate : (f (σ.thread t)).state = (σ.thread t).state) : Spares p σ (σ.modThread t f) where
  home u := forall_modThread (P := fun u th => th.process = (σ.thread u).process) hprocess
    (fun _ _ => rfl) u
  thread u _ hz := by
    rwa [forall_modThread (P := fun u th => th.state = (σ.thread u).state) hstate
      (fun _ _ => rfl) u] at hz
  process _ _ := ⟨rfl, rfl⟩

/-! ## The sections of a fault -/

theorem Micro.zombie (h : Micro π σ σ') (hcall : ¬ π.call) (hk : ¬ π.kill u)
    (hz : (σ'.thread u).state = .zombie) : (σ.thread u).state = .zombie := by
  rcases h.state_cases u with heq | ⟨_, hr⟩ | ⟨_, hkill | ⟨hc, _⟩⟩ | ⟨hdead, _⟩
  · exact heq.symm.trans hz
  · cases hr.symm.trans hz
  · exact absurd hkill hk
  · exact absurd hc hcall
  · cases hdead.symm.trans hz

theorem MicroSteps.spares (h : MicroSteps π σ σ') (hcall : ¬ π.call)
    (hk : ∀ u, π.kill u → (σ.thread u).process = p) : Spares p σ σ' where
  home u := (h.moves.home u).process
  thread u hu hz := by
    have hk : ¬ π.kill u := fun hku => hu (hk u hku)
    exact h.lift (R := fun σ σ' => (σ'.thread u).state = .zombie → (σ.thread u).state = .zombie)
      (fun _ => id) (fun h h' => h ∘ h') (fun h => h.zombie hcall hk) hz
  process q _ := ⟨h.processState_eq q, h.signals_eq q⟩

theorem Dequeue.spares (h : Dequeue e n σ σ') : Spares p σ σ' where
  home u := by
    by_cases hu : u = n
    · obtain ⟨queue, _, _, _, rfl⟩ := h.eq
      subst hu
      simp
    · rw [h.thread_ne hu]
  thread u _ hz := by
    by_cases hu : u = n
    · subst hu
      rw [h.state_eq] at hz
      cases hz
    · rwa [h.thread_ne hu] at hz
  process q _ := by rw [h.process_eq]; exact ⟨rfl, rfl⟩

theorem Act.spares (h : Act π e t σ σ') (ht : (σ.thread t).process = p) (hcall : ¬ π.call)
    (hk : ∀ u, π.kill u → (σ.thread u).process = p) : Spares p σ σ' := by
  cases h with
  | micro h => exact h.steps.spares hcall hk
  | self f home _ _ =>
    -- the section's own thread belongs to the process that ends
    refine ⟨fun u => ?_, fun u hu hz => ?_, fun q _ => ⟨rfl, rfl⟩⟩
    · exact forall_modThread (P := fun u th => th.process = (σ.thread u).process) home.process
        (fun _ _ => rfl) u
    · have hut : u ≠ t := by
        rintro rfl
        exact hu ht
      rwa [modThread_thread_ne σ f hut] at hz
  | process q f hq _ _ _ _ =>
    refine ⟨fun _ => rfl, fun _ _ => id, fun q' hne => ?_⟩
    have hqq : q' ≠ q := fun heq => hne (heq.trans (hq.symm.trans ht))
    simp [Sched.modProcess, hqq]
  | redispatch h _ => exact h.spares
  | _ => exact .of_eq rfl rfl

/-- A section that serves no system call ends no process except that of its thread. -/
theorem Acts.spares (h : Acts π e t σ σ') (ht : (σ.thread t).process = p) (hcall : ¬ π.call)
    (hk : ∀ u, π.kill u → (σ.thread u).process = p) : Spares p σ σ' := by
  induction h with
  | refl => exact .refl p σ
  | tail _ h' ih =>
    exact ih.trans (h'.spares ((ih.home t).trans ht) hcall
      fun u hu => (ih.home u).trans (hk u hu))

theorem Closes.spares {b : Bool} (h : Closes π e σ b σ') (hcall : ¬ π.call)
    (hk : ∀ u, π.kill u → (σ.thread u).process = p) : Spares p σ σ' := by
  have dispatched : ∀ {n σ'}, Dequeue e n σ σ' → Spares p σ (setCurrent e (some n) σ') :=
    fun hd => hd.spares.trans (.of_eq rfl rfl)
  cases h with
  | stay => exact .refl p σ
  | idle => exact .of_eq rfl rfl
  | start hd _ => exact dispatched hd
  | take hd => exact (dispatched hd).trans (.modThread rfl rfl)
  | halt h =>
    cases h with
    | panic => exact .refl p σ
    | finish hm =>
      have hoff : Spares p σ { σ with active := false } := .of_eq rfl rfl
      exact hoff.trans (hm.spares hcall hk)

theorem Outcome.spares (o : Outcome π e t x r) (ht : (x.sched.thread t).process = p)
    (hcall : ¬ π.call) (hk : ∀ u, π.kill u → (x.sched.thread u).process = p) :
    Spares p x.sched r.1.sched := by
  obtain ⟨σ, h, hc⟩ := o.closes
  have hs := h.spares ht hcall hk
  exact hs.trans (hc.spares hcall fun u hu => (hs.home u).trans (hk u hu))

/-! ## The exception flag -/

/-- The processor handles a fault of user code. -/
def Phase.HandlesFault : Phase → Prop
  | .trap k _ => k.isException = true
  | .spin (.fault _ _) _ _ => True
  | .idle (.fault _) _ _ => True
  | _ => False

/-- Where a processor can be while `exception_active` is set: in the handler of a fault, with
    the exception bit in the trap frame, or halted.  Only the boot processor idles there. -/
def ExceptionPhase (s : State) (c : CpuId) : Phase → Prop
  | .trap k fp => k.isException = true ∧ (s.stack fp.stack).frame.flags.exceptionFrame = true
  | .spin (.fault _ _) fp _ => (s.stack fp.stack).frame.flags.exceptionFrame = true
  | .idle (.fault _) fp _ => c = 0 ∧ (s.stack fp.stack).frame.flags.exceptionFrame = true
  | .restore fp => (s.stack fp.stack).frame.flags.exceptionFrame = true
  | .halted => True
  | _ => False

/-- No thread that the processor may find in the run queue has a suspended continuation. -/
def NoContinuation (s : State) (c : CpuId) : Prop :=
  ∀ n, (s.sched.thread n).Waiting →
    ((s.sched.thread n).cpuAffinity = 0 ∨ (s.sched.thread n).cpuAffinity = c + 1) →
    (s.sched.thread n).kernelResumeSp = none

/-- When the boot processor looks for a thread at the end of a fault, it finds none with a
    suspended continuation.  The other processors retire instead. -/
def FaultDispatch (s : State) (a : Action) : Prop :=
  match (s.cpu a.cpu).phase with
  | .spin (.fault _ _) _ true => a.cpu = 0 → NoContinuation s a.cpu
  | .idle (.fault _) _ true => NoContinuation s a.cpu
  | _ => True

/-- The steps that keep faults contained. -/
structure FaultSafe (s : State) (a : Action) : Prop where
  safe : SwitchSafe s a
  alone : ExecAlone s a
  dispatch : FaultDispatch s a

/-- The exception flag is set only in the handler of a fault, and no exception has stopped the
    machine. -/
structure Contained (s : State) : Prop extends Lively s where
  exception : ∀ c, (s.cpu c).exceptionActive = true → ExceptionPhase s c (s.cpu c).phase
  running : s.stopped = false

theorem ExceptionPhase.frame {ph : Phase} (h : ExceptionPhase s d ph) (hok : PhaseOk s d ph)
    (hf : Frame c s s') (hd : d ≠ c) : ExceptionPhase s' d ph := by
  have bit : ∀ {fp}, FrameAt s.sched d fp → (s.stack fp.stack).frame.flags.exceptionFrame = true →
      (s'.stack fp.stack).frame.flags.exceptionFrame = true := by
    intro fp hfp hbit
    rw [hfp.stack_eq hf hd]
    exact hbit
  cases ph with
  | trap k fp => exact ⟨h.1, bit hok.2 h.2⟩
  | restore fp => exact bit hok.1 h
  | spin v fp left =>
    cases v with
    | fault => exact bit hok.1 h
    | exec => exact h
  | idle p fp woken =>
    cases p with
    | fault => exact ⟨h.1, bit hok.1 h.2⟩
    | _ => exact h
  | _ => exact h

/-! ## What the fault path ends in -/

theorem stopCurrent_exceptionFrame (h : stopCurrent e x = some y) :
    y.frame.flags.exceptionFrame = x.frame.flags.exceptionFrame := by
  unfold stopCurrent at h
  split at h
  · cases h
  · dsimp only at h
    split at h
    · cases h
    · cases h
      rfl

theorem schedulerLoad_exits (previous : Option ThreadRef) (n : ThreadRef) (y : Sect) :
    (schedulerLoad previous n y).1.frame.flags.exceptionFrame = y.frame.flags.exceptionFrame ∧
      ((schedulerLoad previous n y).2 = .load n ∨
        ∃ sp, (schedulerLoad previous n y).2 = .resume sp) := by
  unfold schedulerLoad
  split
  · next sp _ => exact ⟨by simp [Sect.modThread, Sect.on], .inr ⟨sp, rfl⟩⟩
  · exact ⟨by simp [loadedFrame], .inl rfl⟩

/-- The ways in which the fault path of the boot processor gives up the processor. -/
theorem exitDequeued_exits (hboot : e.cpu = 0) (d : Dequeued) :
    (exitDequeued e t q y d).1.frame.flags.exceptionFrame = y.frame.flags.exceptionFrame ∧
      ((exitDequeued e t q y d).2 = .idle q ∨ (exitDequeued e t q y d).2 = .halt ∨
        (∃ n, (exitDequeued e t q y d).2 = .load n) ∨
        ∃ sp, (exitDequeued e t q y d).2 = .resume sp) := by
  cases d with
  | idle => exact ⟨rfl, .inl rfl⟩
  | none => simp [exitDequeued, schedulerCompleteOrWait, isBootCpu, hboot, Sect.on]
  | next n =>
    obtain ⟨hframe, hexit⟩ := schedulerLoad_exits (some t) n (y.on (setCurrent e (some n)))
    refine ⟨hframe, .inr (.inr ?_)⟩
    rcases hexit with hload | hresume
    · exact .inl ⟨n, hload⟩
    · exact .inr hresume

theorem dequeueThen_exits (hboot : e.cpu = 0) (h : dequeueThen e y (exitDequeued e t q) = (x, ex)) :
    x.frame.flags.exceptionFrame = y.frame.flags.exceptionFrame ∧
      (ex = .idle q ∨ ex = .halt ∨ (∃ n, ex = .load n) ∨ ∃ sp, ex = .resume sp) := by
  have hexits := exitDequeued_exits (t := t) (q := q)
    (y := { y with sched := (schedulerDequeueOrIdle e y.sched).1 }) hboot
    (schedulerDequeueOrIdle e y.sched).2
  unfold dequeueThen at h
  rw [h] at hexits
  exact hexits

/-- Without a waiting continuation a section resumes none. -/
theorem section_no_resume (hs : Inv s) (hnone : NoContinuation s a.cpu)
    (h : runSection s a = some (fp, x, .resume sp)) : False := by
  obtain ⟨t, hstart, ho⟩ := runSection_outcome hs h
  cases ho with
  | @resume _ n σ σ' _ hl hd hn _ _ =>
    have hmoves := hl.acts.moves
    have hsp : (s.sched.thread n).kernelResumeSp = some sp := (hmoves.home n).resumeSp.symm.trans hn
    by_cases hnt : n = t
    · rw [hnt, hstart.resumeSp] at hsp
      cases hsp
    · -- the thread waited before the section
      have hwait : (σ.thread n).Waiting := .inr (.inr ((hl.pinned.queue.queued n).mp hd.mem))
      have haff : (σ.thread n).cpuAffinity = (s.sched.thread n).cpuAffinity :=
        (hmoves.home n).affinity
      have hnone := hnone n ((hmoves.thread n fun h => hnt (Option.some.inj h)).waiting hwait)
        (by rw [← haff]; exact hd.affinity)
      rw [hsp] at hnone
      cases hnone

/-- The end of the fault path on the boot processor keeps the exception flag tied to the
    frame. -/
theorem exit_exceptionPhase {t : ThreadRef} (hq : q = .fault t) (hboot : a.cpu = 0)
    (hbit : x.frame.flags.exceptionFrame = true)
    (hexit : ex = .idle q ∨ ex = .halt ∨ (∃ n, ex = .load n) ∨ ∃ sp, ex = .resume sp)
    (hres : ∀ sp, ex ≠ .resume sp) :
    ExceptionPhase (applySection s a.cpu fp x ex) a.cpu (ex.phase fp) := by
  subst hq
  rcases hexit with rfl | rfl | ⟨n, rfl⟩ | ⟨sp, rfl⟩
  · exact ⟨hboot, by rw [applySection_frame]; exact hbit⟩
  · trivial
  · show ((applySection s a.cpu fp x _).stack fp.stack).frame.flags.exceptionFrame = true
    rw [applySection_frame]
    exact hbit
  · exact absurd rfl (hres sp)

theorem section_exceptionPhase (hs : Inv s) (hdisp : FaultDispatch s a)
    (h : runSection s a = some (fp, x, ex))
    (hexc : ExceptionPhase s a.cpu (s.cpu a.cpu).phase) :
    ExceptionPhase (applySection s a.cpu fp x ex) a.cpu (ex.phase fp) := by
  have hres : NoContinuation s a.cpu → ∀ sp, ex ≠ .resume sp := by
    rintro hnone sp rfl
    exact section_no_resume hs hnone h
  unfold FaultDispatch at hdisp
  unfold runSection at h
  split at h
  · next script event k fp' hin hp =>
    rw [hp] at hexc
    simp only [Option.some.injEq, Prod.mk.injEq] at h
    obtain ⟨rfl, h⟩ := h
    obtain ⟨hk, hbit⟩ := hexc
    cases k with
    | exception cause address info =>
      simp only [trapHandler, kernelExceptionDispatch] at h
      split at h
      · next y hy =>
        cases h
        show ((applySection s a.cpu fp' x _).stack fp'.stack).frame.flags.exceptionFrame = true
        rw [applySection_frame, stopCurrent_exceptionFrame hy]
        exact hbit
      · split at h
        · cases h
          show ((applySection s a.cpu fp' _ _).stack fp'.stack).frame.flags.exceptionFrame = true
          rw [applySection_frame]
          exact hbit
        · cases h
          trivial
    | _ => cases hk
  · next p fp' hin hp =>
    rw [hp] at hexc hdisp
    simp only [Option.some.injEq, Prod.mk.injEq] at h
    obtain ⟨rfl, h⟩ := h
    cases p with
    | fault t =>
      obtain ⟨hboot, hbit⟩ := hexc
      obtain ⟨hframe, hexit⟩ := dequeueThen_exits (e := a.env) (t := t) (q := .fault t) hboot h
      exact exit_exceptionPhase rfl hboot (hframe.trans hbit) hexit (hres hdisp)
    | _ => exact hexc.elim
  · next v fp' hin hp =>
    rw [hp] at hexc hdisp
    simp only [Option.some.injEq, Prod.mk.injEq] at h
    obtain ⟨rfl, h⟩ := h
    cases v with
    | fault t p =>
      simp only [rendezvousSection, faultRendezvous, exitTail] at h
      split at h
      · next hboot =>
        have hboot : a.cpu = 0 := by simpa [isBootCpu] using hboot
        obtain ⟨hframe, hexit⟩ := dequeueThen_exits (e := a.env) (t := t) (q := .fault t) hboot h
        exact exit_exceptionPhase rfl hboot (hframe.trans hexc) hexit (hres (hdisp hboot))
      · cases h
        show ((applySection s a.cpu fp' _ _).stack fp'.stack).frame.flags.exceptionFrame = true
        rw [applySection_frame]
        exact hexc
    | exec => exact hexc.elim
  · next script k hin hp =>
    rw [hp] at hexc
    exact hexc.elim
  · cases h

/-! ## The invariant -/

/-- The trap frame carries the exception bit exactly if the trap is an exception. -/
theorem takeTrap_exception (hactive : (s.cpu c).exceptionActive = false) (k : TrapKind) :
    (takeTrap s c k).stopped = s.stopped ∧
      ((takeTrap s c k).cpu c).phase = .trap k (trapFramePointer (s.cpu c).ksp) ∧
      (((takeTrap s c k).cpu c).exceptionActive = true →
        ExceptionPhase (takeTrap s c k) c ((takeTrap s c k).cpu c).phase) := by
  have hphase : ((takeTrap s c k).cpu c).phase = .trap k (trapFramePointer (s.cpu c).ksp) := by
    simp [takeTrap, hactive, State.modStack]
  refine ⟨by simp [takeTrap, hactive, State.modCpu, State.modStack], hphase, fun hexc => ?_⟩
  have hk : k.isException = true := by
    simpa [takeTrap, hactive, State.modCpu, State.modStack] using hexc
  rw [hphase]
  refine ⟨hk, ?_⟩
  simp [takeTrap, hactive, hk, State.modCpu, State.modStack, TrapFrame.ofUser, trapFramePointer,
    StackAddr.down]

theorem resumeContinuation_exceptionActive :
    ((resumeContinuation s c sp).cpu d).exceptionActive = (s.cpu d).exceptionActive := by
  unfold resumeContinuation
  repeat' split
  all_goals
    by_cases hd : d = c
    · simp [hd, State.modStack]
    · simp [hd, State.modCpu, State.modStack]

theorem resumeContinuation_stopped : (resumeContinuation s c sp).stopped = s.stopped := by
  unfold resumeContinuation
  repeat' split
  all_goals rfl

theorem step_exceptionPhase (hs : Contained s) (hdisp : FaultDispatch s a)
    (h : step s a = some s') (hexc : (s'.cpu a.cpu).exceptionActive = true) :
    ExceptionPhase s' a.cpu (s'.cpu a.cpu).phase := by
  have hold := hs.exception a.cpu
  have off : ∀ {ph}, (s.cpu a.cpu).phase = ph → ¬ ExceptionPhase s a.cpu ph →
      (s.cpu a.cpu).exceptionActive = false := by
    intro ph hp hnot
    exact Bool.eq_false_iff.mpr fun hactive => hnot (hp ▸ hold hactive)
  obtain ⟨_, _, ht⟩ := step_trans h
  cases ht with
  | sect hsec =>
    rw [applySection_cpu_self] at hexc ⊢
    exact section_exceptionPhase hs.toInv hdisp hsec (hold hexc)
  | user hp _ =>
    rw [modCpu_cpu_self] at hexc
    cases (off hp id).symm.trans hexc
  | @trap k i hp _ =>
    exact (takeTrap_exception (s := { s with sched := { s.sched with ipiPending := i } })
      (off hp id) k).2.2 hexc
  | @iret fp hp =>
    -- the frame of a fault carries the exception bit, so this IRET clears the flag
    have hclear : ((trapRestore s a.cpu fp).cpu a.cpu).exceptionActive =
        ((s.cpu a.cpu).exceptionActive && !(s.stack fp.stack).frame.flags.exceptionFrame) := by
      unfold trapRestore
      dsimp only
      rw [modCpu_cpu_self]
      split <;> rfl
    rw [hclear, Bool.and_eq_true] at hexc
    have hbit := hold hexc.1
    rw [hp] at hbit
    rw [show (s.stack fp.stack).frame.flags.exceptionFrame = true from hbit] at hexc
    simp at hexc
  | @interrupt q fp woken i hp =>
    rw [modCpu_cpu_self] at hexc ⊢
    have hphase := hold hexc
    rw [hp] at hphase
    cases q with
    | fault => exact hphase
    | _ => exact hphase.elim
  | @spinLeave v fp hp _ =>
    rw [modCpu_cpu_self] at hexc ⊢
    have hphase := hold hexc
    rw [hp] at hphase
    cases v with
    | fault => exact hphase
    | exec => exact hphase.elim
  | @suspendToUser w n depth fp hp =>
    have hexc : (s.cpu a.cpu).exceptionActive = true := by
      simpa [startUser, startFlags, State.modStack, saveContinuation] using hexc
    cases (off hp id).symm.trans hexc
  | @switchContinuation w n depth sp fp hp =>
    rw [resumeContinuation_exceptionActive] at hexc
    cases (off hp id).symm.trans hexc
  | resume hp =>
    rw [resumeContinuation_exceptionActive] at hexc
    cases (off hp id).symm.trans hexc
  | start hp =>
    have hexc : (s.cpu a.cpu).exceptionActive = true := by
      simpa [startUser, startFlags, State.modStack] using hexc
    cases (off hp id).symm.trans hexc
  | secondaryStart hp _ hmain =>
    cases hmain <;> rw [Action.env_cpu, modCpu_cpu_self] at hexc <;>
      cases (off hp id).symm.trans hexc
  | interruptMain hp | wakeMain hp | retire hp =>
    rw [modCpu_cpu_self] at hexc
    cases (off hp id).symm.trans hexc

theorem Contained.user (hs : Contained s) (hp : (s.cpu c).phase = .user) :
    (s.cpu c).exceptionActive = false := by
  have hold := hs.exception c
  rw [hp] at hold
  exact Bool.eq_false_iff.mpr hold

/-- Only an exception on top of an exception stops the machine. -/
theorem step_stopped (hs : Contained s) (h : step s a = some s') : s'.stopped = false := by
  obtain ⟨_, _, ht⟩ := step_trans h
  have hrun := hs.running
  cases ht with
  | @trap k i hp _ =>
    exact (takeTrap_exception (s := { s with sched := { s.sched with ipiPending := i } })
      (hs.user hp) k).1.trans hrun
  | switchContinuation | resume => exact resumeContinuation_stopped.trans hrun
  | secondaryStart _ _ hmain =>
    cases hmain <;> exact hrun
  | _ => exact hrun

/-- Every such transition keeps faults contained. -/
theorem Contained.step (hs : Contained s) (hok : FaultSafe s a) (h : Kernel.step s a = some s') :
    Contained s' := by
  have hk := step_keeps hs.toInv hok.safe h
  refine ⟨hs.toLively.step hok.safe hok.alone h, fun d hexc => ?_, step_stopped hs h⟩
  by_cases hd : d = a.cpu
  · exact hd ▸ step_exceptionPhase hs hok.dispatch h (hd ▸ hexc)
  · rw [hk.frame.cpu d hd] at hexc ⊢
    exact (hs.exception d hexc).frame (hs.cpu d).phase hk.frame hd

/-! ## What happens to a fault -/

theorem sectionPerm_fault (hs : Inv s) (hp : (s.cpu a.cpu).phase.HandlesFault)
    (fp : StackAddr) (t : ThreadRef) :
    ¬ (sectionPerm s a fp t).call ∧ ∀ u, (sectionPerm s a fp t).kill u →
      (s.sched.thread u).process = (s.sched.thread t).process := by
  unfold Phase.HandlesFault at hp
  split at hp
  · next k fp' hphase =>
    cases k with
    | exception cause address info =>
      simp only [sectionPerm, hphase, TrapKind.isSyscall]
      exact ⟨Bool.false_ne_true, fun u hu => hs.listed _ u hu.2⟩
    | _ => cases hp
  · next hphase =>
    simp only [sectionPerm, hphase]
    exact ⟨id, fun _ => False.elim⟩
  · next hphase =>
    simp only [sectionPerm, hphase]
    exact ⟨id, fun _ => False.elim⟩
  · exact hp.elim

/-- A step of a processor that handles a fault ends no other process. -/
theorem step_spares (hs : Inv s) (h : step s a = some s') (hp : (s.cpu a.cpu).phase.HandlesFault)
    (ht : sectionThread s a.cpu = some t) :
    Spares (s.sched.thread t).process s.sched s'.sched := by
  obtain ⟨_, _, htrans⟩ := step_trans h
  rcases htrans.closes with ⟨fp, x, ex, hsec, rfl⟩ | hstill | ⟨σ, _, hm, hc, _⟩
  · obtain ⟨t', hstart, ho⟩ := runSection_outcome hs hsec
    obtain rfl := Option.some.inj (hstart.thread.symm.trans ht)
    obtain ⟨hcall, hkill⟩ := sectionPerm_fault hs hp fp t'
    have hs' := ho.spares (p := (s.sched.thread t').process) rfl hcall hkill
    exact (lockTaken_spares _ a.env s.sched).trans hs'
  · refine ⟨fun u => by rw [hstill.thread u], fun u _ => by rw [hstill.thread u]; exact id, ?_⟩
    intro q _
    rw [hstill.process]
    exact ⟨rfl, rfl⟩
  · have hwaking := hm.spares (p := (s.sched.thread t).process) id fun _ => False.elim
    exact ((lockTaken_spares _ a.env s.sched).trans hwaking).trans
      (hc.spares id fun _ => False.elim)

/-- The handler of an exception does not panic. -/
theorem Contained.no_panic {cause address info : UInt64} (hs : Contained s)
    (h : Kernel.step s a = some s')
    (hp : (s.cpu a.cpu).phase = .trap (.exception cause address info) fp) :
    (s'.cpu a.cpu).phase ≠ .halted := by
  have halive := hs.phase a.cpu
  have hok := (hs.cpu a.cpu).phase
  rw [hp] at halive hok
  obtain ⟨⟨t, ht⟩, _⟩ := hok
  have hready := ((hs.cpu a.cpu).current t ht).1
  obtain ⟨_, _, htrans⟩ := step_trans h
  cases htrans with
  | @sect fp' x ex hsec =>
    have hlock := section_unlocked h hsec
    rw [applySection_cpu_self]
    unfold runSection at hsec
    rw [hp] at hsec
    split at hsec
    · next script event k fp'' hin hphase =>
      cases hphase
      simp only [Option.some.injEq, Prod.mk.injEq] at hsec
      obtain ⟨rfl, hsec⟩ := hsec
      simp only [trapHandler, kernelExceptionDispatch] at hsec
      split at hsec
      · cases hsec
        intro hhalted
        cases hhalted
      · next hstop =>
        have hns := stopCurrent_none (Ready.enter (e := a.env) hready) hstop
        rw [hs.toLively.currentSpace hlock ht (halive t ht) hns] at hsec
        cases hsec
        intro hhalted
        cases hhalted
    all_goals simp_all
  | _ => simp_all

theorem schedulerLoad_process (previous : Option ThreadRef) (n : ThreadRef) (y : Sect) :
    (schedulerLoad previous n y).1.sched.process = y.sched.process := by
  unfold schedulerLoad
  split <;> simp [Sect.modThread, Sect.on]

theorem exitDequeued_processState (d : Dequeued) :
    ((exitDequeued e t q y d).1.sched.process p).state = (y.sched.process p).state := by
  cases d with
  | idle => rfl
  | next n => exact congrArg (fun f => (f p).state) (schedulerLoad_process (some t) n _)
  | none =>
    unfold exitDequeued schedulerCompleteOrWait
    dsimp only
    split
    · exact (schedulerReapDeferred_micro (π := .waking) _).processState_eq p
    · rfl

theorem schedulerDequeueOrIdle_process (e : Env) (σ : Sched) :
    (schedulerDequeueOrIdle e σ).1.process = σ.process := by
  unfold schedulerDequeueOrIdle
  split
  · next heq => exact (schedulerDequeue_some heq).process_eq
  · next heq =>
    obtain ⟨rings, _⟩ := (schedulerDequeue_none heq).1
    split <;> rfl

/-- After its rendezvous a fault has ended its process. -/
theorem faultRendezvous_zombie :
    ((faultRendezvous e t p x).1.sched.process p).state = .zombie := by
  have hzombie : ((x.sched.modProcess p ({ · with state := .zombie })).process p).state =
      .zombie := by simp [Sched.modProcess]
  have hrecord : ∀ {σ : Sched}, (σ.process p).state = .zombie →
      ((schedulerRecordProcessCompletion e p σ).process p).state = .zombie := by
    intro σ hσ
    have hm := schedulerRecordProcessCompletion_micro (π := .telling) (s := σ) (p := p)
      (e := e) trivial fun _ _ _ _ _ => trivial
    exact (hm.processState_eq p).trans hσ
  unfold faultRendezvous exitTail
  dsimp only
  split
  · unfold dequeueThen
    rw [exitDequeued_processState, schedulerDequeueOrIdle_process]
    exact hrecord hzombie
  · exact hrecord hzombie

/-- What a transition does with a fault of user code: an exception raised in user mode is
    delivered, its handler does not panic and ends no other process, and after the rendezvous
    its process has ended. -/
structure FaultContained (s : State) (a : Action) (s' : State) : Prop where
  delivered : ∀ cause address info, a.input = .trap (.exception cause address info) →
    (s.cpu a.cpu).phase = .user →
      ∃ fp, (s'.cpu a.cpu).phase = .trap (.exception cause address info) fp
  handled : ∀ cause address info fp,
    (s.cpu a.cpu).phase = .trap (.exception cause address info) fp →
      (s'.cpu a.cpu).phase ≠ .halted
  spares : (s.cpu a.cpu).phase.HandlesFault → ∀ t, sectionThread s a.cpu = some t →
    Spares (s.sched.thread t).process s.sched s'.sched
  terminates : ∀ t p fp, (s.cpu a.cpu).phase = .spin (.fault t p) fp true →
    p = (s.sched.thread t).process ∧ (s'.sched.process p).state = .zombie

theorem Contained.delivered (hs : Contained s) (h : Kernel.step s a = some s') {k : TrapKind}
    (hin : a.input = .trap k) (hp : (s.cpu a.cpu).phase = .user) :
    ∃ fp, (s'.cpu a.cpu).phase = .trap k fp := by
  obtain ⟨_, _, ht⟩ := step_trans h
  cases ht with
  | sect hsec =>
    unfold runSection at hsec
    simp [hin] at hsec
  | @trap k' i _ hin' =>
    obtain rfl : k' = k := Input.trap.inj (hin'.symm.trans hin)
    exact ⟨_, (takeTrap_exception (s := { s with sched := { s.sched with ipiPending := i } })
      (hs.user hp) k').2.1⟩
  | _ => simp_all

theorem step_fault_zombie (h : step s a = some s')
    (hp : (s.cpu a.cpu).phase = .spin (.fault t p) fp true) :
    (s'.sched.process p).state = .zombie := by
  obtain ⟨_, _, ht⟩ := step_trans h
  cases ht with
  | @sect fp' x ex hsec =>
    unfold runSection at hsec
    rw [hp] at hsec
    split at hsec
    · simp_all
    · simp_all
    · next hphase =>
      cases hphase
      simp only [rendezvousSection, Option.some.injEq, Prod.mk.injEq] at hsec
      have hz := faultRendezvous_zombie (e := a.env) (t := t) (p := p)
        (x := .enter s a.env fp)
      rw [hsec.2] at hz
      exact hz
    · simp_all
    · cases hsec
  | _ => simp_all

theorem Contained.faultContained (hs : Contained s) (h : Kernel.step s a = some s') :
    FaultContained s a s' where
  delivered _ _ _ hin hp := hs.delivered h hin hp
  handled _ _ _ _ hp := hs.no_panic h hp
  spares hp _ ht := step_spares hs.toInv h hp ht
  terminates t p fp hp := by
    have hok := (hs.cpu a.cpu).phase
    rw [hp] at hok
    exact ⟨hok.2.2, step_fault_zombie h hp⟩

/-! ## Runs -/

theorem Boot.contained (h : Boot s t) : Contained s where
  toLively := h.lively
  exception c hc := by
    rw [h.exceptionActive c] at hc
    cases hc
  running := h.running

/-- In every run in which no fault ends by resuming a suspended continuation, the machine is not
    stopped, `exception_active` is clear in user mode, and every fault is contained. -/
theorem userFault_contained {s₀ : State} {t₀ : ThreadRef} (hb : Boot s₀ t₀)
    (hr : Run step FaultSafe s₀ s) :
    s.stopped = false ∧
      (∀ c, (s.cpu c).phase = .user → (s.cpu c).exceptionActive = false) ∧
      ∀ a s', step s a = some s' → FaultContained s a s' ∧ s'.stopped = false := by
  have hs : Contained s := hr.invariant hb.contained fun _ _ _ hs hok h => hs.step hok h
  exact ⟨hs.running, fun c hp => hs.user hp,
    fun a s' h => ⟨hs.faultContained h, step_stopped hs h⟩⟩

/-- The first of two processes faults, and then the second one does. -/
theorem userFault_contained_twoProcesses : ∃ s s', Run step FaultSafe twoProcesses.state s ∧
    (s.cpu 0).phase = .user ∧ s.sched.current 0 = some 1 ∧
    step s (bootAct (.trap nullLoad)) = some s' ∧ (s.sched.process 0).state = .zombie ∧
    (s.cpu 0).exceptionActive = false ∧ FaultContained s (bootAct (.trap nullLoad)) s' := by
  have safe : ∀ {s : State} {i : Input}, SwitchSafe s (bootAct i) → ExecAlone s (bootAct i) →
      FaultDispatch s (bootAct i) → FaultSafe s (bootAct i) := fun h₁ h₂ h₃ => ⟨h₁, h₂, h₃⟩
  have h₁ : Run step FaultSafe twoProcesses.state _ :=
    Run.refl.tail (a := bootAct .switch) (safe nofun trivial trivial) rfl
  have h₂ := h₁.tail (a := bootAct (.trap nullLoad)) (safe trivial trivial trivial) rfl
  have h₃ := h₂.tail (a := bootAct (.dispatch (.done 0) .none))
    (safe trivial trivial trivial) rfl
  have h₄ := h₃.tail (a := bootAct .spinLeave) (safe trivial trivial trivial) rfl
  have h₅ := h₄.tail (a := bootAct .rendezvous)
    (safe trivial trivial fun _ n _ _ => match n with | 0 => rfl | n + 1 => rfl) rfl
  have h₆ := h₅.tail (a := bootAct .iret) (safe trivial trivial trivial) rfl
  obtain ⟨_, hflag, hstep⟩ := userFault_contained (twoProcesses.state_boot Nat.one_pos) h₆
  exact ⟨_, _, h₆, rfl, rfl, rfl, rfl, hflag 0 rfl, (hstep (bootAct (.trap nullLoad)) _ rfl).1⟩

/-- The first process waits for the disk, the disk interrupt wakes it, and the second process
    faults.  The fault path resumes the first one's continuation, which returns to user mode;
    then that process faults too. -/
def doubleFault : List Action :=
  [bootAct .switch, bootAct (.user (userContext false 1)), bootAct (.trap .syscall),
    bootAct (.dispatch (.block .block 0 0 64 (.done 0)) .none), bootAct .switch,
    bootAct (.trap .device), bootAct (.dispatch (.done 0) (.wakeOne .block 0)), bootAct .iret,
    bootAct (.trap nullLoad), bootAct (.dispatch (.done 0) .none), bootAct .spinLeave,
    bootAct .rendezvous, bootAct .switch, bootAct (.resumed (.done 0)), bootAct .iret]

/-- The first process is in user mode with `exception_active` set, and its fault stops the
    machine. -/
theorem doubleFault_stops : ∃ s s', Boot twoProcesses.state 0 ∧
    Run step (fun _ _ => True) twoProcesses.state s ∧ (s.cpu 0).phase = .user ∧
    s.sched.current 0 = some 0 ∧ (s.cpu 0).exceptionActive = true ∧
    step s (bootAct (.trap nullLoad)) = some s' ∧ s'.stopped = true := by
  obtain ⟨s, hr, hs⟩ := Run.exists_of_runList step twoProcesses.state doubleFault
    (fun s => (s.cpu 0).phase.isUser && s.sched.current 0 == some 0 &&
      (s.cpu 0).exceptionActive && (step s (bootAct (.trap nullLoad))).any (·.stopped))
    (by decide +kernel)
  simp only [Bool.and_eq_true, beq_iff_eq, Option.any_eq_true] at hs
  obtain ⟨⟨⟨hp, hcur⟩, hflag⟩, s', hstep, hstop⟩ := hs
  exact ⟨s, s', twoProcesses.state_boot Nat.one_pos, hr, Phase.eq_user_of_isUser hp, hcur, hflag,
    hstep, hstop⟩

end RiscMv.Kernel
