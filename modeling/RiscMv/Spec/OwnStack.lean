import RiscMv.Spec.StackSteps

/-!
# Every thread on its own kernel stack

IRET takes KSP from the place of the trap frame it returns through, so a thread that
`scheduler_load` puts into the frame of another thread goes on with the other thread's kernel
stack.  In runs without such loads (`LoadsOwnFrame`) every thread stays on its own kernel
stack, through preemption, suspended continuations, rendezvous and idling.

## Key results
- `Own.step`: the invariant is preserved
- `Own.switchSafe`: no thread is started over a suspended continuation
-/

namespace RiscMv.Kernel

/-- Wherever the section can run `scheduler_load`, each thread it may find waiting either has a
    suspended continuation to be resumed, or owns the kernel stack that holds the trap
    frame. -/
def LoadsOwnFrame (s : State) (a : Action) : Prop :=
  ∀ fp t, sectionFrame s a.cpu = some fp → sectionThread s a.cpu = some t →
    (sectionPerm s a fp t).load → ∀ n, (s.sched.thread n).Waiting →
    ((s.sched.thread n).cpuAffinity = 0 ∨ (s.sched.thread n).cpuAffinity = a.cpu + 1) →
    (s.sched.thread n).kernelResumeSp = none → fp.stack = .thread n

/-- The processor uses the kernel stack of the thread it works for. -/
def OwnPhase (s : State) (c : CpuId) : Phase → Prop
  | .user => ∀ t, s.sched.current c = some t → (s.cpu c).ksp.stack = .thread t
  | .trap _ fp => ∀ t, s.sched.current c = some t → fp.stack = .thread t
  | .restore fp => ∀ t, s.sched.current c = some t → fp.stack = .thread t
  | .idle p fp _ => fp.stack = .thread p.waiter
  | .spin r fp _ => fp.stack = .thread r.thread
  | .suspend w n _ sp fp => fp.stack = .thread w ∧ ∀ a ∈ sp, a.stack = .thread n
  | .resume sp _ => ∀ t, s.sched.current c = some t → sp.stack = .thread t
  | .reacquire k => k.framePointer.stack = .thread k.waiter
  | .retire _ | .main | .mainIdle _ | .start _ | .halted | .wild => True

/-- Every thread keeps to its own kernel stack. -/
structure Own (s : State) : Prop extends Inv s where
  phase : ∀ c, OwnPhase s c (s.cpu c).phase
  suspended : ∀ u sp, (s.sched.thread u).kernelResumeSp = some sp → sp.stack = .thread u

variable {s s' : State} {c d : CpuId} {t u w n : ThreadRef} {sp fp : StackAddr} {e : Env}
  {a : Action} {x : Sect} {ex : Exit}

/-- A thread is never started over a suspended continuation. -/
theorem Own.switchSafe (hs : Own s) (a : Action) : SwitchSafe s a := by
  have hok := (hs.cpu a.cpu).phase
  have hcur := (hs.cpu a.cpu).current
  have hown := hs.phase a.cpu
  -- a current thread has no suspended continuation, and other threads have theirs elsewhere
  have hfree : ∀ {n}, s.sched.current a.cpu = some n → ∀ u sp,
      (s.sched.thread u).kernelResumeSp = some sp → sp.stack ≠ .thread n := by
    intro n hn u sp hsp heq
    rw [hs.suspended u sp hsp] at heq
    cases heq
    rw [(hcur n hn).2] at hsp
    cases hsp
  unfold SwitchSafe
  split
  · next w n depth fp hp =>
    rw [hp] at hok hown
    obtain ⟨_, _, _, hne, hn, _⟩ := hok
    refine ⟨?_, hfree hn⟩
    rw [hown.1]
    exact fun heq => hne (StackId.thread.inj heq).symm
  · next t hp =>
    rw [hp] at hok
    exact hfree hok
  · trivial

/-- The invariant for the other processors. -/
theorem OwnPhase.frame {ph : Phase} (h : OwnPhase s d ph) (hf : Frame c s s') (hd : d ≠ c) :
    OwnPhase s' d ph := by
  cases ph with
  | user =>
    intro t ht
    rw [hf.cpu d hd]
    exact h t ((hf.current hd).symm.trans ht)
  | trap k fp | restore fp | resume sp _ => exact fun t ht => h t ((hf.current hd).symm.trans ht)
  | _ => exact h

/-! ## Sections -/

/-- A section starts on the kernel stack of the thread it works for. -/
theorem SectionStart.own (hs : Own s) (h : SectionStart s c fp t) : fp.stack = .thread t := by
  have hown := hs.phase c
  have hthread := h.thread
  have hframe := h.frame
  unfold sectionThread at hthread
  unfold sectionFrame at hframe
  split at hthread <;> simp_all [OwnPhase]

/-- What is loaded into the frame of a section owns the stack that the frame lies in. -/
theorem section_load_own (hs : Own s) (hok : LoadsOwnFrame s a)
    (hstart : SectionStart s a.cpu fp t)
    (hload : (sectionPerm s a fp t).load) {σ σ' : Sched}
    (hl : Left (sectionPerm s a fp t) a.env t (.enter s a.env fp) σ) (hd : Dequeue a.env n σ σ')
    (hn : (σ.thread n).kernelResumeSp = none) : fp.stack = .thread n := by
  by_cases hnt : n = t
  · exact hnt ▸ hstart.own hs
  · -- the thread waited before the section, so the side condition speaks about it
    have hwait : (σ.thread n).Waiting :=
      .inr (.inr ((hl.pinned.queue.queued n).mp hd.mem))
    have hmoves := hl.acts.moves
    refine hok fp t hstart.frame hstart.thread hload n
      ((hmoves.thread n (fun h => hnt (Option.some.inj h))).waiting hwait) ?_
      ((hmoves.home n).resumeSp.symm.trans hn)
    have haff : (σ.thread n).cpuAffinity = (s.sched.thread n).cpuAffinity :=
      (hmoves.home n).affinity
    rw [← haff]
    exact hd.affinity

theorem section_ownPhase (hs : Own s) (hok : LoadsOwnFrame s a)
    (h : runSection s a = some (fp, x, ex)) :
    OwnPhase (applySection s a.cpu fp x ex) a.cpu (ex.phase fp) := by
  obtain ⟨t, hstart, ho⟩ := runSection_outcome hs.toInv h
  have hfp := hstart.own hs
  have served : Ready a.env.cpu t x.sched → ∀ v, x.sched.current a.cpu = some v →
      fp.stack = .thread v := by
    intro hr v hv
    obtain rfl := Option.some.inj (hr.current.symm.trans hv)
    exact hfp
  have dispatched : ∀ {v σ σ' sp}, Left (sectionPerm s a fp t) a.env t (.enter s a.env fp) σ →
      Dequeue a.env v σ σ' → (σ.thread v).kernelResumeSp = some sp → sp.stack = .thread v := by
    intro v σ σ' sp hl _ hsp
    exact hs.suspended v sp ((hl.acts.moves.home v).resumeSp.symm.trans hsp)
  cases ho with
  | kept _ hb | result _ _ hb | exec _ _ hb => exact served hb.ready
  | stopped he =>
    intro v hv
    rcases he.current with hnone | hr
    · cases hnone.symm.trans hv
    · exact served hr v hv
  | @load _ n _ _ hload hl hd hn hsched =>
    intro v hv
    have hnext : x.sched.current a.cpu = some n := by
      rw [hsched]; exact (hl.dispatch_ready hd hs.listed).1.current
    obtain rfl := Option.some.inj (hnext.symm.trans hv)
    exact section_load_own hs hok hstart hload hl hd hn
  | @resume _ n _ _ sp hl hd hn hsched =>
    intro v hv
    have hnext : x.sched.current a.cpu = some n := by
      rw [hsched]; exact (hl.dispatch_ready hd hs.listed).2.current
    obtain rfl := Option.some.inj (hnext.symm.trans hv)
    exact dispatched hl hd hn
  | suspend _ _ hl hd => exact ⟨hfp, nofun⟩
  | switch _ _ hl hd _ hn =>
    refine ⟨hfp, fun b hb => ?_⟩
    cases hb
    exact dispatched hl hd hn
  | idle hp => subst hp; exact hfp
  | spin hv => subst hv; exact hfp
  | retire _ => trivial
  | halt _ => trivial

/-! ## The other transitions -/

/-- The trap frame lies on the stack KSP points to. -/
theorem takeTrap_ownPhase (hp : (s.cpu c).phase = .user) (hown : OwnPhase s c .user)
    (k : TrapKind) : OwnPhase (takeTrap s c k) c ((takeTrap s c k).cpu c).phase := by
  unfold takeTrap
  dsimp only
  split
  · rw [hp]
    exact hown
  · rw [modCpu_cpu_self]
    intro v hv
    exact hown v (by simpa [State.modCpu, State.modStack] using hv)

theorem startUser_ownPhase (hcur : s.sched.current c = some n) :
    OwnPhase (startUser s c n) c ((startUser s c n).cpu c).phase := by
  have hphase : ((startUser s c n).cpu c).phase = .user := by simp [startUser]
  rw [hphase]
  intro v hv
  obtain rfl := Option.some.inj (hcur.symm.trans hv)
  simp [startUser, kernelStackTop, StackAddr.up, StackAddr.down]

theorem resumeContinuation_ownPhase (hcont : ContAt s c n sp) (hsp : sp.stack = .thread n) :
    OwnPhase (resumeContinuation s c sp) c ((resumeContinuation s c sp).cpu c).phase := by
  obtain ⟨m, hm, _, heq⟩ := hcont.resume c
  rw [heq, modCpu_cpu_self]
  exact hm.symm.trans hsp

/-- The transitions leave the processor on the kernel stack of the thread it works for. -/
theorem step_ownPhase (hs : Own s) (hok : LoadsOwnFrame s a) (h : step s a = some s') :
    OwnPhase s' a.cpu (s'.cpu a.cpu).phase := by
  have hown := hs.phase a.cpu
  have hphase := (hs.cpu a.cpu).phase
  obtain ⟨_, _, ht⟩ := step_trans h
  cases ht with
  | sect hsec =>
    rw [applySection_cpu_self]
    exact section_ownPhase hs hok hsec
  | user hp _ =>
    rw [hp] at hown
    rw [modCpu_cpu_self]
    simpa [OwnPhase, hp] using hown
  | @trap k i hp _ =>
    rw [hp] at hown
    exact takeTrap_ownPhase (s := { s with sched := { s.sched with ipiPending := i } }) hp hown k
  | iret hp =>
    rw [hp] at hown hphase
    obtain ⟨⟨m, rfl, _⟩, _⟩ := hphase
    unfold trapRestore
    dsimp only
    rw [modCpu_cpu_self]
    split
    · intro t ht
      rw [modCpu_cpu_self]
      rw [iretKsp_trapFramePointer]
      exact hown t ht
    · trivial
  | interrupt hp | spinLeave hp _ =>
    rw [hp] at hown
    rw [modCpu_cpu_self]
    exact hown
  | @suspendToUser w n depth fp hp =>
    rw [hp] at hphase
    obtain ⟨_, _, _, _, hn, _⟩ := hphase
    exact startUser_ownPhase (s := saveContinuation s fp w depth) hn
  | switchContinuation hp =>
    rw [hp] at hown hphase
    obtain ⟨_, _, _, _, _, hcont⟩ := hphase
    exact resumeContinuation_ownPhase ((hcont _ rfl).1.save (hcont _ rfl).2 _ _) (hown.2 _ rfl)
  | resume hp =>
    rw [hp] at hown hphase
    obtain ⟨n, hn, hcont⟩ := hphase
    exact resumeContinuation_ownPhase hcont (hown n hn)
  | start hp =>
    rw [hp] at hphase
    exact startUser_ownPhase hphase
  | secondaryStart hp _ hmain =>
    cases hmain with
    | @resume σ σ' n sp ptbr hm hd hn =>
      rw [Action.env_cpu, modCpu_cpu_self]
      intro v hv
      have hnext : n = v := by simpa [setCurrent, Sched.current, Sched.modCpu] using hv
      rw [← hnext]
      exact hs.suspended n sp ((hm.moves.home n).resumeSp.symm.trans hn)
    | _ => rw [Action.env_cpu, modCpu_cpu_self]; trivial
  | _ => rw [modCpu_cpu_self]; trivial

/-- Continuations are saved on the stack of the thread that waits. -/
theorem step_suspended_own (hs : Own s) (h : step s a = some s')
    (hsp : (s'.sched.thread u).kernelResumeSp = some sp) : sp.stack = .thread u := by
  rcases step_resumeSp_some hs.toInv h hsp with hold | ⟨n, depth, o, fp, hp, rfl⟩
  · exact hs.suspended u sp hold
  · have hown := hs.phase a.cpu
    rw [hp] at hown
    exact hown.1

/-- Every transition keeps threads on their own kernel stacks. -/
theorem Own.step (hs : Own s) (hok : LoadsOwnFrame s a) (h : step s a = some s') : Own s' := by
  have hk := step_keeps hs.toInv (hs.switchSafe a) h
  refine ⟨hs.toInv.step hk, fun d => ?_, fun u sp hsp => step_suspended_own hs h hsp⟩
  by_cases hd : d = a.cpu
  · exact hd ▸ step_ownPhase hs hok h
  · rw [hk.frame.cpu d hd]
    exact (hs.phase d).frame hk.frame hd

/-! ## Runs -/

theorem Boot.own (h : Boot s t) : Own s where
  toInv := h.inv
  phase c := by
    by_cases hc : c = 0
    · subst hc
      rw [h.boot]
      trivial
    · rcases h.secondary c hc with hp | ⟨woken, hp⟩ <;> rw [hp] <;> trivial
  suspended u sp hsp := by
    rw [(h.thread u).kernelResumeSp] at hsp
    cases hsp

/-- In every run in which threads are loaded only into trap frames of their own, a processor in
    user mode has KSP at the top of its thread's kernel stack, and no continuation of another
    thread is suspended there. -/
theorem ksp_eq_kernelStackTop {s₀ : State} {t₀ : ThreadRef} (hb : Boot s₀ t₀)
    (hr : Run step LoadsOwnFrame s₀ s) (hp : (s.cpu c).phase = .user) :
    ∃ t, s.sched.current c = some t ∧ (s.cpu c).ksp = kernelStackTop t ∧
      ∀ u sp, u ≠ t → (s.sched.thread u).kernelResumeSp = some sp →
        sp.stack ≠ (s.cpu c).ksp.stack := by
  have hown : Own s := hr.invariant hb.own fun _ _ _ hs hok h => hs.step hok h
  have hphase := (hown.cpu c).phase
  have hstack := hown.phase c
  rw [hp] at hphase hstack
  obtain ⟨⟨t, ht⟩, m, hksp, _⟩ := hphase
  have hmt : m = t := by
    have := hstack t ht
    rw [hksp] at this
    exact StackId.thread.inj this
  subst hmt
  refine ⟨m, ht, hksp, fun u sp hne hsp heq => hne ?_⟩
  rw [hown.suspended u sp hsp, hksp] at heq
  exact StackId.thread.inj heq

/-- The first thread waits for the disk.  The second, started by `kernel_suspend_to_user`, is
    interrupted by the timer and goes on from its own stack; the first one's holds its call. -/
theorem ksp_eq_kernelStackTop_diskWait : ∃ s sp, Run step LoadsOwnFrame twoThreads.state s ∧
    (s.cpu 0).phase = .user ∧ s.sched.current 0 = some 1 ∧ (s.cpu 0).ksp = kernelStackTop 1 ∧
    (s.sched.thread 0).kernelResumeSp = some sp ∧ sp.stack ≠ (s.cpu 0).ksp.stack := by
  have h₁ : Run step LoadsOwnFrame twoThreads.state _ :=
    Run.refl.tail (a := bootAct .switch) nofun rfl
  have h₂ := h₁.tail (a := bootAct (.user (userContext false 12))) nofun rfl
  have h₃ := h₂.tail (a := bootAct (.trap .syscall)) nofun rfl
  -- a file system call that waits for the disk loads nobody
  have h₄ := h₃.tail (a := bootAct (.dispatch (.block .block 0 0 64 (.done 0)) .none))
    (fun _ _ hf ht hload => by
      cases hf
      cases ht
      rcases hload with (hmem | ⟨_, hblocks⟩) | hfault
      · exact absurd hmem (by decide)
      · cases hblocks
      · cases hfault) rfl
  have h₅ := h₄.tail (a := bootAct .switch) nofun rfl
  have h₆ := h₅.tail (a := bootAct (.trap .timer)) nofun rfl
  -- the first thread has a continuation, and the frame is on the second one's stack
  have h₇ := h₆.tail (a := bootAct (.dispatch (.done 0) .none))
    (fun _ _ hf _ _ n hwaiting _ hno => by
      cases hf
      obtain _ | _ | n := n
      · cases hno
      · rfl
      · have hnew : ¬ (twoThreads.thread (n + 2)).Waiting := by
          simp [BootConfig.thread, KernelThread.Waiting, twoThreads]
        exact absurd hwaiting hnew) rfl
  have h₈ := h₇.tail (a := bootAct .iret) (fun _ _ hf => by cases hf) rfl
  obtain ⟨t, ht, hksp, hapart⟩ :=
    ksp_eq_kernelStackTop (c := 0) (twoThreads.state_boot Nat.one_pos) h₈ rfl
  cases ht
  exact ⟨_, _, h₈, rfl, rfl, hksp, rfl, hapart 0 _ (by decide) rfl⟩

/-- A timer interrupt of the first thread: it starts, is interrupted, and the processor returns
    to user mode. -/
def timerSwitch : List Action :=
  [bootAct .switch, bootAct (.trap .timer), bootAct (.dispatch (.done 0) .none), bootAct .iret]

/-- The timer switches from the first thread to the second by loading the second into the
    first one's trap frame: IRET leaves the second thread with the first one's kernel stack. -/
theorem timerSwitch_ksp : ∃ s, Boot twoThreads.state 0 ∧
    Run step (fun _ _ => True) twoThreads.state s ∧ (s.cpu 0).phase = .user ∧
    s.sched.current 0 = some 1 ∧ (s.cpu 0).ksp = kernelStackTop 0 := by
  have h : (runList step twoThreads.state timerSwitch).isSome = true := rfl
  exact ⟨(runList step twoThreads.state timerSwitch).get h, twoThreads.state_boot Nat.one_pos,
    .of_runList (Option.some_get h).symm, rfl, rfl, rfl⟩

end RiscMv.Kernel
