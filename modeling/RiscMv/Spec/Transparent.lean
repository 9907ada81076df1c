import RiscMv.Spec.Saved

/-!
# Context switches are transparent

A thread returns to user mode with the context it left it with, whichever way it is resumed,
in all runs in which `kernel_suspend_to_user` and `kernel_start_user` are used only for threads
whose saved condition flags are clear (they push a constant FLAGS word), no thread is started
over a suspended continuation, no process faults and exec discards no thread a processor works
for (`ResumesClean`).

## Key results
- `Faithful.step`: the invariant is preserved
- `Faithful.enters_user`: what the transitions to user mode load into the processor
-/

namespace RiscMv.Kernel

variable {π : Perm} {s s' : State} {σ σ' : Sched} {c d : CpuId} {t u w n : ThreadRef}
  {p : ProcessRef} {sp fp : StackAddr} {e : Env} {a : Action} {x : Sect} {ex : Exit}
  {r : Sect × Exit} {i : StackId}

/-! ## Suspended continuations -/

/-- The kernel stacks a processor uses belong to threads pinned to it. -/
theorem Inv.kernelStacks_pinned (hs : Inv s) (hi : i ∈ (s.cpu c).kernelStacks) :
    ∃ m, i = .thread m ∧ (s.sched.thread m).cpuAffinity = c + 1 := by
  have hok := (hs.cpu c).phase
  unfold Cpu.kernelStacks at hi
  split at hi
  · next hp =>
    rw [hp] at hok
    obtain ⟨_, m, hksp, hm⟩ := hok
    exact ⟨m, by simpa [hksp, kernelStackTop] using hi, hm⟩
  · next hp => rw [hp] at hok; simpa using hok.2.stack_of_mem hi
  · next hp => rw [hp] at hok; exact hok.1.stack_of_mem hi
  · next hp => rw [hp] at hok; exact hok.1.stack_of_mem hi
  · next hp => rw [hp] at hok; exact hok.1.stack_of_mem hi
  · next hp => rw [hp] at hok; exact hok.1.stack_of_mem hi
  · next sp fp hp =>
    rw [hp] at hok
    rcases List.mem_cons.mp hi with rfl | hi
    · exact hok.1.stack
    · obtain ⟨⟨m, hm, haff, _⟩, _⟩ := hok.2.2.2.2.2 sp rfl
      exact ⟨m, (List.mem_singleton.mp hi).trans hm, haff⟩
  · next hp =>
    rw [hp] at hok
    obtain ⟨_, _, m, hm, haff, _⟩ := hok
    exact ⟨m, (List.mem_singleton.mp hi).trans hm, haff⟩
  · next hp => rw [hp] at hok; exact hok.2.stack_of_mem hi
  · next hp => rw [hp] at hok; exact FrameAt.stack_of_mem hok hi
  all_goals cases hi

/-- A suspended continuation lies on a stack that no processor uses. -/
theorem Inv.suspended_off (hs : Inv s) (hsp : (s.sched.thread u).kernelResumeSp = some sp)
    (hi : i ∈ (s.cpu c).kernelStacks) : sp.stack ≠ i := by
  rintro rfl
  obtain ⟨m, hm, haff⟩ := hs.kernelStacks_pinned hi
  have hu : (s.sched.thread u).cpuAffinity ≠ 0 := by
    intro hzero
    rw [hs.fresh u hzero] at hsp
    cases hsp
  obtain ⟨d, hd⟩ := Nat.exists_eq_succ_of_ne_zero hu
  obtain ⟨⟨m', hm', haff', _⟩, hout⟩ := (hs.cpu d).suspended u sp hd hsp
  obtain rfl := StackId.thread.inj (hm.symm.trans hm')
  obtain rfl := Nat.succ.inj (haff.symm.trans haff')
  exact hout hi

/-- In every run in which a thread is started in user mode only on a kernel stack that is free, two
    processors never work for the same thread or use the same kernel stack; the thread of a
    processor is not in the run queue, and its stack holds no suspended continuation. -/
theorem processors_apart {s₀ : State} {t₀ : ThreadRef} (hb : Boot s₀ t₀)
    (hr : Run step SwitchSafe s₀ s) (c : CpuId) :
    (∀ t, s.sched.current c = some t → t ∉ s.sched.runQueue ∧
      ∀ d, s.sched.current d = some t → d = c) ∧
    ∀ i ∈ (s.cpu c).kernelStacks, (∀ d, i ∈ (s.cpu d).kernelStacks → d = c) ∧
      ∀ u sp, (s.sched.thread u).kernelResumeSp = some sp → sp.stack ≠ i := by
  have hinv : Inv s := hr.invariant hb.inv fun _ _ _ hs hsafe h => step_inv hs hsafe h
  refine ⟨fun t ht => ?_, fun i hi => ⟨fun d hd => ?_, fun u sp hsp => hinv.suspended_off hsp hi⟩⟩
  · have hready := ((hinv.cpu c).current t ht).1
    refine ⟨fun hq => hready.notWaiting (.inr (.inr ((hinv.queue.queued t).mp hq))), fun d hd => ?_⟩
    -- a thread is pinned to the processor that works for it
    have haff := ((hinv.cpu d).current t hd).1.affinity
    exact Nat.succ.inj (haff.symm.trans hready.affinity)
  · obtain ⟨m, rfl, hm⟩ := hinv.kernelStacks_pinned hi
    obtain ⟨m', heq, hm'⟩ := hinv.kernelStacks_pinned hd
    cases heq
    exact Nat.succ.inj (hm'.symm.trans hm)

/-- Two processors run two of three threads; the third waits for the disk on its own stack, and
    its processor has started another one over `kernel_suspend_to_user`. -/
theorem processors_apart_diskWait : ∃ s sp, Run step SwitchSafe threeThreads.state s ∧
    s.sched.current 0 = some 2 ∧ s.sched.current 1 = some 1 ∧
    (s.sched.thread 0).kernelResumeSp = some sp ∧
    (2 ∉ s.sched.runQueue ∧ ∀ d, s.sched.current d = some 2 → d = 0) ∧
    .thread 2 ∈ (s.cpu 0).kernelStacks ∧ (∀ d, .thread 2 ∈ (s.cpu d).kernelStacks → d = 0) ∧
    sp.stack ≠ .thread 2 := by
  have h₁ : Run step SwitchSafe threeThreads.state _ :=
    Run.refl.tail (a := bootAct .switch) nofun rfl
  have h₂ := h₁.tail (a := secondAct .secondaryStart) trivial rfl
  have h₃ := h₂.tail (a := secondAct .switch)
    (fun u _ hsp => by match u with | 0 | 1 | 2 | _ + 3 => cases hsp) rfl
  have h₄ := h₃.tail (a := bootAct (.user (userContext false 12))) trivial rfl
  have h₅ := h₄.tail (a := bootAct (.trap .syscall)) trivial rfl
  have h₆ := h₅.tail (a := bootAct (.dispatch (.block .block 0 0 64 (.done 0)) .none)) trivial rfl
  have h₇ := h₆.tail (a := bootAct .switch)
    ⟨by decide, fun u _ hsp => by match u with | 0 | 1 | 2 | _ + 3 => cases hsp⟩ rfl
  obtain ⟨hcurrent, hstacks⟩ := processors_apart (threeThreads.state_boot Nat.two_pos) h₇ 0
  have hmem := List.mem_singleton_self (StackId.thread 2)
  obtain ⟨halone, hoff⟩ := hstacks (.thread 2) hmem
  exact ⟨_, _, h₇, rfl, rfl, rfl, hcurrent 2 rfl, hmem, halone, hoff 0 _ rfl⟩

/-- No transition touches the trap frame above a suspended continuation. -/
theorem step_suspended_frame (hs : Inv s) (hsafe : SwitchSafe s a) (h : step s a = some s')
    (hsp : (s.sched.thread u).kernelResumeSp = some sp) :
    (s'.stack sp.stack).frame = (s.stack sp.stack).frame := by
  have off : ∀ {i}, i ∈ (s.cpu a.cpu).kernelStacks → sp.stack ≠ i := hs.suspended_off hsp
  have started : ∀ {s : State} {n}, sp.stack ≠ .thread n →
      (startUser s a.cpu n).stack sp.stack = s.stack sp.stack := by
    intro s n hne
    simp [startUser, State.modCpu, State.modStack, kernelStackTop, hne]
  obtain ⟨_, _, ht⟩ := step_trans h
  cases ht with
  | sect hsec =>
    obtain ⟨t, hstart, _⟩ := runSection_outcome hs hsec
    rw [applySection_stack_ne (off (by rw [hstart.uses]; exact List.mem_singleton_self _))]
  | trap hp _ =>
    unfold takeTrap
    dsimp only
    split
    · rfl
    · have hne := off (i := (s.cpu a.cpu).ksp.stack) (by simp [Cpu.kernelStacks, hp])
      simp [State.modCpu, State.modStack, hne]
  | suspendToUser hp =>
    simp only [SwitchSafe, hp] at hsafe
    rw [started (hsafe.2 u sp hsp), saveContinuation_frame]
  | switchContinuation _ => rw [resumeContinuation_frame, saveContinuation_frame]
  | resume _ => exact resumeContinuation_frame s a.cpu _ _
  | start hp =>
    simp only [SwitchSafe, hp] at hsafe
    rw [started (hsafe u sp hsp)]
  | secondaryStart _ _ hmain =>
    cases hmain <;> rfl
  | _ => rfl

/-- A section changes the threads that it neither works for nor dispatches as `ThreadMoves`
    says. -/
theorem Outcome.thread_moves (o : Outcome π e t x r) (hut : u ≠ t)
    (hsp : (r.1.sched.thread u).kernelResumeSp = some sp) :
    ThreadMoves (x.sched.thread u) (r.1.sched.thread u) (x.sched.lastUser u)
      (r.1.sched.lastUser u) := by
  obtain ⟨σ, ha, hc⟩ := o.closes
  have hm := ha.moves.thread u fun heq => hut (Option.some.inj heq)
  exact hm.trans (hc.suspended hsp).2

/-- Two suspended states of a thread are connected by `ThreadMoves`. -/
theorem step_suspended_moves (hs : Inv s) (h : step s a = some s') {sp' : StackAddr}
    (hsp : (s.sched.thread u).kernelResumeSp = some sp)
    (hsp' : (s'.sched.thread u).kernelResumeSp = some sp') :
    ThreadMoves (s.sched.thread u) (s'.sched.thread u) (s.sched.lastUser u)
      (s'.sched.lastUser u) := by
  obtain ⟨_, _, ht⟩ := step_trans h
  rcases ht.closes with ⟨fp, x, ex, hsec, rfl⟩ | hstill | ⟨σ, _, hm, hc, _⟩
  · obtain ⟨t, hstart, ho⟩ := runSection_outcome hs hsec
    have hut : u ≠ t := by
      rintro rfl
      rw [hstart.resumeSp] at hsp
      cases hsp
    exact ho.thread_moves hut hsp'
  · have hcur : s.sched.current a.cpu ≠ some u := by
      intro hu
      rw [((hs.cpu a.cpu).current u hu).2] at hsp
      cases hsp
    rw [hstill.lastUser u hcur, hstill.thread u]
    exact ⟨rfl, id, id, .inl ⟨rfl, rfl, id⟩⟩
  · have hwaking : ThreadMoves (s.sched.thread u) (σ.thread u) (s.sched.lastUser u)
        (σ.lastUser u) := hm.moves.thread u nofun
    exact hwaking.trans (hc.suspended hsp').2

/-! ## The invariant -/

/-- What holds at each point of the kernel of the contexts that are still in trap frames or in
    registers. -/
def SavedPhase (s : State) (c : CpuId) : Phase → Prop
  | .trap k fp => ∀ t, s.sched.current c = some t →
      s.sched.lastUser t = ⟨(s.stack fp.stack).frame.toContext, k.isSyscall, none⟩
  | .restore fp => (s.stack fp.stack).frame.flags.userMode = true →
      ∀ t, s.sched.current c = some t →
        (s.sched.lastUser t).Resumes (s.stack fp.stack).frame.toContext
  | .idle p fp _ => (s.sched.lastUser p.waiter).InCall (s.stack fp.stack).frame
  | .suspend w n _ none fp => (s.sched.lastUser w).InCall (s.stack fp.stack).frame ∧
      (s.sched.lastUser n).Resumes (s.sched.thread n).ctx
  | .suspend w n _ (some sp) fp => (s.sched.lastUser w).InCall (s.stack fp.stack).frame ∧
      (s.sched.lastUser n).InCall (s.stack sp.stack).frame
  | .resume sp _ => ∀ t, s.sched.current c = some t →
      (s.sched.lastUser t).InCall (s.stack sp.stack).frame
  | .reacquire k => (s.sched.lastUser k.waiter).InCall (s.stack k.framePointer.stack).frame
  | .start t => (s.sched.lastUser t).Resumes (s.sched.thread t).ctx
  | .user | .spin _ _ _ | .retire _ | .main | .mainIdle _ | .halted | .wild => True

/-- The processor is not handling a fault. -/
def Phase.Calm : Phase → Prop
  | .trap k _ => k.isException = false
  | .idle q _ _ => ∀ w, q ≠ .fault w
  | .spin v _ _ => ∀ t p, v ≠ .fault t p
  | _ => True

/-- Every context that a thread left user mode with is kept until the thread returns. -/
structure Faithful (s : State) : Prop extends Lively s where
  thread : ∀ u, SavedContext (s.sched.thread u) (s.sched.lastUser u)
  suspended : ∀ u sp, (s.sched.thread u).kernelResumeSp = some sp →
    (s.sched.lastUser u).InCall (s.stack sp.stack).frame
  saved : ∀ c, SavedPhase s c (s.cpu c).phase
  calm : ∀ c, (s.cpu c).phase.Calm
  notFaulted : ∀ p, (s.sched.process p).faulted = false

/-- Only a section that handles a fault waits in `kernel_scheduler_fault`. -/
theorem Pending.Allowed.call {q : Pending} (h : q.Allowed π) (hf : ¬ π.fault) :
    π.call ∧ ∀ fp woken, (Phase.idle q fp woken).Calm := by
  cases q with
  | fault => exact absurd h hf
  | _ => exact ⟨h, fun _ _ _ => nofun⟩

/-- What a section of a `Faithful` state starts with. -/
theorem Faithful.section_start (hs : Faithful s) (hlock : s.lockHeld = false)
    (hstart : SectionStart s a.cpu fp t) :
    ((sectionPerm s a fp t).call → (s.sched.lastUser t).InCall (s.stack fp.stack).frame) ∧
      ((sectionPerm s a fp t).quiet →
        (s.sched.lastUser t).Resumes (s.stack fp.stack).frame.toContext) ∧
      ¬ (sectionPerm s a fp t).fault := by
  have hsaved := hs.saved a.cpu
  have hcalm := hs.calm a.cpu
  have hthread := hstart.thread
  have hframe := hstart.frame
  have halive := hs.phase a.cpu
  unfold sectionThread at hthread
  unfold sectionFrame at hframe
  split at hthread
  · next k fp' hp =>
    rw [hp] at hsaved hcalm halive
    simp only [hp, Option.some.injEq] at hframe
    subst hframe
    have hlast := hsaved t hthread
    refine ⟨fun hcall => ?_, fun hquiet => ?_, fun hfault => ?_⟩
    · simp only [sectionPerm, hp] at hcall
      rw [hlast]
      exact ⟨hcall, .refl _⟩
    · simp only [sectionPerm, hp] at hquiet
      rw [hlast]
      refine UserExit.resumes_self rfl fun hsys => ?_
      -- a live thread of a process that has not faulted gets a result, unless it yields
      obtain ⟨hns, hthree | hnone | hfaulted⟩ := hquiet hsys
      · exact hthree
      · have hsome : currentSpace a.env (Sect.enter s a.env fp').sched = some t :=
          hs.toLively.currentSpace hlock hthread (halive t hthread) hns
        rw [hsome] at hnone
        cases hnone
      · exact absurd hfaulted (by simp [Sect.enter, lockTaken, Sched.modCpu, hs.notFaulted])
    · simp only [sectionPerm, hp] at hfault
      split at hfault
      · next heq => cases heq; cases hcalm
      all_goals simp_all
  · next q fp' _ hp =>
    rw [hp] at hsaved hcalm
    simp only [hp, Option.some.injEq] at hframe hthread
    subst hframe hthread
    refine ⟨fun _ => hsaved, fun hquiet => ?_, fun hfault => ?_⟩
    · simp [sectionPerm, hp, hs.notFaulted] at hquiet
    · simp only [sectionPerm, hp] at hfault
      split at hfault
      · next heq => cases heq
      · next heq => cases heq; exact hcalm _ rfl
      · next heq => cases heq
      · exact hfault
  · next v fp' left hp =>
    rw [hp] at hcalm
    refine ⟨fun hcall => ?_, fun hquiet => ?_, fun hfault => ?_⟩
    · simp [sectionPerm, hp] at hcall
    · simp [sectionPerm, hp] at hquiet
    · cases v with
      | exec => simp [sectionPerm, hp] at hfault
      | fault => exact hcalm _ _ rfl
  · next k hp =>
    rw [hp] at hsaved
    simp only [hp, Option.some.injEq] at hframe hthread
    subst hframe hthread
    refine ⟨fun _ => hsaved, fun hquiet => ?_, fun hfault => ?_⟩
    · simp [sectionPerm, hp, hs.notFaulted] at hquiet
    · simp [sectionPerm, hp] at hfault
  · cases hthread

/-! ## Sections -/

theorem section_savedPhase (hs : Faithful s) (hlock : s.lockHeld = false)
    (h : runSection s a = some (fp, x, ex)) :
    SavedPhase (applySection s a.cpu fp x ex) a.cpu (ex.phase fp) := by
  obtain ⟨t, hstart, ho⟩ := runSection_outcome hs.toInv h
  obtain ⟨hcall, hquiet, hfault⟩ := hs.section_start hlock hstart
  have current : ∀ {v w} {P : ThreadRef → Prop}, Ready a.env.cpu v x.sched →
      x.sched.current a.cpu = some w → P v → P w := by
    intro v w P hr hw hv
    obtain rfl := Option.some.inj (hr.current.symm.trans hw)
    exact hv
  have saved : ∀ {σ}, Left (sectionPerm s a fp t) a.env t (.enter s a.env fp) σ →
      ∀ u, SavedContext (σ.thread u) (σ.lastUser u) :=
    fun hl => hl.saved hs.thread hcall hquiet
  -- a thread found in the run queue has its context saved
  have queued : ∀ {n σ σ'}, Left (sectionPerm s a fp t) a.env t (.enter s a.env fp) σ →
      Dequeue a.env n σ σ' → (σ.lastUser n).Resumes (σ.thread n).ctx :=
    fun {n _ _} hl hd => (saved hl n).dispatchable (.inr ((hl.pinned.queue.queued n).mp hd.mem))
  -- a thread found with a continuation has its trap frame above it
  have suspended : ∀ {n σ σ' sp}, Left (sectionPerm s a fp t) a.env t (.enter s a.env fp) σ →
      Dequeue a.env n σ σ' → (σ.thread n).kernelResumeSp = some sp →
      (σ.lastUser n).InCall ((applySection s a.cpu fp x ex).stack sp.stack).frame := by
    intro n σ σ' sp hl hd hn
    have hsp : (s.sched.thread n).kernelResumeSp = some sp :=
      (hl.acts.moves.home n).resumeSp ▸ hn
    have hnt : n ≠ t := by
      rintro rfl
      rw [hstart.resumeSp] at hsp
      cases hsp
    have hoff : sp.stack ≠ fp.stack :=
      hs.toInv.suspended_off hsp (by rw [hstart.uses]; exact List.mem_singleton_self _)
    rw [applySection_stack_ne hoff]
    have hm := hl.acts.moves.thread n fun heq => hnt (Option.some.inj heq)
    exact hm.inCall (hs.suspended n sp hsp)
  cases ho with
  | kept hq hb =>
    intro _ v hv
    rw [applySection_frame, hb.frame]
    exact current (P := fun v => (x.sched.lastUser v).Resumes _) hb.ready hv
      (by rw [hb.last]; exact hquiet hq)
  | result v hc hb hframe hlast =>
    intro _ w hw
    rw [applySection_frame, hframe, TrapFrame.toContext_setR0]
    refine current (P := fun v => (x.sched.lastUser v).Resumes _) hb.ready hw ?_
    rw [hlast]
    exact UserExit.resumes_setResult (hcall hc).syscall (hcall hc).same v
  | exec ctx _ hb hframe _ hlast =>
    intro _ v hv
    rw [applySection_frame, hframe]
    refine current (P := fun v => (x.sched.lastUser v).Resumes _) hb.ready hv ?_
    rw [hlast]
    exact UserExit.resumes_self rfl nofun
  | stopped _ hmode =>
    intro hm
    rw [applySection_frame, hmode.1] at hm
    cases hm
  | load _ hl hd _ hsched hframe =>
    have hr := (hl.dispatch_ready hd hs.listed).1
    rw [← hsched] at hr
    intro _ v hv
    rw [applySection_frame, hframe]
    refine current (P := fun v => (x.sched.lastUser v).Resumes _) hr hv ?_
    have hres := queued hl hd
    rw [hsched, show (setCurrent _ _ _).lastUser = _ from hd.lastUser]
    exact ⟨⟨hres.pc, hres.stackPointer, hres.registers, hres.condition⟩, hres.preempted,
      hres.called⟩
  | resume hl hd hn hsched =>
    have hr := (hl.dispatch_ready hd hs.listed).2
    rw [← hsched] at hr
    intro v hv
    refine current (P := fun v => (x.sched.lastUser v).InCall _) hr hv ?_
    rw [hsched, modThread_lastUser, show (setCurrent _ _ _).lastUser = _ from hd.lastUser]
    exact suspended hl hd hn
  | suspend _ hc hl hd hne hn hsched hframe =>
    refine ⟨?_, ?_⟩
    · rw [applySection_frame, hframe, applySection_sched, hsched,
        show (setCurrent _ _ _).lastUser = _ from hd.lastUser, hl.last]
      exact hcall hc
    · rw [applySection_sched, hsched, show (setCurrent _ _ _).lastUser = _ from hd.lastUser,
        show ((setCurrent _ _ _).thread _).ctx = _ from hd.ctx]
      exact queued hl hd
  | switch _ hc hl hd hne hn hsched hframe =>
    refine ⟨?_, ?_⟩
    · rw [applySection_frame, hframe, applySection_sched, hsched, modThread_lastUser,
        show (setCurrent _ _ _).lastUser = _ from hd.lastUser, hl.last]
      exact hcall hc
    · rw [applySection_sched, hsched, modThread_lastUser,
        show (setCurrent _ _ _).lastUser = _ from hd.lastUser]
      exact suspended hl hd hn
  | idle hp hc hl hsched hframe =>
    subst hp
    simp only [SavedPhase, Exit.phase, applySection_frame, hframe, applySection_sched, hsched,
      idleEnter, setCurrent, Sched.modCpu, hl.last]
    exact hcall (hc.call hfault).1
  | spin | retire | halt => trivial

theorem Outcome.calm (o : Outcome π e t x r) (hf : ¬ π.fault) (fp : StackAddr) :
    (r.2.phase fp).Calm := by
  cases o with
  | idle _ hc => exact (hc.call hf).2 fp false
  | @spin _ v _ hc =>
    cases v with
    | exec => exact nofun
    | fault => exact absurd hc hf
  | _ => trivial

theorem Acts.faulted (h : Acts π e t σ σ') (hf : ¬ π.fault) :
    (σ'.process p).faulted = true → (σ.process p).faulted = true :=
  h.lift (P := fun σ σ' => (σ'.process p).faulted = true → (σ.process p).faulted = true)
    (fun _ => id) (fun h h' => h ∘ h') fun {σ σ'} h => by
      cases h with
      | micro h => exact fun hp => (congrArg Prod.fst (h.steps.signals_eq p)).symm.trans hp
      | process q f _ _ _ _ hfault =>
        by_cases hq : p = q
        · subst hq
          simpa [Sched.modProcess] using fun hp => (hfault hp).resolve_right hf
        · simp [Sched.modProcess, hq]
      | redispatch h _ => rw [h.process_eq]; exact id
      | _ => exact id

theorem Outcome.faulted (o : Outcome π e t x r) (hf : ¬ π.fault)
    (hp : (r.1.sched.process p).faulted = true) : (x.sched.process p).faulted = true := by
  obtain ⟨σ, h, hc⟩ := o.closes
  exact h.faulted hf ((congrArg Prod.fst (hc.signals_eq p)).symm.trans hp)

/-! ## Transitions -/

/-- A transition of another processor keeps the contexts of a processor's threads. -/
theorem SavedPhase.frame {ph : Phase} (h : SavedPhase s d ph) (hok : PhaseOk s d ph)
    (hready : ∀ t, s.sched.current d = some t → Ready d t s.sched) (hf : Frame c s s')
    (hd : d ≠ c) : SavedPhase s' d ph := by
  have moves : ∀ {w}, Pinned d w s.sched →
      ThreadMoves (s.sched.thread w) (s'.sched.thread w) (s.sched.lastUser w)
        (s'.sched.lastUser w) := fun {w} hw => hf.sched.thread w (by
    rw [(hw.frame hf.sched).affinity]
    exact fun heq => hd (Nat.succ.inj heq))
  have kept : ∀ {t}, s.sched.current d = some t →
      (s'.sched.thread t).ctx = (s.sched.thread t).ctx ∧
        s'.sched.lastUser t = s.sched.lastUser t :=
    fun ht => (moves (hready _ ht).toPinned).kept (hready _ ht).not_blocked
  cases ph with
  | trap k fp =>
    intro t ht
    rw [hf.current hd] at ht
    rw [(kept ht).2, hok.2.stack_eq hf hd]
    exact h t ht
  | restore fp =>
    intro hmode t ht
    rw [hf.current hd] at ht
    rw [hok.1.stack_eq hf hd] at hmode ⊢
    rw [(kept ht).2]
    exact h hmode t ht
  | idle q fp woken =>
    simp only [SavedPhase, hok.1.stack_eq hf hd]
    exact (moves hok.2.1).inCall h
  | suspend w n depth sp fp =>
    obtain ⟨hfp, hw, _, _, hn, hcont⟩ := hok
    cases sp with
    | none =>
      simp only [SavedPhase, hfp.stack_eq hf hd, (kept hn).1, (kept hn).2]
      exact ⟨(moves hw).inCall h.1, h.2⟩
    | some sp =>
      simp only [SavedPhase, hfp.stack_eq hf hd, (kept hn).2, (hcont sp rfl).1.stack_eq hf hd]
      exact ⟨(moves hw).inCall h.1, h.2⟩
  | resume sp i =>
    obtain ⟨n, hn, hcont⟩ := hok
    intro t ht
    rw [hf.current hd] at ht
    rw [(kept ht).2, hcont.stack_eq hf hd]
    exact h t ht
  | reacquire k =>
    simp only [SavedPhase, (kept hok.1).2, hok.2.stack_eq hf hd]
    exact h
  | start t =>
    simp only [SavedPhase, (kept hok).1, (kept hok).2]
    exact h
  | _ => trivial

/-- Every transition keeps the contexts of the waiting threads. -/
theorem step_saved (hs : Faithful s) (h : step s a = some s') (u : ThreadRef) :
    SavedContext (s'.sched.thread u) (s'.sched.lastUser u) := by
  obtain ⟨_, _, ht⟩ := step_trans h
  rcases ht.closes with ⟨fp, x, ex, hsec, rfl⟩ | hstill | ⟨σ, _, hm, hc, _⟩
  · obtain ⟨t, hstart, ho⟩ := runSection_outcome hs.toInv hsec
    obtain ⟨hcall, hquiet, _⟩ := hs.section_start (section_unlocked h hsec) hstart
    exact ho.saved hs.thread hcall hquiet u
  · by_cases hu : s.sched.current a.cpu = some u
    · -- the current thread waits for nothing
      refine .of_not_waiting ?_
      rw [hstill.thread u]
      exact ((hs.cpu a.cpu).current u hu).1.notWaiting
    · rw [hstill.lastUser u hu, hstill.thread u]
      exact ⟨(hs.thread u).dispatchable, (hs.thread u).blocked⟩
  · exact hc.saved (fun u => (hs.thread u).moves (hm.moves.thread u nofun)) u

/-- Every transition keeps the contexts above suspended continuations. -/
theorem step_suspended_inCall (hs : Faithful s) (hsafe : SwitchSafe s a)
    (h : step s a = some s') (hsp : (s'.sched.thread u).kernelResumeSp = some sp) :
    (s'.sched.lastUser u).InCall (s'.stack sp.stack).frame := by
  rcases step_resumeSp_some hs.toInv h hsp with hold | ⟨n, depth, o, fp, hp, rfl⟩
  · rw [step_suspended_frame hs.toInv hsafe h hold]
    exact (step_suspended_moves hs.toInv h hold hsp).inCall (hs.suspended u sp hold)
  · -- the thread has just been suspended, with the frame of its system call
    have hsaved := hs.saved a.cpu
    rw [hp] at hsaved
    obtain ⟨_, _, ht⟩ := step_trans h
    cases ht with
    | sect hsec =>
      obtain ⟨t, hstart, _⟩ := runSection_outcome hs.toInv hsec
      simpa [sectionThread, hp] using hstart.thread
    | suspendToUser hp' =>
      cases hp.symm.trans hp'
      have hne : fp.stack ≠ .thread n := by
        simp only [SwitchSafe, hp] at hsafe
        exact hsafe.1
      simpa [startUser, saveContinuation, State.modCpu, State.modStack, kernelStackTop,
        StackAddr.down, hne] using hsaved.1
    | @switchContinuation _ _ _ sp' _ hp' =>
      cases hp.symm.trans hp'
      rw [resumeContinuation_frame, saveContinuation_frame, resumeContinuation_sched]
      exact hsaved.1
    | _ => simp_all only [reduceCtorEq]

/-- Jumping to the continuation of the current thread. -/
theorem resumeContinuation_savedPhase (hcont : ContAt s d n sp)
    (h : (s.sched.lastUser n).InCall (s.stack sp.stack).frame) :
    SavedPhase (resumeContinuation s c sp) c ((resumeContinuation s c sp).cpu c).phase := by
  obtain ⟨m, hm, _, heq⟩ := hcont.resume c
  have hph : ((resumeContinuation s c sp).cpu c).phase =
      .reacquire ⟨n, trapFramePointer (kernelStackTop m)⟩ := by rw [heq, modCpu_cpu_self]
  rw [hph]
  simp only [SavedPhase, resumeContinuation_sched, resumeContinuation_frame]
  rw [hm] at h
  exact h

theorem takeTrap_savedPhase (hp : (s.cpu c).phase = .user) (k : TrapKind) :
    SavedPhase (takeTrap s c k) c ((takeTrap s c k).cpu c).phase := by
  unfold takeTrap
  dsimp only
  split
  · rw [hp]
    trivial
  · rw [modCpu_cpu_self]
    intro t ht
    have ht' : s.sched.current c = some t := by simpa [State.modCpu, State.modStack] using ht
    simp [recordExit, State.modCpu, State.modStack, ht', trapFramePointer, StackAddr.down]

theorem step_savedPhase (hs : Faithful s) (h : step s a = some s') :
    SavedPhase s' a.cpu (s'.cpu a.cpu).phase := by
  have hsaved := hs.saved a.cpu
  have hok := (hs.cpu a.cpu).phase
  obtain ⟨_, _, ht⟩ := step_trans h
  cases ht with
  | sect hsec =>
    rw [applySection_cpu_self]
    exact section_savedPhase hs (section_unlocked h hsec) hsec
  | user hp _ => rw [modCpu_cpu_self, hp]; trivial
  | @trap k i hp _ =>
    exact takeTrap_savedPhase (s := { s with sched := { s.sched with ipiPending := i } }) hp k
  | iret hp =>
    unfold trapRestore
    dsimp only
    rw [modCpu_cpu_self]
    split <;> trivial
  | @interrupt q fp woken i hp =>
    rw [hp] at hsaved
    rw [modCpu_cpu_self]
    have hm := (idleInterrupt_waking a.env i (lockTaken a.env s.sched)).moves.thread q.waiter nofun
    exact hm.inCall hsaved
  | suspendToUser _ => rw [startUser_phase]; trivial
  | @switchContinuation w n depth sp fp hp =>
    rw [hp] at hsaved hok
    obtain ⟨_, _, _, _, _, hcont⟩ := hok
    refine resumeContinuation_savedPhase ((hcont sp rfl).1.save (hcont sp rfl).2 w depth) ?_
    rw [saveContinuation_frame]
    exact hsaved.2
  | resume hp =>
    rw [hp] at hsaved hok
    obtain ⟨n, hn, hcont⟩ := hok
    exact resumeContinuation_savedPhase hcont (hsaved n hn)
  | start _ => rw [startUser_phase]; trivial
  | secondaryStart hp _ hmain =>
    have micro : ∀ {σ}, MicroSteps .waking (lockTaken a.env s.sched) σ → ∀ n,
        ThreadMoves (s.sched.thread n) (σ.thread n) (s.sched.lastUser n) (σ.lastUser n) :=
      fun hm n => hm.moves.thread n nofun
    cases hmain with
    | @start σ σ' n hm hd hn =>
      rw [Action.env_cpu, modCpu_cpu_self]
      have hq := hm.moves.runQueue ⟨hs.queue.nodup, hs.queue.queued⟩
      have hres := ((hs.thread n).moves (micro hm n)).dispatchable
        (.inr ((hq.queued n).mp hd.mem))
      simp only [SavedPhase, setCurrent, Sched.modCpu, hd.lastUser, hd.ctx]
      exact hres
    | @resume σ σ' n sp ptbr hm hd hn =>
      rw [Action.env_cpu, modCpu_cpu_self]
      intro v hv
      have hnv : n = v := by simpa [setCurrent, Sched.current, Sched.modCpu] using hv
      subst hnv
      simp only [modThread_lastUser, setCurrent, Sched.modCpu, hd.lastUser]
      exact (micro hm n).inCall
        (hs.suspended n sp ((hm.moves.home n).resumeSp ▸ hn))
    | _ => rw [Action.env_cpu, modCpu_cpu_self]; trivial
  | _ => rw [modCpu_cpu_self]; trivial

/-- Without synchronous exceptions no processor handles a fault. -/
def NoException (a : Action) : Prop :=
  match a.input with
  | .trap k => k.isException = false
  | _ => True

theorem step_calm (hs : Faithful s) (hno : NoException a) (h : step s a = some s') :
    (s'.cpu a.cpu).phase.Calm := by
  have hcalm := hs.calm a.cpu
  have hok := (hs.cpu a.cpu).phase
  obtain ⟨_, _, ht⟩ := step_trans h
  cases ht with
  | sect hsec =>
    obtain ⟨t, hstart, ho⟩ := runSection_outcome hs.toInv hsec
    rw [applySection_cpu_self]
    exact ho.calm (hs.section_start (section_unlocked h hsec) hstart).2.2 _
  | user hp _ => rw [modCpu_cpu_self, hp]; trivial
  | @trap k i hp hin =>
    simp only [NoException, hin] at hno
    rcases takeTrap_phase hp k i with hph | hph <;> rw [hph]
    · trivial
    · exact hno
  | iret _ =>
    unfold trapRestore
    dsimp only
    rw [modCpu_cpu_self]
    split <;> trivial
  | interrupt hp | spinLeave hp _ =>
    rw [hp] at hcalm
    rw [modCpu_cpu_self]
    exact hcalm
  | suspendToUser _ => rw [startUser_phase]; trivial
  | switchContinuation hp =>
    obtain ⟨k, hk⟩ := switchContinuation_phase (hp ▸ hok)
    rw [hk]
    trivial
  | resume hp =>
    rw [hp] at hok
    obtain ⟨n, hn, hcont⟩ := hok
    obtain ⟨k, hk⟩ := resumeContinuation_phase (c := a.cpu) hcont
    rw [hk]
    trivial
  | start _ => rw [startUser_phase]; trivial
  | secondaryStart _ _ hmain =>
    cases hmain <;> rw [Action.env_cpu, modCpu_cpu_self] <;> trivial
  | _ => rw [modCpu_cpu_self]; trivial

theorem step_notFaulted (hs : Faithful s) (h : step s a = some s') (p : ProcessRef) :
    (s'.sched.process p).faulted = false := by
  rcases step_signals h with ⟨fp, x, ex, hsec, rfl⟩ | hsignals
  · obtain ⟨t, hstart, ho⟩ := runSection_outcome hs.toInv hsec
    have hf := (hs.section_start (section_unlocked h hsec) hstart).2.2
    refine Bool.eq_false_iff.mpr fun hp => ?_
    have hold : (s.sched.process p).faulted = true := ho.faulted hf hp
    rw [hs.notFaulted p] at hold
    cases hold
  · exact (congrArg Prod.fst (hsignals p)).trans (hs.notFaulted p)

/-- A thread that `kernel_suspend_to_user` or `kernel_start_user` is about to start has its
    saved condition flags clear. -/
def StartFlagsClear (s : State) (a : Action) : Prop :=
  match (s.cpu a.cpu).phase with
  | .suspend _ n _ none _ | .start n =>
    (s.sched.thread n).ctx.flags.condition = (false, false, false, false)
  | _ => True

/-- The steps that keep context switches transparent. -/
structure ResumesClean (s : State) (a : Action) : Prop where
  flags : StartFlagsClear s a
  safe : SwitchSafe s a
  alone : ExecAlone s a
  noException : NoException a

/-- Every such transition keeps the contexts of all threads. -/
theorem Faithful.step (hs : Faithful s) (hok : ResumesClean s a) (h : Kernel.step s a = some s') :
    Faithful s' := by
  have hk := step_keeps hs.toInv hok.safe h
  refine ⟨hs.toLively.step hok.safe hok.alone h, step_saved hs h, fun u sp hsp =>
    step_suspended_inCall hs hok.safe h hsp, fun d => ?_, fun d => ?_, step_notFaulted hs h⟩
  · by_cases hd : d = a.cpu
    · exact hd ▸ step_savedPhase hs h
    · rw [hk.frame.cpu d hd]
      exact (hs.saved d).frame (hs.cpu d).phase (fun t ht => ((hs.cpu d).current t ht).1) hk.frame
        hd
  · by_cases hd : d = a.cpu
    · exact hd ▸ step_calm hs hok.noException h
    · rw [hk.frame.cpu d hd]
      exact hs.calm d

/-- What `kernel_start_user` loads into the processor: everything but the saved FLAGS. -/
theorem startUser_resumes {l : UserExit} (h : l.Resumes (s.sched.thread n).ctx)
    (hflags : (s.sched.thread n).ctx.flags.condition = (false, false, false, false)) :
    l.Resumes ((startUser s c n).cpu c).ctx := by
  have hctx : ((startUser s c n).cpu c).ctx =
      { (s.sched.thread n).ctx with flags := startFlags.toFlags } := by
    simp [startUser, State.modCpu, State.modStack]
  rw [hctx]
  refine ⟨⟨h.pc, h.stackPointer, h.registers, ?_⟩, h.preempted, h.called⟩
  exact hflags.symm.trans h.condition

/-- A transition to user mode loads the context that the thread left user mode with. -/
theorem Faithful.enters_user (hs : Faithful s) (hflags : StartFlagsClear s a)
    (h : Kernel.step s a = some s') (hp : (s.cpu a.cpu).phase ≠ .user)
    (hp' : (s'.cpu a.cpu).phase = .user) :
    ∃ t, s'.sched.current a.cpu = some t ∧
      (s'.sched.lastUser t).Resumes (s'.cpu a.cpu).ctx := by
  have hsaved := hs.saved a.cpu
  have hok := (hs.cpu a.cpu).phase
  obtain ⟨_, _, ht⟩ := step_trans h
  cases ht with
  | @sect fp x ex hsec =>
    rw [applySection_cpu_self] at hp'
    cases ex <;> cases hp'
  | user hu _ => exact absurd hu hp
  | trap hu _ => exact absurd hu hp
  | @iret fp hr =>
    rw [hr] at hsaved hok
    by_cases hmode : (s.stack fp.stack).frame.flags.userMode = true
    · obtain ⟨t, ht⟩ := hok.2 hmode
      refine ⟨t, ht, ?_⟩
      simp only [trapRestore, modCpu_cpu_self, hmode, if_true]
      exact hsaved hmode t ht
    · simp [trapRestore, hmode] at hp'
  | @suspendToUser w n depth fp hr =>
    rw [hr] at hsaved hok
    simp only [StartFlagsClear, hr] at hflags
    obtain ⟨_, _, _, hne, hn, _⟩ := hok
    have hthread : (saveContinuation s fp w depth).sched.thread n = s.sched.thread n := by
      rw [saveContinuation_sched, modThread_thread_ne _ _ hne]
    exact ⟨n, hn, startUser_resumes (by rw [hthread]; exact hsaved.2)
      (by rw [hthread]; exact hflags)⟩
  | start hr =>
    rw [hr] at hsaved hok
    simp only [StartFlagsClear, hr] at hflags
    exact ⟨_, hok, startUser_resumes hsaved hflags⟩
  | switchContinuation hr =>
    obtain ⟨k, hk⟩ := switchContinuation_phase (hr ▸ hok)
    cases hk.symm.trans hp'
  | resume hr =>
    rw [hr] at hok
    obtain ⟨n, hn, hcont⟩ := hok
    obtain ⟨k, hk⟩ := resumeContinuation_phase (c := a.cpu) hcont
    cases hk.symm.trans hp'
  | secondaryStart _ _ hmain =>
    cases hmain <;> rw [Action.env_cpu, modCpu_cpu_self] at hp' <;> cases hp'
  | _ => rw [modCpu_cpu_self] at hp'; cases hp'

/-! ## Runs -/

theorem Boot.faithful (h : Boot s t) : Faithful s where
  toLively := h.lively
  thread u := by
    have hself : (s.sched.lastUser u).Resumes (s.sched.thread u).ctx := by
      rw [h.lastUser u]
      exact UserExit.resumes_self rfl nofun
    refine ⟨fun _ => hself, fun hb => ?_⟩
    by_cases hu : u = t
    · subst hu
      rw [h.first.1] at hb
      cases hb
    · rcases (h.other u hu).2 with ⟨hr, _⟩ | ⟨hr, _⟩ <;> rw [hr] at hb <;> cases hb
  suspended u sp hsp := by
    rw [(h.thread u).kernelResumeSp] at hsp
    cases hsp
  saved c := by
    by_cases hc : c = 0
    · subst hc
      rw [h.boot]
      simp only [SavedPhase, h.lastUser t]
      exact UserExit.resumes_self rfl nofun
    · rcases h.secondary c hc with hp | ⟨woken, hp⟩ <;> rw [hp] <;> trivial
  calm c := by
    by_cases hc : c = 0
    · subst hc
      rw [h.boot]
      trivial
    · rcases h.secondary c hc with hp | ⟨woken, hp⟩ <;> rw [hp] <;> trivial
  notFaulted p := (h.process p).faulted

/-- In every run in which threads are started only with clear condition flags and over no
    suspended continuation, a processor that returns to user mode loads PC, SP, R1 to R14 and
    the condition flags that its thread had when it last left user mode, and R0 as well, or the
    result of the system call. -/
theorem resumes_lastUser {s₀ : State} {t₀ : ThreadRef} (hb : Boot s₀ t₀)
    (hr : Run step ResumesClean s₀ s) (hok : ResumesClean s a) (h : step s a = some s')
    (hp : (s.cpu a.cpu).phase ≠ .user) (hp' : (s'.cpu a.cpu).phase = .user) :
    ∃ t, s'.sched.current a.cpu = some t ∧
      (s'.sched.lastUser t).Resumes (s'.cpu a.cpu).ctx := by
  have hs : Faithful s := hr.invariant hb.faithful fun _ _ _ hs hok h => hs.step hok h
  exact hs.enters_user hok.flags h hp hp'

/-- The first thread sets Z and is preempted twice, with the second thread in between. -/
theorem resumes_lastUser_twoThreads : ∃ s s' a, Run step ResumesClean twoThreads.state s ∧
    step s a = some s' ∧ (s'.cpu 0).phase = .user ∧ s'.sched.current 0 = some 0 ∧
    (s'.cpu 0).ctx.flags.zero = true ∧
    ∃ t, s'.sched.current 0 = some t ∧ (s'.sched.lastUser t).Resumes (s'.cpu 0).ctx := by
  have clean : ∀ {s : State} {i : Input}, StartFlagsClear s (bootAct i) →
      SwitchSafe s (bootAct i) → ExecAlone s (bootAct i) → NoException (bootAct i) →
      ResumesClean s (bootAct i) := fun h₁ h₂ h₃ h₄ => ⟨h₁, h₂, h₃, h₄⟩
  have h₁ : Run step ResumesClean twoThreads.state _ :=
    Run.refl.tail (a := bootAct .switch) (clean rfl nofun trivial trivial) rfl
  have h₂ := h₁.tail (a := bootAct (.user (userContext true 0)))
    (clean trivial trivial trivial trivial) rfl
  have h₃ := h₂.tail (a := bootAct (.trap .timer)) (clean trivial trivial trivial rfl) rfl
  have h₄ := h₃.tail (a := bootAct (.dispatch (.done 0) .none))
    (clean trivial trivial trivial trivial) rfl
  have h₅ := h₄.tail (a := bootAct .iret) (clean trivial trivial trivial trivial) rfl
  have h₆ := h₅.tail (a := bootAct (.trap .timer)) (clean trivial trivial trivial rfl) rfl
  have h₇ := h₆.tail (a := bootAct (.dispatch (.done 0) .none))
    (clean trivial trivial trivial trivial) rfl
  have hret := resumes_lastUser (a := bootAct .iret) (twoThreads.state_boot Nat.one_pos) h₇
    (clean trivial trivial trivial trivial) rfl nofun rfl
  exact ⟨_, _, bootAct .iret, h₇, rfl, rfl, rfl, rfl, hret⟩

/-- The first thread waits for the disk twice.  In between, the second thread sets Z and is
    preempted by the timer. -/
def flagLoss : List Action :=
  let waiting : Script := .block .block 0 0 64 (.done 0)
  [bootAct .switch, bootAct (.user (userContext false 1)), bootAct (.trap .syscall),
    bootAct (.dispatch waiting .none), bootAct .switch,
    bootAct (.user (userContext true 0)), bootAct (.trap .device),
    bootAct (.dispatch (.done 0) (.wakeOne .block 0)), bootAct .iret,
    bootAct (.trap .timer), bootAct (.dispatch (.done 0) .none), bootAct .switch,
    bootAct (.resumed waiting)]

/-- `kernel_suspend_to_user` then starts the second thread with a constant FLAGS word: the
    thread left user mode with Z set and returns with Z clear. -/
theorem flagLoss_zero : ∃ s s', Boot twoThreads.state 0 ∧
    Run step (fun _ _ => True) twoThreads.state s ∧ step s (bootAct .switch) = some s' ∧
    (s.cpu 0).phase ≠ .user ∧ (s'.cpu 0).phase = .user ∧ s'.sched.current 0 = some 1 ∧
    (s'.sched.lastUser 1).ctx.flags.zero = true ∧ (s'.cpu 0).ctx.flags.zero = false := by
  have h : (runList step twoThreads.state flagLoss).isSome = true := rfl
  have h' : (step ((runList step twoThreads.state flagLoss).get h) (bootAct .switch)).isSome =
      true := rfl
  exact ⟨(runList step twoThreads.state flagLoss).get h,
    (step ((runList step twoThreads.state flagLoss).get h) (bootAct .switch)).get h',
    twoThreads.state_boot Nat.one_pos, .of_runList (Option.some_get h).symm,
    (Option.some_get h').symm, nofun, rfl, rfl, rfl, rfl⟩

end RiscMv.Kernel
