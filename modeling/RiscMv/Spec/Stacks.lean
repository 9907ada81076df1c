import RiscMv.Spec.Boot
import RiscMv.Spec.SchedFrame

/-!
# Who uses which kernel stack

Every processor runs on, or is about to return to, kernel stacks of threads pinned to it
(`Cpu.kernelStacks`); a suspended continuation lies on such a stack as well, and on one its
processor does not use.  This is an invariant of all runs in which no thread is started in
user mode on a kernel stack that holds a suspended continuation (`SwitchSafe`).

## Key results
- `Inv.step`: the invariant is preserved, processor by processor
- `runSection_outcome`: every section works for one thread and ends as `Outcome` says
-/

namespace RiscMv.Kernel

/-- The kernel stacks a processor uses or returns to. -/
def Cpu.kernelStacks (p : Cpu) : List StackId :=
  match p.phase with
  | .user => [p.ksp.stack]
  | .trap _ fp => [fp.stack]
  | .restore fp => [fp.stack]
  | .idle _ fp _ => [fp.stack]
  | .spin _ fp _ => [fp.stack]
  | .suspend _ _ _ none fp => [fp.stack]
  | .suspend _ _ _ (some sp) fp => [fp.stack, sp.stack]
  | .resume sp _ => [sp.stack]
  | .reacquire k => [k.framePointer.stack]
  | .retire fp => [fp.stack]
  | .main | .mainIdle _ | .start _ | .halted | .wild => []

/-- `fp` is the trap frame at the top of the kernel stack of a thread pinned to `c`. -/
def FrameAt (s : Sched) (c : CpuId) (fp : StackAddr) : Prop :=
  ∃ m, fp = trapFramePointer (kernelStackTop m) ∧ (s.thread m).cpuAffinity = c + 1

/-- The continuation of thread `n` lies at `sp`, in the kernel stack of a thread pinned to
    `c`, below the trap frame at the top of that stack. -/
def ContAt (s : State) (c : CpuId) (n : ThreadRef) (sp : StackAddr) : Prop :=
  ∃ m, sp.stack = .thread m ∧ (s.sched.thread m).cpuAffinity = c + 1 ∧
    (s.stack (.thread m)).kont = some (sp.below, ⟨n, trapFramePointer (kernelStackTop m)⟩)

/-- What holds of a processor at each point of the kernel. -/
def PhaseOk (s : State) (c : CpuId) : Phase → Prop
  | .user => (∃ t, s.sched.current c = some t) ∧
      ∃ m, (s.cpu c).ksp = kernelStackTop m ∧ (s.sched.thread m).cpuAffinity = c + 1
  | .trap _ fp => (∃ t, s.sched.current c = some t) ∧ FrameAt s.sched c fp
  | .restore fp => FrameAt s.sched c fp ∧
      ((s.stack fp.stack).frame.flags.userMode = true → ∃ t, s.sched.current c = some t)
  | .idle p fp _ => FrameAt s.sched c fp ∧ Pinned c p.waiter s.sched ∧
      (s.sched.thread p.waiter).kernelResumeSp = none
  | .spin r fp _ => FrameAt s.sched c fp ∧ s.sched.current c = some r.thread ∧
      r.process = (s.sched.thread r.thread).process
  | .suspend w n _ sp fp => FrameAt s.sched c fp ∧ Pinned c w s.sched ∧
      (s.sched.thread w).kernelResumeSp = none ∧ n ≠ w ∧ s.sched.current c = some n ∧
      ∀ a ∈ sp, ContAt s c n a ∧ a.stack ≠ fp.stack
  | .resume sp _ => ∃ n, s.sched.current c = some n ∧ ContAt s c n sp
  | .reacquire k => s.sched.current c = some k.waiter ∧ FrameAt s.sched c k.framePointer
  | .retire fp => FrameAt s.sched c fp
  | .start t => s.sched.current c = some t
  | .main | .mainIdle _ | .halted => True
  | .wild => False

/-- The invariant of processor `c` and of the threads pinned to it. -/
structure CpuOk (s : State) (c : CpuId) : Prop where
  current : ∀ t, s.sched.current c = some t →
    Ready c t s.sched ∧ (s.sched.thread t).kernelResumeSp = none
  phase : PhaseOk s c (s.cpu c).phase
  suspended : ∀ u sp, (s.sched.thread u).cpuAffinity = c + 1 →
    (s.sched.thread u).kernelResumeSp = some sp →
    ContAt s c u sp ∧ sp.stack ∉ (s.cpu c).kernelStacks

/-- The invariant of the system. -/
structure Inv (s : State) : Prop where
  queue : RunQueueOk s.sched
  listed : ∀ p t, t ∈ (s.sched.process p).threads → (s.sched.thread t).process = p
  fresh : ∀ u, (s.sched.thread u).cpuAffinity = 0 → (s.sched.thread u).kernelResumeSp = none
  cpu : ∀ c, CpuOk s c

/-- What a transition of processor `c` leaves alone. -/
structure Frame (c : CpuId) (s s' : State) : Prop where
  sched : SchedFrame c s.sched s'.sched
  cpu : ∀ d, d ≠ c → s'.cpu d = s.cpu d
  stack : ∀ m, (s'.sched.thread m).cpuAffinity ≠ c + 1 → s'.stack (.thread m) = s.stack (.thread m)

/-- A transition of processor `c` leaves the others alone and re-establishes the invariant of
    `c`. -/
structure Keeps (s : State) (c : CpuId) (s' : State) : Prop where
  frame : Frame c s s'
  cpuOk : CpuOk s' c

variable {s s' : State} {c d : CpuId} {t u w n : ThreadRef} {sp fp : StackAddr} {e : Env}
  {a : Action}

/-! ## Other processors -/

theorem FrameAt.frame {σ σ' : Sched} (h : FrameAt σ d fp) (hf : SchedFrame c σ σ') :
    FrameAt σ' d fp := by
  obtain ⟨m, hfp, hm⟩ := h
  exact ⟨m, hfp, by rw [hf.pinned m (by omega)]; exact hm⟩

theorem ContAt.frame (h : ContAt s d n sp) (hf : Frame c s s') (hd : d ≠ c) :
    ContAt s' d n sp := by
  obtain ⟨m, hsp, hm, hk⟩ := h
  have hm' : (s'.sched.thread m).cpuAffinity = d + 1 := by
    rw [hf.sched.pinned m (by omega)]; exact hm
  refine ⟨m, hsp, hm', ?_⟩
  rw [hf.stack m (by rw [hm']; exact fun h => hd (Nat.succ.inj h))]
  exact hk

theorem Frame.current (hf : Frame c s s') (hd : d ≠ c) :
    s'.sched.current d = s.sched.current d := by
  rw [Sched.current, Sched.current, hf.sched.cpu d hd]

theorem Frame.resumeSp_pinned (hf : Frame c s s') (hd : d ≠ c)
    (hu : (s'.sched.thread u).cpuAffinity = d + 1) :
    (s'.sched.thread u).kernelResumeSp = (s.sched.thread u).kernelResumeSp :=
  hf.sched.resumeSp u (by rw [hu]; exact fun h => hd (Nat.succ.inj h))

/-- The stack of another processor's handler is left alone. -/
theorem FrameAt.stack_eq (h : FrameAt s.sched d fp) (hf : Frame c s s') (hd : d ≠ c) :
    s'.stack fp.stack = s.stack fp.stack := by
  obtain ⟨m, rfl, hm⟩ := h
  refine hf.stack m ?_
  rw [hf.sched.pinned m (by omega), hm]
  exact fun h => hd (Nat.succ.inj h)

/-- The stack of a continuation that another processor can resume is left alone. -/
theorem ContAt.stack_eq (h : ContAt s d n sp) (hf : Frame c s s') (hd : d ≠ c) :
    s'.stack sp.stack = s.stack sp.stack := by
  obtain ⟨m, hsp, hm, _⟩ := h
  rw [hsp]
  refine hf.stack m ?_
  rw [hf.sched.pinned m (by omega), hm]
  exact fun h => hd (Nat.succ.inj h)

theorem PhaseOk.frame {ph : Phase} (h : PhaseOk s d ph) (hf : Frame c s s') (hd : d ≠ c) :
    PhaseOk s' d ph := by
  cases ph with
  | user =>
    obtain ⟨⟨t, ht⟩, m, hksp, hm⟩ := h
    exact ⟨⟨t, (hf.current hd).trans ht⟩, m, by rw [hf.cpu d hd]; exact hksp,
      by rw [hf.sched.pinned m (by omega)]; exact hm⟩
  | trap k fp =>
    obtain ⟨⟨t, ht⟩, hfp⟩ := h
    exact ⟨⟨t, (hf.current hd).trans ht⟩, hfp.frame hf.sched⟩
  | restore fp =>
    obtain ⟨hfp, hcur⟩ := h
    refine ⟨hfp.frame hf.sched, fun hmode => ?_⟩
    rw [hf.current hd]
    rw [hfp.stack_eq hf hd] at hmode
    exact hcur hmode
  | idle p fp _ =>
    obtain ⟨hfp, hpin, hres⟩ := h
    exact ⟨hfp.frame hf.sched, hpin.frame hf.sched,
      (hf.resumeSp_pinned hd (hpin.frame hf.sched).affinity).trans hres⟩
  | spin r fp _ =>
    obtain ⟨hfp, hcur, hproc⟩ := h
    exact ⟨hfp.frame hf.sched, (hf.current hd).trans hcur, hproc.trans (hf.sched.process _).symm⟩
  | suspend w n _ sp fp =>
    obtain ⟨hfp, hpin, hres, hne, hcur, hcont⟩ := h
    exact ⟨hfp.frame hf.sched, hpin.frame hf.sched,
      (hf.resumeSp_pinned hd (hpin.frame hf.sched).affinity).trans hres, hne,
      (hf.current hd).trans hcur, fun a ha => ⟨(hcont a ha).1.frame hf hd, (hcont a ha).2⟩⟩
  | resume sp _ =>
    obtain ⟨n, hcur, hcont⟩ := h
    exact ⟨n, (hf.current hd).trans hcur, hcont.frame hf hd⟩
  | reacquire k => exact ⟨(hf.current hd).trans h.1, h.2.frame hf.sched⟩
  | retire fp => exact FrameAt.frame h hf.sched
  | start t => exact (hf.current hd).trans h
  | _ => exact h

theorem CpuOk.frame (h : CpuOk s d) (hf : Frame c s s') (hd : d ≠ c) : CpuOk s' d where
  current t ht := by
    rw [hf.current hd] at ht
    obtain ⟨hready, hres⟩ := h.current t ht
    exact ⟨hready.frame hf.sched hd,
      (hf.resumeSp_pinned hd (hready.toPinned.frame hf.sched).affinity).trans hres⟩
  phase := by rw [hf.cpu d hd]; exact h.phase.frame hf hd
  suspended u sp hu hsp := by
    rw [hf.resumeSp_pinned hd hu] at hsp
    have hu' : (s.sched.thread u).cpuAffinity = d + 1 := by
      rcases hf.sched.affinity u with haff | haff
      · rw [← haff]; exact hu
      · exact absurd (Nat.succ.inj (hu.symm.trans haff)) hd
    obtain ⟨hcont, hstacks⟩ := h.suspended u sp hu' hsp
    exact ⟨hcont.frame hf hd, by rw [hf.cpu d hd]; exact hstacks⟩

/-- The invariant is preserved, processor by processor. -/
theorem Inv.step (h : Inv s) (hk : Keeps s c s') : Inv s' where
  queue := hk.frame.sched.queue h.queue
  listed p t ht := by
    rw [hk.frame.sched.process t]
    exact h.listed p t (hk.frame.sched.threads p ht)
  fresh u hu := by
    rw [hk.frame.sched.resumeSp u (by omega)]
    refine h.fresh u (Decidable.byContradiction fun hne => ?_)
    rw [hk.frame.sched.pinned u hne] at hu
    exact hne hu
  cpu d := by
    by_cases hd : d = c
    · exact hd ▸ hk.cpuOk
    · exact (h.cpu d).frame hk.frame hd

/-! ## Sections -/

/-- The thread that the next section of a processor works for. -/
def sectionThread (s : State) (c : CpuId) : Option ThreadRef :=
  match (s.cpu c).phase with
  | .trap _ _ => s.sched.current c
  | .idle p _ _ => some p.waiter
  | .spin r _ _ => some r.thread
  | .reacquire k => some k.waiter
  | _ => none

/-- The trap frame that the next section of a processor works with. -/
def sectionFrame (s : State) (c : CpuId) : Option StackAddr :=
  match (s.cpu c).phase with
  | .trap _ fp => some fp
  | .idle _ fp _ => some fp
  | .spin _ fp _ => some fp
  | .reacquire k => some k.framePointer
  | _ => none

/-- An exception handler gets to `kernel_scheduler_fault`. -/
def faultPath (s : State) (a : Action) (fp : StackAddr) (t : ThreadRef) : Prop :=
  stopCurrent a.env (.enter s a.env fp) = none ∧
    currentSpace a.env (Sect.enter s a.env fp).sched = some t

/-- What a section may do: a fault kills the threads of its process, exec discards the other
    ones and withdraws the stop request.  A file system call, waiting or continued, gets a
    result unless its process has faulted, in which case it ends in `kernel_scheduler_exit`. -/
def sectionPerm (s : State) (a : Action) (fp : StackAddr) (t : ThreadRef) : Perm where
  kill u := match (s.cpu a.cpu).phase with
    | .trap (.exception _ _ _) _ => faultPath s a fp t ∧
        u ∈ (s.sched.process (s.sched.thread t).process).threads
    | .spin (.exec t p _) _ _ => u ∈ (s.sched.process p).threads ∧ u ≠ t
    | _ => False
  wake _ := True
  child u := match (s.cpu a.cpu).phase with
    | .trap k _ => childTrap k t (.enter s a.env fp) u
    | .spin (.fault _ _) _ _ => ParentThread t s.sched u
    | .spin (.exec _ _ _) _ _ => False
    | _ => (s.sched.process (s.sched.thread t).process).faulted = true ∧ ParentThread t s.sched u
  clear := match (s.cpu a.cpu).phase with
    | .spin (.exec _ _ _) _ _ => True
    | _ => False
  quiet := match (s.cpu a.cpu).phase with
    | .trap k _ => quietTrap a.env k t (.enter s a.env fp)
    | .spin _ _ _ => False
    | _ => (s.sched.process (s.sched.thread t).process).faulted = true
  load := match a.input, (s.cpu a.cpu).phase with
    | .dispatch script _, .trap k _ => loadTrap k script t (.enter s a.env fp)
    | .wake, .idle p _ _ => p.loads = true ∨
        (s.sched.process (s.sched.thread t).process).faulted = true
    | .rendezvous, .spin (.fault _ _) _ _ => True
    | .resumed script, .reacquire _ => script.blocksCurrent = true ∨
        (s.sched.process (s.sched.thread t).process).faulted = true
    | _, _ => False
  call := match (s.cpu a.cpu).phase with
    | .trap k _ => k.isSyscall = true
    | .idle (.fault _) _ _ | .spin _ _ _ => False
    | _ => True
  fault := match (s.cpu a.cpu).phase with
    | .trap (.exception _ _ _) _ => faultPath s a fp t
    | .idle (.fault _) _ _ | .spin (.fault _ _) _ _ => True
    | _ => False

/-- A section of processor `c` that works for `t` can start with the frame at `fp`. -/
structure SectionStart (s : State) (c : CpuId) (fp : StackAddr) (t : ThreadRef) : Prop where
  thread : sectionThread s c = some t
  frame : sectionFrame s c = some fp
  pinned : Pinned c t s.sched
  frameAt : FrameAt s.sched c fp
  uses : (s.cpu c).kernelStacks = [fp.stack]
  resumeSp : (s.sched.thread t).kernelResumeSp = none

theorem Pinned.enter (h : Pinned e.cpu t s.sched) : Pinned e.cpu t (Sect.enter s e fp).sched :=
  h.frame (lockTaken_frame e s.sched)

theorem Ready.enter (h : Ready e.cpu t s.sched) : Ready e.cpu t (Sect.enter s e fp).sched where
  toPinned := h.toPinned.enter
  current := by
    simpa [Sect.enter, lockTaken, Sched.modCpu, Sched.current] using h.current
  process := by simpa [Sect.enter, lockTaken, Sched.modCpu] using h.process
  notWaiting := h.notWaiting

/-- Every section works for one thread and ends as `Outcome` says. -/
theorem runSection_outcome {r : Sect × Exit} (hs : Inv s)
    (h : runSection s a = some (fp, r)) :
    ∃ t, SectionStart s a.cpu fp t ∧
      Outcome (sectionPerm s a fp t) a.env t (.enter s a.env fp) r := by
  have hok := (hs.cpu a.cpu).phase
  have hcur := (hs.cpu a.cpu).current
  unfold runSection at h
  split at h
  · next script event k fp' hin hphase =>
    cases h
    rw [hphase] at hok
    obtain ⟨⟨t, ht⟩, hfp⟩ := hok
    obtain ⟨hready, hres⟩ := hcur t ht
    refine ⟨t, ⟨by simp [sectionThread, hphase, ht], by simp [sectionFrame, hphase],
      hready.toPinned, hfp, by simp [Cpu.kernelStacks, hphase], hres⟩, ?_⟩
    refine trapHandler_outcome (fun hk => ⟨fun _ => trivial, ?_⟩)
      (by simp only [sectionPerm, hphase]; exact id) (fun hk hstop hspace => ?_)
      (by simp only [sectionPerm, hphase]; exact id)
      (by simp only [sectionPerm, hphase, hin]; exact id)
      (fun u => by simp only [sectionPerm, hphase]; exact id) (Ready.enter (e := a.env) hready)
      event
    · simp only [sectionPerm, hphase]
      cases k <;> simp_all [TrapKind.isException]
    · simp only [sectionPerm, hphase]
      cases k with
      | exception => exact ⟨⟨hstop, hspace⟩, fun u hu => ⟨⟨hstop, hspace⟩, hu⟩⟩
      | _ => cases hk
  · next p fp' hin hphase =>
    cases h
    rw [hphase] at hok
    obtain ⟨hfp, hpin, hres⟩ := hok
    refine ⟨p.waiter, ⟨by simp [sectionThread, hphase], by simp [sectionFrame, hphase], hpin, hfp,
      by simp [Cpu.kernelStacks, hphase], hres⟩, ?_⟩
    exact idleWake_outcome ⟨fun _ => trivial, by simp [sectionPerm, hphase]⟩
      (by cases p <;> simp [sectionPerm, hphase, Pending.Allowed])
      (by simp only [sectionPerm, hphase, hin]; exact .inl) rfl
      (Pinned.enter (e := a.env) hpin)
      fun hf => ⟨fun q hq u hu hut => by
        simp only [sectionPerm, hphase]; exact ⟨hf, hut, q, hq, hu⟩,
        by simp only [sectionPerm, hphase]; exact hf,
        by simp only [sectionPerm, hphase, hin]; exact .inr hf⟩
  · next v fp' hin hphase =>
    cases h
    rw [hphase] at hok
    obtain ⟨hfp, ht, hp⟩ := hok
    obtain ⟨hready, hres⟩ := hcur _ ht
    refine ⟨v.thread, ⟨by simp [sectionThread, hphase], by simp [sectionFrame, hphase],
      hready.toPinned, hfp, by simp [Cpu.kernelStacks, hphase], hres⟩, ?_⟩
    cases v with
    | exec t p image =>
      exact execRendezvous_outcome
        ⟨fun _ => trivial, by simp [sectionPerm, hphase, Rendezvous.thread]⟩
        (by simp [sectionPerm, hphase])
        (fun u hu hne => by simp only [sectionPerm, hphase]; exact ⟨hu, hne⟩)
        (Ready.enter (e := a.env) hready) hp.symm image
    | fault t p =>
      exact faultRendezvous_outcome ⟨fun _ => trivial, by simp [sectionPerm, hphase]⟩
        (by simp [sectionPerm, hphase])
        (fun q hq u hu hut => by simp only [sectionPerm, hphase]; exact ⟨hut, q, hq, hu⟩)
        (by simp [sectionPerm, hphase, hin])
        (Ready.enter (e := a.env) hready) hp.symm
  · next script k hin hphase =>
    cases h
    rw [hphase] at hok
    obtain ⟨ht, hfp⟩ := hok
    obtain ⟨hready, hres⟩ := hcur _ ht
    refine ⟨k.waiter, ⟨by simp [sectionThread, hphase], by simp [sectionFrame, hphase],
      hready.toPinned, hfp, by simp [Cpu.kernelStacks, hphase], hres⟩, ?_⟩
    exact resumedSection_outcome ⟨⟨fun _ => trivial, by simp [sectionPerm, hphase]⟩,
        by simp [sectionPerm, hphase]⟩
      (by simp only [sectionPerm, hphase, hin]; exact .inl) rfl (Ready.enter (e := a.env) hready)
      fun hf => ⟨fun q hq u hu hut => by
        simp only [sectionPerm, hphase]; exact ⟨hf, hut, q, hq, hu⟩,
        by simp only [sectionPerm, hphase]; exact hf,
        by simp only [sectionPerm, hphase, hin]; exact .inr hf⟩
  · cases h

section outcome

variable {π : Perm} {x : Sect} {r : Sect × Exit} {σ σ' : Sched}

/-- The thread that is dispatched has no continuation afterwards; the others are as they were. -/
theorem Closes.suspended {b : Bool} (hc : Closes π e σ b σ')
    (h : (σ'.thread u).kernelResumeSp = some sp) :
    SameHome (σ.thread u) (σ'.thread u) ∧
      ThreadMoves (σ.thread u) (σ'.thread u) (σ.lastUser u) (σ'.lastUser u) := by
  cases hc with
  | stay | idle => exact ⟨.refl _, .refl _ _⟩
  | @start n σ' hd hn =>
    have hun : u ≠ n := by
      rintro rfl
      rw [show ((setCurrent e (some u) σ').thread u).kernelResumeSp = _ from hd.resumeSp, hn] at h
      cases h
    rw [show (setCurrent _ _ _).thread u = _ from hd.thread_ne hun,
      show (setCurrent _ _ _).lastUser = _ from hd.lastUser]
    exact ⟨.refl _, .refl _ _⟩
  | @take n σ' hd =>
    have hun : u ≠ n := by
      rintro rfl
      simp at h
    rw [modThread_thread_ne _ _ hun, show (setCurrent _ _ _).thread u = _ from hd.thread_ne hun,
      modThread_lastUser, show (setCurrent _ _ _).lastUser = _ from hd.lastUser]
    exact ⟨.refl _, .refl _ _⟩
  | halt hh => exact ⟨hh.home u, hh.thread_moves u⟩

/-- A section saves no continuation, and takes only the one of the thread it dispatches. -/
theorem Outcome.resumeSp_some (o : Outcome π e t x r)
    (h : (r.1.sched.thread u).kernelResumeSp = some sp) :
    (x.sched.thread u).kernelResumeSp = some sp ∧
      (r.1.sched.thread u).cpuAffinity = (x.sched.thread u).cpuAffinity := by
  obtain ⟨σ, ha, hc⟩ := o.closes
  have hhome := (ha.moves.home u).trans (hc.suspended h).1
  exact ⟨hhome.resumeSp ▸ h, hhome.affinity⟩

/-- A dispatched thread is ready, and so it is once its continuation is taken. -/
theorem Left.dispatch_ready (hl : Left π e t x σ) (hd : Dequeue e n σ σ')
    (hlist : ∀ p u, u ∈ (x.sched.process p).threads → (x.sched.thread u).process = p) :
    Ready e.cpu n (setCurrent e (some n) σ') ∧
      Ready e.cpu n ((setCurrent e (some n) σ').modThread n
        ({ · with kernelResumeSp := none })) := by
  have hready := hd.ready hl.pinned.queue hl.pinned.online fun p hp => by
    rw [(hl.acts.moves.home n).process]
    exact hlist p n (hl.acts.threads_subset p hp)
  refine ⟨hready, ⟨hready.toPinned.frame (.modThread hready.affinity hready.affinity rfl rfl),
    hready.current, ?_, ?_⟩⟩
  · simpa using hready.process
  · simpa [KernelThread.Waiting] using hready.notWaiting

/-- The current thread at the end of a section is ready and has no suspended continuation. -/
theorem Outcome.current_ok (o : Outcome π e t x r)
    (hlist : ∀ p u, u ∈ (x.sched.process p).threads → (x.sched.thread u).process = p)
    (hres : (x.sched.thread t).kernelResumeSp = none)
    (hcur : r.1.sched.current e.cpu = some n) :
    Ready e.cpu n r.1.sched ∧ (r.1.sched.thread n).kernelResumeSp = none := by
  have served : ∀ {y : Sect}, Acts π e t x.sched y.sched → Ready e.cpu t y.sched →
      y.sched.current e.cpu = some n →
      Ready e.cpu n y.sched ∧ (y.sched.thread n).kernelResumeSp = none := by
    intro y ha hr hc
    obtain rfl := Option.some.inj (hr.current.symm.trans hc)
    exact ⟨hr, (ha.moves.home t).resumeSp.trans hres⟩
  have ended : ∀ {y : Sect}, Ends π e t x y → y.sched.current e.cpu = some n →
      Ready e.cpu n y.sched ∧ (y.sched.thread n).kernelResumeSp = none := by
    intro y he hc
    rcases he.current with hnone | hr
    · rw [hnone] at hc; cases hc
    · exact served he.acts hr hc
  have loaded : ∀ {y : Sect} {m : ThreadRef} {σ σ' : Sched}, Left π e t x σ →
      Dequeue e m σ σ' → (σ.thread m).kernelResumeSp = none →
      y.sched = setCurrent e (some m) σ' → y.sched.current e.cpu = some n →
      Ready e.cpu n y.sched ∧ (y.sched.thread n).kernelResumeSp = none := by
    intro y m σ σ' hl hd hm hy hc
    have hready := (hl.dispatch_ready hd hlist).1
    rw [hy] at hc ⊢
    obtain rfl := Option.some.inj (hready.current.symm.trans hc)
    exact ⟨hready, hd.resumeSp.trans hm⟩
  have resumed : ∀ {y : Sect} {m : ThreadRef} {σ σ' : Sched}, Left π e t x σ →
      Dequeue e m σ σ' →
      y.sched = (setCurrent e (some m) σ').modThread m ({ · with kernelResumeSp := none }) →
      y.sched.current e.cpu = some n →
      Ready e.cpu n y.sched ∧ (y.sched.thread n).kernelResumeSp = none := by
    intro y m σ σ' hl hd hy hc
    have hready := (hl.dispatch_ready hd hlist).2
    rw [hy] at hc ⊢
    obtain rfl := Option.some.inj (hready.current.symm.trans hc)
    exact ⟨hready, by simp⟩
  cases o with
  | kept _ h | result _ _ h | exec _ _ h => exact served h.acts h.ready hcur
  | stopped h => exact ended h hcur
  | load _ hl hd hn hsched | suspend _ _ hl hd _ hn hsched => exact loaded hl hd hn hsched hcur
  | resume hl hd hn hsched | switch _ _ hl hd _ hn hsched => exact resumed hl hd hsched hcur
  | idle _ _ hl hsched =>
    simp [hsched, idleEnter, setCurrent, Sched.modCpu, Sched.current] at hcur
  | spin _ _ _ h => exact served h.acts h.ready hcur
  | retire h => exact ended h hcur
  | halt h hy =>
    rw [hy.current] at hcur
    obtain ⟨hready, hnone⟩ := ended h hcur
    exact ⟨hy.ready hready, (hy.home n).resumeSp.trans hnone⟩

end outcome

theorem Boot.inv (h : Boot s t) : Inv s where
  queue := h.runQueue
  listed := h.listed
  fresh u _ := (h.thread u).kernelResumeSp
  cpu c := by
    have hcurrent : ∀ v, s.sched.current c = some v → c = 0 ∧ v = t := by
      intro v hv
      by_cases hc : c = 0
      · subst hc
        rw [Sched.current, h.bootCpu] at hv
        exact ⟨rfl, (Option.some.inj hv).symm⟩
      · rw [Sched.current, (h.secondaryCpu c hc).1] at hv
        cases hv
    have hzero : s.sched.current 0 = some t := by rw [Sched.current, h.bootCpu]
    refine ⟨fun v hv => ?_, ?_, fun u sp _ hsp => ?_⟩
    · obtain ⟨rfl, rfl⟩ := hcurrent v hv
      refine ⟨⟨⟨h.online, fun p => h.listed p v, h.first.2.2, h.runQueue⟩, hzero, ?_, ?_⟩,
        (h.thread v).kernelResumeSp⟩
      · rw [h.bootCpu]
      · simp [KernelThread.Waiting, h.first]
    · by_cases hc : c = 0
      · subst hc
        rw [h.boot]
        exact hzero
      · rcases h.secondary c hc with hp | ⟨woken, hp⟩ <;> rw [hp] <;> trivial
    · rw [(h.thread u).kernelResumeSp] at hsp
      cases hsp

end RiscMv.Kernel
