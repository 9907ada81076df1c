import RiscMv.Spec.Stacks

/-!
# The transitions of the system

`Trans s a s'` lists the transitions of `step`, with the point of the kernel each one starts
from; `MainStep` those of the idle loop of a secondary processor.  Invariants are proved by cases on
them.
-/

namespace RiscMv.Kernel

/-- The permissions of code that wakes threads and does nothing else of note. -/
def Perm.waking : Perm :=
  ⟨fun _ => False, fun _ => True, fun _ => False, False, False, False, False, False⟩

/-- The handlers that run while a processor idles wake threads. -/
theorem idleInterrupt_waking (e : Env) (i : IdleInterrupt) (σ : Sched) :
    MicroSteps .waking σ (idleInterrupt e i σ) :=
  idleInterrupt_micro trivial i σ

/-- What `kernel_scheduler_secondary_start` does. -/
inductive MainStep (s : State) (e : Env) : State → Prop
  | idle {σ : Sched} (h : MicroSteps .waking (lockTaken e s.sched) σ) :
      MainStep s e { s.modCpu e.cpu ({ · with phase := .mainIdle false }) with
        sched := idleEnter e σ }
  | halt {σ σ' : Sched} (h : MicroSteps .waking (lockTaken e s.sched) σ)
      (hh : Halts .waking σ σ') :
      MainStep s e { s.modCpu e.cpu ({ · with phase := .halted }) with
        sched := σ'
        lockHeld := true }
  | start {σ σ' : Sched} {n : ThreadRef} (h : MicroSteps .waking (lockTaken e s.sched) σ)
      (hd : Dequeue e n σ σ') (hn : (σ.thread n).kernelResumeSp = none) :
      MainStep s e { s.modCpu e.cpu ({ · with phase := .start n }) with
        sched := setCurrent e (some n) σ' }
  | resume {σ σ' : Sched} {n : ThreadRef} {sp : StackAddr} {ptbr : SpaceRef}
      (h : MicroSteps .waking (lockTaken e s.sched) σ)
      (hd : Dequeue e n σ σ') (hn : (σ.thread n).kernelResumeSp = some sp) :
      MainStep s e { s.modCpu e.cpu ({ · with
          ptbr := ptbr, ksp := kernelStackTop n, phase := .resume sp (.cpu e.cpu) }) with
        sched := (setCurrent e (some n) σ').modThread n ({ · with kernelResumeSp := none }) }

theorem secondaryStart_cases (s : State) (e : Env) : MainStep s e (secondaryStart s e) := by
  unfold secondaryStart
  dsimp only
  split
  · exact .idle .refl
  · split
    · next σ heq =>
      have hturn : MicroSteps .waking (lockTaken e s.sched) σ :=
        (schedulerReapDeferred_micro _).trans (schedulerDequeue_none heq).1.micro
      split
      · exact .halt hturn (.finish (schedulerReapDeferred_micro _))
      · exact .idle hturn
    · next n σ' heq =>
      have hd := schedulerDequeue_some heq
      split
      · next sp hsp => exact .resume (schedulerReapDeferred_micro _) hd (hd.resumeSp ▸ hsp)
      · next hsp => exact .start (schedulerReapDeferred_micro _) hd (hd.resumeSp ▸ hsp)

/-- What it does to the scheduler. -/
theorem MainStep.closes {s s' : State} {e : Env} (h : MainStep s e s') : ∃ σ halts,
    MicroSteps .waking (lockTaken e s.sched) σ ∧ Closes .waking e σ halts s'.sched ∧
      s'.lockHeld = (s.lockHeld || halts) := by
  cases h with
  | idle hm => exact ⟨_, _, hm, .idle, (Bool.or_false _).symm⟩
  | halt hm hh => exact ⟨_, _, hm, .halt hh, (Bool.or_true _).symm⟩
  | start hm hd hn => exact ⟨_, _, hm, .start hd hn, (Bool.or_false _).symm⟩
  | resume hm hd _ => exact ⟨_, _, hm, .take hd, (Bool.or_false _).symm⟩

/-- The transitions of the system. -/
inductive Trans (s : State) (a : Action) : State → Prop
  | sect {fp : StackAddr} {x : Sect} {ex : Exit} (h : runSection s a = some (fp, x, ex)) :
      Trans s a (applySection s a.cpu fp x ex)
  | user {ctx : UserContext} (hp : (s.cpu a.cpu).phase = .user)
      (hie : ctx.flags.interruptEnable = (s.cpu a.cpu).ctx.flags.interruptEnable)
      (hin : a.input = .user ctx) : Trans s a (s.modCpu a.cpu ({ · with ctx := ctx }))
  | trap {k : TrapKind} {i : CpuId → Bool} (hp : (s.cpu a.cpu).phase = .user)
      (hin : a.input = .trap k) (hi : ∀ d, d ≠ a.cpu → i d = s.sched.ipiPending d) :
      Trans s a (takeTrap { s with sched := { s.sched with ipiPending := i } } a.cpu k)
  | iret {fp : StackAddr} (hp : (s.cpu a.cpu).phase = .restore fp) :
      Trans s a (trapRestore s a.cpu fp)
  | interrupt {p : Pending} {fp : StackAddr} {woken : Bool} {i : IdleInterrupt}
      (hp : (s.cpu a.cpu).phase = .idle p fp woken) (hin : a.input = .interrupt i) :
      Trans s a { s.modCpu a.cpu ({ · with phase := .idle p fp true }) with
        sched := idleInterrupt a.env i (lockTaken a.env s.sched) }
  | interruptMain {woken : Bool} {i : IdleInterrupt}
      (hp : (s.cpu a.cpu).phase = .mainIdle woken) (hin : a.input = .interrupt i) :
      Trans s a { s.modCpu a.cpu ({ · with phase := .mainIdle true }) with
        sched := idleInterrupt a.env i (lockTaken a.env s.sched) }
  | wakeMain (hp : (s.cpu a.cpu).phase = .mainIdle true) (hin : a.input = .wake) :
      Trans s a { s.modCpu a.cpu ({ · with phase := .main }) with
        sched := idleLeave a.env s.sched }
  | spinLeave {v : Rendezvous} {fp : StackAddr} (hp : (s.cpu a.cpu).phase = .spin v fp false)
      (hact : processOtherThreadActive s.sched v.process v.thread = false) :
      Trans s a (s.modCpu a.cpu ({ · with phase := .spin v fp true }))
  | suspendToUser {w n : ThreadRef} {depth : Nat} {fp : StackAddr}
      (hp : (s.cpu a.cpu).phase = .suspend w n depth none fp) :
      Trans s a (startUser (saveContinuation s fp w depth) a.cpu n)
  | switchContinuation {w n : ThreadRef} {depth : Nat} {sp fp : StackAddr}
      (hp : (s.cpu a.cpu).phase = .suspend w n depth (some sp) fp) :
      Trans s a (resumeContinuation (saveContinuation s fp w depth) a.cpu sp)
  | resume {sp : StackAddr} {stack : StackId} (hp : (s.cpu a.cpu).phase = .resume sp stack) :
      Trans s a (resumeContinuation s a.cpu sp)
  | start {t : ThreadRef} (hp : (s.cpu a.cpu).phase = .start t) :
      Trans s a (startUser s a.cpu t)
  | retire {fp : StackAddr} (hp : (s.cpu a.cpu).phase = .retire fp) (hin : a.input = .retire) :
      Trans s a { s.modCpu a.cpu ({ · with phase := .main }) with
        sched := retireFinalize a.env (lockTaken a.env s.sched) }
  | secondaryStart {s' : State} (hp : (s.cpu a.cpu).phase = .main)
      (he : s' = secondaryStart s a.env) (hmain : MainStep s a.env s')
      (hin : a.input = .secondaryStart) : Trans s a s'

variable {s s' : State} {a : Action} {fp : StackAddr} {r : Sect × Exit}

theorem machineStep_trans (h : machineStep s a = some s') : Trans s a s' := by
  unfold machineStep at h
  dsimp only at h
  split at h
  · next hin hp =>
    split at h
    · next hie => cases h; exact .user hp hie hin
    · cases h
  · next hin hp =>
    split at h
    · cases h; exact .trap hp hin fun d hd => Function.update_of_ne hd _ _
    · cases h
  · next k _ hin hp => cases h; exact Trans.trap (i := s.sched.ipiPending) hp hin fun _ _ => rfl
  · next hp => cases h; exact .iret hp
  · next hin hp =>
    split at h
    · cases h; exact .interrupt hp hin
    · cases h
  · next hin hp =>
    split at h
    · cases h; exact .interruptMain hp hin
    · cases h
  · next hin hp => cases h; exact .wakeMain hp hin
  · next hp =>
    split at h
    · cases h
    · next hact => cases h; exact .spinLeave hp (by simpa using hact)
  · next sp _ _ hp =>
    cases h
    cases sp with
    | none => exact .suspendToUser hp
    | some sp => exact .switchContinuation hp
  · next hp => cases h; exact .resume hp
  · next hp => cases h; exact .start hp
  · next hin hp => cases h; exact .retire hp hin
  · next hin hp => cases h; exact .secondaryStart hp rfl (secondaryStart_cases s a.env) hin
  · cases h

theorem runSection_takesLock (h : runSection s a = some (fp, r)) : a.input.takesLock = true := by
  unfold runSection at h
  split at h
  · next hin _ => rw [hin]; rfl
  · next hin _ => rw [hin]; rfl
  · next hin _ => rw [hin]; rfl
  · next hin _ => rw [hin]; rfl
  · cases h

/-- Every step is one of the transitions, by a processor of the machine. -/
theorem step_trans (h : step s a = some s') :
    a.cpu < s.sched.cpuCount ∧ s.stopped = false ∧ Trans s a s' := by
  unfold step at h
  split at h
  · cases h
  · next hguard =>
    simp only [not_or, Nat.not_le] at hguard
    refine ⟨hguard.2.1, by simpa using hguard.1, ?_⟩
    split at h
    · next hsec => cases h; exact .sect hsec
    · exact machineStep_trans h

/-- The big kernel lock is taken only while it is free. -/
theorem step_lockHeld (h : step s a = some s') (hin : a.input.takesLock = true) :
    s.lockHeld = false := by
  by_contra hlock
  simp [step, hin, Bool.eq_true_of_not_eq_false hlock] at h

/-- A section runs only while the big kernel lock is free. -/
theorem section_unlocked (h : step s a = some s') (hsec : runSection s a = some (fp, r)) :
    s.lockHeld = false :=
  step_lockHeld h (runSection_takesLock hsec)

end RiscMv.Kernel
