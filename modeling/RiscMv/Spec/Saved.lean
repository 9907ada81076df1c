import RiscMv.Spec.Alive

/-!
# Saved contexts

What a thread has to find when it returns to user mode is determined by how it left it
(`UserExit`).  A thread that waits has that context in its record, up to R0 while its system
call has no result; a system call in progress has it in its trap frame.

## Key results
- `SavedContext.moves`: code that works for other threads keeps saved contexts
- `Outcome.saved`: so does every section
-/

namespace RiscMv.Kernel

/-- `ctx'` agrees with `ctx` in PC, SP, R1 to R14 and the condition flags. -/
structure SameUser (ctx ctx' : UserContext) : Prop where
  pc : ctx'.pc = ctx.pc
  stackPointer : ctx'.stackPointer = ctx.stackPointer
  registers : ∀ i, i ≠ 0 → ctx'.registers i = ctx.registers i
  condition : ctx'.flags.condition = ctx.flags.condition

/-- `ctx` is what a thread must find that left user mode as `l` says.  R0 is unchanged after
    an interrupt, and the result after a system call; yield (system call 3) has no result and
    leaves R0 alone. -/
structure UserExit.Resumes (l : UserExit) (ctx : UserContext) : Prop extends
    SameUser l.ctx ctx where
  preempted : l.syscall = false → ctx.registers 0 = l.ctx.registers 0
  called : l.syscall = true → l.result = some (ctx.registers 0) ∨
    l.result = none ∧ l.ctx.registers 0 = 3 ∧ ctx.registers 0 = l.ctx.registers 0

/-- `f` is the trap frame of a system call in progress of a thread that left user mode as `l`
    says. -/
structure UserExit.InCall (l : UserExit) (f : TrapFrame) : Prop where
  syscall : l.syscall = true
  same : SameUser l.ctx f.toContext

/-- The record of a waiting thread holds the context it resumes with; R0 is stored when a
    blocked thread is woken. -/
structure SavedContext (th : KernelThread) (l : UserExit) : Prop where
  dispatchable : th.Dispatchable → l.Resumes th.ctx
  blocked : th.state = .blocked → l.syscall = true ∧ SameUser l.ctx th.ctx

variable {π : Perm} {s s' : State} {σ σ' : Sched} {c d : CpuId} {t u n : ThreadRef}
  {sp fp : StackAddr} {e : Env} {a : Action} {x y : Sect} {ex : Exit} {r : Sect × Exit}
  {th th' : KernelThread} {l l' : UserExit} {ctx : UserContext} {f : TrapFrame}

theorem SameUser.refl (ctx : UserContext) : SameUser ctx ctx := ⟨rfl, rfl, fun _ _ => rfl, rfl⟩

theorem SameUser.setR0 {ctx' : UserContext} (h : SameUser ctx ctx') (v : UInt64) :
    SameUser ctx (ctx'.setR0 v) where
  pc := h.pc
  stackPointer := h.stackPointer
  registers i hi := by
    rw [← h.registers i hi]
    exact Function.update_of_ne hi _ _
  condition := h.condition

/-- A thread resumes with the context it left with, if that was not for a result. -/
theorem UserExit.resumes_self (h : l.result = none)
    (hyield : l.syscall = true → l.ctx.registers 0 = 3) : l.Resumes l.ctx :=
  { SameUser.refl l.ctx with
    preempted := fun _ => rfl
    called := fun hs => .inr ⟨h, hyield hs, rfl⟩ }

/-- With the result of its system call a thread can resume. -/
theorem UserExit.resumes_setResult (hs : l.syscall = true) (h : SameUser l.ctx ctx) (v : UInt64) :
    (l.setResult v).Resumes (ctx.setR0 v) :=
  { h.setR0 v with
    preempted := fun hn => by
      rw [show (l.setResult v).syscall = l.syscall from rfl, hs] at hn
      cases hn
    called := fun _ => .inl (by simp [UserExit.setResult, UserContext.setR0]) }

/-- Code that works for other threads keeps saved contexts. -/
theorem SavedContext.moves (h : SavedContext th l) (hm : ThreadMoves th th' l l') :
    SavedContext th' l' := by
  rcases hm.context with ⟨hctx, rfl, hdisp⟩ | ⟨hb, hnb, v, hctx, rfl⟩
  · exact ⟨fun hd => hctx ▸ h.dispatchable (hdisp hd), fun hb => hctx ▸ h.blocked (hm.blocked hb)⟩
  · -- the thread was woken, and its result stored
    obtain ⟨hs, hsame⟩ := h.blocked hb
    exact ⟨fun _ => hctx ▸ UserExit.resumes_setResult hs hsame v, fun hb' => absurd hb' hnb⟩

theorem ThreadMoves.inCall (hm : ThreadMoves th th' l l') (h : l.InCall f) : l'.InCall f := by
  rcases hm.context with ⟨_, rfl, _⟩ | ⟨_, _, v, _, rfl⟩
  · exact h
  · exact ⟨h.syscall, h.same⟩

/-- A thread that a processor works for has nothing saved. -/
theorem SavedContext.of_not_waiting (h : ¬ th.Waiting) : SavedContext th l where
  dispatchable hd := absurd (hd.elim .inl fun hq => .inr (.inr hq)) h
  blocked hb := absurd (.inr (.inl hb)) h

/-! ## Sections -/

/-- The thread of a section that gives up the processor has its context saved. -/
theorem Parked.saved (h : Parked π t x σ) (hlast : σ.lastUser t = x.sched.lastUser t)
    (hsaved : SavedContext (x.sched.thread t) (x.sched.lastUser t))
    (hcall : π.call → (x.sched.lastUser t).InCall x.frame)
    (hquiet : π.quiet → (x.sched.lastUser t).Resumes x.frame.toContext) :
    SavedContext (σ.thread t) (σ.lastUser t) := by
  rcases h with hw | ⟨hR, hctx, hr⟩ | ⟨hc, hctx, hb, hq⟩ | hm
  · exact .of_not_waiting hw
  · refine ⟨fun _ => by rw [hctx, hlast]; exact hquiet hR, fun hb => ?_⟩
    rw [hr] at hb
    cases hb
  · refine ⟨fun hd => ?_, fun _ => by rw [hctx, hlast]; exact ⟨(hcall hc).syscall, (hcall hc).same⟩⟩
    rcases hd with hd | hd
    · rw [hb] at hd; cases hd
    · rw [hq] at hd; cases hd
  · exact hsaved.moves hm

/-- The dispatched thread has left the queue; the others are as they were. -/
theorem Closes.saved {b : Bool} (h : Closes π e σ b σ')
    (hσ : ∀ u, SavedContext (σ.thread u) (σ.lastUser u)) (u : ThreadRef) :
    SavedContext (σ'.thread u) (σ'.lastUser u) := by
  have dispatched : ∀ {n σ'}, Dequeue e n σ σ' →
      ∀ u, SavedContext (σ'.thread u) (σ'.lastUser u) := by
    intro n σ' hd u
    by_cases hun : u = n
    · subst hun
      obtain ⟨queue, _, _, _, rfl⟩ := hd.eq
      exact .of_not_waiting (by simp [KernelThread.Waiting])
    · rw [hd.thread_ne hun, hd.lastUser]
      exact hσ u
  cases h with
  | stay => exact hσ u
  | idle => exact hσ u
  | start hd _ => exact dispatched hd u
  | @take n σ' hd =>
    -- its continuation is not part of its context
    refine forall_modThread (s := setCurrent e (some n) σ')
      (P := fun u th => SavedContext th (σ'.lastUser u)) ?_ (fun v _ => dispatched hd v) u
    exact ⟨(dispatched hd n).dispatchable, (dispatched hd n).blocked⟩
  | halt hh => exact (hσ u).moves (hh.thread_moves u)

section outcome

variable (hsaved : ∀ u, SavedContext (x.sched.thread u) (x.sched.lastUser u))
  (hcall : π.call → (x.sched.lastUser t).InCall x.frame)
  (hquiet : π.quiet → (x.sched.lastUser t).Resumes x.frame.toContext)

include hsaved

theorem Acts.saved (h : Acts π e t x.sched σ) (ht : SavedContext (σ.thread t) (σ.lastUser t))
    (u : ThreadRef) : SavedContext (σ.thread u) (σ.lastUser u) := by
  by_cases hut : u = t
  · exact hut ▸ ht
  · exact (hsaved u).moves (h.moves.thread u fun heq => hut (Option.some.inj heq))

include hcall hquiet

theorem Left.saved (h : Left π e t x σ) (u : ThreadRef) :
    SavedContext (σ.thread u) (σ.lastUser u) :=
  h.acts.saved hsaved (h.parked.saved h.last (hsaved t) hcall hquiet) u

theorem Ends.saved (h : Ends π e t x y) (u : ThreadRef) :
    SavedContext (y.sched.thread u) (y.sched.lastUser u) :=
  h.acts.saved hsaved (h.parked.saved h.last (hsaved t) hcall hquiet) u

/-- After a section every waiting thread has its context saved. -/
theorem Outcome.saved (o : Outcome π e t x r) (u : ThreadRef) :
    SavedContext (r.1.sched.thread u) (r.1.sched.lastUser u) := by
  have served : ∀ {y : Sect}, Acts π e t x.sched y.sched → Ready e.cpu t y.sched →
      SavedContext (y.sched.thread u) (y.sched.lastUser u) :=
    fun ha hr => ha.saved hsaved (.of_not_waiting hr.notWaiting) u
  have left : ∀ {σ σ' b}, Left π e t x σ → Closes π e σ b σ' →
      SavedContext (σ'.thread u) (σ'.lastUser u) :=
    fun hl hc => hc.saved (hl.saved hsaved hcall hquiet) u
  cases o with
  | kept _ h | result _ _ h | exec _ _ h => exact served h.acts h.ready
  | stopped h => exact h.saved hsaved hcall hquiet u
  | load _ hl hd hn hsched | suspend _ _ hl hd _ hn hsched =>
    rw [hsched]; exact left hl (.start hd hn)
  | resume hl hd _ hsched | switch _ _ hl hd _ _ hsched => rw [hsched]; exact left hl (.take hd)
  | idle _ _ hl hsched => rw [hsched]; exact hl.saved hsaved hcall hquiet u
  | spin _ _ _ h => exact served h.acts h.ready
  | retire h => exact h.saved hsaved hcall hquiet u
  | halt h hy => exact (h.saved hsaved hcall hquiet u).moves (hy.thread_moves u)

end outcome

end RiscMv.Kernel
