import RiscMv.Interrupt.Restart
import RiscMv.Vm.Restart

/-!
# Hardware threads as the interrupt router sees them

`Interrupt.Machine` has of a hardware thread only the state that its interrupt lines depend on;
`Vm.Machine` has the workers and the commands that change it.  Whatever these do, the states change
as the transitions of `Interrupt.Machine` let them, with `interrupt_controller_init` where the two
functions of `vm.c` call it: `run_follows`.
-/

namespace RiscMv.Vm

variable {coreOf : Nat → Nat} {m m' : Machine} {i i' : Interrupt.Machine} {t : Nat} {cmd : Command}
  {v w : Interrupt.HardwareThread} {state : ThreadState} {order : Option (Order × Nat)}

/-- The state of a thread that no command has taken. -/
def ThreadState.seen : ThreadState → Option Interrupt.HardwareThread
  | .offline => some .offline
  | .starting => none
  | .runnable => some .runnable
  | .halted => some .halted
  | .waiting => some .waiting

/-- What the router sees of a thread with a command on it. -/
def Shows (state : ThreadState) (order : Option (Order × Nat)) (v : Interrupt.HardwareThread) :
    Prop :=
  match order.map Prod.fst with
  | some .startInit | some .startPc => state = .starting ∧ v = .starting .activate
  | some .startClear | some .startAdd | some .startPublish =>
    state = .starting ∧ v = .initialised .activate
  | some .resetInit => state = .starting ∧ ∃ halted, v = .starting (.reset halted)
  | some .resetClear | some .resetPublish =>
    state = .starting ∧ ∃ halted, v = .initialised (.reset halted)
  | some (.resetExchange expected) =>
    state.seen = some v ∧ (expected = .offline ∨ expected = .halted)
  | _ => state.seen = some v

/-- The two machines agree on every thread. -/
def Follows (m : Machine) (i : Interrupt.Machine) : Prop :=
  ∀ t, Shows (m.threads t).state (orderOf m t) (i.threads t)

/-- The router sees the thread stay in a state or go to it. -/
def Passes (i : Interrupt.Machine) (t : Nat) (v : Interrupt.HardwareThread) : Prop :=
  ∃ i', i'.threads = Function.update i.threads t v ∧ (i' = i ∨ ∃ a, i.step a = some i')

theorem Passes.stay (i : Interrupt.Machine) (t : Nat) : Passes i t (i.threads t) :=
  ⟨i, (Function.update_eq_self t _).symm, .inl rfl⟩

theorem Passes.init {c : Interrupt.Command} (h : i.threads t = .starting c) :
    Passes i t (.initialised c) :=
  ⟨_, rfl, .inr ⟨.initController t, by simp only [Interrupt.Machine.step, h]; rfl⟩⟩

theorem Passes.publish {c : Interrupt.Command} (h : i.threads t = .initialised c) :
    Passes i t c.done :=
  ⟨_, rfl, .inr ⟨.publish t, by simp only [Interrupt.Machine.step, h]; rfl⟩⟩

theorem Passes.reset (h : i.threads t = .offline ∨ i.threads t = .halted) :
    ∃ halted, Passes i t (.starting (.reset halted)) := by
  obtain h | h := h
  all_goals exact ⟨_, _, rfl, .inr ⟨.reset t, by simp only [Interrupt.Machine.step, h]; rfl⟩⟩

/-- One thread passes; the others show what they did. -/
theorem Follows.pass (h : Follows m i)
    (hothers : ∀ u ≠ t, ∀ v, Shows (m.threads u).state (orderOf m u) v →
      Shows (m'.threads u).state (orderOf m' u) v)
    (hpass : Passes i t v) (hself : Shows (m'.threads t).state (orderOf m' t) v) :
    ∃ i', Follows m' i' ∧ (i' = i ∨ ∃ a, i.step a = some i') := by
  obtain ⟨i', hthreads, hstep⟩ := hpass
  refine ⟨i', fun u => ?_, hstep⟩
  rw [hthreads]
  by_cases hu : u = t
  · rw [hu, Function.update_self]
    exact hself
  · rw [Function.update_of_ne hu]
    exact hothers u hu _ (h u)

/-- A thread that no command has taken shows its state. -/
theorem Shows.seen (h : Shows state order v) (hs : state ≠ .starting) :
    state.seen = some v ∧ ∀ {state' : ThreadState} {w}, state'.seen = some w →
      Shows state' order w := by
  revert h
  unfold Shows
  split <;> intro h
  case h_9 => exact ⟨h.1, fun hw => ⟨hw, h.2⟩⟩
  case h_10 => exact ⟨h, fun hw => hw⟩
  all_goals exact absurd h.1 hs

/-- A live thread goes to the other live state, or ends. -/
theorem Passes.of_live {state' : ThreadState} (hlive : state.live = true)
    (hnext : state'.live = true ∨ state' = .halted) (hv : state.seen = some (i.threads t)) :
    ∃ w, state'.seen = some w ∧ Passes i t w := by
  obtain rfl | rfl := ThreadState.live_iff.mp hlive
  all_goals
    have hv := (Option.some.inj hv).symm
    rw [ThreadState.live_iff] at hnext
    obtain (rfl | rfl) | rfl := hnext
  · exact ⟨_, rfl, hv ▸ .stay i t⟩
  · exact ⟨_, rfl, _, rfl, .inr ⟨.wait t, if_pos hv⟩⟩
  · exact ⟨_, rfl, _, rfl, .inr ⟨.halt t, if_pos (hv ▸ rfl)⟩⟩
  · exact ⟨_, rfl, _, rfl, .inr ⟨.wake t, if_pos hv⟩⟩
  · exact ⟨_, rfl, hv ▸ .stay i t⟩
  · exact ⟨_, rfl, _, rfl, .inr ⟨.halt t, if_pos (hv ▸ rfl)⟩⟩

/-- A step of a worker moves its thread between the live states, or ends it. -/
theorem workerStep_follows {c : Nat} {input : Input} {p : Phase} (h : Follows m i)
    (hst : workerStep m c t input p = some m') :
    ∃ i', Follows m' i' ∧ (i' = i ∨ ∃ a, i.step a = some i') := by
  obtain ⟨hstates, hcommand⟩ := workerStep_frame hst
  -- a command that is issued has not taken its thread yet
  have horder : ∀ {u state v}, Shows state (orderOf m u) v → Shows state (orderOf m' u) v := by
    intro u state v hv
    obtain hsame | ⟨hnone, cmd, hcmd, hfirst⟩ := hcommand
    · rwa [orderOf, hsame]
    · rw [orderOf, hnone] at hv
      rw [orderOf, hcmd]
      dsimp only
      split
      · obtain hfirst | hfirst | hfirst := hfirst <;> simpa [Shows, hfirst] using hv
      · exact hv
  have hothers : ∀ u ≠ t, ∀ v, Shows (m.threads u).state (orderOf m u) v →
      Shows (m'.threads u).state (orderOf m' u) v := by
    intro u hu v hv
    exact horder ((hstates u).resolve_right (fun hself => hu hself.1) ▸ hv)
  obtain hsame | ⟨-, hlive, hnext⟩ := hstates t
  · exact h.pass hothers (.stay i t) (horder (hsame ▸ h t))
  · obtain ⟨hseen, hshows⟩ := (h t).seen (ThreadState.ne_starting_of_live hlive)
    obtain ⟨w, hw, hpass⟩ := Passes.of_live hlive (hnext.imp_right And.right) hseen
    exact h.pass hothers hpass (horder (hshows hw))

theorem orderOf_goOn (m : Machine) (cmd : Command) (order : Order) :
    orderOf (m.goOn cmd order) cmd.target = some (order, cmd.entry) :=
  if_pos rfl

/-- The target of a command that goes on. -/
theorem Shows.goOn {f : HardwareThread → HardwareThread} {order : Order}
    (h : Shows (f (m.threads cmd.target)).state (some (order, cmd.entry)) v) :
    Shows (((m.setThread cmd.target f).goOn cmd order).threads cmd.target).state
      (orderOf ((m.setThread cmd.target f).goOn cmd order) cmd.target) v := by
  rw [orderOf_goOn, show ((m.setThread cmd.target f).goOn cmd order).threads cmd.target =
    f (m.threads cmd.target) from Function.update_self _ _ _]
  exact h

/-- The target of a command that ends. -/
theorem Shows.leave {f : HardwareThread → HardwareThread} {issuer : Nat}
    (h : (f (m.threads t)).state.seen = some v) :
    Shows (((m.setThread t f).endCommand coreOf issuer).threads t).state
      (orderOf ((m.setThread t f).endCommand coreOf issuer) t) v := by
  rw [show ((m.setThread t f).endCommand coreOf issuer).threads t = f (m.threads t) from
    Function.update_self _ _ _]
  exact h

/-- A command takes its thread, initialises it and gives it back. -/
theorem commandStep_follows (h : Follows m i) (hcmd : m.command = some cmd) :
    ∃ i', Follows (commandStep coreOf m cmd) i' ∧ (i' = i ∨ ∃ a, i.step a = some i') := by
  have hself := h cmd.target
  rw [orderOf_target hcmd] at hself
  suffices ∃ v, Passes i cmd.target v ∧
      Shows ((commandStep coreOf m cmd).threads cmd.target).state
        (orderOf (commandStep coreOf m cmd) cmd.target) v by
    obtain ⟨v, hpass, hv⟩ := this
    refine h.pass (fun u hu v hv => ?_) hpass hv
    rw [orderOf_of_ne hcmd hu] at hv
    rwa [(commandStep_ne hu).1, (commandStep_ne hu).2]
  have hgo := orderOf_goOn m cmd
  obtain ⟨issuer, t, entry, order⟩ := cmd
  cases order with
  | startCheck | stopLoad =>
    simp only [commandStep]
    split
    all_goals first | exact ⟨_, .stay i t, hself⟩ | exact ⟨_, .stay i t, hgo _ ▸ hself⟩
  | resetLoad =>
    simp only [commandStep]
    split
    · next hs => exact ⟨_, .stay i t, hgo _ ▸ ⟨hself, hs⟩⟩
    · exact ⟨_, .stay i t, hself⟩
  | startExchange =>
    simp only [commandStep]
    split
    · next hs =>
      rw [hs] at hself
      exact ⟨_, ⟨_, rfl, .inr ⟨.activate t, if_pos (Option.some.inj hself).symm⟩⟩,
        Shows.goOn ⟨rfl, rfl⟩⟩
    · exact ⟨_, .stay i t, hself⟩
  | resetExchange expected =>
    obtain ⟨hseen, hexpected⟩ := hself
    simp only [commandStep]
    split
    · next hs =>
      rw [hs] at hseen
      obtain ⟨halted, hpass⟩ := Passes.reset (i := i) (t := t) (by
        obtain rfl | rfl := hexpected
        · exact .inl (Option.some.inj hseen).symm
        · exact .inr (Option.some.inj hseen).symm)
      exact ⟨_, hpass, Shows.goOn ⟨rfl, halted, rfl⟩⟩
    · exact ⟨_, .stay i t, hgo _ ▸ hseen⟩
  | startInit | startClear | resetClear => exact ⟨_, .stay i t, Shows.goOn hself⟩
  | startAdd => exact ⟨_, .stay i t, hgo _ ▸ hself⟩
  | stopStore => exact ⟨_, .stay i t, Shows.leave hself⟩
  | startPc => exact ⟨_, .init hself.2, Shows.goOn ⟨hself.1, rfl⟩⟩
  | startPublish => exact ⟨_, .publish hself.2, Shows.leave rfl⟩
  | resetInit =>
    obtain ⟨hs, halted, hv⟩ := hself
    exact ⟨_, .init hv, Shows.goOn ⟨hs, halted, rfl⟩⟩
  | resetPublish =>
    obtain ⟨-, halted, hv⟩ := hself
    exact ⟨_, .publish hv, Shows.leave rfl⟩

/-- Every transition of the workers and the commands is followed. -/
theorem step_follows {a : Act} (h : Follows m i) (hst : Vm.step coreOf m a = some m') :
    ∃ i', Follows m' i' ∧ (i' = i ∨ ∃ a, i.step a = some i') := by
  cases a with
  | quit c | service u | select u =>
    rw [Vm.step] at hst
    split at hst <;> cases hst
    exact ⟨i, h, .inl rfl⟩
  | work c input =>
    rw [Vm.step] at hst
    split at hst
    · exact workerStep_follows h hst
    · cases hst
  | command =>
    obtain ⟨cmd, hcmd, rfl⟩ := Option.map_eq_some_iff.mp hst
    exact commandStep_follows h hcmd

/-- In every run of the hardware threads, whatever commands they give each other, their states are
    those of a run of the machine that the router sees, in which thread 0 runs at the start. -/
theorem run_follows {ok : Machine → Act → Prop} {resetVector : Nat}
    (router : Interrupt.InterruptRouter) (hrun : Run (step coreOf) ok (.booted resetVector) m) :
    ∃ i, Run Interrupt.Machine.step (fun _ _ => True)
      (.programmed router fun t => if t = 0 then .runnable else .offline) i ∧ Follows m i := by
  induction hrun with
  | refl =>
    refine ⟨_, .refl, fun t => ?_⟩
    simp only [Machine.booted, Interrupt.Machine.programmed]
    split <;> rfl
  | tail _ _ hst ih =>
    obtain ⟨i₁, hrun, hi₁⟩ := ih
    obtain ⟨i₂, hi₂, rfl | ⟨a, ha⟩⟩ := step_follows hi₁ hst
    · exact ⟨i₂, hrun, hi₂⟩
    · exact ⟨i₂, hrun.tail trivial ha, hi₂⟩

end RiscMv.Vm
