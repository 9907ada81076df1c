import RiscMv.Vm.HardwareThread

/-!
# Restarting a hardware thread

`finish_hardware_thread` first makes a thread HALTED and then stores into it: between the two
another hardware thread can reset the thread and start it again, and the stores end the new
incarnation.  In runs in which a reset waits for the stores, a thread that was started runs until it
halts or a STOP that was accepted for it takes effect, and the machine stops only when no thread is
left.

The invariant looks at one hardware thread at a time: its record, what its worker does with it, the
command that is on its way to it, and whether it is counted.
-/

namespace RiscMv.Vm

variable {coreOf : Nat → Nat} {m m' : Machine} {c t u : Nat} {th : HardwareThread} {s : ThreadState}
  {o' : Option (Order × Nat)}

/-! ## The condition -/

/-- A step of `finish_hardware_thread` after the thread was made HALTED. -/
def FinishStep.writes : FinishStep → Bool
  | .clearWaiting => true
  | .setHalted => true
  | .clearStop => true
  | .decrement => true
  | _ => false

/-- What a worker does with a thread. -/
def Worker.phaseFor (t : Nat) : Worker → Option Phase
  | .busy t' p => if t' = t then some p else none
  | _ => none

/-- What the worker of a thread does with it. -/
def phaseOf (coreOf : Nat → Nat) (m : Machine) (t : Nat) : Option Phase :=
  (m.workers (coreOf t)).phaseFor t

/-- `finish_hardware_thread` has made the thread HALTED and is not done with it. -/
def beingFinished (coreOf : Nat → Nat) (m : Machine) (t : Nat) : Bool :=
  match phaseOf coreOf m t with
  | some (.finishing f) => f.writes
  | _ => false

/-- No thread is taken for a reset while it is being finished. -/
def resetsFinished (coreOf : Nat → Nat) (m : Machine) : Act → Bool
  | .command =>
    match m.command with
    | some ⟨_, t, _, .resetExchange _⟩ => !beingFinished coreOf m t
    | _ => true
  | _ => true

/-! ## The invariant of one thread -/

/-- The step that a command on the thread is at, and its entry. -/
def orderOf (m : Machine) (t : Nat) : Option (Order × Nat) :=
  match m.command with
  | some cmd => if cmd.target = t then some (cmd.order, cmd.entry) else none
  | none => none

/-- The state of a thread fits what its worker does with it. -/
def PhaseFits (th : HardwareThread) : Option Phase → Prop
  | none => True
  | some .serviced => th.state = .waiting
  | some .checking => th.state = .waiting
  | some .waking => th.state = .waiting
  | some (.finishing .load) =>
    th.state.live = true ∧ (th.executedHalt = true ∨ th.stopAccepted = true)
  | some (.finishing .exchange) =>
    th.state.live = true ∧ (th.executedHalt = true ∨ th.stopAccepted = true)
  | some (.finishing .stopMachine) => True
  | some (.finishing _) => th.state = .halted
  | some _ => th.state = .runnable

/-- The thread fits the command that is on its way to it. -/
def OrderFits (th : HardwareThread) : Option (Order × Nat) → Prop
  | some (.startInit, _) => th.state = .starting
  | some (.startPc, _) => th.state = .starting ∧ th.halted = false ∧ th.waiting = false
  | some (.startClear, entry) =>
    th.state = .starting ∧ th.halted = false ∧ th.waiting = false ∧ th.pc = entry
  | some (.startAdd, entry) =>
    th.state = .starting ∧ th.halted = false ∧ th.waiting = false ∧ th.pc = entry ∧
      th.stopRequested = false
  | some (.startPublish, entry) =>
    th.state = .starting ∧ th.halted = false ∧ th.waiting = false ∧ th.pc = entry ∧
      th.stopRequested = false
  | some (.resetInit, _) => th.state = .starting
  | some (.resetClear, _) => th.state = .starting
  | some (.resetPublish, _) => th.state = .starting
  | some (.resetExchange expected, _) =>
    th.state ≠ .starting ∧ (expected = .offline ∨ expected = .halted)
  | _ => th.state ≠ .starting

/-- A live thread is ended by nothing but its own HALT and the STOPs accepted for it, and no such
    STOP is dropped; it starts at its entry. -/
structure LiveOk (th : HardwareThread) (p : Option Phase) : Prop where
  halted : th.halted = true → th.executedHalt = true
  requested : th.stopRequested = true → th.stopAccepted = true
  accepted : th.stopAccepted = true →
    th.stopRequested = true ∨ p = some (.finishing .load) ∨ p = some (.finishing .exchange)
  fresh : th.executed = false → th.pc = th.entry ∧ th.halted = false ∧ th.waiting = false

/-- When a thread is counted. -/
def Counted (th : HardwareThread) (p : Option Phase) (o : Option (Order × Nat)) : Prop :=
  th.state.live = true ∨ (∃ f, p = some (.finishing f) ∧ f.writes = true) ∨
    ∃ entry, o = some (.startPublish, entry)

/-- The invariant of one thread. -/
structure ThreadOk (th : HardwareThread) (p : Option Phase) (o : Option (Order × Nat))
    (counted : Prop) : Prop where
  phase : PhaseFits th p
  order : OrderFits th o
  live : th.state.live = true → LiveOk th p
  counted : counted ↔ Counted th p o

/-- The invariant of the machine. -/
structure MachineOk (coreOf : Nat → Nat) (m : Machine) : Prop where
  threads : ∀ t, ThreadOk (m.threads t) (phaseOf coreOf m t) (orderOf m t) (t ∈ m.counted)
  placed : ∀ c t p, m.workers c = .busy t p → coreOf t = c
  issuer : ∀ cmd, m.command = some cmd →
    m.workers (coreOf cmd.issuer) = .busy cmd.issuer .commanding
  count : m.activeThreadCount = m.counted.card
  idle : ∀ c t, m.workers c = .busy t (.finishing .stopMachine) → m.counted = ∅

/-! ## Views -/

@[simp] theorem Worker.phaseFor_self (t : Nat) (p : Phase) :
    (Worker.busy t p).phaseFor t = some p := by
  simp [Worker.phaseFor]

@[simp] theorem Worker.phaseFor_between (t : Nat) : Worker.between.phaseFor t = none := rfl

@[simp] theorem Worker.phaseFor_returned (t : Nat) : Worker.returned.phaseFor t = none := rfl

/-- A worker is about this thread only. -/
def Worker.about (t : Nat) : Worker → Prop
  | .busy t' _ => t' = t
  | _ => True

theorem Worker.about_busy (t : Nat) (p : Phase) : (Worker.busy t p).about t := rfl

theorem Worker.about_between (t : Nat) : Worker.between.about t := trivial

variable {w : Worker}

theorem Worker.about.phaseFor_of_ne (h : w.about t) (hu : u ≠ t) : w.phaseFor u = none := by
  cases w with
  | busy t' p =>
    cases h
    exact if_neg (Ne.symm hu)
  | between => rfl
  | returned => rfl

/-- The worker is in `finish_hardware_thread`. -/
def Phase.finishes : Phase → Bool
  | .finishing _ => true
  | _ => false

/-- A worker that is with no other thread than this one, and is not about to stop the machine; and
    what it does with the thread. -/
inductive Worker.Carries (t : Nat) : Worker → Option Phase → Prop
  | busy {q : Phase} (h : q ≠ .finishing .stopMachine) : Carries t (.busy t q) (some q)
  | between : Carries t .between none
  | returned : Carries t .returned none

variable {p' : Option Phase}

theorem Worker.Carries.about (h : w.Carries t p') : w.about t := by
  cases h <;> trivial

theorem Worker.Carries.phaseFor_eq (h : w.Carries t p') : w.phaseFor t = p' := by
  cases h <;> simp

theorem Worker.Carries.not_stops (h : w.Carries t p') (u : Nat) :
    w ≠ .busy u (.finishing .stopMachine) := by
  rintro rfl
  cases h with
  | busy h => exact h rfl

/-- A worker that is busy after a store of `w` was so before, or is the one of the store. -/
theorem busy_of_update {p : Phase} {c' : Nat} (h : Function.update m.workers c w c' = .busy u p) :
    c' = c ∧ w = .busy u p ∨ m.workers c' = .busy u p := by
  rw [Function.update_apply] at h
  split at h
  · next hc => exact .inl ⟨hc, h⟩
  · exact .inr h

/-- What the worker of a core does with one of its threads is nothing to the others. -/
theorem phaseOf_of_ne (hworkers : m'.workers = Function.update m.workers c w)
    (hold : (m.workers c).about t) (hw : w.about t) (hu : u ≠ t) :
    phaseOf coreOf m' u = phaseOf coreOf m u := by
  unfold phaseOf
  rw [hworkers]
  by_cases hc : coreOf u = c
  · rw [hc, Function.update_self, hw.phaseFor_of_ne hu, hold.phaseFor_of_ne hu]
  · rw [Function.update_of_ne hc]

variable {cmd : Command}

theorem orderOf_target (h : m.command = some cmd) :
    orderOf m cmd.target = some (cmd.order, cmd.entry) := by
  rw [orderOf, h]
  exact if_pos rfl

theorem orderOf_of_ne (h : m.command = some cmd) (hu : u ≠ cmd.target) : orderOf m u = none := by
  rw [orderOf, h]
  exact if_neg (Ne.symm hu)

/-! ## Changes of one thread -/

section Thread

variable {th' : HardwareThread} {p : Option Phase} {o : Option (Order × Nat)} {cnt : Prop}

theorem ThreadState.live_iff : s.live = true ↔ s = .runnable ∨ s = .waiting := by
  cases s <;> simp [ThreadState.live]

theorem ThreadState.ne_starting_of_live (h : s.live = true) : s ≠ .starting := by
  rintro rfl
  cases h

/-- A command that does not hold the thread in STARTING does not mind changes of the thread. -/
theorem OrderFits.change (h : OrderFits th o) (hs : th.state ≠ .starting)
    (hs' : th'.state ≠ .starting) : OrderFits th' o := by
  revert h
  unfold OrderFits
  split <;> intro h
  case h_9 => exact ⟨hs', h.2⟩
  case h_10 => exact hs'
  all_goals first | exact absurd h hs | exact absurd h.1 hs

theorem OrderFits.not_publish (h : OrderFits th o) (hs : th.state ≠ .starting) (entry : Nat) :
    o ≠ some (.startPublish, entry) := by
  rintro rfl
  exact hs h.1

variable {q : Phase}

theorem Phase.ne_finishing (h : q.finishes = false) (f : FinishStep) : q ≠ .finishing f := by
  rintro rfl
  cases h

/-- Outside `finish_hardware_thread` the worker has a live thread. -/
theorem PhaseFits.live (h : PhaseFits th (some q)) (hq : q.finishes = false) :
    th.state.live = true := by
  rw [ThreadState.live_iff]
  cases q with
  | serviced | checking | waking => exact .inr h
  | finishing f => cases hq
  | _ => exact .inl h

/-- Outside `finish_hardware_thread` an accepted STOP is still requested. -/
theorem LiveOk.pending (h : LiveOk th (some q)) (hq : q.finishes = false)
    (ha : th.stopAccepted = true) : th.stopRequested = true := by
  obtain hr | hload | hexch := h.accepted ha
  · exact hr
  · exact absurd (Option.some.inj hload) (Phase.ne_finishing hq _)
  · exact absurd (Option.some.inj hexch) (Phase.ne_finishing hq _)

/-- A thread is counted as before if it is as live, as much finished and as much started. -/
theorem ThreadOk.recount (h : ThreadOk th p o cnt) (hlive : th'.state.live = th.state.live)
    (hp : (∃ f, p = some (.finishing f) ∧ f.writes = true) ↔
      ∃ f, p' = some (.finishing f) ∧ f.writes = true)
    (ho : (∃ e, o = some (.startPublish, e)) ↔ ∃ e, o' = some (.startPublish, e)) :
    cnt ↔ Counted th' p' o' := by
  rw [h.counted, Counted, Counted, hlive, hp, ho]

/-- A live thread that stays live. -/
theorem ThreadOk.stay (h : ThreadOk th p o cnt) (hlive : th.state.live = true)
    (hlive' : th'.state.live = true) (hphase : PhaseFits th' p') (hok : LiveOk th' p') :
    ThreadOk th' p' o cnt where
  phase := hphase
  order := h.order.change (ThreadState.ne_starting_of_live hlive)
    (ThreadState.ne_starting_of_live hlive')
  live _ := hok
  counted := by
    rw [h.counted]
    exact ⟨fun _ => .inl hlive', fun _ => .inl hlive⟩

/-- The worker goes on, and the thread stays as it is. -/
theorem ThreadOk.goOn (h : ThreadOk th p o cnt) (hlive : th.state.live = true)
    (hphase : PhaseFits th p')
    (hp : p ≠ some (.finishing .load) ∧ p ≠ some (.finishing .exchange) ∨
      p' = some (.finishing .load) ∨ p' = some (.finishing .exchange)) :
    ThreadOk th p' o cnt := by
  have hok := h.live hlive
  refine h.stay hlive hlive hphase ⟨hok.halted, hok.requested, fun ha => ?_, hok.fresh⟩
  obtain hr | hload | hexch := hok.accepted ha
  · exact .inl hr
  · obtain ⟨hne, _⟩ | hp' := hp
    · exact absurd hload hne
    · exact .inr hp'
  · obtain ⟨_, hne⟩ | hp' := hp
    · exact absurd hexch hne
    · exact .inr hp'

/-- The stop request is taken: the thread is finished if there was one. -/
theorem ThreadOk.takeStop {next : Phase} (h : ThreadOk th (some q) o cnt) (hq : q.finishes = false)
    (hnext : PhaseFits { th with stopRequested := false } (some next)) :
    ThreadOk { th with stopRequested := false }
      (if th.stopRequested then some (.finishing .load) else some next) o cnt := by
  have hlive := h.phase.live hq
  have hok := h.live hlive
  split
  · next hreq =>
    refine h.stay hlive hlive ⟨hlive, .inr (hok.requested hreq)⟩
      ⟨hok.halted, fun hr => ?_, fun _ => .inr (.inl rfl), hok.fresh⟩
    cases hr
  · next hreq =>
    refine h.stay hlive hlive hnext ⟨hok.halted, fun hr => ?_, fun ha => ?_, hok.fresh⟩
    · cases hr
    · exact absurd (hok.pending hq ha) hreq

/-- A thread that is not live and not being started, in a step of `finish_hardware_thread`. -/
theorem ThreadOk.finish {f f' : FinishStep} (h : ThreadOk th (some (.finishing f)) o cnt)
    (hf : f.writes = true) (hf' : f'.writes = true) (hs' : th'.state = th.state) :
    ThreadOk th' (some (.finishing f')) o cnt := by
  have hhalted : th.state = .halted := by
    have hphase := h.phase
    cases f with
    | load | exchange | stopMachine => cases hf
    | _ => exact hphase
  have hne : th.state ≠ .starting := by
    rw [hhalted]
    exact ThreadState.noConfusion
  refine ⟨?_, h.order.change hne (hs' ▸ hne), fun hlive => ?_, ?_⟩
  · cases f' with
    | load | exchange | stopMachine => cases hf'
    | _ => exact hs'.trans hhalted
  · rw [hs', hhalted] at hlive
    cases hlive
  · rw [h.counted]
    exact ⟨fun _ => .inr (.inl ⟨f', rfl, hf'⟩), fun _ => .inr (.inl ⟨f, rfl, hf⟩)⟩

/-- The worker does something else with the thread, not finishing it. -/
theorem ThreadOk.rephase {q' : Phase} (h : ThreadOk th (some q) o cnt) (hq : q.finishes = false)
    (hq' : q'.finishes = false) (hfit : PhaseFits th (some q')) : ThreadOk th (some q') o cnt := by
  refine ⟨hfit, h.order, fun hlive => ?_, h.recount rfl ?_ Iff.rfl⟩
  · have hok := h.live hlive
    exact ⟨hok.halted, hok.requested, fun ha => .inl (hok.pending hq ha), hok.fresh⟩
  · simp [Phase.ne_finishing hq, Phase.ne_finishing hq']

/-- A command reaches the thread, goes on or leaves it, without counting it. -/
theorem ThreadOk.reorder (h : ThreadOk th p o cnt) (hfit : OrderFits th o')
    (ho : ∀ e, o ≠ some (.startPublish, e)) (ho' : ∀ e, o' ≠ some (.startPublish, e)) :
    ThreadOk th p o' cnt := by
  refine ⟨h.phase, hfit, h.live, h.recount rfl Iff.rfl ?_⟩
  simp [ho, ho']

/-- The worker of the thread does nothing with it, or is done with it but for stopping the
    machine. -/
def Untouched (p : Option Phase) : Prop := p = none ∨ p = some (.finishing .stopMachine)

theorem Untouched.fits (h : Untouched p) (th : HardwareThread) : PhaseFits th p := by
  obtain rfl | rfl := h <;> trivial

theorem Untouched.not_writes (h : Untouched p) :
    ¬∃ f, p = some (.finishing f) ∧ f.writes = true := by
  rintro ⟨f, hf, hfw⟩
  obtain rfl | rfl := h
  · cases hf
  · cases hf
    cases hfw

/-- The worker has nothing to do with a thread that is neither live nor being finished. -/
theorem PhaseFits.untouched (h : PhaseFits th p) (hlive : th.state.live = false)
    (hf : th.state = .halted → ¬∃ f, p = some (.finishing f) ∧ f.writes = true) : Untouched p := by
  have hdead : ∀ s : ThreadState, s.live = true → th.state ≠ s := by
    rintro s hs rfl
    rw [hlive] at hs
    cases hs
  cases p with
  | none => exact .inl rfl
  | some q =>
    cases q with
    | finishing f =>
      cases f with
      | load | exchange => exact absurd h.1 (by simp [hlive])
      | stopMachine => exact .inr rfl
      | _ => exact absurd ⟨_, rfl, rfl⟩ (hf h)
    | _ => exact absurd h (hdead _ rfl)

theorem PhaseFits.untouched_starting (h : PhaseFits th p) (hs : th.state = .starting) :
    Untouched p := by
  refine h.untouched (hs ▸ rfl) (fun hh => ?_)
  rw [hs] at hh
  cases hh

/-- A command has a thread to itself, which is not live. -/
theorem ThreadOk.hold (h : ThreadOk th p o cnt) (hp : Untouched p) (hlive : th.state.live = false)
    (hlive' : th'.state.live = false) (hfit : OrderFits th' o')
    (ho : ∀ e, o ≠ some (.startPublish, e)) (ho' : ∀ e, o' ≠ some (.startPublish, e)) :
    ThreadOk th' p o' cnt := by
  refine ⟨hp.fits th', hfit, fun hl => ?_, h.recount (hlive'.trans hlive.symm) Iff.rfl ?_⟩
  · rw [hlive'] at hl
    cases hl
  · simp [ho, ho']

/-- A command that is starting or resetting the thread goes on. -/
theorem ThreadOk.holdStarting (h : ThreadOk th p o cnt) (hs : th.state = .starting)
    (hs' : th'.state = .starting ∨ th'.state = .offline) (hfit : OrderFits th' o')
    (ho : ∀ e, o ≠ some (.startPublish, e)) (ho' : ∀ e, o' ≠ some (.startPublish, e)) :
    ThreadOk th' p o' cnt := by
  have hlive' : th'.state.live = false := hs'.elim (· ▸ rfl) (· ▸ rfl)
  exact h.hold (h.phase.untouched_starting hs) (hs ▸ rfl) hlive' hfit ho ho'

/-- A STOP is accepted. -/
theorem ThreadOk.acceptStop (h : ThreadOk th p o cnt) (hs : th.state ≠ .starting) :
    ThreadOk { th with stopRequested := true, stopAccepted := true } p none cnt := by
  refine ⟨?_, hs, fun hlive => ?_, ?_⟩
  · have hphase := h.phase
    cases p with
    | none => trivial
    | some q =>
      cases q with
      | finishing f =>
        cases f with
        | load | exchange => exact ⟨hphase.1, .inr rfl⟩
        | _ => exact hphase
      | _ => exact hphase
  · have hok := h.live hlive
    exact ⟨hok.halted, fun _ => rfl, fun _ => .inl rfl, hok.fresh⟩
  · refine h.recount rfl Iff.rfl ?_
    simp [h.order.not_publish hs]

/-- The thread is started. -/
theorem ThreadOk.publish {entry : Nat} (h : ThreadOk th p (some (.startPublish, entry)) cnt) :
    ThreadOk { th with
      state := .runnable
      entry := entry
      incarnation := th.incarnation + 1
      executed := false
      executedHalt := false
      stopAccepted := false } p none cnt := by
  obtain ⟨hs, hhalted, hwaiting, hpc, hstop⟩ := h.order
  have hp := h.phase.untouched_starting hs
  refine ⟨hp.fits _, ThreadState.noConfusion, fun _ => ⟨fun hh => ?_, fun hr => ?_,
    Bool.noConfusion, fun _ => ⟨hpc, hhalted, hwaiting⟩⟩, ?_⟩
  · exact absurd hh (by simp [hhalted])
  · exact absurd hr (by simp [hstop])
  · rw [h.counted]
    exact ⟨fun _ => .inl rfl, fun _ => .inr (.inr ⟨entry, rfl⟩)⟩

/-- The worker leaves the thread, which it has finished. -/
theorem ThreadOk.release (h : ThreadOk th (some (.finishing .stopMachine)) o cnt) :
    ThreadOk th none o cnt := by
  refine ⟨trivial, h.order, fun hlive => ?_, ?_⟩
  · have hok := h.live hlive
    exact ⟨hok.halted, hok.requested, fun ha => .inl ((hok.accepted ha).resolve_right (by simp)),
      hok.fresh⟩
  · refine h.recount rfl ⟨?_, by simp⟩ Iff.rfl
    rintro ⟨f, hf, hfw⟩
    cases hf
    cases hfw

/-- `finish_hardware_thread` makes a live thread HALTED. -/
theorem ThreadOk.halt (h : ThreadOk th p o cnt) (hlive : th.state.live = true) :
    ThreadOk { th with state := .halted } (some (.finishing .clearWaiting)) o cnt := by
  refine ⟨rfl, h.order.change (ThreadState.ne_starting_of_live hlive) ThreadState.noConfusion,
    fun hl => ?_, ?_⟩
  · cases hl
  · rw [h.counted]
    exact ⟨fun _ => .inr (.inl ⟨.clearWaiting, rfl, rfl⟩), fun _ => .inl hlive⟩

end Thread

/-! ## Steps of a worker -/

section

variable (h : MachineOk coreOf m)
include h

/-- The worker of a thread and the command change. -/
theorem MachineOk.change (hcore : coreOf t = c) (hold : (m.workers c).about t)
    (hworkers : m'.workers = Function.update m.workers c w) (habout : w.about t)
    (hsub : m'.counted ⊆ m.counted) (hcount : m'.activeThreadCount = m'.counted.card)
    (hstop : ∀ u, w = .busy u (.finishing .stopMachine) → m'.counted = ∅)
    (hissuer : ∀ cmd, m'.command = some cmd →
      m'.workers (coreOf cmd.issuer) = .busy cmd.issuer .commanding)
    (hothers : ∀ u, u ≠ t →
      ThreadOk (m'.threads u) (phaseOf coreOf m u) (orderOf m' u) (u ∈ m'.counted))
    (hself : ThreadOk (m'.threads t) (w.phaseFor t) (orderOf m' t) (t ∈ m'.counted)) :
    MachineOk coreOf m' := by
  refine ⟨fun u => ?_, fun c' u q hq => ?_, hissuer, hcount, fun c' u hq => ?_⟩
  · by_cases hu : u = t
    · subst hu
      rw [phaseOf, hworkers, hcore, Function.update_self]
      exact hself
    · rw [phaseOf_of_ne hworkers hold habout hu]
      exact hothers u hu
  · rw [hworkers] at hq
    obtain ⟨rfl, rfl⟩ | hq := busy_of_update hq
    · rw [show u = t from habout]
      exact hcore
    · exact h.placed c' u q hq
  · rw [hworkers] at hq
    obtain ⟨-, hq⟩ | hq := busy_of_update hq
    · exact hstop u hq
    · rw [h.idle c' u hq] at hsub
      exact Finset.subset_empty.mp hsub

/-- A worker goes on with its thread: only the invariant of that thread has to be looked at. -/
theorem MachineOk.work (hcore : coreOf t = c) (hold : (m.workers c).about t)
    (hfree : ∀ u, m.workers c ≠ .busy u .commanding)
    (hthreads : ∀ u, u ≠ t → m'.threads u = m.threads u)
    (hworkers : m'.workers = Function.update m.workers c w) (habout : w.about t)
    (hcommand : m'.command = m.command) (hcounted : ∀ u, u ≠ t → (u ∈ m'.counted ↔ u ∈ m.counted))
    (hsub : m'.counted ⊆ m.counted) (hcount : m'.activeThreadCount = m'.counted.card)
    (hstop : ∀ u, w = .busy u (.finishing .stopMachine) → m'.counted = ∅)
    (hself : ThreadOk (m'.threads t) (w.phaseFor t) (orderOf m t) (t ∈ m'.counted)) :
    MachineOk coreOf m' := by
  have horder : ∀ u, orderOf m' u = orderOf m u := by
    intro u
    rw [orderOf, orderOf, hcommand]
  refine h.change hcore hold hworkers habout hsub hcount hstop (fun cmd hcmd => ?_)
    (fun u hu => ?_) ((horder t).symm ▸ hself)
  · -- the issuer of a command is with another worker
    have hissuer := h.issuer cmd (hcommand ▸ hcmd)
    have hne : coreOf cmd.issuer ≠ c := by
      intro heq
      rw [heq] at hissuer
      exact hfree _ hissuer
    rw [hworkers, Function.update_of_ne hne]
    exact hissuer
  · rw [horder, hthreads u hu, hcounted u hu]
    exact h.threads u

omit h in
theorem not_commanding {p : Phase} (hw : m.workers c = .busy t p) (hp : p ≠ .commanding) (u : Nat) :
    m.workers c ≠ .busy u .commanding := by
  intro heq
  rw [hw] at heq
  exact hp (Worker.busy.inj heq).2

/-- The same for a step that changes the record of the thread with `f`. -/
theorem MachineOk.work_thread {p : Phase} (hw : m.workers c = .busy t p) (hp : p ≠ .commanding)
    (f : HardwareThread → HardwareThread) (hnext : w.Carries t p')
    (hself : ThreadOk (f (m.threads t)) p' (orderOf m t) (t ∈ m.counted)) :
    MachineOk coreOf ((m.setThread t f).setWorker c w) := by
  refine h.work (h.placed c t p hw) (hw ▸ Worker.about_busy t p) (not_commanding hw hp)
    (fun u hu => Function.update_of_ne hu _ _) rfl hnext.about rfl (fun _ _ => Iff.rfl)
    (Finset.Subset.refl _) h.count (fun u heq => absurd heq (hnext.not_stops u)) ?_
  rw [hnext.phaseFor_eq, show ((m.setThread t f).setWorker c w).threads t = f (m.threads t) from
    Function.update_self _ _ _]
  exact hself

/-- And for a step that leaves the record alone, but may ask the machine to stop. -/
theorem MachineOk.work_only {p : Phase} (hw : m.workers c = .busy t p) (hp : p ≠ .commanding)
    (hnext : w.Carries t p') (stop : Bool)
    (hself : ThreadOk (m.threads t) p' (orderOf m t) (t ∈ m.counted)) :
    MachineOk coreOf ({ m with stopRequested := stop }.setWorker c w) :=
  h.work (h.placed c t p hw) (hw ▸ Worker.about_busy t p) (not_commanding hw hp)
    (fun _ _ => rfl) rfl hnext.about rfl (fun _ _ => Iff.rfl) (Finset.Subset.refl _) h.count
    (fun u heq => absurd heq (hnext.not_stops u)) (hnext.phaseFor_eq.symm ▸ hself)

/-- The invariant of the thread that a worker is busy with. -/
theorem MachineOk.busy {p : Phase} (hw : m.workers c = .busy t p) :
    ThreadOk (m.threads t) (some p) (orderOf m t) (t ∈ m.counted) := by
  have hok := h.threads t
  rwa [phaseOf, h.placed c t p hw, hw, Worker.phaseFor_self] at hok

theorem MachineOk.takeStop {next : Phase} (hw : m.workers c = .busy t q) (hq : q ≠ .commanding)
    (hnot : q.finishes = false) (hnext : next ≠ .finishing .stopMachine)
    (hphase : PhaseFits { m.threads t with stopRequested := false } (some next)) :
    MachineOk coreOf (takeStop m c t next) := by
  have hself := (h.busy hw).takeStop hnot hphase
  unfold Vm.takeStop
  dsimp only
  split
  · next hreq =>
    rw [if_pos hreq] at hself
    exact h.work_thread hw hq _ (.busy (by simp)) hself
  · next hreq =>
    rw [if_neg hreq] at hself
    exact h.work_thread hw hq _ (.busy hnext) hself

/-- An instruction that is neither HALT nor a command. -/
theorem MachineOk.instruction (hw : m.workers c = .busy t .stepping) (pc : Nat) (waiting : Bool) :
    MachineOk coreOf ((m.setThread t fun th =>
      { th with pc, waiting := waiting, executed := true }).setWorker c (.busy t .stepped)) := by
  have hok := h.busy hw
  have hlive := hok.phase.live rfl
  have hold := hok.live hlive
  exact h.work_thread hw Phase.noConfusion _ (.busy (by simp))
    (hok.stay hlive hlive hok.phase ⟨hold.halted, hold.requested,
      fun ha => .inl (hold.pending rfl ha), Bool.noConfusion⟩)

end

/-- The first step of a command. -/
def Order.first (order : Order) : Prop :=
  order = .startCheck ∨ order = .stopLoad ∨ order = .resetLoad

variable {order : Order}

theorem Order.first.fits (h : order.first) (hs : th.state ≠ .starting) (e : Nat) :
    OrderFits th (some (order, e)) := by
  obtain rfl | rfl | rfl := h
  · exact hs
  · exact hs
  · exact hs

theorem Order.first.not_publish (h : order.first) (e e' : Nat) :
    some (order, e) ≠ some (Order.startPublish, e') := by
  obtain rfl | rfl | rfl := h <;> simp

/-- An instruction that issues a command. -/
theorem MachineOk.issue (h : MachineOk coreOf m) (hw : m.workers c = .busy t .stepped)
    (hnone : m.command = none) (target entry : Nat) (horder : order.first) :
    MachineOk coreOf ({ m with command := some ⟨t, target, entry, order⟩ }.setWorker c
      (.busy t .commanding)) := by
  have hcore := h.placed c t _ hw
  have hold : ∀ u, orderOf m u = none := by
    intro u
    rw [orderOf, hnone]
  have hreorder : ∀ u {p}, ThreadOk (m.threads u) p (orderOf m u) (u ∈ m.counted) →
      ThreadOk (m.threads u) p (orderOf { m with command := some ⟨t, target, entry, order⟩ } u)
        (u ∈ m.counted) := by
    intro u p hok
    rw [hold] at hok
    unfold orderOf
    dsimp only
    split
    · exact hok.reorder (horder.fits hok.order entry) (fun _ => by simp) (horder.not_publish entry)
    · exact hok
  refine h.change hcore (hw ▸ Worker.about_busy t _) rfl (Worker.about_busy t _)
    (Finset.Subset.refl _) h.count (fun u hq => by cases hq) (fun cmd hcmd => ?_)
    (fun u _ => hreorder u (h.threads u)) ?_
  · cases hcmd
    simp only [Machine.setWorker, hcore, Function.update_self]
  · have hok := h.busy hw
    rw [Worker.phaseFor_self]
    exact hreorder t (hok.rephase rfl rfl hok.phase)

variable {input : Input}

section

variable (h : MachineOk coreOf m)
include h

theorem MachineOk.cpuStep (hw : m.workers c = .busy t .stepping)
    (hst : cpuStep m c t input = some m') : MachineOk coreOf m' := by
  have hok := h.busy hw
  have hlive := hok.phase.live rfl
  unfold Vm.cpuStep at hst
  dsimp only at hst
  split at hst
  · cases hst
    exact h.work_only hw Phase.noConfusion (.busy (by simp)) m.stopRequested
      (hok.rephase rfl rfl hok.phase)
  cases input with
  | nothing => cases hst
  | runs pc =>
    cases hst
    exact h.instruction hw pc (m.threads t).waiting
  | halts =>
    cases hst
    have hold := hok.live hlive
    exact h.work_thread hw Phase.noConfusion _ (.busy (by simp))
      (hok.stay hlive hlive hok.phase ⟨fun _ => rfl, hold.requested,
        fun ha => .inl (hold.pending rfl ha), Bool.noConfusion⟩)
  | waits pc =>
    cases hst
    exact h.instruction hw pc true
  | orders pc target entry order =>
    dsimp only at hst
    split at hst
    · next hfree =>
      cases hst
      have hran := h.instruction hw pc (m.threads t).waiting
      have hissue := hran.issue (c := c) (t := t) (Function.update_self _ _ _) hfree.1 target entry
        hfree.2
      simp only [Machine.setWorker, Machine.setThread, Function.update_idem] at hissue ⊢
      exact hissue
    · cases hst
  | stopsMachine pc =>
    cases hst
    have hran := h.instruction hw pc (m.threads t).waiting
    exact ⟨hran.threads, hran.placed, hran.issuer, hran.count, hran.idle⟩
  | fails =>
    cases hst
    refine h.work_only hw Phase.noConfusion .returned true ?_
    exact hok.goOn hlive trivial (.inl ⟨by simp, by simp⟩)

/-- The thread is not counted any more; the machine stops when none is. -/
theorem MachineOk.decrement (hw : m.workers c = .busy t (.finishing .decrement)) :
    MachineOk coreOf (finishStep m c t .decrement) := by
  have hok := h.busy hw
  have hhalted : (m.threads t).state = .halted := hok.phase
  have hmem : t ∈ m.counted := hok.counted.mpr (.inr (.inl ⟨.decrement, rfl, rfl⟩))
  have hcard : m.activeThreadCount - 1 = (m.counted.erase t).card := by
    rw [h.count, Finset.card_erase_of_mem hmem]
  have hself : ∀ p : Option Phase, Untouched p →
      ThreadOk (m.threads t) p (orderOf m t) (t ∈ m.counted.erase t) := by
    intro p hp
    have hne : (m.threads t).state ≠ .starting := by
      rw [hhalted]
      exact ThreadState.noConfusion
    refine ⟨hp.fits _, hok.order, fun hlive => ?_, ?_⟩
    · rw [hhalted] at hlive
      cases hlive
    · constructor
      · intro hin
        exact absurd hin (Finset.notMem_erase t _)
      · rintro (hlive | hf | ⟨e, he⟩)
        · rw [hhalted] at hlive
          cases hlive
        · exact absurd hf hp.not_writes
        · exact absurd he (hok.order.not_publish hne e)
  have hcounted : ∀ u, u ≠ t → (u ∈ m.counted.erase t ↔ u ∈ m.counted) := by
    intro u hu
    simp [hu]
  have hfree := not_commanding hw Phase.noConfusion
  unfold finishStep
  dsimp only
  split
  · next hone =>
    have hempty : m.counted.erase t = ∅ := by
      rw [← Finset.card_eq_zero, ← hcard, hone]
    refine h.work (h.placed c t _ hw) (hw ▸ Worker.about_busy t _) hfree (fun _ _ => rfl) rfl
      (Worker.about_busy t _) rfl hcounted (Finset.erase_subset t _) hcard (fun _ _ => hempty) ?_
    rw [Worker.phaseFor_self]
    exact hself _ (.inr rfl)
  · refine h.work (h.placed c t _ hw) (hw ▸ Worker.about_busy t _) hfree (fun _ _ => rfl) rfl
      (Worker.about_between t) rfl hcounted (Finset.erase_subset t _) hcard (fun u heq => ?_)
      (hself _ (.inl rfl))
    cases heq

/-- A store of `finish_hardware_thread`. -/
theorem MachineOk.finishStore {f g : FinishStep} (hw : m.workers c = .busy t (.finishing f))
    (hf : f.writes = true) (hg : g.writes = true) (change : HardwareThread → HardwareThread)
    (hstate : (change (m.threads t)).state = (m.threads t).state) :
    MachineOk coreOf ((m.setThread t change).setWorker c (.busy t (.finishing g))) := by
  refine h.work_thread hw Phase.noConfusion change (.busy ?_) ((h.busy hw).finish hf hg hstate)
  rintro ⟨⟩
  cases hg

theorem MachineOk.finishStep {f : FinishStep} (hw : m.workers c = .busy t (.finishing f)) :
    MachineOk coreOf (finishStep m c t f) := by
  have hok := h.busy hw
  cases f with
  | load =>
    -- the thread is still live: nobody but its worker ends it
    have hlive := hok.phase.1
    rw [Vm.finishStep, if_pos hlive]
    exact h.work_only hw Phase.noConfusion (.busy (by simp)) m.stopRequested
      (hok.goOn hlive hok.phase (.inr (.inr rfl)))
  | exchange =>
    have hlive := hok.phase.1
    rw [Vm.finishStep, if_pos hlive]
    exact h.work_thread hw Phase.noConfusion _ (.busy (by simp)) (hok.halt hlive)
  | clearWaiting | setHalted | clearStop => exact h.finishStore hw rfl rfl _ rfl
  | decrement => exact h.decrement hw
  | stopMachine => exact h.work_only hw Phase.noConfusion .between true hok.release

/-- The worker goes on, or leaves the thread, without finishing it; it may ask the machine to
    stop. -/
theorem MachineOk.pass (hw : m.workers c = .busy t q) (hq : q ≠ .commanding)
    (hnot : q.finishes = false) (hnext : w.Carries t p') (hfit : PhaseFits (m.threads t) p')
    (stop : Bool) :
    MachineOk coreOf ({ m with stopRequested := stop }.setWorker c w) := by
  have hok := h.busy hw
  refine h.work_only hw hq hnext stop (hok.goOn (hok.phase.live hnot) hfit (.inl ?_))
  simp [Phase.ne_finishing hnot]

/-- The same for a step that changes the record of the thread, but not what it was ended by. -/
theorem MachineOk.pass_thread (hw : m.workers c = .busy t q) (hq : q ≠ .commanding)
    (hnot : q.finishes = false) (hnext : w.Carries t p') (f : HardwareThread → HardwareThread)
    (hth : f (m.threads t) = th) (hlive' : th.state.live = true) (hfit : PhaseFits th p')
    (hhalted : th.halted = (m.threads t).halted)
    (hended : th.executedHalt = (m.threads t).executedHalt)
    (hrequested : th.stopRequested = (m.threads t).stopRequested)
    (haccepted : th.stopAccepted = (m.threads t).stopAccepted)
    (hfresh : th.executed = false → th.pc = th.entry ∧ th.halted = false ∧ th.waiting = false) :
    MachineOk coreOf ((m.setThread t f).setWorker c w) := by
  subst hth
  have hok := h.busy hw
  have hlive := hok.phase.live hnot
  have hold := hok.live hlive
  refine h.work_thread hw hq f hnext (hok.stay hlive hlive' hfit ⟨?_, ?_, fun ha => ?_, hfresh⟩)
  · rw [hhalted, hended]
    exact hold.halted
  · rw [hrequested, haccepted]
    exact hold.requested
  · rw [haccepted] at ha
    rw [hrequested]
    exact .inl (hold.pending hnot ha)

theorem MachineOk.workerStep (hw : m.workers c = .busy t q)
    (hst : workerStep m c t input q = some m') : MachineOk coreOf m' := by
  have hok := h.busy hw
  cases q with
  | serviced | selected | testing =>
    cases hst
    exact h.takeStop hw Phase.noConfusion rfl Phase.noConfusion hok.phase
  | checking =>
    cases input with
    | nothing =>
      rw [Vm.workerStep] at hst
      split at hst
      · cases hst
        exact h.pass hw Phase.noConfusion rfl .between trivial m.stopRequested
      · cases hst
        refine h.pass hw Phase.noConfusion rfl (.busy (by simp)) ?_ m.stopRequested
        exact hok.phase
    | runs pc =>
      cases hst
      exact h.pass_thread hw Phase.noConfusion rfl (.busy (by simp)) _ rfl (hok.phase.live rfl)
        hok.phase rfl rfl rfl rfl Bool.noConfusion
    | fails =>
      cases hst
      exact h.pass hw Phase.noConfusion rfl .returned trivial true
    | _ => cases hst
  | waking =>
    have hwaiting : (m.threads t).state = .waiting := hok.phase
    rw [Vm.workerStep, if_pos hwaiting] at hst
    cases hst
    exact h.pass_thread hw Phase.noConfusion rfl .between _ rfl rfl trivial rfl rfl rfl rfl
      (hok.live (hok.phase.live rfl)).fresh
  | stepping => exact h.cpuStep hw hst
  | commanding => cases hst
  | stepped =>
    have hlive := hok.phase.live rfl
    cases input with
    | nothing =>
      rw [Vm.workerStep] at hst
      split at hst
      · next hhalt =>
        cases hst
        exact h.work_only hw Phase.noConfusion (.busy (by simp)) m.stopRequested
          (hok.goOn hlive ⟨hlive, .inl ((hok.live hlive).halted hhalt)⟩ (.inr (.inl rfl)))
      · cases hst
        refine h.pass hw Phase.noConfusion rfl (.busy (by simp)) ?_ m.stopRequested
        exact hok.phase
    | runs pc =>
      rw [Vm.workerStep] at hst
      split at hst
      · cases hst
      · next hruns =>
        cases hst
        have hstay : MachineOk coreOf ((m.setThread t fun th =>
            { th with pc, waiting := false }).setWorker c (.busy t .stepped)) := by
          refine h.pass_thread hw Phase.noConfusion rfl (.busy (by simp)) _ rfl hlive hok.phase
            rfl rfl rfl rfl ?_
          intro he
          exact absurd (.inr he) hruns
        have hsame : (m.setThread t fun th => { th with pc, waiting := false }).setWorker c
            (.busy t .stepped) = m.setThread t fun th => { th with pc, waiting := false } := by
          unfold Machine.setWorker Machine.setThread
          rw [← hw, Function.update_eq_self]
        rw [← hsame]
        exact hstay
    | fails =>
      rw [Vm.workerStep] at hst
      split at hst
      · cases hst
      · cases hst
        exact h.pass hw Phase.noConfusion rfl .returned trivial true
    | _ => cases hst
  | resting =>
    rw [Vm.workerStep] at hst
    split at hst
    · cases hst
      exact h.pass_thread hw Phase.noConfusion rfl .between _ rfl rfl trivial rfl rfl rfl rfl
        (hok.live (hok.phase.live rfl)).fresh
    · cases hst
      exact h.pass hw Phase.noConfusion rfl .between trivial m.stopRequested
  | finishing f =>
    cases hst
    exact h.finishStep hw

/-- A worker takes up a thread of its core. -/
theorem MachineOk.takeUp (hw : m.workers (coreOf t) = .between) (hq : q.finishes = false)
    (hfit : PhaseFits (m.threads t) (some q)) :
    MachineOk coreOf (m.setWorker (coreOf t) (.busy t q)) := by
  have hok := h.threads t
  rw [phaseOf, hw, Worker.phaseFor_between] at hok
  refine h.work rfl (hw ▸ Worker.about_between t) (fun u heq => ?_) (fun _ _ => rfl) rfl
    (Worker.about_busy t q) rfl (fun _ _ => Iff.rfl) (Finset.Subset.refl _) h.count
    (fun u heq => absurd (Worker.busy.inj heq).2 (Phase.ne_finishing hq _)) ?_
  · rw [hw] at heq
    cases heq
  · rw [Worker.phaseFor_self]
    exact hok.goOn (hfit.live hq) hfit (.inl ⟨by simp, by simp⟩)

/-- A worker returns. -/
theorem MachineOk.quit (hw : m.workers c = .between) :
    MachineOk coreOf (m.setWorker c .returned) := by
  have hphase : ∀ u, phaseOf coreOf (m.setWorker c .returned) u = phaseOf coreOf m u := by
    intro u
    simp only [phaseOf, Machine.setWorker]
    by_cases hc : coreOf u = c
    · rw [hc, Function.update_self, hw, Worker.phaseFor_between, Worker.phaseFor_returned]
    · rw [Function.update_of_ne hc]
  have hbusy : ∀ c' u p, (m.setWorker c .returned).workers c' = .busy u p →
      m.workers c' = .busy u p := by
    intro c' u p hq
    obtain ⟨-, hq⟩ | hq := busy_of_update hq
    · cases hq
    · exact hq
  refine ⟨fun u => ?_, fun c' u q hq => h.placed c' u q (hbusy c' u q hq), fun cmd hcmd => ?_,
    h.count, fun c' u hq => h.idle c' u (hbusy c' u _ hq)⟩
  · rw [hphase]
    exact h.threads u
  · have hissuer := h.issuer cmd hcmd
    simp only [Machine.setWorker]
    rw [Function.update_of_ne]
    · exact hissuer
    · intro hc
      rw [hc, hw] at hissuer
      cases hissuer

end

/-! ## Steps of a command -/

section

variable (h : MachineOk coreOf m) (hcmd : m.command = some cmd)
include h hcmd

/-- While a command is executed its issuer is counted, so no worker stops the machine. -/
theorem MachineOk.not_stopping : m.workers c ≠ .busy t (.finishing .stopMachine) := by
  intro hw
  have hissuer := h.busy (h.issuer cmd hcmd)
  have hmem := hissuer.counted.mpr (.inl (hissuer.phase.live rfl))
  rw [h.idle c t hw] at hmem
  exact absurd hmem (Finset.notMem_empty _)

/-- A command goes on: only the invariant of its target has to be looked at. -/
theorem MachineOk.commandGoesOn (hthreads : ∀ u, u ≠ cmd.target → m'.threads u = m.threads u)
    (hworkers : m'.workers = m.workers) (hcommand : m'.command = some { cmd with order })
    (hcounted : ∀ u, u ≠ cmd.target → (u ∈ m'.counted ↔ u ∈ m.counted))
    (hcount : m'.activeThreadCount = m'.counted.card)
    (hself : ThreadOk (m'.threads cmd.target) (phaseOf coreOf m cmd.target)
      (some (order, cmd.entry)) (cmd.target ∈ m'.counted)) :
    MachineOk coreOf m' := by
  have hphase : ∀ u, phaseOf coreOf m' u = phaseOf coreOf m u := by
    intro u
    rw [phaseOf, phaseOf, hworkers]
  refine ⟨fun u => ?_, fun c u q hq => h.placed c u q (hworkers ▸ hq), fun cmd' hcmd' => ?_, hcount,
    fun c u hq => absurd (hworkers ▸ hq) (h.not_stopping hcmd)⟩
  · rw [hphase]
    by_cases hu : u = cmd.target
    · subst hu
      rw [orderOf_target hcommand]
      exact hself
    · have hok := h.threads u
      rw [orderOf_of_ne hcmd hu] at hok
      rw [orderOf_of_ne hcommand hu, hthreads u hu, hcounted u hu]
      exact hok
  · rw [hcommand] at hcmd'
    cases hcmd'
    rw [hworkers]
    exact h.issuer cmd hcmd

theorem MachineOk.goOn (f : HardwareThread → HardwareThread) (order : Order)
    (hself : ThreadOk (f (m.threads cmd.target)) (phaseOf coreOf m cmd.target)
      (some (order, cmd.entry)) (cmd.target ∈ m.counted)) :
    MachineOk coreOf ((m.setThread cmd.target f).goOn cmd order) := by
  refine h.commandGoesOn hcmd (fun u hu => Function.update_of_ne hu _ _) rfl rfl
    (fun _ _ => Iff.rfl) h.count ?_
  rw [show ((m.setThread cmd.target f).goOn cmd order).threads cmd.target =
    f (m.threads cmd.target) from Function.update_self _ _ _]
  exact hself

/-- The instruction of the issuer ends with the command. -/
theorem MachineOk.endCommand
    (hself : ThreadOk (m.threads cmd.target) (phaseOf coreOf m cmd.target) none
      (cmd.target ∈ m.counted)) :
    MachineOk coreOf (m.endCommand coreOf cmd.issuer) := by
  have hissuer := h.issuer cmd hcmd
  -- first the command goes
  have hfree : ∀ u, ThreadOk (m.threads u) (phaseOf coreOf m u) none (u ∈ m.counted) := by
    intro u
    by_cases hu : u = cmd.target
    · subst hu
      exact hself
    · have hok := h.threads u
      rwa [orderOf_of_ne hcmd hu] at hok
  have hnone : MachineOk coreOf { m with command := none } :=
    ⟨hfree, h.placed, fun _ heq => (by cases heq), h.count, h.idle⟩
  -- then the worker of the issuer goes on
  have hbusy := hnone.busy hissuer
  refine hnone.change rfl (hissuer ▸ Worker.about_busy cmd.issuer _) rfl
    (Worker.about_busy cmd.issuer _) (Finset.Subset.refl _) h.count (fun u hq => by cases hq)
    (fun _ heq => by cases heq) (fun u _ => hnone.threads u) ?_
  rw [Worker.phaseFor_self]
  exact hbusy.rephase rfl rfl hbusy.phase

/-- The command goes on and leaves its target alone. -/
theorem MachineOk.goOn_only (order : Order)
    (hself : ThreadOk (m.threads cmd.target) (phaseOf coreOf m cmd.target)
      (some (order, cmd.entry)) (cmd.target ∈ m.counted)) :
    MachineOk coreOf (m.goOn cmd order) :=
  h.commandGoesOn hcmd (fun _ _ => rfl) rfl rfl (fun _ _ => Iff.rfl) h.count hself

/-- The last step of a command changes its target. -/
theorem MachineOk.leave (f : HardwareThread → HardwareThread)
    (hs : (f (m.threads cmd.target)).state ≠ .starting)
    (hself : ThreadOk (f (m.threads cmd.target)) (phaseOf coreOf m cmd.target) none
      (cmd.target ∈ m.counted)) :
    MachineOk coreOf ((m.setThread cmd.target f).endCommand coreOf cmd.issuer) := by
  -- as if the command went on to a step that asks nothing of the thread
  have hgo := h.goOn hcmd f .startCheck
    (hself.reorder hs (fun _ => by simp) (fun _ => by simp))
  have hcommand : ((m.setThread cmd.target f).goOn cmd .startCheck).command =
      some { cmd with order := .startCheck } := rfl
  have hend := hgo.endCommand hcommand
  refine hend ?_
  rw [show ((m.setThread cmd.target f).goOn cmd .startCheck).threads cmd.target =
    f (m.threads cmd.target) from Function.update_self _ _ _]
  exact hself

theorem MachineOk.commandStep (hcond : resetsFinished coreOf m .command = true) :
    MachineOk coreOf (commandStep coreOf m cmd) := by
  obtain ⟨issuer, t, entry, order⟩ := cmd
  have hok : ThreadOk (m.threads t) (phaseOf coreOf m t) (some (order, entry)) (t ∈ m.counted) :=
    orderOf_target hcmd ▸ h.threads t
  have hidle (hs : (m.threads t).state ≠ .starting) :
      MachineOk coreOf (m.endCommand coreOf issuer) :=
    h.endCommand hcmd (hok.reorder hs (hok.order.not_publish hs) (fun _ => by simp))
  unfold Vm.commandStep
  dsimp only
  cases order with
  | startCheck =>
    dsimp only
    split
    · exact hidle hok.order
    · exact h.goOn_only hcmd _ (hok.reorder hok.order (by simp) (by simp))
  | startExchange =>
    dsimp only
    split
    · next hoff =>
      have hlive : (m.threads t).state.live = false := by
        rw [hoff]
        rfl
      refine h.goOn hcmd _ _ (hok.hold (hok.phase.untouched hlive fun hh => ?_) hlive rfl rfl
        (by simp) (by simp))
      rw [hoff] at hh
      cases hh
    · exact hidle hok.order
  | startInit =>
    have hs : (m.threads t).state = .starting := hok.order
    exact h.goOn hcmd _ _ (hok.holdStarting hs (.inl hs) ⟨hs, rfl, rfl⟩ (by simp) (by simp))
  | startPc =>
    obtain ⟨hs, hhalted, hwaiting⟩ := hok.order
    exact h.goOn hcmd _ _ (hok.holdStarting hs (.inl hs) ⟨hs, hhalted, hwaiting, rfl⟩
      (by simp) (by simp))
  | startClear =>
    obtain ⟨hs, hhalted, hwaiting, hpc⟩ := hok.order
    exact h.goOn hcmd _ _ (hok.holdStarting hs (.inl hs)
      ⟨hs, hhalted, hwaiting, hpc, rfl⟩ (by simp) (by simp))
  | startAdd =>
    have hs : (m.threads t).state = .starting := hok.order.1
    have hlive : (m.threads t).state.live = false := hs ▸ rfl
    have hp := hok.phase.untouched_starting hs
    have hnot : t ∉ m.counted := by
      rw [hok.counted]
      rintro (hl | hf | ⟨e, he⟩)
      · rw [hlive] at hl
        cases hl
      · exact hp.not_writes hf
      · simp at he
    refine h.commandGoesOn hcmd (fun _ _ => rfl) rfl rfl (fun u hu => ?_) ?_ ?_
    · simp only [Machine.goOn, Finset.mem_insert]
      exact or_iff_right hu
    · simp only [Machine.goOn, Finset.card_insert_of_notMem hnot, h.count]
    · refine ⟨hok.phase, hok.order, hok.live, ?_⟩
      simp only [Machine.goOn, Finset.mem_insert_self, true_iff]
      exact .inr (.inr ⟨entry, rfl⟩)
  | startPublish => exact h.leave hcmd _ ThreadState.noConfusion hok.publish
  | stopLoad =>
    dsimp only
    split
    · exact h.goOn_only hcmd _ (hok.reorder hok.order (by simp) (by simp))
    · exact hidle hok.order
  | stopStore => exact h.leave hcmd _ hok.order (hok.acceptStop hok.order)
  | resetLoad =>
    dsimp only
    split
    · next hs => exact h.goOn_only hcmd _ (hok.reorder ⟨hok.order, hs⟩ (by simp) (by simp))
    · exact hidle hok.order
  | resetExchange expected =>
    dsimp only
    split
    · next hs =>
      have hlive : (m.threads t).state.live = false := by
        rw [hs]
        obtain rfl | rfl := hok.order.2 <;> rfl
      -- the condition: nobody is finishing the thread
      have hnot : ¬∃ f, phaseOf coreOf m t = some (.finishing f) ∧ f.writes = true := by
        rintro ⟨f, hf, hfw⟩
        simp only [resetsFinished, hcmd, beingFinished, hf, hfw] at hcond
        cases hcond
      exact h.goOn hcmd _ _ (hok.hold (hok.phase.untouched hlive fun _ => hnot) hlive rfl rfl
        (by simp) (by simp))
    · exact h.goOn_only hcmd _ (hok.reorder hok.order.1 (by simp) (by simp))
  | resetInit | resetClear =>
    have hs : (m.threads t).state = .starting := hok.order
    exact h.goOn hcmd _ _ (hok.holdStarting hs (.inl hs) hs (by simp) (by simp))
  | resetPublish =>
    exact h.leave hcmd _ ThreadState.noConfusion
      (hok.holdStarting hok.order (.inr rfl) ThreadState.noConfusion (by simp) (by simp))

end

/-! ## Runs -/

theorem MachineOk.step {a : Act} (h : MachineOk coreOf m) (hcond : resetsFinished coreOf m a = true)
    (hst : step coreOf m a = some m') : MachineOk coreOf m' := by
  cases a with
  | quit c =>
    rw [Vm.step] at hst
    split at hst
    · next hq =>
      cases hst
      exact h.quit hq.1
    · cases hst
  | service t | select t =>
    rw [Vm.step] at hst
    split at hst
    · next hs =>
      cases hst
      exact h.takeUp hs.1 rfl hs.2
    · cases hst
  | work c input =>
    rw [Vm.step] at hst
    split at hst
    · next hw => exact h.workerStep hw hst
    · cases hst
  | command =>
    obtain ⟨cmd, hcmd, rfl⟩ := Option.map_eq_some_iff.mp hst
    exact h.commandStep hcmd hcond

theorem machineOk_booted (coreOf : Nat → Nat) (resetVector : Nat) :
    MachineOk coreOf (Machine.booted resetVector) where
  threads t := by
    simp only [Machine.booted, phaseOf, orderOf, Worker.phaseFor_between, Finset.mem_singleton]
    by_cases ht : t = 0
    · rw [if_pos ht]
      refine ⟨trivial, ThreadState.noConfusion, fun _ => ⟨Bool.noConfusion, Bool.noConfusion,
        Bool.noConfusion, fun _ => ⟨rfl, rfl, rfl⟩⟩, ?_⟩
      exact ⟨fun _ => .inl rfl, fun _ => ht⟩
    · rw [if_neg ht]
      refine ⟨trivial, ThreadState.noConfusion, Bool.noConfusion, ?_⟩
      simp [ht, Counted, offlineThread, ThreadState.live]
  placed _ _ _ hw := Worker.noConfusion hw
  issuer _ hcmd := by cases hcmd
  count := rfl
  idle _ _ hw := Worker.noConfusion hw

/-! ### What ends a thread -/

/-- A step of a worker leaves the state of a thread, or leaves the thread live, or is the exchange
    of `finish_hardware_thread` for it; and it leaves the command, or issues one. -/
theorem workerStep_frame {p : Phase} (hst : workerStep m c t input p = some m') :
    (∀ u, (m'.threads u).state = (m.threads u).state ∨ u = t ∧ (m.threads u).state.live = true ∧
      ((m'.threads u).state.live = true ∨
        p = .finishing .exchange ∧ (m'.threads u).state = .halted)) ∧
    (m'.command = m.command ∨
      m.command = none ∧ ∃ cmd, m'.command = some cmd ∧ cmd.order.first) := by
  cases p with
  | finishing f =>
    cases hst
    cases f with
    | load =>
      rw [finishStep]
      split <;> exact ⟨fun _ => .inl rfl, .inl rfl⟩
    | exchange =>
      rw [finishStep]
      split
      · refine ⟨fun u => ?_, .inl rfl⟩
        by_cases hu : u = t <;> simp_all [Machine.setWorker, Machine.setThread]
      · exact ⟨fun _ => .inl rfl, .inl rfl⟩
    | decrement =>
      simp only [finishStep]
      split <;> exact ⟨fun _ => .inl rfl, .inl rfl⟩
    | stopMachine => exact ⟨fun _ => .inl rfl, .inl rfl⟩
    | _ =>
      refine ⟨fun u => ?_, .inl rfl⟩
      by_cases hu : u = t <;> simp [finishStep, Machine.setWorker, Machine.setThread, hu]
  | stepping =>
    simp only [workerStep, cpuStep] at hst
    split at hst
    · cases hst
      exact ⟨fun _ => .inl rfl, .inl rfl⟩
    split at hst
    any_goals split at hst
    all_goals cases hst
    all_goals first
      | refine ⟨fun u => ?_, .inl rfl⟩
      | refine ⟨fun u => ?_, .inr ⟨‹_ ∧ _›.1, _, rfl, ‹_ ∧ _›.2⟩⟩
    all_goals by_cases hu : u = t <;> simp [Machine.setWorker, Machine.setThread, hu]
  | _ =>
    simp only [workerStep, takeStop] at hst
    repeat' split at hst
    all_goals cases hst
    all_goals
      refine ⟨fun u => ?_, .inl rfl⟩
      by_cases hu : u = t <;> simp_all [Machine.setWorker, Machine.setThread, ThreadState.live]

/-- The other threads are left alone. -/
theorem commandStep_ne (hu : u ≠ cmd.target) :
    (commandStep coreOf m cmd).threads u = m.threads u ∧
      orderOf (commandStep coreOf m cmd) u = none := by
  have hgo : ∀ (m : Machine) order, orderOf (m.goOn cmd order) u = none :=
    fun m order => if_neg (Ne.symm hu)
  unfold commandStep
  dsimp only
  split
  any_goals split
  all_goals first
    | exact ⟨rfl, rfl⟩
    | exact ⟨rfl, hgo _ _⟩
    | exact ⟨Function.update_of_ne hu _ _, rfl⟩
    | exact ⟨Function.update_of_ne hu _ _, hgo _ _⟩

/-- A command ends no live thread. -/
theorem commandStep_state (hok : MachineOk coreOf m) (hcmd : m.command = some cmd) (u : Nat)
    (hlive : (m.threads u).state.live = true) :
    ((commandStep coreOf m cmd).threads u).state.live = true := by
  obtain ⟨issuer, t, entry, order⟩ := cmd
  by_cases hu : u = t
  · subst hu
    have horder : OrderFits (m.threads u) (some (order, entry)) :=
      orderOf_target hcmd ▸ (hok.threads u).order
    have hne := ThreadState.ne_starting_of_live hlive
    have hnot : ∀ s : ThreadState, s.live = false → (m.threads u).state ≠ s := by
      rintro s hs rfl
      rw [hlive] at hs
      cases hs
    cases order with
    | startExchange =>
      simp only [commandStep, if_neg (hnot .offline rfl)]
      exact hlive
    | resetExchange expected =>
      have hexp : (m.threads u).state ≠ expected := by
        obtain rfl | rfl := horder.2
        · exact hnot _ rfl
        · exact hnot _ rfl
      simp only [commandStep, if_neg hexp]
      exact hlive
    | resetPublish => exact absurd horder hne
    | startPublish => exact absurd horder.1 hne
    | startCheck | stopLoad | resetLoad =>
      simp only [commandStep]
      split <;> exact hlive
    | startAdd => exact hlive
    | _ =>
      simp only [commandStep, Machine.goOn, Machine.endCommand, Machine.setWorker,
        Machine.setThread, Function.update_self, cpuInit]
      exact hlive
  · rw [(commandStep_ne hu).1]
    exact hlive

/-- A live thread is ended only after it executed HALT or a STOP was accepted for it. -/
theorem MachineOk.step_ends {a : Act} (h : MachineOk coreOf m) (hst : Vm.step coreOf m a = some m')
    (hlive : (m.threads t).state.live = true) (hend : (m'.threads t).state.live = false) :
    (m.threads t).executedHalt = true ∨ (m.threads t).stopAccepted = true := by
  have hnot : (m'.threads t).state.live ≠ true := by
    rw [hend]
    exact Bool.noConfusion
  cases a with
  | quit c | service u | select u =>
    rw [Vm.step] at hst
    split at hst <;> cases hst
    exact absurd hlive hnot
  | work c input =>
    rw [Vm.step] at hst
    split at hst
    · next u p hw =>
      obtain hsame | ⟨rfl, -, hstill | ⟨rfl, -⟩⟩ := (workerStep_frame hst).1 t
      · exact absurd (hsame ▸ hlive) hnot
      · exact absurd hstill hnot
      · exact (h.busy hw).phase.2
    · cases hst
  | command =>
    obtain ⟨cmd, hcmd, rfl⟩ := Option.map_eq_some_iff.mp hst
    exact absurd (commandStep_state h hcmd t hlive) hnot

/-- The machine is stopped only when no thread is live or being started. -/
theorem MachineOk.stopMachine (h : MachineOk coreOf m)
    (hw : m.workers c = .busy t (.finishing .stopMachine)) (u : Nat) :
    (m.threads u).state.live = false ∧ (m.threads u).state ≠ .starting := by
  have hok := h.threads u
  constructor
  · rw [Bool.eq_false_iff]
    intro hlive
    have hmem := hok.counted.mpr (.inl hlive)
    rw [h.idle c t hw] at hmem
    exact absurd hmem (Finset.notMem_empty u)
  · intro hs
    have horder := hok.order
    rw [orderOf] at horder
    split at horder
    · next cmd hcmd => exact h.not_stopping hcmd hw
    · exact horder hs

/-- In every run in which a reset waits until the thread is finished: a live thread that has
    executed nothing is about to execute at its entry; its processor is halted only by a HALT it
    executed, and a stop request is one accepted since it was started; an accepted STOP stays
    requested until it takes effect; a thread ends only after its own HALT or such a STOP; and
    `finish_hardware_thread` stops the machine only when no thread is RUNNABLE, WAITING or being
    started. -/
theorem started_thread_runs_on (coreOf : Nat → Nat) (resetVector : Nat)
    (h : Run (step coreOf) (fun m a => resetsFinished coreOf m a = true)
      (Machine.booted resetVector) m) :
    (∀ t, (m.threads t).state.live = true →
      ((m.threads t).executed = false → (m.threads t).pc = (m.threads t).entry ∧
        (m.threads t).halted = false ∧ (m.threads t).waiting = false) ∧
      ((m.threads t).halted = true → (m.threads t).executedHalt = true) ∧
      ((m.threads t).stopRequested = true → (m.threads t).stopAccepted = true) ∧
      ((m.threads t).stopAccepted = true → (m.threads t).stopRequested = true ∨
        m.workers (coreOf t) = .busy t (.finishing .load) ∨
        m.workers (coreOf t) = .busy t (.finishing .exchange))) ∧
    (∀ a m' t, step coreOf m a = some m' → (m.threads t).state.live = true →
      (m'.threads t).state.live = false →
      (m.threads t).executedHalt = true ∨ (m.threads t).stopAccepted = true) ∧
    (∀ c t, m.workers c = .busy t (.finishing .stopMachine) →
      ∀ u, (m.threads u).state.live = false ∧ (m.threads u).state ≠ .starting) := by
  have hok : MachineOk coreOf m :=
    h.invariant (machineOk_booted coreOf resetVector) fun s a s' hs hcond hst => hs.step hcond hst
  have hphase : ∀ t p, phaseOf coreOf m t = some p → m.workers (coreOf t) = .busy t p := by
    intro t p hp
    unfold phaseOf at hp
    cases hw : m.workers (coreOf t) with
    | between => simp [hw] at hp
    | returned => simp [hw] at hp
    | busy u q =>
      rw [hw, Worker.phaseFor] at hp
      split at hp
      · next hu =>
        cases hp
        rw [hu]
      · cases hp
  refine ⟨fun t hlive => ?_, fun a m' t hst => hok.step_ends hst, fun c t hw => hok.stopMachine hw⟩
  have hl := (hok.threads t).live hlive
  refine ⟨hl.fresh, hl.halted, hl.requested, fun ha => ?_⟩
  obtain hr | hload | hexch := hl.accepted ha
  · exact .inl hr
  · exact .inr (.inl (hphase t _ hload))
  · exact .inr (.inr (hphase t _ hexch))

/-- Thread 0 executes an instruction that gives a command, up to the end of the command. -/
def ordered (target entry : Nat) (order : Order) (steps : Nat) : List Act :=
  [.select 0, .work 0 .nothing, .work 0 (.orders 4 target entry order)] ++
    List.replicate steps .command ++ List.replicate 3 (.work 0 .nothing)

/-- Thread 1 executes HALT, up to the exchange of `finish_hardware_thread`. -/
def haltsOne : List Act :=
  [.select 1, .work 1 .nothing, .work 1 .halts] ++ List.replicate 3 (.work 1 .nothing)

/-- On two cores, thread 1 halts, is finished, and is started again. -/
theorem started_thread_runs_on_restarted : ∃ m,
    Run (step id) (fun m a => resetsFinished id m a = true) (Machine.booted 0) m ∧
    (m.threads 1).incarnation = 2 ∧ (m.threads 1).state.live = true ∧
    ((m.threads 1).executed = false → (m.threads 1).pc = (m.threads 1).entry ∧
      (m.threads 1).halted = false ∧ (m.threads 1).waiting = false) := by
  obtain ⟨m, hrun, hm⟩ := Run.exists_of_guarded (step id) (resetsFinished id) (Machine.booted 0)
    (ordered 1 64 .startCheck 7 ++ haltsOne ++ List.replicate 4 (.work 1 .nothing) ++
      ordered 1 0 .resetLoad 5 ++ ordered 1 128 .startCheck 7)
    (fun m => (m.threads 1).incarnation == 2 && (m.threads 1).state.live) (by decide +kernel)
  simp only [Bool.and_eq_true, beq_iff_eq] at hm
  exact ⟨m, hrun, hm.1, hm.2, ((started_thread_runs_on id 0 hrun).1 1 hm.2).1⟩

/-- Thread 1 is reset and started again between the exchange and the stores of
    `finish_hardware_thread`: the second incarnation ends without having executed anything, and
    without a STOP. -/
theorem restarted_thread_ended : ∃ m, Run (step id) (fun _ _ => True) (Machine.booted 0) m ∧
    (m.threads 1).incarnation = 2 ∧ (m.threads 1).state = .halted ∧
    (m.threads 1).executed = false ∧ (m.threads 1).stopAccepted = false := by
  obtain ⟨m, hrun, hm⟩ := Run.exists_of_runList (step id) (Machine.booted 0)
    (ordered 1 64 .startCheck 7 ++ haltsOne ++ ordered 1 0 .resetLoad 5 ++
      ordered 1 128 .startCheck 7 ++ List.replicate 4 (.work 1 .nothing) ++
      .select 1 :: List.replicate 5 (.work 1 .nothing))
    (fun m => (m.threads 1).incarnation == 2 && (m.threads 1).state == .halted &&
      !(m.threads 1).executed && !(m.threads 1).stopAccepted) (by decide +kernel)
  simp only [Bool.and_eq_true, beq_iff_eq, Bool.not_eq_true'] at hm
  obtain ⟨⟨⟨hincarnation, hstate⟩, hexecuted⟩, hstop⟩ := hm
  exact ⟨m, hrun, hincarnation, hstate, hexecuted, hstop⟩

end RiscMv.Vm
