import RiscMv.Interrupt.Delivery

/-!
# Interrupt lines and the start of hardware threads (`vm.c`, `interrupt.c`)

`vm_activate_hardware_thread` and `vm_reset_hardware_thread` initialise the interrupt controller of
a hardware thread while the router goes on delivering lines to it.  Each atomic step of the two
functions is a transition here, between which the router and the other processors may do anything.

A line that the router delivered stays active until it is acknowledged, so it must not be lost on
the way: it is in the controller of its target, or the processor of the target has taken it.
-/

namespace RiscMv.Interrupt

/-! ## The machine -/

/-- The command that holds a hardware thread in `HARDWARE_THREAD_STARTING`. -/
inductive Command where
  | activate
  /-- A reset, of a thread that was halted or not. -/
  | reset (halted : Bool)
  deriving DecidableEq

/-- The state of a hardware thread.  `HARDWARE_THREAD_STARTING` is the last two. -/
inductive HardwareThread where
  | offline
  | runnable
  | waiting
  | halted
  /-- Before `interrupt_controller_init`. -/
  | starting (c : Command)
  /-- After `interrupt_controller_init`. -/
  | initialised (c : Command)
  deriving DecidableEq

/-- The router and the hardware threads that are its targets. -/
structure Machine where
  router : InterruptRouter
  threads : Nat → HardwareThread
  /-- History: the lines that the processor of a target has taken since it was initialised and that
      were not acknowledged or cleared since. -/
  taken : Nat → LineSet

/-- The state that a command leaves when `cpu_init` fails. -/
def Command.undone : Command → HardwareThread
  | .activate => .offline
  | .reset halted => if halted then .halted else .offline

/-- The state that a command ends in. -/
def Command.done : Command → HardwareThread
  | .activate => .runnable
  | .reset _ => .offline

/-- Whether the core worker runs the thread or services it while it waits. -/
def HardwareThread.runs : HardwareThread → Bool
  | .runnable => true
  | .waiting => true
  | _ => false

/-- A transition of the machine. -/
inductive Act where
  /-- An operation on the router or a controller. -/
  | router (op : Op)
  /-- `vm_activate_hardware_thread` takes an offline thread. -/
  | activate (target : Nat)
  /-- `vm_reset_hardware_thread` takes an offline or halted thread. -/
  | reset (target : Nat)
  /-- `cpu_init` fails. -/
  | initFails (target : Nat)
  /-- `interrupt_controller_init` in one of the two functions. -/
  | initController (target : Nat)
  /-- The last store of one of the two functions. -/
  | publish (target : Nat)
  | wait (target : Nat)
  | wake (target : Nat)
  /-- `finish_hardware_thread`. -/
  | halt (target : Nat)

/-- The lines taken and not acknowledged, after an operation. -/
def takenAfter (m : Machine) : Op → Nat → LineSet
  | .eoi line => fun t => m.taken t &&& ~~~bit line
  | .clear line => fun t => m.taken t &&& ~~~bit line
  | .reset => fun _ => 0
  | .take target =>
    match (interruptControllerTakeNext (m.router.targets target)).1 with
    | none => m.taken
    | some line => Function.update m.taken target (m.taken target ||| bit line)
  | _ => m.taken

/-- The machine with one thread in another state. -/
def Machine.setThread (m : Machine) (target : Nat) (thread : HardwareThread) : Machine :=
  { m with threads := Function.update m.threads target thread }

/-- One transition. -/
def Machine.step (m : Machine) : Act → Option Machine
  | .router op =>
    match op with
    | .take target =>
      if (m.threads target).runs then
        (RiscMv.Interrupt.step m.router op).map fun router =>
          { m with router, taken := takenAfter m op }
      else none
    | _ =>
      (RiscMv.Interrupt.step m.router op).map fun router =>
        { m with router, taken := takenAfter m op }
  | .activate target =>
    if m.threads target = .offline then some (m.setThread target (.starting .activate)) else none
  | .reset target =>
    match m.threads target with
    | .offline => some (m.setThread target (.starting (.reset false)))
    | .halted => some (m.setThread target (.starting (.reset true)))
    | _ => none
  | .initFails target =>
    match m.threads target with
    | .starting c => some (m.setThread target c.undone)
    | _ => none
  | .initController target =>
    match m.threads target with
    | .starting c =>
      some { m.setThread target (.initialised c) with
        router := m.router.setTarget target interruptControllerInit
        taken := Function.update m.taken target 0 }
    | _ => none
  | .publish target =>
    match m.threads target with
    | .initialised c => some (m.setThread target c.done)
    | _ => none
  | .wait target =>
    if m.threads target = .runnable then some (m.setThread target .waiting) else none
  | .wake target =>
    if m.threads target = .waiting then some (m.setThread target .runnable) else none
  | .halt target =>
    if (m.threads target).runs then some (m.setThread target .halted) else none

/-- The machine right after `interrupt_router_programmable_reset`. -/
def Machine.programmed (router : InterruptRouter) (threads : Nat → HardwareThread) : Machine :=
  ⟨interruptRouterProgrammableReset router, threads, fun _ => 0⟩

/-- No delivered line is on its way to a target, or with it, when its controller is initialised. -/
def startsIdle (m : Machine) : Act → Bool
  | .initController target => !targetHasActiveLocked m.router target
  | _ => true

/-! ## Delivered lines are not lost -/

variable {r r' : InterruptRouter} {m m' : Machine} {line target k : Nat}

/-- Every active line is in the controller of its target, or the target has taken it. -/
structure NoneLost (m : Machine) : Prop where
  programmable : m.router.programmable = true
  held : ∀ l < externalLineCount, m.router.active.getLsbD l = true →
    (m.router.targets (m.router.routes l)).pending.getLsbD l = true ∨
      (m.taken (m.router.routes l)).getLsbD l = true

/-- What delivering lines can do: routes stay, no controller loses a line, and a line that becomes
    active is in the controller of its target. -/
structure Delivers (r r' : InterruptRouter) : Prop where
  programmable : r'.programmable = r.programmable
  routes : r'.routes = r.routes
  grows : ∀ t k, (r.targets t).pending.getLsbD k = true → (r'.targets t).pending.getLsbD k = true
  fresh : ∀ l < externalLineCount, r'.active.getLsbD l = true → r.active.getLsbD l = true ∨
    (r'.targets (r.routes l)).pending.getLsbD l = true

theorem Delivers.refl (r : InterruptRouter) : Delivers r r :=
  ⟨rfl, rfl, fun _ _ h => h, fun _ _ h => .inl h⟩

theorem Delivers.trans {r'' : InterruptRouter} (h : Delivers r r') (h' : Delivers r' r'') :
    Delivers r r'' := by
  refine ⟨h'.programmable.trans h.programmable, h'.routes.trans h.routes,
    fun t k hk => h'.grows t k (h.grows t k hk), fun l hl ha => ?_⟩
  obtain ha' | hp := h'.fresh l hl ha
  · obtain ha'' | hp := h.fresh l hl ha'
    · exact .inl ha''
    · exact .inr (h'.grows _ _ hp)
  · right
    rwa [h.routes] at hp

/-- Raising a line in a controller keeps the others. -/
theorem interruptControllerRaise_grows (c : InterruptController) (line : Nat)
    (h : c.pending.getLsbD k = true) :
    (interruptControllerRaise c line).pending.getLsbD k = true := by
  unfold interruptControllerRaise
  split
  · exact h
  · simp [h]

theorem raise_grows (r : InterruptRouter) (line target t : Nat)
    (h : (r.targets t).pending.getLsbD k = true) :
    (Function.update r.targets target (interruptControllerRaise (r.targets target) line)
      t).pending.getLsbD k = true := by
  by_cases ht : t = target
  · subst ht
    rw [Function.update_self]
    exact interruptControllerRaise_grows _ _ h
  · rwa [Function.update_of_ne ht]

theorem interruptControllerRaise_self (c : InterruptController) (h : line < externalLineCount) :
    (interruptControllerRaise c line).pending.getLsbD line = true := by
  have hlt := lt_lineCount h
  unfold interruptControllerRaise
  rw [if_neg (by simp only [lineCount]; omega)]
  simp [hlt]

theorem dispatchTargetLocked_delivers (r : InterruptRouter) (target : Nat) :
    Delivers r (dispatchTargetLocked r target) := by
  unfold dispatchTargetLocked
  split
  · exact .refl r
  split
  · exact .refl r
  next line hline =>
  obtain ⟨hext, _, _, hroute⟩ := deliverableLine_some hline
  refine ⟨rfl, rfl, fun t k hk => raise_grows r line target t hk, fun l hl ha => ?_⟩
  simp only [InterruptRouter.setTarget, getLsbD_insert _ hext, Bool.or_eq_true,
    decide_eq_true_eq] at ha
  obtain ha | rfl := ha
  · exact .inl ha
  · right
    simp only [InterruptRouter.setTarget, hroute, Function.update_self]
    exact interruptControllerRaise_self _ hext

theorem dispatchAllLocked_delivers (r : InterruptRouter) : Delivers r (dispatchAllLocked r) := by
  unfold dispatchAllLocked
  generalize List.range r.targetCount = ts
  induction ts generalizing r with
  | nil => exact .refl r
  | cons t ts ih => exact (dispatchTargetLocked_delivers r t).trans (ih _)

/-- Delivering lines loses none. -/
theorem NoneLost.deliver (h : NoneLost m) (hd : Delivers m.router r') :
    NoneLost { m with router := r' } := by
  refine ⟨hd.programmable.trans h.programmable, fun l hl ha => ?_⟩
  rw [show ({ m with router := r' } : Machine).router.routes = m.router.routes from hd.routes]
  obtain hold | hp := hd.fresh l hl ha
  · obtain hp | ht := h.held l hl hold
    · exact .inl (hd.grows _ _ hp)
    · exact .inr ht
  · exact .inl hp

/-- A change of the pending and enabled lines delivers nothing. -/
theorem Delivers.of_words (r : InterruptRouter) (pending enabled : LineSet) (history : List Event) :
    Delivers r { r with pending, enabled, history } :=
  ⟨rfl, rfl, fun _ _ h => h, fun _ _ h => .inl h⟩

/-- `line` is no longer active, and it may have left its controller and the lines taken; nothing
    else is lost. -/
structure Forgets (line : Nat) (m : Machine) (r' : InterruptRouter) (taken : Nat → LineSet) :
    Prop where
  programmable : r'.programmable = true
  routes : ∀ l, l ≠ line → r'.routes l = m.router.routes l
  active : ∀ l < externalLineCount, r'.active.getLsbD l = true →
    l ≠ line ∧ m.router.active.getLsbD l = true
  pending : ∀ t l, l ≠ line → (m.router.targets t).pending.getLsbD l = true →
    (r'.targets t).pending.getLsbD l = true
  taken : ∀ t l, l < externalLineCount → l ≠ line → (m.taken t).getLsbD l = true →
    (taken t).getLsbD l = true

theorem NoneLost.forget (h : NoneLost m) (line : Nat) {taken : Nat → LineSet}
    (hf : Forgets line m r' taken) : NoneLost { m with router := r', taken } := by
  refine ⟨hf.programmable, fun l hl ha => ?_⟩
  obtain ⟨hne, hold⟩ := hf.active l hl ha
  show (r'.targets (r'.routes l)).pending.getLsbD l = true ∨ (taken (r'.routes l)).getLsbD l = true
  rw [hf.routes l hne]
  obtain hpend | ht := h.held l hl hold
  · exact .inl (hf.pending _ _ hne hpend)
  · exact .inr (hf.taken _ _ hl hne ht)

theorem getLsbD_remove_of_ne {w : LineSet} (h : k ≠ line) (hk : k < externalLineCount)
    (hw : w.getLsbD k = true) : (w &&& ~~~bit line).getLsbD k = true := by
  have hlt := lt_lineCount hk
  simp only [BitVec.getLsbD_and, BitVec.getLsbD_not, getLsbD_bit]
  simp [hw, hlt, Ne.symm h]

theorem interruptControllerClear_of_ne (c : InterruptController) (h : k ≠ line)
    (hc : c.pending.getLsbD k = true) :
    (interruptControllerClear c line).pending.getLsbD k = true := by
  have hlt : k < 64 := BitVec.lt_of_getLsbD hc
  unfold interruptControllerClear
  split
  · exact hc
  · simp only [BitVec.getLsbD_and, BitVec.getLsbD_not, getLsbD_bit]
    simp [hc, hlt, Ne.symm h]

theorem NoneLost.raise (h : NoneLost m) (line : Nat) :
    NoneLost { m with router := (interruptRouterRaise m.router line).1 } := by
  apply h.deliver
  have hp := h.programmable
  have hwords := Delivers.of_words m.router (m.router.pending ||| bit line) m.router.enabled
    (.raised line :: m.router.history)
  unfold interruptRouterRaise
  split
  · exact .refl _
  split
  · next hnot => simp [hp] at hnot
  split
  · exact .refl _
  dsimp only
  split
  · exact hwords
  · exact hwords.trans (dispatchTargetLocked_delivers _ _)

/-- A line that is not active leaves the lines taken. -/
theorem NoneLost.idle (h : NoneLost m)
    (hidle : line < externalLineCount → m.router.active.getLsbD line ≠ true)
    (pending : LineSet) (history : List Event) :
    NoneLost { m with
      router := { m.router with pending, history }
      taken := fun t => m.taken t &&& ~~~bit line } :=
  h.forget line ⟨h.programmable, fun _ _ => rfl,
    fun _ hl ha => ⟨fun heq => hidle (heq ▸ hl) (heq ▸ ha), ha⟩, fun _ _ _ hk => hk,
    fun _ _ hl hne ht => getLsbD_remove_of_ne hne hl ht⟩

/-- A line ceases to be active, and leaves the lines taken. -/
theorem NoneLost.deactivate (h : NoneLost m) (hext : line < externalLineCount) (pending : LineSet)
    (history : List Event) {targets : Nat → InterruptController}
    (htargets : ∀ t l, l ≠ line → (m.router.targets t).pending.getLsbD l = true →
      (targets t).pending.getLsbD l = true) :
    NoneLost { m with
      router := { m.router with
        pending, history, targets
        active := m.router.active &&& ~~~bit line }
      taken := fun t => m.taken t &&& ~~~bit line } := by
  refine h.forget line ⟨h.programmable, fun _ _ => rfl, fun l hl ha => ?_, htargets,
    fun _ _ hl hne ht => getLsbD_remove_of_ne hne hl ht⟩
  rw [getLsbD_remove _ hext, Bool.and_eq_true, decide_eq_true_eq] at ha
  exact ⟨Ne.symm ha.2, ha.1⟩

theorem NoneLost.clear (h : NoneLost m) (line : Nat) :
    NoneLost { m with
      router := (interruptRouterClear m.router line).1
      taken := fun t => m.taken t &&& ~~~bit line } := by
  have hp := h.programmable
  unfold interruptRouterClear
  split
  · -- no such line
    next hline =>
      refine h.idle (fun hext => ?_) _ _
      simp only [lineCount, externalLineCount] at hline hext
      omega
  dsimp only
  split
  · next hline => exact h.idle (fun hext => absurd hline (Nat.not_le.mpr hext)) _ _
  next hline =>
  have hext : line < externalLineCount := Nat.lt_of_not_le hline
  split
  · split
    · -- the line leaves the controller of its target, which is served again
      refine NoneLost.deliver (h.deactivate hext _ _ fun t l hne hk => ?_)
        (dispatchTargetLocked_delivers _ _)
      by_cases ht : t = m.router.routes line
      · subst ht
        rw [Function.update_self]
        exact interruptControllerClear_of_ne _ hne hk
      · rwa [Function.update_of_ne ht]
    · exact h.deactivate hext _ _ fun _ _ _ hk => hk
  · next hnot => exact h.idle (fun _ => hnot) _ _

theorem NoneLost.eoi (h : NoneLost m) (line : Nat) :
    NoneLost { m with
      router := (interruptRouterEoi m.router line).1
      taken := fun t => m.taken t &&& ~~~bit line } := by
  have hp := h.programmable
  unfold interruptRouterEoi
  split
  · next hline => exact h.idle (fun hext => absurd hline (Nat.not_le.mpr hext)) _ _
  next hline =>
  split
  · next hnot => exact h.idle (fun _ => by simpa [hp] using hnot) _ _
  exact NoneLost.deliver (h.deactivate (Nat.lt_of_not_le hline) _ _ fun _ _ _ hk => hk)
    (dispatchTargetLocked_delivers _ _)

theorem NoneLost.setRoute (h : NoneLost m) (line target : Nat) :
    NoneLost { m with router := (interruptRouterSetRoute m.router line target).1 } := by
  have hp := h.programmable
  unfold interruptRouterSetRoute
  split
  · exact h
  split
  · exact h
  next hfree =>
  dsimp only
  rw [if_pos hp]
  apply NoneLost.deliver (m := { m with
    router := { m.router with routes := Function.update m.router.routes line target } })
  · -- only the route of an inactive line changes
    refine h.forget line ⟨hp, ?_, ?_, fun _ _ _ hk => hk, fun _ _ _ _ ht => ht⟩
    · intro l hne
      exact Function.update_of_ne hne _ _
    intro l hl ha
    refine ⟨?_, ha⟩
    rintro rfl
    exact hfree ⟨hp, .inr ha⟩
  · exact dispatchTargetLocked_delivers _ _

theorem NoneLost.storeEnabled (h : NoneLost m) (mask : LineSet)
    {change : InterruptRouter → InterruptRouter} (hc : Delivers m.router (change m.router)) :
    NoneLost { m with router := (storeEnabled m.router mask change).1 } := by
  apply h.deliver
  unfold RiscMv.Interrupt.storeEnabled
  split
  · exact .refl _
  split
  · exact .refl _
  · exact hc

theorem NoneLost.take (h : NoneLost m) (target : Nat) :
    NoneLost { m with
      router := m.router.setTarget target (interruptControllerTakeNext (m.router.targets target)).2
      taken := takenAfter m (.take target) } := by
  refine ⟨h.programmable, fun l hl ha => ?_⟩
  have hheld := h.held l hl ha
  simp only [takenAfter, interruptControllerTakeNext, InterruptRouter.setTarget]
  by_cases hempty : (m.router.targets target).pending = 0
  · simp only [hempty, if_true, Function.update_eq_self]
    exact hheld
  simp only [hempty, if_false]
  generalize lowestSetBit _ = selected
  by_cases ht : m.router.routes l = target
  · -- the line stays in the controller unless it is the one that is taken
    rw [ht] at hheld ⊢
    simp only [Function.update_self]
    by_cases hsel : l = selected
    · right
      simp [← hsel, lt_lineCount hl]
    · obtain hpend | htaken := hheld
      · exact .inl (getLsbD_remove_of_ne hsel hl hpend)
      · right
        simp [htaken]
  · simpa only [Function.update_of_ne ht] using hheld

theorem NoneLost.ipi (h : NoneLost m) (target line : Nat) :
    NoneLost { m with
      router := m.router.setTarget target
        (interruptControllerRaise (m.router.targets target) line) } :=
  h.deliver ⟨rfl, rfl, fun t _ hk => raise_grows m.router line target t hk, fun _ _ ha => .inl ha⟩

/-- An idle target may be initialised. -/
theorem NoneLost.initController (h : NoneLost m)
    (hidle : targetHasActiveLocked m.router target = false) (thread : HardwareThread) :
    NoneLost { m.setThread target thread with
      router := m.router.setTarget target interruptControllerInit
      taken := Function.update m.taken target 0 } := by
  refine ⟨h.programmable, fun l hl ha => ?_⟩
  have hne : m.router.routes l ≠ target := by
    intro heq
    have hbusy : targetHasActiveLocked m.router target = true :=
      targetHasActiveLocked_iff.mpr ⟨l, hl, ha, heq⟩
    rw [hidle] at hbusy
    cases hbusy
  have hheld := h.held l hl ha
  simpa only [InterruptRouter.setTarget, Function.update_of_ne hne] using hheld

theorem NoneLost.programmed (router : InterruptRouter) (threads : Nat → HardwareThread) :
    NoneLost (Machine.programmed router threads) := by
  refine ⟨rfl, fun l _ ha => ?_⟩
  simp [Machine.programmed, interruptRouterProgrammableReset] at ha

theorem NoneLost.router (h : NoneLost m) {op : Op} (hst : step m.router op = some r') :
    NoneLost { m with router := r', taken := takenAfter m op } := by
  cases op with
  | raise line =>
    cases hst
    exact h.raise line
  | clear line =>
    cases hst
    exact h.clear line
  | setRoute line target =>
    cases hst
    exact h.setRoute line target
  | setEnabled mask | enableLines mask =>
    cases hst
    exact h.storeEnabled mask
      ((Delivers.of_words m.router _ _ _).trans (dispatchAllLocked_delivers _))
  | disableLines mask =>
    cases hst
    exact h.storeEnabled mask (Delivers.of_words m.router _ _ _)
  | eoi line =>
    cases hst
    exact h.eoi line
  | reset =>
    cases hst
    exact ⟨rfl, fun l _ ha => by simp [interruptRouterProgrammableReset] at ha⟩
  | take target =>
    rw [step] at hst
    split at hst
    · cases hst
      exact h.take target
    · cases hst
  | ipi target line =>
    rw [step] at hst
    split at hst
    · cases hst
      exact h.ipi target line
    · cases hst

/-- Every transition that initialises no controller of a busy target loses no line. -/
theorem NoneLost.step (h : NoneLost m) {a : Act} (ha : startsIdle m a = true)
    (hst : m.step a = some m') : NoneLost m' := by
  have hthread : ∀ target thread, NoneLost (m.setThread target thread) :=
    fun _ _ => ⟨h.programmable, h.held⟩
  cases a with
  | router op =>
    have hrouter : ∀ n, ((Interrupt.step m.router op).map fun router =>
        ({ m with router, taken := takenAfter m op } : Machine)) = some n → NoneLost n := by
      intro n hn
      obtain ⟨router, hst', rfl⟩ := Option.map_eq_some_iff.mp hn
      exact h.router hst'
    simp only [Machine.step] at hst
    split at hst
    · split at hst
      · exact hrouter _ hst
      · cases hst
    · exact hrouter _ hst
  | reset target =>
    simp only [Machine.step] at hst
    split at hst
    · cases hst
      exact hthread _ _
    · cases hst
      exact hthread _ _
    · cases hst
  | initController target =>
    simp only [Machine.step] at hst
    split at hst
    · cases hst
      simp only [startsIdle, Bool.not_eq_true'] at ha
      exact h.initController ha _
    · cases hst
  | activate target | initFails target | publish target | wait target | wake target
  | halt target =>
    simp only [Machine.step] at hst
    split at hst
    · cases hst
      exact hthread _ _
    · cases hst

/-- In every run that initialises the controller of a target only while no line is delivered to it,
    every active line is in the controller of its target, or the processor of the target has taken
    it and has not acknowledged it yet. -/
theorem delivered_lines_held {router : InterruptRouter} {threads : Nat → HardwareThread}
    (hrun : Run Machine.step (fun m a => startsIdle m a = true)
      (Machine.programmed router threads) m) :
    ∀ l < externalLineCount, m.router.active.getLsbD l = true →
      (m.router.targets (m.router.routes l)).pending.getLsbD l = true ∨
        (m.taken (m.router.routes l)).getLsbD l = true :=
  (hrun.invariant (NoneLost.programmed router threads) fun _ _ _ h ha hst => h.step ha hst).held

/-- Two processors, the second of which is not started yet. -/
def oneStarted : Machine :=
  .programmed twoTargets fun t => if t = 0 then .runnable else .offline

/-- Line 3 is delivered to the second processor after it was started, and taken by it. -/
theorem delivered_lines_held_started : ∃ m,
    Run Machine.step (fun m a => startsIdle m a = true) oneStarted m ∧
    m.router.active.getLsbD 3 = true ∧
    ((m.router.targets (m.router.routes 3)).pending.getLsbD 3 = true ∨
      (m.taken (m.router.routes 3)).getLsbD 3 = true) := by
  obtain ⟨m, hrun, hm⟩ := Run.exists_of_guarded Machine.step startsIdle oneStarted
    [.activate 1, .initController 1, .publish 1, .router (.setRoute 3 1),
      .router (.enableLines (bit 3)), .router (.raise 3), .router (.take 1)]
    (fun m => m.router.active.getLsbD 3) (by decide +kernel)
  exact ⟨m, hrun, hm, delivered_lines_held hrun 3 (by decide) hm⟩

/-- Line 3 is delivered to the second processor before it is started: `interrupt_controller_init`
    drops it from the controller, and it stays active although nobody has it. -/
theorem delivered_line_lost : ∃ m, Run Machine.step (fun _ _ => True) oneStarted m ∧
    m.threads 1 = .runnable ∧ m.router.routes 3 = 1 ∧ m.router.active.getLsbD 3 = true ∧
    (m.router.targets 1).pending.getLsbD 3 = false ∧ (m.taken 1).getLsbD 3 = false := by
  obtain ⟨m, hrun, hm⟩ := Run.exists_of_runList Machine.step oneStarted
    [.router (.setRoute 3 1), .router (.enableLines (bit 3)), .router (.raise 3),
      .activate 1, .initController 1, .publish 1]
    (fun m => m.threads 1 == .runnable && m.router.routes 3 == 1 && m.router.active.getLsbD 3 &&
      !(m.router.targets 1).pending.getLsbD 3 && !(m.taken 1).getLsbD 3) (by decide +kernel)
  simp only [Bool.and_eq_true, beq_iff_eq, Bool.not_eq_true'] at hm
  obtain ⟨⟨⟨⟨hthread, hroute⟩, hactive⟩, hpending⟩, htaken⟩ := hm
  exact ⟨m, hrun, hthread, hroute, hactive, hpending, htaken⟩

end RiscMv.Interrupt
