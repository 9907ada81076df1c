import RiscMv.Interrupt.Router

/-!
# Delivery of interrupt lines

After a reset to programmable mode the router delivers one line at a time to each target, leaves
no target idle for which a line waits, and loses no raise.  `RouterOk X` is the invariant, except
that a line may wait for an idle target in `X`; dispatching a target takes it out of `X`.

## Key results
- `dispatchTargetLocked_ok`: dispatching a target restores the invariant for it
- `step_ok`: every operation keeps the invariant
- `lines_delivered`: what holds after every sequence of operations
-/

namespace RiscMv.Interrupt

variable {r r' : InterruptRouter} {X : Nat → Prop} {line target k : Nat} {w : LineSet}

/-! ## Lines of a set -/

theorem lt_lineCount (h : line < externalLineCount) : line < 64 := by
  simp only [externalLineCount] at h
  omega

@[simp] theorem getLsbD_insert (w : LineSet) (h : line < externalLineCount) (k : Nat) :
    (w ||| bit line).getLsbD k = (w.getLsbD k || decide (line = k)) := by
  simp [lt_lineCount h]

@[simp] theorem getLsbD_remove (w : LineSet) (h : line < externalLineCount) (k : Nat) :
    (w &&& ~~~bit line).getLsbD k = (w.getLsbD k && decide (line ≠ k)) := by
  by_cases hk : k < 64
  · simp only [BitVec.getLsbD_and, BitVec.getLsbD_not, getLsbD_bit]
    simp [lt_lineCount h, hk]
  · simp [BitVec.getLsbD_of_ge w k (Nat.le_of_not_lt hk)]

/-- Taking lines out of a word adds none. -/
theorem getLsbD_of_and {v : LineSet} (h : (w &&& v).getLsbD k = true) : w.getLsbD k = true := by
  simp only [BitVec.getLsbD_and, Bool.and_eq_true] at h
  exact h.1

/-- A controller's external lines do not change by an inter-processor interrupt. -/
theorem interruptControllerRaise_ipi (c : InterruptController) (hline : externalLineCount ≤ line)
    (hk : k < externalLineCount) :
    (interruptControllerRaise c line).pending.getLsbD k = c.pending.getLsbD k := by
  have hne : line ≠ k := by omega
  unfold interruptControllerRaise
  split
  · rfl
  · simp [hne]

/-! ## History -/

/-- Whether the line was raised and neither cleared nor dispatched since, from a history with the
    newest event first. -/
def owed (line : Nat) : List Event → Bool
  | [] => false
  | .raised k :: older => decide (k = line) || owed line older
  | .cleared k :: older => decide (k ≠ line) && owed line older
  | .dispatched k _ :: older => decide (k ≠ line) && owed line older
  | .reset :: _ => false

/-- A raise that is followed by no clear, reset or dispatch of the line is owed. -/
theorem owed_of_raised {newer older : List Event} (hclear : .cleared line ∉ newer)
    (hreset : .reset ∉ newer) (hdisp : ∀ t, .dispatched line t ∉ newer) :
    owed line (newer ++ .raised line :: older) = true := by
  induction newer with
  | nil => simp [owed]
  | cons e newer ih =>
    have hrest : owed line (newer ++ .raised line :: older) = true :=
      ih (fun hmem => hclear (List.mem_cons_of_mem e hmem))
        (fun hmem => hreset (List.mem_cons_of_mem e hmem))
        fun t hmem => hdisp t (List.mem_cons_of_mem e hmem)
    cases e with
    | raised k => simp [owed, hrest]
    | cleared k =>
      have hk : k ≠ line := fun heq => hclear (heq ▸ List.mem_cons_self)
      simp [owed, hrest, hk]
    | dispatched k t =>
      have hk : k ≠ line := fun heq => hdisp t (heq ▸ List.mem_cons_self)
      simp [owed, hrest, hk]
    | reset => exact absurd List.mem_cons_self hreset

/-! ## The invariant -/

/-- The router is right, except that a line may wait for an idle target in `X`. -/
structure RouterOk (X : Nat → Prop) (r : InterruptRouter) : Prop where
  programmable : r.programmable = true
  sole : ∀ l < externalLineCount, ∀ l' < externalLineCount, r.active.getLsbD l = true →
    r.active.getLsbD l' = true → r.routes l = r.routes l' → l = l'
  busy : ∀ l < externalLineCount, r.pending.getLsbD l = true → r.enabled.getLsbD l = true →
    r.routes l < r.targetCount → ¬ X (r.routes l) →
    ∃ l' < externalLineCount, r.active.getLsbD l' = true ∧ r.routes l' = r.routes l
  delivered : ∀ t < r.targetCount, ∀ l < externalLineCount,
    (r.targets t).pending.getLsbD l = true → r.active.getLsbD l = true ∧ r.routes l = t
  kept : ∀ l < externalLineCount, owed l r.history = true → r.pending.getLsbD l = true

/-- No target is left out. -/
def noTarget : Nat → Prop := fun _ => False

theorem targetHasActiveLocked_iff : targetHasActiveLocked r target = true ↔
    ∃ l < externalLineCount, r.active.getLsbD l = true ∧ r.routes l = target := by
  simp [targetHasActiveLocked]

/-- What the search of `dispatch_target_locked` looks for. -/
def Deliverable (r : InterruptRouter) (target line : Nat) : Prop :=
  line < externalLineCount ∧ r.pending.getLsbD line = true ∧ r.enabled.getLsbD line = true ∧
    r.routes line = target

theorem deliverableLine_some (h : deliverableLine r target = some line) :
    Deliverable r target line := by
  have hmem := List.mem_of_find?_eq_some h
  have hfound := List.find?_some h
  simp only [BitVec.getLsbD_and, Bool.and_eq_true, beq_iff_eq] at hfound
  obtain ⟨⟨⟨hpending, henabled⟩, _⟩, hroute⟩ := hfound
  exact ⟨List.mem_range.mp hmem, hpending, henabled, hroute⟩

theorem deliverableLine_none (h : deliverableLine r target = none) :
    ¬ Deliverable r target line := by
  rintro ⟨hline, hpending, henabled, hroute⟩
  have hnot := List.find?_eq_none.mp h line (List.mem_range.mpr hline)
  simp [hpending, henabled, hroute, getLsbD_externalLineMask hline] at hnot

section

variable (h : RouterOk (fun t => X t ∨ t = target) r)
include h

/-- A deliverable line becomes active and is raised in the controller of its idle target. -/
theorem RouterOk.deliver (hidle : ¬ targetHasActiveLocked r target = true)
    (hline : Deliverable r target line) :
    RouterOk X ({ r with
      pending := r.pending &&& ~~~bit line
      active := r.active ||| bit line
      history := .dispatched line target :: r.history }.setTarget target
        (interruptControllerRaise (r.targets target) line)) := by
  obtain ⟨hext, _, _, hroute⟩ := hline
  have hnone : ∀ l < externalLineCount, r.active.getLsbD l = true → r.routes l ≠ target :=
    fun l hl ha hr => hidle (targetHasActiveLocked_iff.mpr ⟨l, hl, ha, hr⟩)
  refine ⟨h.programmable, fun l hl l' hl' ha ha' hr => ?_, fun l hl hp he ht hX => ?_,
    fun t ht l hl hp => ?_, fun l hl ho => ?_⟩
  · -- the new line is the only one of its target
    simp only [InterruptRouter.setTarget, getLsbD_insert _ hext, Bool.or_eq_true,
      decide_eq_true_eq] at ha ha' hr
    rcases ha with ha | rfl <;> rcases ha' with ha' | rfl
    · exact h.sole l hl l' hl' ha ha' hr
    · exact absurd (hr.trans hroute) (hnone l hl ha)
    · exact absurd (hr.symm.trans hroute) (hnone l' hl' ha')
    · rfl
  · simp only [InterruptRouter.setTarget, getLsbD_remove _ hext, Bool.and_eq_true] at hp he ht hX ⊢
    by_cases hr : r.routes l = target
    · exact ⟨line, hext, by simp [getLsbD_insert _ hext], hroute.trans hr.symm⟩
    · have hX' : ¬ (X (r.routes l) ∨ r.routes l = target) := not_or.mpr ⟨hX, hr⟩
      obtain ⟨l', hl', ha, hr'⟩ := h.busy l hl hp.1 he ht hX'
      exact ⟨l', hl', by simp [getLsbD_insert _ hext, ha], hr'⟩
  · simp only [InterruptRouter.setTarget] at ht hp ⊢
    by_cases htarget : t = target
    · subst htarget
      have hlt : ¬ lineCount ≤ line := Nat.not_le.mpr (lt_lineCount hext)
      simp only [Function.update_self, interruptControllerRaise, hlt, if_false,
        getLsbD_insert _ hext, Bool.or_eq_true, decide_eq_true_eq] at hp ⊢
      rcases hp with hp | rfl
      · obtain ⟨ha, hr⟩ := h.delivered t ht l hl hp
        exact ⟨.inl ha, hr⟩
      · exact ⟨.inr rfl, hroute⟩
    · rw [Function.update_of_ne htarget] at hp
      obtain ⟨ha, hr⟩ := h.delivered t ht l hl hp
      exact ⟨by simp [getLsbD_insert _ hext, ha], hr⟩
  · simp only [InterruptRouter.setTarget, owed, Bool.and_eq_true, decide_eq_true_eq] at ho ⊢
    simp [getLsbD_remove _ hext, h.kept l hl ho.2, ho.1]

/-- Nothing waits for a target whose lines are all served. -/
theorem RouterOk.served
    (hserved : ∀ l, r.routes l < r.targetCount → Deliverable r target l →
      targetHasActiveLocked r target = true) :
    RouterOk X r := by
  refine ⟨h.programmable, h.sole, fun l hl hp he ht hX => ?_, h.delivered, h.kept⟩
  by_cases hr : r.routes l = target
  · have hactive := hserved l ht ⟨hl, hp, he, hr⟩
    obtain ⟨l', hl', ha, hr'⟩ := targetHasActiveLocked_iff.mp hactive
    exact ⟨l', hl', ha, hr'.trans hr.symm⟩
  · exact h.busy l hl hp he ht (not_or.mpr ⟨hX, hr⟩)

theorem dispatchTargetLocked_ok : RouterOk X (dispatchTargetLocked r target) := by
  unfold dispatchTargetLocked
  split
  · next hbusy =>
    refine h.served fun l ht hl => ?_
    rcases hbusy with hcount | hactive
    · rw [hl.2.2.2] at ht
      exact absurd ht (Nat.not_lt.mpr hcount)
    · exact hactive
  · next hidle =>
    rw [not_or] at hidle
    split
    · next hnone => exact h.served fun l _ hl => absurd hl (deliverableLine_none hnone)
    · next line hsome => exact h.deliver hidle.2 (deliverableLine_some hsome)

end

/-- Dispatching the targets one after the other. -/
theorem dispatchTargets_ok (ts : List Nat) (h : RouterOk (fun t => X t ∨ t ∈ ts) r) :
    RouterOk X (ts.foldl dispatchTargetLocked r) := by
  induction ts generalizing r with
  | nil => simpa using h
  | cons t ts ih =>
    refine ih (dispatchTargetLocked_ok ?_)
    -- the set of targets left out is the same
    have hX : (fun t' => X t' ∨ t' ∈ t :: ts) = fun t' => (X t' ∨ t' ∈ ts) ∨ t' = t := by
      funext t'
      simp only [List.mem_cons, eq_iff_iff]
      tauto
    exact hX ▸ h

/-- After `dispatch_all_locked` no target is left out. -/
theorem dispatchAllLocked_ok (h : RouterOk (fun _ => True) r) :
    RouterOk noTarget (dispatchAllLocked r) := by
  refine dispatchTargets_ok (List.range r.targetCount)
    ⟨h.programmable, h.sole, fun l hl hp he ht hX => ?_, h.delivered, h.kept⟩
  exact absurd (.inr (List.mem_range.mpr ht)) hX

/-! ## Operations -/

theorem interruptRouterRaise_ok (h : RouterOk noTarget r) (line : Nat) :
    RouterOk noTarget (interruptRouterRaise r line).1 := by
  unfold interruptRouterRaise
  split
  · exact h
  · rw [if_neg (by simp [h.programmable])]
    split
    · exact h
    · next hext =>
      rw [Nat.not_le] at hext
      -- the line waits, perhaps for an idle target
      have hraised : RouterOk (fun t => noTarget t ∨ t = r.routes line) { r with
          pending := r.pending ||| bit line
          history := .raised line :: r.history } := by
        refine ⟨h.programmable, h.sole, fun l hl hpend he ht hX => ?_, h.delivered,
          fun l hl ho => ?_⟩
        · simp only [getLsbD_insert _ hext, Bool.or_eq_true, decide_eq_true_eq] at hpend
          rcases hpend with hpend | rfl
          · exact h.busy l hl hpend he ht id
          · exact absurd (.inr rfl) hX
        · simp only [owed, Bool.or_eq_true, decide_eq_true_eq] at ho
          rcases ho with rfl | ho
          · simp [getLsbD_insert _ hext]
          · simp [getLsbD_insert _ hext, h.kept l hl ho]
      dsimp only
      split
      · next hactive =>
        exact hraised.served fun _ _ _ => targetHasActiveLocked_iff.mpr ⟨line, hext, hactive, rfl⟩
      · exact dispatchTargetLocked_ok hraised

/-- A line that its target has taken, or that leaves the controller of its target, ceases to be
    active.  The target may then be idle. -/
theorem RouterOk.deactivate {pending : LineSet} {history : List Event}
    {targets : Nat → InterruptController} (h : RouterOk noTarget r)
    (hext : line < externalLineCount)
    (hpending : ∀ l, pending.getLsbD l = true → r.pending.getLsbD l = true)
    (hkept : ∀ l < externalLineCount, owed l history = true → pending.getLsbD l = true)
    (htargets : ∀ t < r.targetCount, ∀ l < externalLineCount, (targets t).pending.getLsbD l = true →
      (r.targets t).pending.getLsbD l = true ∧ line ≠ l) :
    RouterOk (fun t => noTarget t ∨ t = r.routes line)
      { r with pending, history, targets, active := r.active &&& ~~~bit line } where
  programmable := h.programmable
  sole l hl l' hl' ha ha' hr := h.sole l hl l' hl' (getLsbD_of_and ha) (getLsbD_of_and ha') hr
  busy l hl hpend he ht hX := by
    -- a line of another target still has its active line
    obtain ⟨l', hl', ha, hr⟩ := h.busy l hl (hpending l hpend) he ht id
    have hne : line ≠ l' := by
      rintro rfl
      exact hX (.inr hr.symm)
    exact ⟨l', hl', by simp [getLsbD_remove _ hext, ha, hne], hr⟩
  delivered t ht l hl hpend := by
    obtain ⟨hpend, hne⟩ := htargets t ht l hl hpend
    obtain ⟨ha, hr⟩ := h.delivered t ht l hl hpend
    exact ⟨by simp [getLsbD_remove _ hext, ha, hne], hr⟩
  kept := hkept

theorem interruptRouterClear_ok (h : RouterOk noTarget r) (line : Nat) :
    RouterOk noTarget (interruptRouterClear r line).1 := by
  unfold interruptRouterClear
  split
  · exact h
  · dsimp only
    rw [if_pos h.programmable]
    split
    · exact h
    · next hext =>
      rw [Nat.not_le] at hext
      have hkept : ∀ l < externalLineCount, owed l (.cleared line :: r.history) = true →
          (r.pending &&& ~~~bit line).getLsbD l = true := by
        intro l hl ho
        simp only [owed, Bool.and_eq_true, decide_eq_true_eq] at ho
        simp [getLsbD_remove _ hext, h.kept l hl ho.2, ho.1]
      split
      · split
        · refine dispatchTargetLocked_ok (h.deactivate hext (fun _ => getLsbD_of_and) hkept
            fun t ht l hl hpend => ?_)
          by_cases hteq : t = r.routes line
          · subst hteq
            have hlt : ¬ lineCount ≤ line := Nat.not_le.mpr (lt_lineCount hext)
            simp only [Function.update_self, interruptControllerClear, hlt, if_false,
              getLsbD_remove _ hext, Bool.and_eq_true, decide_eq_true_eq] at hpend
            exact hpend
          · rw [Function.update_of_ne hteq] at hpend
            refine ⟨hpend, ?_⟩
            rintro rfl
            exact hteq (h.delivered t ht line hl hpend).2.symm
        · next htarget =>
          -- the target does not exist, so no controller holds the line
          refine (h.deactivate hext (fun _ => getLsbD_of_and) hkept
            fun t ht l hl hpend => ⟨hpend, ?_⟩).served fun l ht hl => absurd (hl.2.2.2 ▸ ht) htarget
          rintro rfl
          exact htarget ((h.delivered t ht line hl hpend).2 ▸ ht)
      · refine ⟨h.programmable, h.sole, fun l hl hpend he ht hX => ?_, h.delivered, hkept⟩
        exact h.busy l hl (getLsbD_of_and hpend) he ht hX

theorem interruptRouterSetRoute_ok (h : RouterOk noTarget r) (line target : Nat) :
    RouterOk noTarget (interruptRouterSetRoute r line target).1 := by
  unfold interruptRouterSetRoute
  split
  · exact h
  · split
    · exact h
    · next hfree =>
      simp only [h.programmable, true_and, not_or, Nat.not_le, Bool.not_eq_true] at hfree
      obtain ⟨hext, hinactive⟩ := hfree
      dsimp only
      rw [if_pos h.programmable]
      -- an active line keeps its route
      have hroute : ∀ l, r.active.getLsbD l = true →
          Function.update r.routes line target l = r.routes l := by
        intro l ha
        refine Function.update_of_ne ?_ _ _
        rintro rfl
        simp [hinactive] at ha
      refine dispatchTargetLocked_ok ⟨h.programmable, fun l hl l' hl' ha ha' hr => ?_,
        fun l hl hpend he ht hX => ?_, fun t ht l hl hpend => ?_, h.kept⟩
      · simp only [hroute l ha, hroute l' ha'] at hr
        exact h.sole l hl l' hl' ha ha' hr
      · dsimp only at hpend he ht hX ⊢
        by_cases hl' : l = line
        · subst hl'
          exact absurd (.inr (Function.update_self ..)) hX
        · rw [Function.update_of_ne hl'] at ht ⊢
          obtain ⟨l', hlt, ha, hr⟩ := h.busy l hl hpend he ht id
          exact ⟨l', hlt, ha, (hroute l' ha).trans hr⟩
      · obtain ⟨ha, hr⟩ := h.delivered t ht l hl hpend
        exact ⟨ha, (hroute l ha).trans hr⟩

theorem interruptRouterEoi_ok (h : RouterOk noTarget r) (htaken : TakenFirst r (.eoi line)) :
    RouterOk noTarget (interruptRouterEoi r line).1 := by
  unfold interruptRouterEoi
  split
  · exact h
  · next hext =>
    rw [Nat.not_le] at hext
    split
    · exact h
    · next hactive =>
      simp only [Bool.or_eq_true, Bool.not_eq_true', not_or, Bool.not_eq_false] at hactive
      refine dispatchTargetLocked_ok (h.deactivate hext (fun _ => id) h.kept
        fun t ht l hl hpend => ⟨hpend, ?_⟩)
      rintro rfl
      rw [← (h.delivered t ht line hl hpend).2, htaken hactive.2] at hpend
      cases hpend

/-- Whatever becomes of the mask, dispatching all targets afterwards restores the invariant. -/
theorem RouterOk.storeEnabled (h : RouterOk noTarget r) (mask : LineSet)
    {change : InterruptRouter → InterruptRouter} (hchange : RouterOk noTarget (change r)) :
    RouterOk noTarget (storeEnabled r mask change).1 := by
  unfold Interrupt.storeEnabled
  split
  · exact h
  · split
    · exact h
    · exact hchange

theorem RouterOk.enable (h : RouterOk noTarget r) (mask : LineSet) :
    RouterOk noTarget (dispatchAllLocked { r with enabled := mask }) :=
  dispatchAllLocked_ok
    ⟨h.programmable, h.sole, fun _ _ _ _ _ hX => absurd trivial hX, h.delivered, h.kept⟩

theorem interruptRouterDisableLines_ok (h : RouterOk noTarget r) (mask : LineSet) :
    RouterOk noTarget (interruptRouterDisableLines r mask).1 :=
  h.storeEnabled mask ⟨h.programmable, h.sole, fun l hl hp he ht hX =>
    h.busy l hl hp (getLsbD_of_and he) ht hX, h.delivered, h.kept⟩

theorem interruptRouterProgrammableReset_ok (r : InterruptRouter) :
    RouterOk noTarget (interruptRouterProgrammableReset r) := by
  refine ⟨rfl, fun l _ l' _ ha => ?_, fun l _ hp => ?_, fun t ht l _ hp => ?_, fun l _ ho => ?_⟩
  · simp [interruptRouterProgrammableReset] at ha
  · simp [interruptRouterProgrammableReset] at hp
  · have ht' : t < r.targetCount := ht
    simp [interruptRouterProgrammableReset, ht', interruptControllerInit] at hp
  · simp [interruptRouterProgrammableReset, owed] at ho

/-- A controller whose external lines only become fewer. -/
theorem RouterOk.setTarget (h : RouterOk X r) {c : InterruptController}
    (hc : ∀ l < externalLineCount, c.pending.getLsbD l = true →
      (r.targets target).pending.getLsbD l = true) : RouterOk X (r.setTarget target c) := by
  refine ⟨h.programmable, h.sole, h.busy, fun t ht l hl hp => ?_, h.kept⟩
  simp only [InterruptRouter.setTarget] at hp
  by_cases htarget : t = target
  · subst htarget
    rw [Function.update_self] at hp
    exact h.delivered t ht l hl (hc l hl hp)
  · rw [Function.update_of_ne htarget] at hp
    exact h.delivered t ht l hl hp

theorem interruptControllerTakeNext_pending (c : InterruptController)
    (h : (interruptControllerTakeNext c).2.pending.getLsbD k = true) :
    c.pending.getLsbD k = true := by
  unfold interruptControllerTakeNext at h
  dsimp only at h
  split at h
  · exact h
  · exact getLsbD_of_and h

/-- Every operation keeps the router right. -/
theorem step_ok (h : RouterOk noTarget r) {op : Op} (hop : TakenFirst r op)
    (hstep : step r op = some r') : RouterOk noTarget r' := by
  cases op with
  | raise line =>
    cases hstep
    exact interruptRouterRaise_ok h line
  | clear line =>
    cases hstep
    exact interruptRouterClear_ok h line
  | setRoute line target =>
    cases hstep
    exact interruptRouterSetRoute_ok h line target
  | setEnabled mask =>
    cases hstep
    exact h.storeEnabled mask (h.enable mask)
  | enableLines mask =>
    cases hstep
    exact h.storeEnabled mask (h.enable _)
  | disableLines mask =>
    cases hstep
    exact interruptRouterDisableLines_ok h mask
  | eoi line =>
    cases hstep
    exact interruptRouterEoi_ok h hop
  | reset =>
    cases hstep
    exact interruptRouterProgrammableReset_ok r
  | take target =>
    simp only [step] at hstep
    split at hstep
    · cases hstep
      exact h.setTarget fun l _ hl => interruptControllerTakeNext_pending _ hl
    · cases hstep
  | ipi target line =>
    simp only [step] at hstep
    split at hstep
    · next hline =>
      cases hstep
      refine h.setTarget fun l hl hp => ?_
      rw [interruptControllerRaise_ipi _ hline.2 hl] at hp
      exact hp
    · cases hstep

/-! ## What the history says of the controllers -/

/-- The newer events of `r'` say only that lines were dispatched that are pending in the controllers
    of their targets. -/
def Sent (r r' : InterruptRouter) : Prop :=
  ∃ newer, r'.history = newer ++ r.history ∧
    ∀ l t, .dispatched l t ∈ newer → (r'.targets t).pending.getLsbD l = true

theorem dispatchTargetLocked_sent {r₀ : InterruptRouter} (h : Sent r₀ r) (target : Nat) :
    Sent r₀ (dispatchTargetLocked r target) := by
  obtain ⟨newer, hhistory, hsent⟩ := h
  unfold dispatchTargetLocked
  split
  · exact ⟨newer, hhistory, hsent⟩
  · split
    · exact ⟨newer, hhistory, hsent⟩
    · next line hline =>
      have hext := (deliverableLine_some hline).1
      have hraise : ∀ l, (interruptControllerRaise (r.targets target) line).pending.getLsbD l =
          ((r.targets target).pending.getLsbD l || decide (line = l)) := fun l => by
        rw [interruptControllerRaise, if_neg (by simp [lineCount, lt_lineCount hext]),
          getLsbD_insert _ hext]
      refine ⟨.dispatched line target :: newer, congrArg (_ :: ·) hhistory, fun l t hmem => ?_⟩
      by_cases ht : t = target
      · subst ht
        simp only [InterruptRouter.setTarget, Function.update_self, hraise, Bool.or_eq_true,
          decide_eq_true_eq]
        rcases List.mem_cons.mp hmem with heq | hmem
        · exact .inr (Event.dispatched.inj heq).1.symm
        · exact .inl (hsent l t hmem)
      · simp only [InterruptRouter.setTarget, Function.update_of_ne ht]
        rcases List.mem_cons.mp hmem with heq | hmem
        · exact absurd (Event.dispatched.inj heq).2 ht
        · exact hsent l t hmem

theorem dispatchAllLocked_sent {r₀ : InterruptRouter} (h : Sent r₀ r) :
    Sent r₀ (dispatchAllLocked r) := by
  unfold dispatchAllLocked
  generalize List.range r.targetCount = targets
  induction targets generalizing r with
  | nil => exact h
  | cons target targets ih => exact ih (dispatchTargetLocked_sent h target)

/-- What an operation records as dispatched is pending in the controller of its target. -/
theorem step_sent {op : Op} (hstep : step r op = some r') : Sent r r' := by
  have silent : ∀ {r₁ : InterruptRouter}, r₁.history = r.history → Sent r r₁ :=
    fun h => ⟨[], h, nofun⟩
  have noted : ∀ {r₁ : InterruptRouter} (e : Event), (∀ l t, e ≠ .dispatched l t) →
      r₁.history = e :: r.history → Sent r r₁ := fun e he h =>
    ⟨[e], h, fun l t hmem => absurd (List.mem_singleton.mp hmem).symm (he l t)⟩
  cases op with
  | raise line =>
    cases hstep
    unfold interruptRouterRaise
    dsimp only
    repeat' split
    all_goals first
      | exact silent rfl
      | exact noted (.raised line) nofun rfl
      | exact dispatchTargetLocked_sent (noted (.raised line) nofun rfl) _
  | clear line =>
    cases hstep
    unfold interruptRouterClear
    dsimp only
    repeat' split
    all_goals first
      | exact silent rfl
      | exact noted (.cleared line) nofun rfl
      | exact dispatchTargetLocked_sent (noted (.cleared line) nofun rfl) _
  | setRoute line target =>
    cases hstep
    unfold interruptRouterSetRoute
    dsimp only
    repeat' split
    all_goals first
      | exact silent rfl
      | exact dispatchTargetLocked_sent (silent (by rfl)) _
  | setEnabled mask | enableLines mask | disableLines mask =>
    cases hstep
    simp only [interruptRouterSetEnabled, interruptRouterEnableLines, interruptRouterDisableLines,
      storeEnabled]
    repeat' split
    all_goals first
      | exact silent rfl
      | exact dispatchAllLocked_sent (silent rfl)
  | eoi line =>
    cases hstep
    unfold interruptRouterEoi
    dsimp only
    repeat' split
    all_goals first
      | exact silent rfl
      | exact dispatchTargetLocked_sent (silent (by rfl)) _
  | reset =>
    cases hstep
    exact noted .reset nofun rfl
  | take target | ipi target line =>
    simp only [step] at hstep
    split at hstep
    · cases hstep
      exact silent rfl
    · cases hstep

/-! ## Sequences of operations -/

/-- After a reset and any sequence of operations in which only taken lines are acknowledged: each
    target has at most one active line; if it has none, no enabled line waits for it; a line
    pending in a controller is active and routed to that controller; a raised line that was
    neither cleared nor reset is pending or was dispatched after the raise; and a line that the next
    operation dispatches is then pending in the controller of its target. -/
theorem lines_delivered {r₀ : InterruptRouter}
    (hr : Run step TakenFirst (interruptRouterProgrammableReset r₀) r) :
    (∀ target, ∀ l < externalLineCount, ∀ l' < externalLineCount,
      r.active.getLsbD l = true → r.routes l = target →
      r.active.getLsbD l' = true → r.routes l' = target → l = l') ∧
    (∀ target < r.targetCount,
      (∀ l < externalLineCount, r.routes l = target → r.active.getLsbD l = false) →
      ∀ l < externalLineCount, ¬ (r.pending.getLsbD l = true ∧ r.enabled.getLsbD l = true ∧
        r.routes l = target)) ∧
    (∀ target < r.targetCount, ∀ l < externalLineCount,
      (r.targets target).pending.getLsbD l = true →
      r.active.getLsbD l = true ∧ r.routes l = target) ∧
    (∀ l < externalLineCount, ∀ newer older, r.history = newer ++ .raised l :: older →
      .cleared l ∉ newer → .reset ∉ newer →
      r.pending.getLsbD l = true ∨ ∃ target, .dispatched l target ∈ newer) ∧
    ∀ op r', step r op = some r' → ∃ newer, r'.history = newer ++ r.history ∧
      ∀ l target, .dispatched l target ∈ newer →
        (r'.targets target).pending.getLsbD l = true := by
  have h : RouterOk noTarget r := hr.invariant (interruptRouterProgrammableReset_ok r₀)
    fun _ _ _ h hok hstep => step_ok h hok hstep
  refine ⟨fun target l hl l' hl' ha hr ha' hr' => h.sole l hl l' hl' ha ha' (hr.trans hr'.symm),
    fun target ht hidle l hl hwait => ?_, h.delivered,
    fun l hl newer older heq hclear hreset => ?_, fun _ _ hstep => step_sent hstep⟩
  · obtain ⟨hp, he, rfl⟩ := hwait
    obtain ⟨l', hl', ha, hr'⟩ := h.busy l hl hp he ht id
    cases (hidle l' hl' hr').symm.trans ha
  · by_cases hdisp : ∃ target, .dispatched l target ∈ newer
    · exact .inr hdisp
    · refine .inl (h.kept l hl ?_)
      rw [heq]
      exact owed_of_raised hclear hreset fun t ht => hdisp ⟨t, ht⟩

/-- A router with two targets. -/
def twoTargets : InterruptRouter :=
  ⟨fun _ => ⟨0⟩, 2, fun _ => 0, BitVec.allOnes 64, 0, 0, false, []⟩

/-- Line 3 is raised again before it is acknowledged; it is dispatched twice, and the last raise
    is not lost. -/
theorem lines_delivered_twice : ∃ r,
    interruptRouterInit (fun _ => ⟨0⟩) 2 = some twoTargets ∧
    Run step TakenFirst (interruptRouterProgrammableReset twoTargets) r ∧
    r.history = [.dispatched 3 1, .raised 3, .dispatched 3 1, .raised 3, .reset] ∧
    (r.pending.getLsbD 3 = true ∨ ∃ target, .dispatched 3 target ∈ [Event.dispatched 3 1]) := by
  have h₁ : Run step TakenFirst (interruptRouterProgrammableReset twoTargets) _ :=
    Run.refl.tail (a := Op.setRoute 3 1) trivial rfl
  have h₂ := h₁.tail (a := Op.enableLines 8) trivial rfl
  have h₃ := h₂.tail (a := Op.raise 3) trivial rfl
  have h₄ := h₃.tail (a := Op.take 1) trivial rfl
  have h₅ := h₄.tail (a := Op.raise 3) trivial rfl
  have h₆ := h₅.tail (a := Op.eoi 3) (fun _ => rfl) rfl
  obtain ⟨_, _, _, hkept, _⟩ := lines_delivered h₆
  exact ⟨_, rfl, h₆, rfl, hkept 3 (by decide) [.dispatched 3 1]
    [.dispatched 3 1, .raised 3, .reset] rfl (by decide) (by decide)⟩

end RiscMv.Interrupt
