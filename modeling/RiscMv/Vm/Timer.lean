import Mathlib.Algebra.Order.Group.Nat
import Mathlib.Algebra.Ring.Nat

/-!
# The timer (`src/timer.c`)

`timer_tick` moves the counter by the time that has passed on the host and fires when it reaches the
compare value.  The interrupt lines that it raises are part of its result.

## Key results
- `timerTick_add`: two calls do what one call does
- `ticks_additive`: so do any number of calls
-/

namespace RiscMv.Vm

/-- `TimerDevice`. -/
structure TimerDevice where
  control : UInt64
  counter : UInt64
  compare : UInt64
  status : UInt64
  interruptLine : Nat
  deriving DecidableEq

def timerControlEnable : UInt64 := 1
def timerControlRepeat : UInt64 := 2
def timerControlIrqEnable : UInt64 := 4
def timerStatusPending : UInt64 := 1

/-- `timer_tick`, with the lines it passes to `interrupt_router_raise`. -/
def timerTick (timer : TimerDevice) (ticks : UInt64) : TimerDevice × List Nat :=
  if ticks = 0 ∨ timer.control &&& timerControlEnable = 0 then (timer, [])
  else if timer.compare = 0 then ({ timer with counter := timer.counter + ticks }, [])
  else
    let untilCompare := if timer.counter < timer.compare then timer.compare - timer.counter else 0
    if untilCompare ≠ 0 ∧ ticks < untilCompare then
      ({ timer with counter := timer.counter + ticks }, [])
    else
      let remaining := if untilCompare = 0 then ticks else ticks - untilCompare
      let timer := { timer with status := timer.status ||| timerStatusPending }
      let raised :=
        if timer.control &&& timerControlIrqEnable ≠ 0 then [timer.interruptLine] else []
      if timer.control &&& timerControlRepeat ≠ 0 then
        ({ timer with counter := remaining % timer.compare }, raised)
      else
        ({ timer with
          counter := timer.compare, control := timer.control &&& ~~~timerControlEnable },
          raised)

/-- Successive calls, with all the lines they raise. -/
def timerTicks : TimerDevice → List UInt64 → TimerDevice × List Nat
  | timer, [] => (timer, [])
  | timer, ticks :: rest =>
    let first := timerTick timer ticks
    let later := timerTicks first.1 rest
    (later.1, first.2 ++ later.2)

variable {timer : TimerDevice} {ticks a b : UInt64}

/-! ## One call -/

/-- The counter passes the compare value. -/
def TimerDevice.Reaches (timer : TimerDevice) (ticks : UInt64) : Prop :=
  timer.compare ≠ 0 ∧ timer.compare.toNat ≤ timer.counter.toNat + ticks.toNat

/-- From where a period is counted: a counter at or beyond the compare value starts again. -/
def TimerDevice.start (timer : TimerDevice) : Nat :=
  if timer.counter < timer.compare then timer.counter.toNat else 0

/-- The timer after the counter has passed the compare value. -/
def TimerDevice.fire (timer : TimerDevice) (ticks : Nat) : TimerDevice :=
  if timer.control &&& timerControlRepeat ≠ 0 then
    { timer with status := timer.status ||| timerStatusPending
                 counter := .ofNat ((timer.start + ticks) % timer.compare.toNat) }
  else
    { timer with status := timer.status ||| timerStatusPending
                 counter := timer.compare
                 control := timer.control &&& ~~~timerControlEnable }

def TimerDevice.lines (timer : TimerDevice) : List Nat :=
  if timer.control &&& timerControlIrqEnable ≠ 0 then [timer.interruptLine] else []

theorem timerTick_zero (timer : TimerDevice) : timerTick timer 0 = (timer, []) := if_pos (.inl rfl)

theorem timerTick_of_disabled (h : timer.control &&& timerControlEnable = 0) :
    timerTick timer ticks = (timer, []) := if_pos (.inr h)

theorem toNat_compare_sub (h : timer.counter < timer.compare) :
    (timer.compare - timer.counter).toNat = timer.compare.toNat - timer.counter.toNat ∧
      timer.compare - timer.counter ≠ 0 := by
  have hsub := UInt64.toNat_sub_of_le _ _ (UInt64.le_of_lt h)
  have hlt := UInt64.lt_iff_toNat_lt.mp h
  refine ⟨hsub, fun hzero => ?_⟩
  rw [hzero] at hsub
  change 0 = _ at hsub
  omega

theorem timerTick_of_not_reaches (hon : timer.control &&& timerControlEnable ≠ 0)
    (h : ¬ timer.Reaches ticks) :
    timerTick timer ticks = ({ timer with counter := timer.counter + ticks }, []) := by
  unfold timerTick
  split
  · next hzero => rw [hzero.resolve_right hon, UInt64.add_zero]
  split
  · rfl
  next hcompare =>
  have hlt : timer.counter.toNat + ticks.toNat < timer.compare.toNat :=
    not_le.mp fun hle => h ⟨hcompare, hle⟩
  have hcounter : timer.counter < timer.compare := UInt64.lt_iff_toNat_lt.mpr (by omega)
  obtain ⟨hsub, hne⟩ := toNat_compare_sub hcounter
  dsimp only
  rw [if_pos hcounter, if_pos ⟨hne, UInt64.lt_iff_toNat_lt.mpr (by omega)⟩]

/-- The counter of a period, whether it is written with or without wrapping around. -/
theorem ofNat_mod_compare (h : timer.compare ≠ 0) (n : Nat) :
    (UInt64.ofNat (n % timer.compare.toNat)).toNat = n % timer.compare.toNat ∧
      n % timer.compare.toNat < timer.compare.toNat := by
  have hlt := timer.compare.toNat_lt
  have hmod : n % timer.compare.toNat < timer.compare.toNat :=
    Nat.mod_lt _ (Nat.pos_of_ne_zero fun hzero => h (UInt64.toNat_inj.mp hzero))
  exact ⟨UInt64.toNat_ofNat_of_lt' (hmod.trans hlt), hmod⟩

theorem timerTick_of_reaches (hon : timer.control &&& timerControlEnable ≠ 0) (hticks : ticks ≠ 0)
    (h : timer.Reaches ticks) :
    timerTick timer ticks = (timer.fire ticks.toNat, timer.lines) := by
  have hle := h.2
  -- the ticks that remain, counted from the start of a period
  have hremaining : ∀ untilCompare : UInt64, untilCompare = (if timer.counter < timer.compare then
      timer.compare - timer.counter else 0) → ¬ (untilCompare ≠ 0 ∧ ticks < untilCompare) ∧
      (if untilCompare = 0 then ticks else ticks - untilCompare) % timer.compare =
        .ofNat ((timer.start + ticks.toNat) % timer.compare.toNat) := by
    rintro untilCompare rfl
    rw [← UInt64.toNat_inj, (ofNat_mod_compare h.1 _).1, UInt64.toNat_mod, TimerDevice.start]
    split
    · next hlt =>
      obtain ⟨hsub, hne⟩ := toNat_compare_sub hlt
      have hge : timer.compare - timer.counter ≤ ticks := UInt64.le_iff_toNat_le.mpr (by omega)
      have hlt' := UInt64.lt_iff_toNat_lt.mp hlt
      refine ⟨fun hand => UInt64.not_lt.mpr hge hand.2, ?_⟩
      rw [if_neg hne, UInt64.toNat_sub_of_le _ _ hge, hsub, ← Nat.add_mod_right]
      congr 1
      omega
    · exact ⟨fun hand => hand.1 rfl, by rw [if_pos rfl, Nat.zero_add]⟩
  obtain ⟨hfires, hcounter⟩ := hremaining _ rfl
  unfold timerTick TimerDevice.fire
  rw [if_neg (not_or.mpr ⟨hticks, hon⟩), if_neg h.1]
  dsimp only
  rw [if_neg hfires, hcounter]
  split
  · rfl
  · rfl

/-! ## Two calls -/

/-- After the compare value was reached, further ticks move the counter on. -/
theorem timerTick_fire (hsum : (a + b).toNat = a.toNat + b.toNat) (hb : b ≠ 0)
    (hon : timer.control &&& timerControlEnable ≠ 0) (h : timer.Reaches a) :
    (timerTick (timer.fire a.toNat) b).1 = timer.fire (a + b).toNat ∧
      ((timerTick (timer.fire a.toNat) b).2 = [] ∨
        (timerTick (timer.fire a.toNat) b).2 = timer.lines) := by
  by_cases hrepeat : timer.control &&& timerControlRepeat = 0
  · -- the timer has switched itself off
    have hfire : ∀ n, timer.fire n = { timer with
        status := timer.status ||| timerStatusPending
        counter := timer.compare
        control := timer.control &&& ~~~timerControlEnable } :=
      fun n => if_neg (not_not.mpr hrepeat)
    have hoff : (timer.control &&& ~~~timerControlEnable) &&& timerControlEnable = 0 := by
      rw [UInt64.and_assoc, UInt64.and_comm (~~~_), UInt64.and_not_self, UInt64.and_zero]
    rw [hfire, hfire, timerTick_of_disabled hoff]
    exact ⟨rfl, .inl rfl⟩
  obtain ⟨hcount, hlt⟩ := ofNat_mod_compare h.1 (timer.start + a.toNat)
  have hfire : ∀ n, timer.fire n = { timer with
      status := timer.status ||| timerStatusPending
      counter := .ofNat ((timer.start + n) % timer.compare.toNat) } := fun n => if_pos hrepeat
  rw [hfire, hfire, hsum, ← Nat.add_assoc, ← Nat.mod_add_mod (timer.start + a.toNat)]
  generalize (timer.start + a.toNat) % timer.compare.toNat = count at hcount hlt ⊢
  generalize htimer' : ({ timer with
    status := timer.status ||| timerStatusPending, counter := .ofNat count } : TimerDevice) = timer'
  have hon' : timer'.control &&& timerControlEnable ≠ 0 := htimer' ▸ hon
  by_cases hnext : timer'.Reaches b
  · rw [timerTick_of_reaches hon' hb hnext]
    subst htimer'
    have hstart : TimerDevice.start { timer with
        status := timer.status ||| timerStatusPending, counter := .ofNat count } = count := by
      rw [TimerDevice.start, if_pos (UInt64.lt_iff_toNat_lt.mpr (hcount.trans_lt hlt)), hcount]
    refine ⟨?_, .inr rfl⟩
    rw [TimerDevice.fire, if_pos hrepeat, hstart, UInt64.or_assoc, UInt64.or_self]
  · rw [timerTick_of_not_reaches hon' hnext]
    subst htimer'
    have hbelow : count + b.toNat < timer.compare.toNat :=
      not_le.mp fun hle => hnext ⟨h.1, hcount.symm ▸ hle⟩
    rw [Nat.mod_eq_of_lt hbelow, UInt64.ofNat_add, UInt64.ofNat_toNat]
    exact ⟨rfl, .inl rfl⟩

/-- Before it is reached, ticks move the counter too. -/
theorem timerTick_moved (hsum : (a + b).toNat = a.toNat + b.toNat) (hb : b ≠ 0) (hab : a + b ≠ 0)
    (hon : timer.control &&& timerControlEnable ≠ 0) (h : ¬ timer.Reaches a) :
    timerTick { timer with counter := timer.counter + a } b = timerTick timer (a + b) := by
  generalize htimer' : ({ timer with counter := timer.counter + a } : TimerDevice) = timer'
  have hon' : timer'.control &&& timerControlEnable ≠ 0 := htimer' ▸ hon
  -- the counter does not wrap below the compare value
  have hmoved : timer.compare ≠ 0 → timer.counter.toNat + a.toNat < timer.compare.toNat ∧
      timer'.counter.toNat = timer.counter.toNat + a.toNat := by
    intro hne
    have hlt : timer.counter.toNat + a.toNat < timer.compare.toNat :=
      not_le.mp fun hle => h ⟨hne, hle⟩
    have hcompare := timer.compare.toNat_lt
    rw [← htimer', UInt64.toNat_add, Nat.mod_eq_of_lt (by omega)]
    exact ⟨hlt, rfl⟩
  have hiff : timer'.Reaches b ↔ timer.Reaches (a + b) := by
    subst htimer'
    refine and_congr_right fun hne => ?_
    rw [(hmoved hne).2, hsum, Nat.add_assoc]
  by_cases hboth : timer.Reaches (a + b)
  · rw [timerTick_of_reaches hon' hb (hiff.mpr hboth), timerTick_of_reaches hon hab hboth]
    obtain ⟨hlt, hcounter⟩ := hmoved hboth.1
    have hstart : timer'.start = timer.start + a.toNat := by
      have hle : timer.counter < timer.compare := UInt64.lt_iff_toNat_lt.mpr (by omega)
      have hle' : timer'.counter < timer'.compare :=
        UInt64.lt_iff_toNat_lt.mpr (by rw [hcounter, ← htimer']; exact hlt)
      rw [TimerDevice.start, if_pos hle', TimerDevice.start, if_pos hle, hcounter]
    rw [TimerDevice.fire, TimerDevice.fire, hstart, hsum, ← Nat.add_assoc]
    subst htimer'
    rfl
  · rw [timerTick_of_not_reaches hon hboth, timerTick_of_not_reaches hon' (hiff.not.mpr hboth),
      ← UInt64.add_assoc]
    subst htimer'
    rfl

/-- Two calls leave the state of one, and raise the line if one does. -/
theorem timerTick_add (timer : TimerDevice) (h : a.toNat + b.toNat < 2 ^ 64) :
    (timerTick (timerTick timer a).1 b).1 = (timerTick timer (a + b)).1 ∧
      ((timerTick timer a).2 ++ (timerTick (timerTick timer a).1 b).2 = [] ↔
        (timerTick timer (a + b)).2 = []) := by
  by_cases hon : timer.control &&& timerControlEnable = 0
  · simp [timerTick_of_disabled hon]
  by_cases ha : a = 0
  · simp [ha, timerTick_zero]
  by_cases hb : b = 0
  · simp [hb, timerTick_zero]
  have hsum : (a + b).toNat = a.toNat + b.toNat := by rw [UInt64.toNat_add, Nat.mod_eq_of_lt h]
  have hab : a + b ≠ 0 := by
    intro hzero
    rw [hzero] at hsum
    change 0 = _ at hsum
    exact ha (UInt64.toNat_inj.mp (show a.toNat = 0 by omega))
  by_cases hfirst : timer.Reaches a
  · have hboth : timer.Reaches (a + b) := ⟨hfirst.1, by have := hfirst.2; omega⟩
    rw [timerTick_of_reaches hon ha hfirst, timerTick_of_reaches hon hab hboth]
    obtain ⟨hstate, hraised⟩ := timerTick_fire hsum hb hon hfirst
    refine ⟨hstate, ?_⟩
    rcases hraised with hraised | hraised <;> simp [hraised]
  · rw [timerTick_of_not_reaches hon hfirst, List.nil_append,
      timerTick_moved hsum hb hab hon hfirst]
    exact ⟨rfl, Iff.rfl⟩

/-! ## Any number of calls -/

/-- Delivering ticks in any pieces leaves the timer that one call leaves, and raises the line at
    least once if the one call raises it. -/
theorem ticks_additive (timer : TimerDevice) (ticks : List UInt64) {n : Nat}
    (hn : (ticks.map UInt64.toNat).sum = n) (h : n < 2 ^ 64) :
    (timerTicks timer ticks).1 = (timerTick timer (.ofNat n)).1 ∧
      ((timerTicks timer ticks).2 ≠ [] ↔ (timerTick timer (.ofNat n)).2 ≠ []) := by
  induction ticks generalizing timer n with
  | nil =>
    subst hn
    simp [timerTicks, timerTick_zero]
  | cons a rest ih =>
    rw [List.map_cons, List.sum_cons] at hn
    have hrest : (rest.map UInt64.toNat).sum < 2 ^ 64 := by omega
    obtain ⟨hstate, hraised⟩ := ih (timerTick timer a).1 rfl hrest
    obtain ⟨hstate', hraised'⟩ := timerTick_add (a := a)
      (b := .ofNat (rest.map UInt64.toNat).sum) timer
      (by rw [UInt64.toNat_ofNat_of_lt' hrest, hn]; exact h)
    rw [not_iff_not] at hraised
    rw [← hn, UInt64.ofNat_add, UInt64.ofNat_toNat, timerTicks]
    refine ⟨hstate.trans hstate', not_congr ?_⟩
    rw [← hraised', List.append_eq_nil_iff, List.append_eq_nil_iff, hraised]

/-- A repeating timer of period 5, with 12 ticks in three pieces. -/
theorem ticks_additive_repeat :
    (timerTicks ⟨7, 0, 5, 0, 0⟩ [4, 3, 5]).1 = ⟨7, 2, 5, 1, 0⟩ ∧
      (timerTicks ⟨7, 0, 5, 0, 0⟩ [4, 3, 5]).2 ≠ [] := by
  obtain ⟨hstate, hraised⟩ := ticks_additive ⟨7, 0, 5, 0, 0⟩ [4, 3, 5] rfl (by decide)
  exact ⟨hstate.trans (by decide), hraised.mpr (by decide)⟩

end RiscMv.Vm
