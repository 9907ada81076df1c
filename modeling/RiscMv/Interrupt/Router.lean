import Mathlib.Data.BitVec
import RiscMv.ForStd.Run

/-!
# The interrupt router (`interrupt.c`)

The router of the machine holds a set of pending, of active and of enabled lines and one target
processor for each line.  In programmable mode it delivers a line to the controller of its target
when the target has no active line, and the line stays active until the processor acknowledges it.
The router lock makes each operation atomic; a processor takes a line from its controller without
the lock.

The history of the router is recorded with it, newest event first.
-/

namespace RiscMv.Interrupt

/-! ## Lines and controllers -/

/-- `INTERRUPT_LINE_COUNT`. -/
def lineCount : Nat := 64

/-- `INTERRUPT_EXTERNAL_LINE_COUNT`; the lines from here on are inter-processor interrupts. -/
def externalLineCount : Nat := 48

/-- A set of lines, as the code keeps it in a word. -/
abbrev LineSet := BitVec 64

/-- `UINT64_C(1) << line`. -/
def bit (line : Nat) : LineSet := BitVec.twoPow 64 line

/-- `INTERRUPT_EXTERNAL_LINE_MASK`. -/
def externalLineMask : LineSet := bit externalLineCount - 1

@[simp] theorem getLsbD_bit (line k : Nat) :
    (bit line).getLsbD k = (decide (line < 64) && decide (line = k)) := by
  simp [bit, BitVec.getLsbD_twoPow]

theorem getLsbD_externalLineMask {line : Nat} (h : line < externalLineCount) :
    externalLineMask.getLsbD line = true := by
  have hall : ∀ line : Fin externalLineCount, externalLineMask.getLsbD line = true := by
    decide +kernel
  exact hall ⟨line, h⟩

/-- `InterruptController`. -/
structure InterruptController where
  pending : LineSet

/-- `interrupt_controller_init`. -/
def interruptControllerInit : InterruptController := ⟨0⟩

/-- `interrupt_controller_raise`. -/
def interruptControllerRaise (controller : InterruptController) (line : Nat) :
    InterruptController :=
  if lineCount ≤ line then controller else ⟨controller.pending ||| bit line⟩

/-- `interrupt_controller_clear`. -/
def interruptControllerClear (controller : InterruptController) (line : Nat) :
    InterruptController :=
  if lineCount ≤ line then controller else ⟨controller.pending &&& ~~~bit line⟩

/-- `lowest_set_bit` of a word that is not 0. -/
def lowestSetBit (value : LineSet) : Nat :=
  ((List.range lineCount).find? value.getLsbD).getD 0

/-- `interrupt_controller_take_next`: inter-processor interrupts first. -/
def interruptControllerTakeNext (controller : InterruptController) :
    Option Nat × InterruptController :=
  let available := controller.pending
  if available = 0 then (none, controller)
  else
    let ipiAvailable := available &&& ~~~externalLineMask
    let selected := lowestSetBit (if ipiAvailable ≠ 0 then ipiAvailable else available)
    (some selected, ⟨controller.pending &&& ~~~bit selected⟩)

/-! ## The router -/

/-- What happens to a line in the router. -/
inductive Event where
  | raised (line : Nat)
  | cleared (line : Nat)
  | dispatched (line target : Nat)
  | reset
deriving DecidableEq

/-- `InterruptRouter`.  `targets` are the controllers below `targetCount`, each of its own. -/
structure InterruptRouter where
  targets : Nat → InterruptController
  targetCount : Nat
  routes : Nat → Nat
  enabled : LineSet
  pending : LineSet
  active : LineSet
  programmable : Bool
  history : List Event

/-- Stores the word of one controller. -/
def InterruptRouter.setTarget (router : InterruptRouter) (target : Nat)
    (controller : InterruptController) : InterruptRouter :=
  { router with targets := Function.update router.targets target controller }

/-- `target_has_active_locked`. -/
def targetHasActiveLocked (router : InterruptRouter) (target : Nat) : Bool :=
  (List.range externalLineCount).any fun line =>
    router.active.getLsbD line && router.routes line == target

/-- The first line `dispatch_target_locked` finds. -/
def deliverableLine (router : InterruptRouter) (target : Nat) : Option Nat :=
  let deliverable := router.pending &&& router.enabled &&& externalLineMask
  (List.range externalLineCount).find? fun line =>
    deliverable.getLsbD line && router.routes line == target

/-- `dispatch_target_locked`. -/
def dispatchTargetLocked (router : InterruptRouter) (target : Nat) : InterruptRouter :=
  if router.targetCount ≤ target ∨ targetHasActiveLocked router target then router
  else match deliverableLine router target with
    | none => router
    | some line =>
      { router with
        pending := router.pending &&& ~~~bit line
        active := router.active ||| bit line
        history := .dispatched line target :: router.history }.setTarget target
          (interruptControllerRaise (router.targets target) line)

/-- `dispatch_all_locked`. -/
def dispatchAllLocked (router : InterruptRouter) : InterruptRouter :=
  (List.range router.targetCount).foldl dispatchTargetLocked router

/-- `interrupt_router_init`. -/
def interruptRouterInit (targets : Nat → InterruptController) (targetCount : Nat) :
    Option InterruptRouter :=
  if targetCount = 0 then none
  else some ⟨targets, targetCount, fun _ => 0, BitVec.allOnes 64, 0, 0, false, []⟩

/-- `interrupt_router_set_route`. -/
def interruptRouterSetRoute (router : InterruptRouter) (line targetIndex : Nat) :
    InterruptRouter × Bool :=
  if lineCount ≤ line ∨ router.targetCount ≤ targetIndex then (router, false)
  else if router.programmable ∧ (externalLineCount ≤ line ∨ router.active.getLsbD line) then
    (router, false)
  else
    let router := { router with routes := Function.update router.routes line targetIndex }
    (if router.programmable then dispatchTargetLocked router targetIndex else router, true)

/-- `interrupt_router_raise`. -/
def interruptRouterRaise (router : InterruptRouter) (line : Nat) : InterruptRouter × Bool :=
  if lineCount ≤ line then (router, false)
  else if !router.programmable then
    let target := router.routes line
    if target < router.targetCount then
      (router.setTarget target (interruptControllerRaise (router.targets target) line), true)
    else (router, false)
  else if externalLineCount ≤ line then (router, false)
  else
    let router := { router with
      pending := router.pending ||| bit line
      history := .raised line :: router.history }
    (if router.active.getLsbD line then router
      else dispatchTargetLocked router (router.routes line), true)

/-- `interrupt_router_clear`. -/
def interruptRouterClear (router : InterruptRouter) (line : Nat) : InterruptRouter × Bool :=
  if lineCount ≤ line then (router, false)
  else
    let target := router.routes line
    if router.programmable then
      if externalLineCount ≤ line then (router, false)
      else
        let router := { router with
          pending := router.pending &&& ~~~bit line
          history := .cleared line :: router.history }
        if router.active.getLsbD line then
          let router := { router with active := router.active &&& ~~~bit line }
          if target < router.targetCount then
            (dispatchTargetLocked (router.setTarget target
              (interruptControllerClear (router.targets target) line)) target, true)
          else (router, true)
        else (router, true)
    else if target < router.targetCount then
      (router.setTarget target (interruptControllerClear (router.targets target) line), true)
    else (router, false)

/-- `interrupt_router_programmable_reset`. -/
def interruptRouterProgrammableReset (router : InterruptRouter) : InterruptRouter :=
  { router with
    programmable := true
    enabled := 0
    pending := 0
    active := 0
    routes := fun line => if line < lineCount then 0 else router.routes line
    targets := fun target =>
      if target < router.targetCount then interruptControllerInit else router.targets target
    history := .reset :: router.history }

/-- The three functions that store the mask of enabled lines: `change` says how. -/
def storeEnabled (router : InterruptRouter) (mask : LineSet)
    (change : InterruptRouter → InterruptRouter) : InterruptRouter × Bool :=
  if mask &&& ~~~externalLineMask ≠ 0 then (router, false)
  else if !router.programmable then (router, false)
  else (change router, true)

/-- `interrupt_router_set_enabled`. -/
def interruptRouterSetEnabled (router : InterruptRouter) (mask : LineSet) :
    InterruptRouter × Bool :=
  storeEnabled router mask fun router => dispatchAllLocked { router with enabled := mask }

/-- `interrupt_router_enable_lines`. -/
def interruptRouterEnableLines (router : InterruptRouter) (mask : LineSet) :
    InterruptRouter × Bool :=
  storeEnabled router mask fun router =>
    dispatchAllLocked { router with enabled := router.enabled ||| mask }

/-- `interrupt_router_disable_lines`. -/
def interruptRouterDisableLines (router : InterruptRouter) (mask : LineSet) :
    InterruptRouter × Bool :=
  storeEnabled router mask fun router => { router with enabled := router.enabled &&& ~~~mask }

/-- `interrupt_router_eoi`. -/
def interruptRouterEoi (router : InterruptRouter) (line : Nat) : InterruptRouter × Bool :=
  if externalLineCount ≤ line then (router, false)
  else if !router.programmable || !router.active.getLsbD line then (router, false)
  else
    let target := router.routes line
    (dispatchTargetLocked { router with active := router.active &&& ~~~bit line } target, true)

/-! ## Runs -/

/-- An operation on the router or on one of its controllers. -/
inductive Op where
  | raise (line : Nat)
  | clear (line : Nat)
  | setRoute (line target : Nat)
  | setEnabled (mask : LineSet)
  | enableLines (mask : LineSet)
  | disableLines (mask : LineSet)
  | eoi (line : Nat)
  | reset
  /-- The processor takes a line from its controller. -/
  | take (target : Nat)
  /-- Another processor sends an inter-processor interrupt. -/
  | ipi (target line : Nat)

/-- One operation. -/
def step (router : InterruptRouter) : Op → Option InterruptRouter
  | .raise line => (interruptRouterRaise router line).1
  | .clear line => (interruptRouterClear router line).1
  | .setRoute line target => (interruptRouterSetRoute router line target).1
  | .setEnabled mask => (interruptRouterSetEnabled router mask).1
  | .enableLines mask => (interruptRouterEnableLines router mask).1
  | .disableLines mask => (interruptRouterDisableLines router mask).1
  | .eoi line => (interruptRouterEoi router line).1
  | .reset => interruptRouterProgrammableReset router
  | .take target =>
    if target < router.targetCount then
      router.setTarget target (interruptControllerTakeNext (router.targets target)).2
    else none
  | .ipi target line =>
    if target < router.targetCount ∧ externalLineCount ≤ line then
      router.setTarget target (interruptControllerRaise (router.targets target) line)
    else none

/-- A line that is acknowledged has been taken by its target. -/
def TakenFirst (router : InterruptRouter) : Op → Prop
  | .eoi line => router.active.getLsbD line = true →
      (router.targets (router.routes line)).pending.getLsbD line = false
  | _ => True

end RiscMv.Interrupt
