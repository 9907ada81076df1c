import Mathlib.Data.Finset.Card
import RiscMv.ForStd.Run

/-!
# Hardware threads and core workers (`vm.c`, `core_control.c`)

Each core has a worker, a host thread that runs the hardware threads of the core in turn; a hardware
thread starts, stops and resets others through the core control device.  Every access to a shared
variable is a transition of its own: the loads, exchanges and stores of `core_worker` and
`finish_hardware_thread`, and those of the three commands.

The bus holds the lock of the device while it executes a command, so there is one command at a time;
the hardware thread that issues it is inside `cpu_step`.  What the instructions do is an input.
-/

namespace RiscMv.Vm

/-! ## State -/

/-- `HardwareThreadState`. -/
inductive ThreadState where
  | offline
  | starting
  | runnable
  | halted
  | waiting
  deriving DecidableEq

/-- `HardwareThread`, with the fields of its processor that the workers look at. -/
structure HardwareThread where
  state : ThreadState
  stopRequested : Bool
  /-- `cpu.halted`. -/
  halted : Bool
  /-- `cpu.waiting`. -/
  waiting : Bool
  /-- `cpu.pc`. -/
  pc : Nat
  /-- History: the entry of the last start. -/
  entry : Nat
  /-- History: how often the thread was started. -/
  incarnation : Nat
  /-- History: the thread has executed an instruction since it was started. -/
  executed : Bool
  /-- History: the thread has executed HALT since it was started. -/
  executedHalt : Bool
  /-- History: a STOP was accepted since the thread was started. -/
  stopAccepted : Bool
  deriving DecidableEq

/-- The steps of `finish_hardware_thread`. -/
inductive FinishStep where
  | load
  | exchange
  | clearWaiting
  | setHalted
  | clearStop
  | decrement
  | stopMachine
  deriving DecidableEq

/-- What a worker does next with a hardware thread. -/
inductive Phase where
  /-- Seen as WAITING: takes the stop request. -/
  | serviced
  /-- Calls `cpu_check_interrupt` for a waiting thread. -/
  | checking
  /-- Not waiting any more: makes it RUNNABLE. -/
  | waking
  /-- Selected: takes the stop request. -/
  | selected
  /-- Calls `cpu_step`. -/
  | stepping
  /-- In `cpu_step`, waiting for the core control device. -/
  | commanding
  /-- After `cpu_step`: looks at `cpu.halted`. -/
  | stepped
  /-- Takes the stop request after `cpu_step`. -/
  | testing
  /-- Looks at `cpu.waiting`. -/
  | resting
  | finishing (f : FinishStep)
  deriving DecidableEq

/-- A core worker. -/
inductive Worker where
  /-- Between two hardware threads. -/
  | between
  | busy (t : Nat) (p : Phase)
  | returned
  deriving DecidableEq

/-- The next step of a command of the core control device. -/
inductive Order where
  | startCheck
  | startExchange
  | startInit
  | startPc
  | startClear
  | startAdd
  | startPublish
  | stopLoad
  | stopStore
  | resetLoad
  | resetExchange (expected : ThreadState)
  | resetInit
  | resetClear
  | resetPublish
  deriving DecidableEq

/-- A command in execution. -/
structure Command where
  /-- The hardware thread that issued it. -/
  issuer : Nat
  target : Nat
  entry : Nat
  order : Order
  deriving DecidableEq

/-- `VirtualMachine`. -/
structure Machine where
  threads : Nat → HardwareThread
  /-- The worker of each core. -/
  workers : Nat → Worker
  command : Option Command
  stopRequested : Bool
  activeThreadCount : Nat
  /-- History: the hardware threads that are counted. -/
  counted : Finset Nat

/-- What happens in `cpu_step`, or in `cpu_check_interrupt`. -/
inductive Input where
  | nothing
  /-- An instruction, or the entry of an interrupt handler, that leaves this PC. -/
  | runs (pc : Nat)
  | halts
  | waits (pc : Nat)
  /-- A write to the command register of the core control device. -/
  | orders (pc target entry : Nat) (order : Order)
  /-- A write to the system controller. -/
  | stopsMachine (pc : Nat)
  /-- An error that stops the machine. -/
  | fails

/-! ## Transitions -/

/-- The thread is RUNNABLE or WAITING. -/
def ThreadState.live : ThreadState → Bool
  | .runnable => true
  | .waiting => true
  | _ => false

/-- One thread changed. -/
def Machine.setThread (m : Machine) (t : Nat) (f : HardwareThread → HardwareThread) : Machine :=
  { m with threads := Function.update m.threads t (f (m.threads t)) }

/-- The worker of a core goes on. -/
def Machine.setWorker (m : Machine) (c : Nat) (w : Worker) : Machine :=
  { m with workers := Function.update m.workers c w }

/-- Takes the stop request of a thread: where the worker goes on if there was one, and if not. -/
def takeStop (m : Machine) (c t : Nat) (next : Phase) : Machine :=
  let m' := m.setThread t fun th => { th with stopRequested := false }
  if (m.threads t).stopRequested then m'.setWorker c (.busy t (.finishing .load))
  else m'.setWorker c (.busy t next)

/-- The worker calls `finish_hardware_thread`. -/
def finishStep (m : Machine) (c t : Nat) : FinishStep → Machine
  | .load =>
    if (m.threads t).state.live then m.setWorker c (.busy t (.finishing .exchange))
    else m.setWorker c .between
  | .exchange =>
    -- a failed exchange loads the state again
    if (m.threads t).state.live then
      (m.setThread t fun th => { th with state := .halted }).setWorker c
        (.busy t (.finishing .clearWaiting))
    else m.setWorker c (.busy t (.finishing .load))
  | .clearWaiting =>
    (m.setThread t fun th => { th with waiting := false }).setWorker c
      (.busy t (.finishing .setHalted))
  | .setHalted =>
    (m.setThread t fun th => { th with halted := true }).setWorker c
      (.busy t (.finishing .clearStop))
  | .clearStop =>
    (m.setThread t fun th => { th with stopRequested := false }).setWorker c
      (.busy t (.finishing .decrement))
  | .decrement =>
    let m' := { m with
      activeThreadCount := m.activeThreadCount - 1
      counted := m.counted.erase t }
    if m.activeThreadCount = 1 then m'.setWorker c (.busy t (.finishing .stopMachine))
    else m'.setWorker c .between
  | .stopMachine => { m with stopRequested := true }.setWorker c .between

/-- `cpu_step` of the thread. -/
def cpuStep (m : Machine) (c t : Nat) (input : Input) : Option Machine :=
  let th := m.threads t
  if th.halted ∨ th.waiting then
    -- `cpu_step` returns at once
    some (m.setWorker c (.busy t .stepped))
  else match input with
    | .nothing => none
    | .runs pc =>
      some ((m.setThread t fun th => { th with pc, executed := true }).setWorker c
        (.busy t .stepped))
    | .halts =>
      some ((m.setThread t fun th =>
        { th with halted := true, executed := true, executedHalt := true }).setWorker c
          (.busy t .stepped))
    | .waits pc =>
      some ((m.setThread t fun th => { th with pc, waiting := true, executed := true }).setWorker c
        (.busy t .stepped))
    | .orders pc target entry order =>
      if m.command = none ∧ (order = .startCheck ∨ order = .stopLoad ∨ order = .resetLoad) then
        some (({ m with command := some ⟨t, target, entry, order⟩ }.setThread t fun th =>
          { th with pc, executed := true }).setWorker c (.busy t .commanding))
      else none
    | .stopsMachine pc =>
      some (({ m with stopRequested := true }.setThread t fun th =>
        { th with pc, executed := true }).setWorker c (.busy t .stepped))
    | .fails => some ({ m with stopRequested := true }.setWorker c .returned)

/-- The next step of a worker that is busy with a thread. -/
def workerStep (m : Machine) (c t : Nat) (input : Input) : Phase → Option Machine
  | .serviced => some (takeStop m c t .checking)
  | .checking =>
    match input with
    | .nothing =>
      if (m.threads t).waiting then some (m.setWorker c .between)
      else some (m.setWorker c (.busy t .waking))
    | .runs pc =>
      some ((m.setThread t fun th => { th with pc, waiting := false, executed := true }).setWorker c
        (.busy t .waking))
    | .fails => some ({ m with stopRequested := true }.setWorker c .returned)
    | _ => none
  | .waking =>
    if (m.threads t).state = .waiting then
      some ((m.setThread t fun th => { th with state := .runnable }).setWorker c .between)
    else some (m.setWorker c .between)
  | .selected => some (takeStop m c t .stepping)
  | .stepping => cpuStep m c t input
  | .commanding => none
  | .stepped =>
    match input with
    | .nothing =>
      if (m.threads t).halted then some (m.setWorker c (.busy t (.finishing .load)))
      else some (m.setWorker c (.busy t .testing))
    | .runs pc =>
      -- `cpu_check_interrupt` enters a handler; interrupts are off until the thread enables them
      if (m.threads t).halted ∨ (m.threads t).executed = false then none
      else some (m.setThread t fun th => { th with pc, waiting := false })
    | .fails =>
      if (m.threads t).halted then none
      else some ({ m with stopRequested := true }.setWorker c .returned)
    | _ => none
  | .testing => some (takeStop m c t .resting)
  | .resting =>
    if (m.threads t).waiting ∧ (m.threads t).state = .runnable then
      some ((m.setThread t fun th => { th with state := .waiting }).setWorker c .between)
    else some (m.setWorker c .between)
  | .finishing f => some (finishStep m c t f)

/-- The command is done and the instruction of its issuer ends. -/
def Machine.endCommand (m : Machine) (coreOf : Nat → Nat) (issuer : Nat) : Machine :=
  { m with command := none }.setWorker (coreOf issuer) (.busy issuer .stepped)

/-- The command goes on with its next step. -/
def Machine.goOn (m : Machine) (cmd : Command) (order : Order) : Machine :=
  { m with command := some { cmd with order } }

/-- `cpu_init`. -/
def cpuInit (th : HardwareThread) : HardwareThread :=
  { th with halted := false, waiting := false, pc := 0 }

/-- The next step of a command. -/
def commandStep (coreOf : Nat → Nat) (m : Machine) (cmd : Command) : Machine :=
  let t := cmd.target
  let state := (m.threads t).state
  match cmd.order with
  | .startCheck =>
    if m.stopRequested then m.endCommand coreOf cmd.issuer else m.goOn cmd .startExchange
  | .startExchange =>
    if state = .offline then
      (m.setThread t fun th => { th with state := .starting }).goOn cmd .startInit
    else m.endCommand coreOf cmd.issuer
  | .startInit => (m.setThread t cpuInit).goOn cmd .startPc
  | .startPc => (m.setThread t fun th => { th with pc := cmd.entry }).goOn cmd .startClear
  | .startClear => (m.setThread t fun th => { th with stopRequested := false }).goOn cmd .startAdd
  | .startAdd =>
    { m with
      activeThreadCount := m.activeThreadCount + 1
      counted := insert t m.counted }.goOn cmd .startPublish
  | .startPublish =>
    (m.setThread t fun th => { th with
      state := .runnable
      entry := cmd.entry
      incarnation := th.incarnation + 1
      executed := false
      executedHalt := false
      stopAccepted := false }).endCommand coreOf cmd.issuer
  | .stopLoad =>
    if state.live then m.goOn cmd .stopStore else m.endCommand coreOf cmd.issuer
  | .stopStore =>
    (m.setThread t fun th => { th with stopRequested := true, stopAccepted := true }).endCommand
      coreOf cmd.issuer
  | .resetLoad =>
    if state = .offline ∨ state = .halted then m.goOn cmd (.resetExchange state)
    else m.endCommand coreOf cmd.issuer
  | .resetExchange expected =>
    if state = expected then
      (m.setThread t fun th => { th with state := .starting }).goOn cmd .resetInit
    else m.goOn cmd .resetLoad
  | .resetInit => (m.setThread t cpuInit).goOn cmd .resetClear
  | .resetClear =>
    (m.setThread t fun th => { th with stopRequested := false }).goOn cmd .resetPublish
  | .resetPublish =>
    (m.setThread t fun th => { th with state := .offline }).endCommand coreOf cmd.issuer

/-- A transition. -/
inductive Act where
  /-- The worker of a core sees that the machine is to stop. -/
  | quit (c : Nat)
  /-- The service loop of a worker sees a WAITING thread of its core. -/
  | service (t : Nat)
  /-- The worker selects a RUNNABLE thread of its core. -/
  | select (t : Nat)
  | work (c : Nat) (input : Input)
  | command

/-- One transition; `coreOf` gives the core of each hardware thread. -/
def step (coreOf : Nat → Nat) (m : Machine) : Act → Option Machine
  | .quit c =>
    if m.workers c = .between ∧ m.stopRequested then some (m.setWorker c .returned) else none
  | .service t =>
    if m.workers (coreOf t) = .between ∧ (m.threads t).state = .waiting then
      some (m.setWorker (coreOf t) (.busy t .serviced))
    else none
  | .select t =>
    if m.workers (coreOf t) = .between ∧ (m.threads t).state = .runnable then
      some (m.setWorker (coreOf t) (.busy t .selected))
    else none
  | .work c input =>
    match m.workers c with
    | .busy t p => workerStep m c t input p
    | _ => none
  | .command => m.command.map (commandStep coreOf m)

/-- A thread that is not started. -/
def offlineThread : HardwareThread :=
  ⟨.offline, false, false, false, 0, 0, 0, false, false, false⟩

/-- The machine when the workers start: thread 0 is RUNNABLE. -/
def Machine.booted (resetVector : Nat) : Machine where
  threads := fun t =>
    if t = 0 then { offlineThread with state := .runnable, pc := resetVector, entry := resetVector }
    else offlineThread
  workers := fun _ => .between
  command := none
  stopRequested := false
  activeThreadCount := 1
  counted := {0}

end RiscMv.Vm
