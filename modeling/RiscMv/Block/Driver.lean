import RiscMv.Block.Device

/-!
# The block driver (`devices.c`) with its device

The driver in interrupt mode.  A call of `kernel_block_read`, `kernel_block_write` or
`kernel_block_flush` runs with the big kernel lock until it waits in
`kernel_scheduler_block_kernel`; every access to a device register is one step, between any two
of which the device's worker may run.  The interrupt handler and the timer run with the big
kernel lock as well.

The driver reads the capacity and the read-only flag from the device, so both use one `Config`.
-/

namespace RiscMv.Block

/-- The functions a call can be of. -/
inductive Kind where
  | read
  | write
  | flush
  deriving DecidableEq, Repr

/-- The command of a call. -/
def Kind.command : Kind → UInt64
  | .read => commandRead
  | .write => commandWrite
  | .flush => commandFlush

/-- The arguments of a call; a flush has `lba` and `sectorCount` 0. -/
structure Call where
  kind : Kind
  lba : Nat
  sectorCount : Nat
  buffer : Bytes

/-- The number of bytes a call transfers. -/
def Call.byteCount (c : Call) : Nat := c.sectorCount * sectorSize

/-- Where a call is. -/
inductive Pc where
  /-- About to take `kernel_block_lock`. -/
  | enter
  /-- About to copy the caller's buffer to the DMA page. -/
  | copyIn
  /-- About to test `kernel_block_request_pending` in `block_command`. -/
  | check
  | ackIrq
  /-- About to call `block_request_begin`. -/
  | begin
  | writeLba
  | writeDmaAddress
  | writeSectorCount
  | writeCommand
  /-- About to call `kernel_scheduler_block_kernel`. -/
  | wait
  /-- In `kernel_block_waiters`, without the big kernel lock. -/
  | blocked
  /-- Made runnable with `wake_result` 0 or not, without the big kernel lock. -/
  | woken (ok : Bool)
  /-- About to copy the DMA page to the caller's buffer. -/
  | copyOut
  | unlock (ok : Bool)
  | returned (ok : Bool)
  deriving DecidableEq, Repr

/-- A call in progress, with what a read has stored in the caller's buffer. -/
structure CallState where
  call : Call
  pc : Pc
  output : Bytes

/-- Where `handle_block_interrupt` is, with its local variables. -/
inductive HandlerPc where
  | readIrq
  | readStatus (irq : Irq)
  | readError (irq : Irq) (status : Status)
  | ack (irq : Irq) (status : Status) (error : BlockError)
  | complete (irq : Irq) (status : Status) (error : BlockError)

/-- Who runs with the big kernel lock. -/
inductive Context where
  | call (id : CallId)
  | handler (pc : HandlerPc)

/-- The driver and the device.  `ram` is guest memory, `irqLine` the pending interrupt of the
    device. -/
structure State where
  device : Device
  ram : Bytes
  irqLine : Bool
  pending : Bool
  success : Bool
  error : BlockError
  /-- The holder of `kernel_block_lock`. -/
  lock : Option CallId
  waiters : List CallId
  bkl : Option Context
  call : CallId → Option CallState
  /-- History: the call that set `kernel_block_request_pending`. -/
  pendingCall : Option CallId

/-- `KERNEL_PAGE_SIZE / VM_BLOCK_SECTOR_SIZE`. -/
def pageSectors : Nat := 4096 / 512

variable (cfg : Config) (dmaPhysical : Nat)

/-- The checks of the arguments at the start of a call. -/
def Call.valid (c : Call) : Bool :=
  match c.kind with
  | .flush => c.lba = 0 ∧ c.sectorCount = 0
  | .read => c.sectorCount ≠ 0 ∧ c.lba < cfg.capacitySectors ∧
      c.sectorCount ≤ cfg.capacitySectors - c.lba ∧ c.sectorCount ≤ pageSectors
  | .write => c.sectorCount ≠ 0 ∧ ¬ cfg.readOnly ∧ c.lba < cfg.capacitySectors ∧
      c.sectorCount ≤ cfg.capacitySectors - c.lba ∧ c.sectorCount ≤ pageSectors

namespace State

/-- Moves call `id` to `pc`. -/
def goto (s : State) (id : CallId) (cs : CallState) (pc : Pc) : State :=
  { s with call := Function.update s.call id (some { cs with pc }) }

/-- Updates the device. -/
def modDevice (s : State) (f : Device → Device) : State := { s with device := f s.device }

end State

/-- The store to the command register: `submit_request`, and `raise_irq` if it refuses. -/
def storeCommand (command : UInt64) (id : CallId) (s : State) : State :=
  let (d, irq) := submitRequest cfg command id s.device
  if irq = .clear then { s with device := d }
  else { s with
    device := { d with irqStatus := d.irqStatus.or irq }
    irqLine := s.irqLine || d.irqEnable }

/-- The next step of call `id`, which runs with the big kernel lock. -/
def callStep (s : State) (id : CallId) (cs : CallState) : Option State :=
  match cs.pc with
  | .enter =>
    -- another call that holds the lock makes this one spin
    if s.lock.isSome then none
    else some ({ s with lock := some id }.goto id cs
      (if cs.call.kind = Kind.write then .copyIn else .check))
  | .copyIn =>
    some ({ s with ram := s.ram.blit dmaPhysical cs.call.buffer cs.call.byteCount }.goto id cs
      .check)
  | .check =>
    if cs.call.sectorCount > pageSectors ∨ s.pending then some (s.goto id cs (.unlock false))
    else some (s.goto id cs .ackIrq)
  | .ackIrq => some ((s.modDevice ({ · with irqStatus := .clear })).goto id cs .begin)
  | .begin =>
    if s.pending then some (s.goto id cs (.unlock false))
    else some ({ s with
      success := false, error := .none, pending := true
      pendingCall := some id }.goto id cs .writeLba)
  | .writeLba =>
    some ((s.modDevice ({ · with lba := cs.call.lba })).goto id cs .writeDmaAddress)
  | .writeDmaAddress =>
    some ((s.modDevice ({ · with dmaAddress := dmaPhysical })).goto id cs .writeSectorCount)
  | .writeSectorCount =>
    some ((s.modDevice ({ · with sectorCount := cs.call.sectorCount })).goto id cs .writeCommand)
  | .writeCommand => some ((storeCommand cfg cs.call.kind.command id s).goto id cs .wait)
  | .copyOut =>
    some (s.goto id { cs with output := s.ram.drop dmaPhysical } (.unlock true))
  | .unlock ok => some ({ s with lock := none, bkl := none }.goto id cs (.returned ok))
  | .wait | .blocked | .woken _ | .returned _ => none

/-- `kernel_scheduler_block_kernel` in `block_wait`: the call is suspended, or the function
    fails at once. -/
def blockStep (s : State) (id : CallId) (cs : CallState) (ok : Bool) : Option State :=
  match cs.pc with
  | .wait =>
    if ok then some ({ s with waiters := s.waiters ++ [id], bkl := none }.goto id cs .blocked)
    else some ({ s with success := false, error := .io }.goto id cs (.unlock false))
  | _ => none

/-- The end of `block_wait` in a call that was woken, and its return to its caller. -/
def resumeStep (s : State) (id : CallId) (cs : CallState) : Option State :=
  match cs.pc with
  | .woken ok =>
    let s := { s with bkl := some (.call id) }
    if !ok then some ({ s with success := false, error := .io }.goto id cs (.unlock false))
    else if !s.success then some (s.goto id cs (.unlock false))
    else some (s.goto id cs (if cs.call.kind = Kind.read then .copyOut else .unlock true))
  | _ => none

/-- `block_request_complete`, when a request is pending. -/
def requestComplete (irq : Irq) (status : Status) (error : BlockError) (s : State) : State :=
  { s with
    error := error
    success := irq.complete && !irq.error && !status.error
    pending := false
    pendingCall := none }

/-- `kernel_wait_queue_wake_one` on `kernel_block_waiters`. -/
def wakeOne (ok : Bool) (s : State) : State :=
  match s.waiters with
  | [] => s
  | id :: rest =>
    match s.call id with
    | some cs => { s with waiters := rest }.goto id cs (.woken ok)
    | none => { s with waiters := rest }

/-- The next step of `handle_block_interrupt`. -/
def handlerStep (s : State) : HandlerPc → State
  | .readIrq => { s with bkl := some (.handler (.readStatus s.device.irqStatus)) }
  | .readStatus irq => { s with bkl := some (.handler (.readError irq s.device.status)) }
  | .readError irq status => { s with bkl := some (.handler (.ack irq status s.device.error)) }
  | .ack irq status error =>
    { s.modDevice (fun d => { d with irqStatus :=
        ⟨d.irqStatus.complete && !irq.complete, d.irqStatus.error && !irq.error⟩ }) with
      bkl := some (.handler (.complete irq status error)) }
  | .complete irq status error =>
    let s := { s with bkl := none }
    if s.pending then
      let s := requestComplete irq status error s
      wakeOne s.success s
    else s

/-- The inputs of a step. -/
inductive Action where
  /-- A thread calls the driver. -/
  | start (id : CallId) (c : Call)
  /-- The call that runs with the big kernel lock goes on. -/
  | run
  /-- It waits in `kernel_scheduler_block_kernel`, which may fail. -/
  | block (ok : Bool)
  /-- A woken call takes the big kernel lock again. -/
  | resume (id : CallId)
  /-- The timer expires the wait of a call. -/
  | timeout (id : CallId)
  /-- The interrupt of the device is taken. -/
  | interrupt
  /-- The interrupt handler goes on. -/
  | handler
  | worker (h : Host)

/-- One step of the driver, the handlers or the device. -/
def step (s : State) (a : Action) : Option State :=
  match a, s.bkl with
  | .start id c, none =>
    if (s.call id).isSome then none
    else if c.valid cfg then
      some ({ s with bkl := some (.call id) }.goto id ⟨c, .enter, fun _ => 0⟩ .enter)
    else some (s.goto id ⟨c, .enter, fun _ => 0⟩ (.returned false))
  | .run, some (.call id) => (s.call id).bind (callStep cfg dmaPhysical s id)
  | .block ok, some (.call id) => (s.call id).bind (blockStep s id · ok)
  | .resume id, none => (s.call id).bind (resumeStep s id)
  | .timeout id, none =>
    (s.call id).bind fun cs =>
      if cs.pc = .blocked then
        some ({ s with waiters := s.waiters.erase id }.goto id cs (.woken false))
      else none
  | .interrupt, none =>
    if s.irqLine then some { s with irqLine := false, bkl := some (.handler .readIrq) } else none
  | .handler, some (.handler pc) => some (handlerStep s pc)
  | .worker h, _ =>
    (workerStep cfg h s.ram s.device).map fun (d, ram, raised) =>
      { s with device := d, ram := ram, irqLine := s.irqLine || raised }
  | _, _ => none

/-- Whether the worker has no command to execute; it may still have to raise an interrupt. -/
def Worker.isIdle : Worker → Bool
  | .waiting | .reported _ _ | .raising _ _ _ => true
  | _ => false

/-- The device holds no command. -/
structure Idle (d : Device) : Prop where
  worker : d.worker.isIdle = true
  request : d.requestPending = false
  busy : d.status.busy = false

/-- The driver when `kernel_devices_enable_interrupts` returns, with any device, memory and
    interrupt line. -/
def initial (device : Device) (irqLine : Bool) (ram : Bytes) : State where
  device := device
  ram := ram
  irqLine := irqLine
  pending := false
  success := false
  error := .none
  lock := none
  waiters := []
  bkl := none
  call := fun _ => none
  pendingCall := none

end RiscMv.Block
