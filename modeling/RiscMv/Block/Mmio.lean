import RiscMv.ForStd.Run
import RiscMv.Block.Device

/-!
# The registers of the block device (`block_device.c`)

`block_read`, `block_write` and `block_reset` as the bus calls them, in any order and with any
values, next to the worker.  Each holds the device's lock for its whole body; the interrupt of a
refused command is raised after the lock was released, so it is a step of its own.
-/

namespace RiscMv.Block

/-- Bit `i` of a register word. -/
def bit (i : UInt64) (b : Bool) : UInt64 := if b then 1 <<< i else 0

/-- Whether bit `i` of a register word is set. -/
def hasBit (i value : UInt64) : Bool := value &&& (1 <<< i) != 0

/-- The word in the STATUS register. -/
def Status.word (s : Status) : UInt64 :=
  bit 0 s.ready ||| bit 1 s.busy ||| bit 2 s.done ||| bit 3 s.error ||| bit 4 s.readOnly

/-- The word in the IRQ_STATUS register. -/
def Irq.word (i : Irq) : UInt64 := bit 0 i.complete ||| bit 1 i.error

/-- The word in the ERROR register. -/
def BlockError.word : BlockError → UInt64
  | .none => 0
  | .busy => 1
  | .command => 2
  | .range => 3
  | .dma => 4
  | .io => 5
  | .readOnly => 6

/-- Whether `execute_request` has returned without an error. -/
def Worker.succeeded : Worker → Bool
  | .executed _ .none => true
  | _ => false

namespace Mmio

/-! ## Registers (`block_protocol.h`) -/

def magicOffset : UInt64 := 0x00
def versionOffset : UInt64 := 0x08
def featuresOffset : UInt64 := 0x10
def capacityOffset : UInt64 := 0x18
def sectorSizeOffset : UInt64 := 0x20
def maxTransferOffset : UInt64 := 0x28
def lbaOffset : UInt64 := 0x30
def dmaAddressOffset : UInt64 := 0x38
def sectorCountOffset : UInt64 := 0x40
def commandOffset : UInt64 := 0x48
def statusOffset : UInt64 := 0x50
def errorOffset : UInt64 := 0x58
def controlOffset : UInt64 := 0x60
def irqStatusOffset : UInt64 := 0x68
def irqAckOffset : UInt64 := 0x70

/-- `VM_BLOCK_MAGIC`. -/
def magic : UInt64 := 0x314B4C42564D

/-- `VM_BLOCK_VERSION`. -/
def version : UInt64 := 1

variable (cfg : Config)

/-- `block_read`: the value of a register, `none` if the access is refused. -/
def blockRead (bar offset : UInt64) (width : Nat) (d : Device) : Option UInt64 :=
  if bar ≠ 0 ∨ width ≠ 8 then none
  else if offset = magicOffset then some magic
  else if offset = versionOffset then some version
  else if offset = featuresOffset then some (bit 0 true ||| bit 1 true ||| bit 2 cfg.readOnly)
  else if offset = capacityOffset then some cfg.capacitySectors.toUInt64
  else if offset = sectorSizeOffset then some sectorSize.toUInt64
  else if offset = maxTransferOffset then some maxTransferSectors.toUInt64
  else if offset = lbaOffset then some d.lba.toUInt64
  else if offset = dmaAddressOffset then some d.dmaAddress.toUInt64
  else if offset = sectorCountOffset then some d.sectorCount.toUInt64
  else if offset = commandOffset then some 0
  else if offset = statusOffset then some d.status.word
  else if offset = errorOffset then some d.error.word
  else if offset = controlOffset then some (bit 0 d.irqEnable)
  else if offset = irqStatusOffset then some d.irqStatus.word
  else if offset = irqAckOffset then some 0
  else none

/-- `block_write`: the device and the reason of an immediate interrupt, `none` if the access is
    refused.  `call` numbers the accepted commands. -/
def blockWrite (bar offset : UInt64) (width : Nat) (value : UInt64) (call : CallId)
    (d : Device) : Option (Device × Irq) :=
  if bar ≠ 0 ∨ width ≠ 8 then none
  else if offset = lbaOffset then some ({ d with lba := value.toNat }, .clear)
  else if offset = dmaAddressOffset then some ({ d with dmaAddress := value.toNat }, .clear)
  else if offset = sectorCountOffset then some ({ d with sectorCount := value.toNat }, .clear)
  else if offset = commandOffset then some (submitRequest cfg value call d)
  else if offset = statusOffset then
    some ({ d with
      status := { d.status with
        done := d.status.done && !hasBit 2 value, error := d.status.error && !hasBit 3 value }
      error := if hasBit 3 value then .none else d.error }, .clear)
  else if offset = controlOffset then some ({ d with irqEnable := hasBit 0 value }, .clear)
  else if offset = irqAckOffset then
    some ({ d with irqStatus := ⟨d.irqStatus.complete && !hasBit 0 value,
      d.irqStatus.error && !hasBit 1 value⟩ }, .clear)
  else none

/-- `block_reset`. -/
def blockReset (d : Device) : Device :=
  if d.status.busy then d
  else { d with
    lba := 0, dmaAddress := 0, sectorCount := 0
    status := readyStatus cfg
    error := .none
    irqEnable := false
    irqStatus := .clear }

/-- The device that `block_create` makes for a backing file. -/
def blockCreate (disk : Bytes) : Device where
  lba := 0
  dmaAddress := 0
  sectorCount := 0
  status := readyStatus cfg
  error := .none
  irqEnable := false
  irqStatus := .clear
  request := ⟨0, 0, 0, 0, 0⟩
  requestPending := false
  worker := .waiting
  disk := disk
  log := []
  completed := []

/-! ## Transitions -/

/-- History: a READ or WRITE that was carried out.  A WRITE copies from guest memory to the backing
    file, a READ the other way. -/
structure Execution where
  request : BlockRequest
  /-- What it copied from, when the bytes were fetched. -/
  source : Bytes
  /-- What it copied to, before and after. -/
  before : Bytes
  after : Bytes

/-- The device with guest memory and the accesses that are about to raise an interrupt. -/
structure State where
  device : Device
  ram : Bytes
  raising : List Irq
  /-- History: the requests of the accepted commands, oldest first. -/
  accepted : List BlockRequest
  /-- History: the requests that the worker began to execute. -/
  started : List BlockRequest
  /-- History: what the worker fetched bytes from last, at that time. -/
  fetched : Bytes
  /-- History: the transfers that were carried out. -/
  executed : List Execution
  /-- History: the requests whose DONE or ERROR status was stored. -/
  published : List (BlockRequest × BlockError)

/-- The state after `block_create`. -/
def State.create (disk ram : Bytes) : State :=
  ⟨blockCreate cfg disk, ram, [], [], [], fun _ => 0, [], []⟩

/-- The transitions. -/
inductive Action where
  | read (bar offset : UInt64) (width : Nat)
  | write (bar offset : UInt64) (width : Nat) (value : UInt64)
  /-- `raise_irq` of one of the writes whose command was refused. -/
  | raise (i : Nat)
  | reset
  | worker (h : Host)
  /-- Guest code changes its memory. -/
  | memory (ram : Bytes)

/-- Whether the worker makes the transition. -/
def Action.isWorker : Action → Bool
  | .worker _ => true
  | _ => false

/-- The history of a worker step from `w` to the device `d` and guest memory `ram`. -/
def State.record (s : State) (w : Worker) (d : Device) (ram : Bytes) : State :=
  match w with
  | .waiting => { s with started := s.started ++ [s.device.request] }
  | .executing r =>
    { s with fetched := if r.command = commandWrite then s.ram else s.device.disk }
  | .staged r _ => { s with
      executed := if d.worker.succeeded then s.executed ++ [if r.command = commandWrite then
          ⟨r, s.fetched, s.device.disk, d.disk⟩ else ⟨r, s.fetched, s.ram, ram⟩]
        else s.executed }
  | .executed r e => { s with published := s.published ++ [(r, e)] }
  | _ => s

/-- One transition.  A refused access changes nothing. -/
def step (s : State) : Action → Option State
  | .read _ _ _ => some s
  | .write bar offset width value =>
    match blockWrite cfg bar offset width value s.accepted.length s.device with
    | none => some s
    | some (d, irq) => some { s with
        device := d
        raising := if irq = .clear then s.raising else s.raising ++ [irq]
        -- `submit_request` returns 0 for an accepted command only
        accepted := if offset = commandOffset ∧ irq = .clear then s.accepted ++ [d.request]
          else s.accepted }
  | .raise i =>
    s.raising[i]?.map fun reason => { s with
      device := { s.device with irqStatus := s.device.irqStatus.or reason }
      raising := s.raising.eraseIdx i }
  | .reset => some { s with device := blockReset cfg s.device }
  | .worker h =>
    (workerStep cfg h s.ram s.device).map fun (d, ram, _) =>
      { s.record s.device.worker d ram with device := d, ram := ram }
  | .memory ram => some { s with ram := ram }

end Mmio

end RiscMv.Block
