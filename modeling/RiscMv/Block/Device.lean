import Mathlib.Algebra.Order.Group.Nat

/-!
# The block device (`block_device.c`)

The registers of the device, `submit_request`, and the worker thread that executes an accepted
request: each access to the registers, to guest memory and to the backing file is one step of
the worker.  The result of a host operation (`fseek`, `fread`, `fwrite`, `fsync`, the DMA
callbacks) is an input of the step.

Sector numbers and counts are natural numbers: `submit_request` bounds them by the capacity, so
the byte offsets of the C code do not overflow.
-/

namespace RiscMv.Block

/-- A byte array of unspecified length, such as guest memory or the backing file. -/
abbrev Bytes := Nat → UInt8

/-- `n` bytes of `src` copied to `dst` at `offset`. -/
def Bytes.blit (dst : Bytes) (offset : Nat) (src : Bytes) (n : Nat) : Bytes := fun i =>
  if offset ≤ i ∧ i < offset + n then src (i - offset) else dst i

/-- The bytes from `offset` on. -/
def Bytes.drop (src : Bytes) (offset : Nat) : Bytes := fun i => src (offset + i)

/-- `VM_BLOCK_SECTOR_SIZE`. -/
def sectorSize : Nat := 512

/-- `VM_BLOCK_MAX_TRANSFER_SECTORS`. -/
def maxTransferSectors : Nat := 128

/-- `VM_BLOCK_COMMAND_READ`. -/
def commandRead : UInt64 := 1

/-- `VM_BLOCK_COMMAND_WRITE`. -/
def commandWrite : UInt64 := 2

/-- `VM_BLOCK_COMMAND_FLUSH`. -/
def commandFlush : UInt64 := 3

/-- `VmBlockError`, without the one that nothing reports. -/
inductive BlockError where
  | none
  | busy
  | command
  | range
  | dma
  | io
  | readOnly
  deriving DecidableEq, Repr

/-- The `VM_BLOCK_STATUS` bits. -/
structure Status where
  ready : Bool
  busy : Bool
  done : Bool
  error : Bool
  readOnly : Bool
  deriving DecidableEq, Repr

/-- The `VM_BLOCK_IRQ` bits. -/
structure Irq where
  complete : Bool
  error : Bool
  deriving DecidableEq, Repr

/-- No interrupt reason. -/
def Irq.clear : Irq := ⟨false, false⟩

/-- Bitwise or. -/
def Irq.or (a b : Irq) : Irq := ⟨a.complete || b.complete, a.error || b.error⟩

/-- A call of the driver. -/
abbrev CallId := Nat

/-- `BlockRequest`; `call` is history: the call that wrote the command register. -/
structure BlockRequest where
  command : UInt64
  lba : Nat
  dmaAddress : Nat
  sectorCount : Nat
  call : CallId
  deriving DecidableEq

/-- History: a transfer between the backing file and a request's staging buffer, with the number
    of bytes that reached the file or were read from it. -/
structure Transfer where
  call : CallId
  command : UInt64
  lba : Nat
  bytes : Bytes
  count : Nat

/-- What is fixed when the device is created. -/
structure Config where
  capacitySectors : Nat
  readOnly : Bool

/-- Where the worker thread is. -/
inductive Worker where
  /-- In `host_event_wait`. -/
  | waiting
  /-- In `execute_request`. -/
  | executing (r : BlockRequest)
  /-- In `execute_request`, with the staging buffer filled. -/
  | staged (r : BlockRequest) (staging : Bytes)
  /-- `execute_request` has returned. -/
  | executed (r : BlockRequest) (e : BlockError)
  /-- Status and error stored, about to call `raise_irq`. -/
  | reported (r : BlockRequest) (e : BlockError)
  /-- In `raise_irq`, with the reason stored. -/
  | raising (r : BlockRequest) (e : BlockError) (enabled : Bool)

/-- `BlockDevice`.  `irqEnable` is the control register, `disk` the backing file. -/
structure Device where
  lba : Nat
  dmaAddress : Nat
  sectorCount : Nat
  status : Status
  error : BlockError
  irqEnable : Bool
  irqStatus : Irq
  request : BlockRequest
  requestPending : Bool
  worker : Worker
  disk : Bytes
  /-- History: the transfers so far. -/
  log : List Transfer
  /-- History: the calls whose request was reported as done. -/
  completed : List CallId

variable (cfg : Config)

/-- `ready_status`. -/
def readyStatus : Status := ⟨true, false, false, false, cfg.readOnly⟩

/-- `submit_request`: the new state and the reason of an immediate interrupt. -/
def submitRequest (command : UInt64) (call : CallId) (d : Device) : Device × Irq :=
  let refuse (e : BlockError) : Device × Irq :=
    ({ d with status := { readyStatus cfg with error := true }, error := e }, ⟨false, true⟩)
  if d.status.busy then ({ d with error := .busy }, ⟨false, true⟩)
  else if command ≠ commandRead ∧ command ≠ commandWrite ∧ command ≠ commandFlush then
    refuse .command
  else if command = commandWrite ∧ cfg.readOnly then refuse .readOnly
  else if command ≠ commandFlush ∧ (d.sectorCount = 0 ∨ d.sectorCount > maxTransferSectors ∨
      d.lba ≥ cfg.capacitySectors ∨ d.sectorCount > cfg.capacitySectors - d.lba) then
    refuse .range
  else
    ({ d with
      request := ⟨command, d.lba, d.dmaAddress, d.sectorCount, call⟩
      status := ⟨false, true, false, false, cfg.readOnly⟩
      error := .none
      requestPending := true }, .clear)

/-- The number of bytes a request transfers. -/
def BlockRequest.byteCount (r : BlockRequest) : Nat := r.sectorCount * sectorSize

/-- The place of a request in the backing file. -/
def BlockRequest.fileOffset (r : BlockRequest) : Nat := r.lba * sectorSize

/-- The result of a host operation: whether it succeeds, and for `fwrite` how many bytes it
    writes. -/
structure Host where
  ok : Bool
  written : Nat

/-- `execute_request` up to the staging buffer, and all of a flush. -/
def executeRequest (h : Host) (ram : Bytes) (r : BlockRequest) (d : Device) : Device :=
  if r.command = commandFlush then
    { d with worker := .executed r (if cfg.readOnly ∨ h.ok then .none else .io) }
  else if r.command = commandWrite then
    if h.ok then { d with worker := .staged r (ram.drop r.dmaAddress) }
    else { d with worker := .executed r .dma }
  else if h.ok then
    { d with
      worker := .staged r (d.disk.drop r.fileOffset)
      log := ⟨r.call, r.command, r.lba, d.disk.drop r.fileOffset, r.byteCount⟩ :: d.log }
  else { d with worker := .executed r .io }

/-- `execute_request` from the staging buffer on: the device and the guest memory. -/
def executeStaged (h : Host) (ram : Bytes) (r : BlockRequest) (staging : Bytes) (d : Device) :
    Device × Bytes :=
  if r.command = commandWrite then
    let n := min h.written r.byteCount
    ({ d with
      disk := d.disk.blit r.fileOffset staging n
      log := ⟨r.call, r.command, r.lba, staging, n⟩ :: d.log
      worker := .executed r (if n = r.byteCount then .none else .io) }, ram)
  else if h.ok then
    ({ d with worker := .executed r .none }, ram.blit r.dmaAddress staging r.byteCount)
  else ({ d with worker := .executed r .dma }, ram)

/-- The interrupt reason of a request that ended with `e`. -/
def irqReason (e : BlockError) : Irq := ⟨e = .none, e ≠ .none⟩

/-- One step of `block_worker`: the device, the guest memory, and whether the interrupt line is
    raised. -/
def workerStep (h : Host) (ram : Bytes) (d : Device) : Option (Device × Bytes × Bool) :=
  match d.worker with
  | .waiting =>
    if d.requestPending then
      some ({ d with requestPending := false, worker := .executing d.request }, ram, false)
    else none
  | .executing r => some (executeRequest cfg h ram r d, ram, false)
  | .staged r staging =>
    let (d, ram) := executeStaged h ram r staging d
    some (d, ram, false)
  | .executed r e =>
    some ({ d with
      error := e
      status := { readyStatus cfg with done := e = .none, error := e ≠ .none }
      completed := if e = .none then r.call :: d.completed else d.completed
      worker := .reported r e }, ram, false)
  | .reported r e =>
    some ({ d with
      irqStatus := d.irqStatus.or (irqReason e)
      worker := .raising r e d.irqEnable }, ram, false)
  | .raising _ _ enabled => some ({ d with worker := .waiting }, ram, enabled)

/-- The steps of the worker. -/
inductive Turn (ram : Bytes) (d : Device) : Device → Bytes → Bool → Prop
  | take (hw : d.worker = .waiting) (hp : d.requestPending = true) :
      Turn ram d { d with requestPending := false, worker := .executing d.request } ram false
  | flush {r : BlockRequest} {e : BlockError} (hw : d.worker = .executing r)
      (hc : r.command = commandFlush) : Turn ram d { d with worker := .executed r e } ram false
  | fetch {r : BlockRequest} (hw : d.worker = .executing r) (hc : r.command = commandWrite) :
      Turn ram d { d with worker := .staged r (ram.drop r.dmaAddress) } ram false
  | read {r : BlockRequest} (hw : d.worker = .executing r) (hf : r.command ≠ commandFlush)
      (hc : r.command ≠ commandWrite) : Turn ram d { d with
        worker := .staged r (d.disk.drop r.fileOffset)
        log := ⟨r.call, r.command, r.lba, d.disk.drop r.fileOffset, r.byteCount⟩ :: d.log }
        ram false
  | fail {r : BlockRequest} {e : BlockError} (hw : d.worker = .executing r) (he : e ≠ .none) :
      Turn ram d { d with worker := .executed r e } ram false
  | store {r : BlockRequest} {staging : Bytes} {n : Nat} {e : BlockError}
      (hw : d.worker = .staged r staging) (hc : r.command = commandWrite) (hn : n ≤ r.byteCount)
      (he : e = .none ↔ n = r.byteCount) : Turn ram d { d with
        disk := d.disk.blit r.fileOffset staging n
        log := ⟨r.call, r.command, r.lba, staging, n⟩ :: d.log
        worker := .executed r e } ram false
  | load {r : BlockRequest} {staging : Bytes} (hw : d.worker = .staged r staging)
      (hc : r.command ≠ commandWrite) : Turn ram d { d with worker := .executed r .none }
        (ram.blit r.dmaAddress staging r.byteCount) false
  | failStaged {r : BlockRequest} {staging : Bytes} {e : BlockError}
      (hw : d.worker = .staged r staging) (he : e ≠ .none) :
      Turn ram d { d with worker := .executed r e } ram false
  | report {r : BlockRequest} {e : BlockError} (hw : d.worker = .executed r e) : Turn ram d { d with
      error := e
      status := { readyStatus cfg with done := e = .none, error := e ≠ .none }
      completed := if e = .none then r.call :: d.completed else d.completed
      worker := .reported r e } ram false
  | signal {r : BlockRequest} {e : BlockError} (hw : d.worker = .reported r e) : Turn ram d { d with
      irqStatus := d.irqStatus.or (irqReason e)
      worker := .raising r e d.irqEnable } ram false
  | raise {r : BlockRequest} {e : BlockError} {enabled : Bool}
      (hw : d.worker = .raising r e enabled) : Turn ram d { d with worker := .waiting } ram enabled

variable {cfg}

theorem workerStep_turn {h : Host} {ram ram' : Bytes} {d d' : Device} {raised : Bool}
    (hs : workerStep cfg h ram d = some (d', ram', raised)) : Turn cfg ram d d' ram' raised := by
  unfold workerStep at hs
  split at hs
  · next hw =>
    split at hs
    · next hp => cases hs; exact .take hw hp
    · cases hs
  · next r hw =>
    cases hs
    unfold executeRequest
    split
    · next hc => exact .flush hw hc
    · next hf =>
      split
      · next hc =>
        split
        · exact .fetch hw hc
        · exact .fail hw nofun
      · next hc =>
        split
        · exact .read hw hf hc
        · exact .fail hw nofun
  · next r staging hw =>
    simp only [Option.some.injEq, Prod.mk.injEq] at hs
    obtain ⟨rfl, rfl, rfl⟩ := hs
    unfold executeStaged
    split
    · next hc => exact .store hw hc (Nat.min_le_right _ _) (by simp)
    · next hc =>
      split
      · exact .load hw hc
      · exact .failStaged hw nofun
  · next hw => cases hs; exact .report hw
  · next hw => cases hs; exact .signal hw
  · next hw => cases hs; exact .raise hw

end RiscMv.Block
