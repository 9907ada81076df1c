import RiscMv.Block.Driver

/-!
# A request on its way

A command that the device has accepted passes through the stages of `Stage`: the worker takes it,
stages its bytes, carries it out, reports it and raises the interrupt; the handler then reads the
registers and completes it.  Each stage says what is known of the registers, of the DMA page and
of the transfers so far.

## Key results
- `Stage.worker`: a step of the worker leads from one stage to the next
- `Stage.interrupt`, `Stage.handler`: so do the interrupt and the steps of its handler
- `Stage.complete`: what the handler knows of the command it completes
- `workerStep_recorded`: the backing file holds what the transfers so far have written to it
-/

namespace RiscMv.Block

variable {cfg : Config} {dma : Nat} {d d' : Device} {ram ram' input : Bytes} {id : CallId}
  {c : Call} {line raised : Bool} {hp : Option HandlerPc} {h : Host} {irq : Irq}

/-- The request a call makes of the device. -/
def Call.request (dma : Nat) (id : CallId) (c : Call) : BlockRequest :=
  ⟨c.kind.command, c.lba, dma, c.sectorCount, id⟩

/-- The DMA page holds the buffer of a write. -/
def PageHolds (dma : Nat) (ram : Bytes) (c : Call) : Prop :=
  c.kind = .write → ∀ i < c.byteCount, ram (dma + i) = c.buffer i

/-- A transfer made for call `id`: at its place, and of its buffer if it is a write. -/
structure Transfer.Of (t : Transfer) (id : CallId) (c : Call) : Prop where
  call : t.call = id
  command : t.command = c.kind.command
  lba : t.lba = c.lba
  count : t.count ≤ c.byteCount
  bytes : c.kind = .write → ∀ i < t.count, t.bytes i = c.buffer i

/-- A transfer of all the bytes of call `id` was made, and if it is a read, `input` holds them. -/
def Moved (d : Device) (id : CallId) (c : Call) (input : Bytes) : Prop :=
  c.kind ≠ .flush → ∃ t ∈ d.log, t.Of id c ∧ t.count = c.byteCount ∧
    (c.kind = .read → ∀ i < c.byteCount, input i = t.bytes i)

/-- The device has completed the command of call `id`. -/
def Served (d : Device) (id : CallId) (c : Call) (input : Bytes) : Prop :=
  id ∈ d.completed ∧ Moved d id c input

theorem Moved.mono (hm : Moved d id c input) (hlog : ∀ t ∈ d.log, t ∈ d'.log) :
    Moved d' id c input := by
  intro hk
  obtain ⟨t, ht, hof⟩ := hm hk
  exact ⟨t, hlog t ht, hof⟩

theorem Served.mono (hs : Served d id c input) (hlog : ∀ t ∈ d.log, t ∈ d'.log)
    (hdone : ∀ j ∈ d.completed, j ∈ d'.completed) : Served d' id c input :=
  ⟨hdone id hs.1, hs.2.mono hlog⟩

/-- The staging buffer of a request: the caller's bytes, or those just read from the file. -/
structure StagedFor (d : Device) (id : CallId) (c : Call) (staging : Bytes) : Prop where
  transfers : c.kind ≠ .flush
  write : c.kind = .write → ∀ i < c.byteCount, staging i = c.buffer i
  read : c.kind = .read → ∃ t ∈ d.log, t.Of id c ∧ t.count = c.byteCount ∧ t.bytes = staging

/-- The registers after a request that ended with `e`. -/
structure Reports (dma : Nat) (d : Device) (ram : Bytes) (id : CallId) (c : Call)
    (e : BlockError) : Prop where
  error : d.status.error = decide (e ≠ .none)
  busy : d.status.busy = false
  served : e = .none → Served d id c (ram.drop dma)

/-- What the interrupt handler has read of a request that ended with `e`. -/
def Sees (d : Device) (e : BlockError) : HandlerPc → Prop
  | .readIrq => d.irqStatus = irqReason e
  | .readStatus irq => d.irqStatus = irqReason e ∧ irq = irqReason e
  | .readError irq status | .ack irq status _ =>
    d.irqStatus = irqReason e ∧ irq = irqReason e ∧ status = d.status
  | .complete irq status _ => d.irqStatus = .clear ∧ irq = irqReason e ∧ status = d.status

/-- The stages of the request of call `id`, with the interrupt line and the handler. -/
inductive Stage (dma : Nat) (d : Device) (ram : Bytes) (id : CallId) (c : Call) :
    Bool → Option HandlerPc → Prop
  | accepted (hw : d.worker = .waiting) (hp : d.requestPending = true)
      (hi : d.irqStatus = .clear) (hpage : PageHolds dma ram c) : Stage dma d ram id c false none
  | executing (hw : d.worker = .executing (c.request dma id)) (hp : d.requestPending = false)
      (hi : d.irqStatus = .clear) (hpage : PageHolds dma ram c) : Stage dma d ram id c false none
  | staged {staging : Bytes} (hw : d.worker = .staged (c.request dma id) staging)
      (hp : d.requestPending = false) (hi : d.irqStatus = .clear)
      (hst : StagedFor d id c staging) : Stage dma d ram id c false none
  | executed {e : BlockError} (hw : d.worker = .executed (c.request dma id) e)
      (hp : d.requestPending = false) (hi : d.irqStatus = .clear)
      (hm : e = .none → Moved d id c (ram.drop dma)) : Stage dma d ram id c false none
  | reported {e : BlockError} (hw : d.worker = .reported (c.request dma id) e)
      (hp : d.requestPending = false) (hi : d.irqStatus = .clear)
      (hr : Reports dma d ram id c e) : Stage dma d ram id c false none
  | raising {e : BlockError} (hw : d.worker = .raising (c.request dma id) e true)
      (hp : d.requestPending = false) (hi : d.irqStatus = irqReason e)
      (hr : Reports dma d ram id c e) : Stage dma d ram id c false none
  | signalled {e : BlockError} (hw : d.worker = .waiting) (hp : d.requestPending = false)
      (hi : d.irqStatus = irqReason e) (hr : Reports dma d ram id c e) :
      Stage dma d ram id c true none
  | handling {e : BlockError} {pc : HandlerPc} (hw : d.worker = .waiting)
      (hp : d.requestPending = false) (hs : Sees d e pc) (hr : Reports dma d ram id c e) :
      Stage dma d ram id c false (some pc)

/-! ## The worker -/

theorem Kind.command_eq_write {k : Kind} : k.command = commandWrite ↔ k = .write := by
  cases k <;> decide

theorem Kind.command_eq_flush {k : Kind} : k.command = commandFlush ↔ k = .flush := by
  cases k <;> decide

/-- What a step of the worker leaves alone, and the transfers it adds. -/
structure WorkerFrame (d d' : Device) : Prop where
  request : d'.request = d.request
  enabled : d'.irqEnable = d.irqEnable
  log : ∀ t ∈ d.log, t ∈ d'.log
  completed : ∀ j ∈ d.completed, j ∈ d'.completed

theorem workerStep_frame (hw : workerStep cfg h ram d = some (d', ram', raised)) :
    WorkerFrame d d' := by
  cases workerStep_turn hw with
  | read | store =>
    exact ⟨rfl, rfl, fun _ ht => List.mem_cons_of_mem _ ht, fun _ hj => hj⟩
  | report =>
    refine ⟨rfl, rfl, fun _ ht => ht, fun j hj => ?_⟩
    dsimp only
    split
    · exact List.mem_cons_of_mem _ hj
    · exact hj
  | _ => exact ⟨rfl, rfl, fun _ ht => ht, fun _ hj => hj⟩

/-- `execute_request` of a call's request fills the staging buffer or ends the request. -/
theorem executeRequest_stage (hp : d.requestPending = false) (hi : d.irqStatus = .clear)
    (hpage : PageHolds dma ram c) :
    Stage dma (executeRequest cfg h ram (c.request dma id) d) ram id c false none := by
  unfold executeRequest
  split
  · next hf =>
    have hk : c.kind = .flush := Kind.command_eq_flush.mp hf
    exact .executed rfl hp hi (fun _ hne => absurd hk hne)
  · next hf =>
    have hk : c.kind ≠ .flush := fun hk => hf (Kind.command_eq_flush.mpr hk)
    split
    · next hwr =>
      have hwr : c.kind = .write := Kind.command_eq_write.mp hwr
      split
      · -- the device reads the page, which holds the caller's buffer
        exact .staged rfl hp hi ⟨hk, fun _ => hpage hwr, by rw [hwr]; nofun⟩
      · exact .executed rfl hp hi nofun
    · next hwr =>
      have hwr : c.kind ≠ .write := fun hk => hwr (Kind.command_eq_write.mpr hk)
      split
      · refine .staged rfl hp hi ⟨hk, fun hw => absurd hw hwr, fun _ => ?_⟩
        refine ⟨_, List.mem_cons_self, ⟨rfl, rfl, rfl, Nat.le_refl _, ?_⟩, rfl, rfl⟩
        exact fun hw => absurd hw hwr
      · exact .executed rfl hp hi nofun

theorem Bytes.blit_add (dst src : Bytes) (offset n : Nat) {i : Nat} (hi : i < n) :
    dst.blit offset src n (offset + i) = src i := by
  simp [Bytes.blit, hi]

/-- The rest of `execute_request` carries the request out. -/
theorem executeStaged_stage {staging : Bytes} (hp : d.requestPending = false)
    (hi : d.irqStatus = .clear) (hst : StagedFor d id c staging) :
    Stage dma (executeStaged h ram (c.request dma id) staging d).1
      (executeStaged h ram (c.request dma id) staging d).2 id c false none := by
  unfold executeStaged
  split
  · next hwr =>
    have hwr : c.kind = .write := Kind.command_eq_write.mp hwr
    refine .executed rfl hp hi fun he _ => ?_
    refine ⟨_, List.mem_cons_self, ⟨rfl, rfl, rfl, Nat.min_le_right _ _, ?_⟩, ?_, ?_⟩
    · intro _ i hlt
      exact hst.write hwr i (Nat.lt_of_lt_of_le hlt (Nat.min_le_right _ _))
    · -- the request reports no error only if every byte reached the file
      split at he
      · assumption
      · cases he
    · rw [hwr]; nofun
  · next hwr =>
    have hwr : c.kind ≠ .write := fun hk => hwr (Kind.command_eq_write.mpr hk)
    split
    · refine .executed rfl hp hi fun _ hk => ?_
      have hread : c.kind = .read := by
        cases hc : c.kind with
        | read => rfl
        | write => exact absurd hc hwr
        | flush => exact absurd hc hk
      obtain ⟨t, ht, hof, hcount, hbytes⟩ := hst.read hread
      refine ⟨t, ht, hof, hcount, fun _ i hlt => ?_⟩
      rw [hbytes]
      exact Bytes.blit_add ram staging dma _ hlt
    · exact .executed rfl hp hi nofun

/-- A step of the worker leads from one stage to the next. -/
theorem Stage.worker (hs : Stage dma d ram id c line hp) (hreq : d.request = c.request dma id)
    (hen : d.irqEnable = true) (hw : workerStep cfg h ram d = some (d', ram', raised)) :
    Stage dma d' ram' id c (line || raised) hp := by
  cases hs with
  | accepted hwk hp hi hpage =>
    simp only [workerStep, hwk, hp, if_true] at hw
    cases hw
    exact .executing (by rw [hreq]) rfl hi hpage
  | executing hwk hp hi hpage =>
    simp only [workerStep, hwk] at hw
    cases hw
    exact executeRequest_stage hp hi hpage
  | staged hwk hp hi hst =>
    simp only [workerStep, hwk] at hw
    cases hw
    exact executeStaged_stage hp hi hst
  | @executed e hwk hp hi hm =>
    simp only [workerStep, hwk] at hw
    cases hw
    refine .reported rfl hp hi ⟨rfl, rfl, fun he => ?_⟩
    subst he
    exact ⟨List.mem_cons_self, hm rfl⟩
  | reported hwk hp hi hr =>
    simp only [workerStep, hwk] at hw
    cases hw
    refine .raising (by rw [hen]) hp ?_ ⟨hr.error, hr.busy, hr.served⟩
    simp [hi, Irq.or, Irq.clear]
  | raising hwk hp hi hr =>
    simp only [workerStep, hwk] at hw
    cases hw
    exact .signalled rfl hp hi ⟨hr.error, hr.busy, hr.served⟩
  | signalled hwk hp | handling hwk hp =>
    simp [workerStep, hwk, hp] at hw

/-- The backing file after the transfers of a log, of which the first is the last made. -/
def contents (disk : Bytes) : List Transfer → Bytes
  | [] => disk
  | t :: ts =>
    if t.command = commandWrite then
      (contents disk ts).blit (t.lba * sectorSize) t.bytes t.count
    else contents disk ts

/-- Every read of a log found the bytes that the transfers before it had left. -/
def ReadsBack (disk : Bytes) : List Transfer → Prop
  | [] => True
  | t :: ts => ReadsBack disk ts ∧
    (t.command ≠ commandWrite → t.bytes = (contents disk ts).drop (t.lba * sectorSize))

/-- The log tells how the file came from its first contents. -/
structure Recorded (first : Bytes) (d : Device) : Prop where
  disk : d.disk = contents first d.log
  reads : ReadsBack first d.log

/-- The device has nothing to do and nothing to say. -/
structure Quiet (d : Device) (line : Bool) (hp : Option HandlerPc) : Prop where
  waiting : d.worker = .waiting
  request : d.requestPending = false
  irq : d.irqStatus = .clear
  busy : d.status.busy = false
  line : line = false
  handler : hp = none

/-- A worker without a command has at most an interrupt to raise. -/
theorem Idle.step (hq : Idle d) (hw : workerStep cfg h ram d = some (d', ram', raised)) :
    Idle d' ∧ ram' = ram ∧ d'.log = d.log := by
  have hidle := hq.worker
  cases workerStep_turn hw with
  | take _ hp => cases hq.request.symm.trans hp
  | signal | raise => exact ⟨⟨rfl, hq.request, hq.busy⟩, rfl, rfl⟩
  | flush hwk | fetch hwk | read hwk | fail hwk | store hwk | load hwk | failStaged hwk
  | report hwk => simp [hwk, Worker.isIdle] at hidle

theorem Quiet.idle (hq : Quiet d line hp) : Idle d :=
  ⟨by rw [hq.waiting]; rfl, hq.request, hq.busy⟩

/-- The interrupt of a finished request starts the handler. -/
theorem Stage.interrupt (hs : Stage dma d ram id c true none) :
    Stage dma d ram id c false (some .readIrq) := by
  cases hs with
  | signalled hw hp hi hr => exact .handling hw hp hi hr

/-- What is known while the handler runs. -/
theorem Stage.handled {pc : HandlerPc} (hs : Stage dma d ram id c line (some pc)) :
    line = false ∧ d.worker = .waiting ∧ d.requestPending = false ∧
      ∃ e, Sees d e pc ∧ Reports dma d ram id c e := by
  cases hs with
  | handling hw hp hs hr => exact ⟨rfl, hw, hp, _, hs, hr⟩

/-- The handler goes on; at most it clears the interrupt status. -/
theorem Stage.handler {pc pc' : HandlerPc} (hs : Stage dma d ram id c line (some pc))
    (hsees : ∀ e, Sees d e pc → Sees { d with irqStatus := irq } e pc') :
    Stage dma { d with irqStatus := irq } ram id c line (some pc') := by
  obtain ⟨rfl, hw, hp, e, hs, hr⟩ := hs.handled
  exact .handling hw hp (hsees e hs) ⟨hr.error, hr.busy, hr.served⟩

/-- The handler completes the command that the device reported. -/
theorem Stage.complete {status : Status} {error : BlockError}
    (hs : Stage dma d ram id c line (some (.complete irq status error))) :
    Quiet d line none ∧
      ((irq.complete && !irq.error && !status.error) = true → Served d id c (ram.drop dma)) := by
  obtain ⟨rfl, hw, hp, e, ⟨hclear, hirq, hst⟩, hr⟩ := hs.handled
  refine ⟨⟨hw, hp, hclear, hr.busy, rfl, rfl⟩, fun hok => hr.served ?_⟩
  rw [hirq] at hok
  by_contra he
  simp [irqReason, he] at hok

end RiscMv.Block
