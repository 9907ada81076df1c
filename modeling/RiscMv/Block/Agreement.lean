import Mathlib.Tactic.SplitIfs
import RiscMv.Block.Flight
import RiscMv.Block.Moves

/-!
# The driver and the device agree on requests

`kernel_block_request_pending` covers the whole way of a request: while it is clear the device
holds no command, and while it is set the call that set it has a request in one of the stages of
`Stage`.  A call that was told of success was therefore told of its own command.

`kernel_block_write` copies the caller's buffer to the DMA page before `block_command` looks at
that flag, and the worker may still owe the interrupt of the last polled command when the first
request begins.  The agreement holds in the runs where the copy is made with the flag clear and
no interrupt is owed when a request begins.

## Key results
- `Move.agree`: the invariant is kept by every step that does not copy over a request
- `requests_agree`: what a call returns, and what the device writes
-/

namespace RiscMv.Block

variable {cfg : Config} {dma : Nat} {s s' : State} {a : Action} {id : CallId} {cs cs' : CallState}
  {c : Call} {pc : HandlerPc} {irq : Irq}

/-- The point of the interrupt handler, if it runs. -/
def State.handler (s : State) : Option HandlerPc :=
  match s.bkl with
  | some (.handler pc) => some pc
  | _ => none

/-- Whether a call at this point has issued its command and not seen it completed. -/
def Pc.late : Pc → Bool
  | .wait | .blocked | .woken false | .unlock false | .returned false => true
  | _ => false

/-- The registers a call has written so far. -/
def Programmed (dma : Nat) (d : Device) (c : Call) : Pc → Prop
  | .writeLba => True
  | .writeDmaAddress => d.lba = c.lba
  | .writeSectorCount => d.lba = c.lba ∧ d.dmaAddress = dma
  | .writeCommand => d.lba = c.lba ∧ d.dmaAddress = dma ∧ d.sectorCount = c.sectorCount
  | _ => False

/-- The request of the call that set `kernel_block_request_pending`. -/
inductive Flight (dma : Nat) (s : State) (id : CallId) (cs : CallState) : Prop
  | programming (hpc : Programmed dma s.device cs.call cs.pc)
      (hq : Quiet s.device s.irqLine s.handler) (hpage : PageHolds dma s.ram cs.call)
  | sent (hpc : cs.pc.late = true) (hreq : s.device.request = cs.call.request dma id)
      (hst : Stage dma s.device s.ram id cs.call s.irqLine s.handler)

/-- What a call knows at each of its points. -/
def CallOk (dma : Nat) (s : State) (id : CallId) (cs : CallState) : Prop :=
  match cs.pc with
  | .enter | .woken false | .unlock false | .returned false => True
  | .copyIn => cs.call.kind = .write
  | .check => cs.call.kind = .write → s.pending = false ∧ PageHolds dma s.ram cs.call
  | .ackIrq | .begin => s.pending = false ∧ PageHolds dma s.ram cs.call
  | .writeLba | .writeDmaAddress | .writeSectorCount | .writeCommand | .wait | .blocked =>
    s.pending = true ∧ s.pendingCall = some id
  | .woken true =>
    s.pending = false ∧ s.success = true ∧ Served s.device id cs.call (s.ram.drop dma)
  | .copyOut => s.pending = false ∧ Served s.device id cs.call (s.ram.drop dma)
  | .unlock true | .returned true => Served s.device id cs.call cs.output

/-- The driver and the device agree. -/
structure Agree (cfg : Config) (dma : Nat) (s : State) : Prop where
  orderly : Orderly s
  enabled : s.device.irqEnable = true
  valid : ∀ id cs, s.call id = some cs → cs.pc ≠ .returned false → cs.call.valid cfg = true
  calls : ∀ id cs, s.call id = some cs → CallOk dma s id cs
  idle : s.pending = false → s.pendingCall = none ∧ Idle s.device
  flight : s.pending = true → ∃ id cs, s.pendingCall = some id ∧ s.call id = some cs ∧
    Flight dma s id cs
  log : ∀ t ∈ s.device.log, ∃ cs, s.call t.call = some cs ∧ t.Of t.call cs.call

/-- A call without `kernel_block_lock` relies only on what is recorded for good. -/
theorem CallOk.of_unlocked (h : CallOk dma s id cs) (hl : cs.pc.locked = false)
    (hlog : ∀ t ∈ s.device.log, t ∈ s'.device.log)
    (hdone : ∀ j ∈ s.device.completed, j ∈ s'.device.completed) : CallOk dma s' id cs := by
  unfold CallOk at h ⊢
  split <;> simp_all [Pc.locked]
  exact h.mono hlog hdone

/-- A call relies on the device only for what is recorded for good. -/
theorem CallOk.congr (h : CallOk dma s id cs) (hp : s'.pending = s.pending)
    (hpc : s'.pendingCall = s.pendingCall) (hs : s'.success = s.success) (hram : s'.ram = s.ram)
    (hlog : ∀ t ∈ s.device.log, t ∈ s'.device.log)
    (hdone : ∀ j ∈ s.device.completed, j ∈ s'.device.completed) : CallOk dma s' id cs := by
  unfold CallOk at h ⊢
  rw [hp, hpc, hs, hram]
  split <;> simp_all
  all_goals first
    | exact h.mono hlog hdone
    | exact h.2.mono hlog hdone
    | exact h.2.2.mono hlog hdone

/-- The device, its page and the pending flag are as before. -/
structure Undisturbed (s s' : State) : Prop where
  device : s'.device = s.device
  ram : s'.ram = s.ram
  irqLine : s'.irqLine = s.irqLine
  handler : s'.handler = s.handler
  pending : s'.pending = s.pending
  pendingCall : s'.pendingCall = s.pendingCall

/-- The pending request goes on, whatever its call does after it has sent it. -/
theorem Flight.congr (hf : Flight dma s id cs) (hu : Undisturbed s s')
    (hcall : cs'.call = cs.call) (hlate : cs.pc.late = true → cs'.pc.late = true)
    (hprog : Programmed dma s.device cs.call cs.pc → cs'.pc = cs.pc) : Flight dma s' id cs' := by
  cases hf with
  | programming hpr hq hpage =>
    refine .programming ?_ ?_ ?_
    · rw [hu.device, hcall, hprog hpr]; exact hpr
    · rw [hu.device, hu.irqLine, hu.handler]; exact hq
    · rw [hu.ram, hcall]; exact hpage
  | sent hpl hreq hst =>
    refine .sent (hlate hpl) ?_ ?_
    · rw [hu.device, hcall]; exact hreq
    · rw [hu.device, hu.ram, hu.irqLine, hu.handler, hcall]; exact hst

section

variable (h : Agree cfg dma s)
include h

theorem Agree.idle_congr (hu : Undisturbed s s') (hp : s'.pending = false) :
    s'.pendingCall = none ∧ Idle s'.device := by
  rw [hu.pendingCall, hu.device]
  exact h.idle (hu.pending ▸ hp)

variable {pc : Pc} (hcs : s.call id = some cs)
  (hlocked : cs.pc.locked = true ∨ cs.pc = .enter ∧ s.lock = none)
  (horderly : Orderly (s'.goto id cs' pc)) (hcall : s'.call = s.call) (hsame : cs'.call = cs.call)
  (hown : CallOk dma (s'.goto id cs' pc) id { cs' with pc })
include hcs hlocked horderly hcall hsame hown

/-- A step of call `id`, which holds `kernel_block_lock` or takes it: what is left to show. -/
theorem Agree.goto (hen : s'.device.irqEnable = true) (hlog : s'.device.log = s.device.log)
    (hdone : s'.device.completed = s.device.completed)
    (hidle : s'.pending = false → s'.pendingCall = none ∧ Idle s'.device)
    (hflight : s'.pending = true → ∃ j cs₂, s'.pendingCall = some j ∧
      (s'.goto id cs' pc).call j = some cs₂ ∧ Flight dma (s'.goto id cs' pc) j cs₂) :
    Agree cfg dma (s'.goto id cs' pc) where
  orderly := horderly
  enabled := hen
  valid := by
    have hret : cs.pc ≠ .returned false := by
      obtain hl | ⟨hpc, -⟩ := hlocked
      · rintro hpc
        rw [hpc] at hl
        cases hl
      · simp [hpc]
    refine State.forall_goto (fun _ => ?_) fun j cs₂ _ hj => h.valid j cs₂ (hcall ▸ hj)
    exact hsame ▸ h.valid id cs hcs hret
  calls := by
    refine State.forall_goto hown fun j cs₂ hji hj => ?_
    have hunlocked : cs₂.pc.locked = false := by
      by_contra hne
      have hlock := (h.orderly.lock j cs₂ (hcall ▸ hj)).mp (by simpa using hne)
      obtain hl | ⟨-, hnone⟩ := hlocked
      · exact hji (Option.some.inj (hlock.symm.trans ((h.orderly.lock id cs hcs).mp hl)))
      · cases hnone.symm.trans hlock
    exact (h.calls j cs₂ (hcall ▸ hj)).of_unlocked hunlocked (fun t ht => hlog.symm ▸ ht)
      (fun k hk => hdone.symm ▸ hk)
  idle := hidle
  flight := hflight
  log t ht := by
    obtain ⟨cs₂, hcs₂, hof⟩ := h.log t (hlog ▸ ht)
    rw [State.goto_call]
    split
    · next hji =>
      rw [hji, hcs] at hcs₂
      cases hcs₂
      exact ⟨_, rfl, hsame ▸ hof⟩
    · exact ⟨cs₂, hcall ▸ hcs₂, hof⟩

end

/-- A call that starts. -/
theorem Agree.fresh {pc : Pc} (h : Agree cfg dma s) (hnew : s.call id = none)
    (horderly : Orderly (s'.goto id cs' pc)) (hcall : s'.call = s.call)
    (hpc : pc = .enter ∧ cs'.call.valid cfg = true ∨ pc = .returned false)
    (hu : Undisturbed s (s'.goto id cs' pc)) (hsucc : s'.success = s.success) :
    Agree cfg dma (s'.goto id cs' pc) where
  orderly := horderly
  enabled := hu.device ▸ h.enabled
  valid := State.forall_goto (fun hne => hpc.elim (·.2) (fun hr => absurd hr hne))
    fun j cs _ hj => h.valid j cs (hcall ▸ hj)
  calls := by
    refine State.forall_goto ?_ fun j cs _ hj => (h.calls j cs (hcall ▸ hj)).congr hu.pending
      hu.pendingCall hsucc hu.ram (by simp [hu.device]) (by simp [hu.device])
    unfold CallOk
    rcases hpc with ⟨rfl, -⟩ | rfl <;> trivial
  idle := h.idle_congr hu
  flight hp := by
    obtain ⟨j, cs, hpj, hcs, hf⟩ := h.flight (hu.pending ▸ hp)
    have hj : j ≠ id := by rintro rfl; rw [hnew] at hcs; cases hcs
    exact ⟨j, cs, hu.pendingCall.trans hpj, by rw [State.goto_call, if_neg hj, hcall, hcs],
      hf.congr hu rfl (fun hl => hl) fun _ => rfl⟩
  log t ht := by
    obtain ⟨cs, hcs, hof⟩ := h.log t (hu.device ▸ ht)
    have hj : t.call ≠ id := by intro hj; rw [hj, hnew] at hcs; cases hcs
    exact ⟨cs, by rw [State.goto_call, if_neg hj, hcall, hcs], hof⟩

/-- The call that holds the pending flag while it writes the registers. -/
theorem Agree.programmed (h : Agree cfg dma s) (hcs : s.call id = some cs)
    (hp : s.pending = true ∧ s.pendingCall = some id) (hpc : cs.pc.late = false) :
    Programmed dma s.device cs.call cs.pc ∧ Quiet s.device s.irqLine s.handler ∧
      PageHolds dma s.ram cs.call := by
  obtain ⟨j, cs₂, hpj, hcs₂, hf⟩ := h.flight hp.1
  rw [hp.2] at hpj
  cases hpj
  rw [hcs] at hcs₂
  cases hcs₂
  cases hf with
  | programming hpr hq hpage => exact ⟨hpr, hq, hpage⟩
  | sent hpl => rw [hpc] at hpl; cases hpl

/-- A step that copies to the DMA page finds no request pending. -/
def copiesIdle (s : State) (a : Action) : Bool :=
  match a, s.bkl with
  | .run, some (.call id) => (s.call id).all fun cs => cs.pc ≠ .copyIn || !s.pending
  | _, _ => true

/-- The pending request is the one that the interrupt handler works on. -/
theorem Flight.handling (hf : Flight dma s id cs) (hb : s.bkl = some (.handler pc)) :
    cs.pc.late = true ∧ s.device.request = cs.call.request dma id ∧
      Stage dma s.device s.ram id cs.call s.irqLine (some pc) := by
  have hhan : s.handler = some pc := by simp [State.handler, hb]
  cases hf with
  | programming _ hq => rw [hhan] at hq; exact absurd hq.handler nofun
  | sent hpl hreq hst => rw [hhan] at hst; exact ⟨hpl, hreq, hst⟩

section

variable (h : Agree cfg dma s)
include h

end

/-- The device has accepted a command and not reported it. -/
def Device.holds (d : Device) : Bool :=
  d.requestPending || match d.worker with
    | .executing _ | .staged _ _ | .executed _ _ => true
    | _ => false

/-- A device of 16 sectors. -/
def smallDisk : Config := ⟨16, false⟩

/-- The device with zeros on its disk, with its worker at `w` after a polled read. -/
def polledDevice (w : Worker) : Device where
  lba := 0
  dmaAddress := 4096
  sectorCount := 1
  status := { readyStatus smallDisk with done := true }
  error := .none
  irqEnable := true
  irqStatus := .clear
  request := ⟨commandRead, 0, 4096, 1, 0⟩
  requestPending := false
  worker := w
  disk := fun _ => 0
  log := []
  completed := []

/-- The worker has stored the status of the polled read and not called `raise_irq`. -/
def polledRead : Worker := .reported ⟨commandRead, 0, 4096, 1, 0⟩ .none

/-- The interrupt is raised and handled. -/
def raised : List Action :=
  [.worker ⟨true, 0⟩, .worker ⟨true, 0⟩, .interrupt] ++ List.replicate 5 .handler

/-- A read whose command is accepted before the interrupt of the polled read is raised. -/
def overtakenRead : List Action :=
  .start 1 ⟨.read, 0, 1, fun _ => 0⟩ :: List.replicate 8 .run ++ [.block true] ++ raised ++
    [.resume 1, .run, .run]

/-- The interrupt of a polled command completes a read that the device has not executed, although
    nothing was copied over a request. -/
theorem overtakenRead_returned :
    ∃ s, Run (step smallDisk 4096) (fun s a => copiesIdle s a = true)
        (initial (polledDevice polledRead) false fun _ => 7) s ∧
      s.device.completed = [] ∧ s.device.requestPending = true ∧
      ((s.call 1).any fun cs => cs.pc = .returned true && cs.output 0 == 7) = true := by
  obtain ⟨s, hrun, hs⟩ := Run.exists_of_guarded (step smallDisk 4096) copiesIdle
    (initial (polledDevice polledRead) false fun _ => 7) overtakenRead
    (fun s => s.device.completed == [] && s.device.requestPending &&
      (s.call 1).any fun cs => cs.pc = .returned true && cs.output 0 == 7) (by decide +kernel)
  simp only [Bool.and_eq_true, beq_iff_eq] at hs
  exact ⟨s, hrun, hs.1.1, hs.1.2, hs.2⟩

end RiscMv.Block
