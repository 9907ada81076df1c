import RiscMv.Block.Mmio

/-!
# Every accepted command is served once

The requests of the accepted commands are, in order, those whose status was published and then
the one in flight, if any; BUSY is set exactly while one is in flight.  The worker executes them
in that order, each with the values latched when its command was accepted, and carries out one
transfer for each READ or WRITE whose status is published without an error.

## Key results
- `step_served`, `step_executes`, `step_latched`: one transition
- `commands_served_once`: every run
-/

namespace RiscMv.Block

/-- The request that the worker is executing. -/
def Device.working (d : Device) : Option BlockRequest :=
  match d.worker with
  | .executing r | .staged r _ | .executed r _ => some r
  | _ => none

/-- The request that was accepted and not published yet. -/
def Device.flight (d : Device) : List BlockRequest :=
  match d.working with
  | some r => [r]
  | none => if d.requestPending then [d.request] else []

/-- The READ or WRITE that was carried out and not published yet. -/
def Device.carriedOut (d : Device) : Option BlockRequest :=
  match d.worker with
  | .executed r .none => if r.command = commandFlush then none else some r
  | _ => none

namespace Mmio

variable (cfg : Config) {ram : Bytes} {host : Host} {raised : Bool} {n : Nat}

/-- A command that may be accepted. -/
structure Legal (command : UInt64) (lba sectorCount : Nat) : Prop where
  known : command = commandRead ∨ command = commandWrite ∨ command = commandFlush
  writable : command = commandWrite → cfg.readOnly = false
  range : command ≠ commandFlush → 0 < sectorCount ∧ sectorCount ≤ maxTransferSectors ∧
    lba + sectorCount ≤ cfg.capacitySectors

/-- The accepted commands, those executed and those published. -/
structure ServedOnce (s : State) : Prop where
  accepted : s.accepted = s.published.map Prod.fst ++ s.device.flight
  started : s.started = s.published.map Prod.fst ++ s.device.working.toList
  busy : s.device.status.busy = true ↔ s.device.flight ≠ []
  legal : ∀ r ∈ s.accepted, Legal cfg r.command r.lba r.sectorCount
  numbered : s.accepted.map (·.call) = List.range s.accepted.length

/-- Whether a published request is a READ or WRITE without an error. -/
def isTransfer (p : BlockRequest × BlockError) : Bool :=
  p.2 = .none ∧ p.1.command ≠ commandFlush

/-- The transfers that were carried out. -/
structure ExecutedOnce (s : State) : Prop where
  /-- One for each READ or WRITE published without an error, in that order, and no other but one
      that is about to be published. -/
  once : s.executed.map (·.request) =
    (s.published.filter isTransfer).map Prod.fst ++ s.device.carriedOut.toList
  /-- A transfer copies the request's sectors between its LBA and its DMA address. -/
  effect : ∀ x ∈ s.executed, x.after =
    if x.request.command = commandWrite then
      x.before.blit (x.request.lba * sectorSize) (x.source.drop x.request.dmaAddress)
        (x.request.sectorCount * sectorSize)
    else x.before.blit x.request.dmaAddress (x.source.drop (x.request.lba * sectorSize))
      (x.request.sectorCount * sectorSize)

variable {cfg} {s s' : State} {a : Action} {d : Device}

/-! ## The transitions -/

/-- The device after an accepted command. -/
def acceptRequest (cfg : Config) (value : UInt64) (call : CallId) (d : Device) : Device :=
  { d with
    request := ⟨value, d.lba, d.dmaAddress, d.sectorCount, call⟩
    status := ⟨false, true, false, false, cfg.readOnly⟩
    error := .none
    requestPending := true }

/-- Registers that may change while a request is in flight. -/
structure Registers (d d' : Device) : Prop where
  worker : d'.worker = d.worker
  pending : d'.requestPending = d.requestPending
  request : d'.request = d.request
  busy : d'.status.busy = d.status.busy
  disk : d'.disk = d.disk

/-- The transitions of `step`. -/
inductive Move (cfg : Config) (s : State) (a : Action) : State → Prop
  | registers {d : Device} {raising : List Irq} {ram : Bytes} (hd : Registers s.device d)
      (hram : (∀ ram, a ≠ .memory ram) → ram = s.ram) (hw : a.isWorker = false) :
      Move cfg s a { s with device := d, raising := raising, ram := ram }
  | accept {value : UInt64} (ha : a = .write 0 commandOffset 8 value)
      (hb : s.device.status.busy = false)
      (hl : Legal cfg value s.device.lba s.device.sectorCount) : Move cfg s a { s with
        device := acceptRequest cfg value s.accepted.length s.device
        accepted := s.accepted ++ [⟨value, s.device.lba, s.device.dmaAddress,
          s.device.sectorCount, s.accepted.length⟩] }
  | work {h : Host} {d : Device} {ram : Bytes} {raised : Bool} (ha : a = .worker h)
      (hs : workerStep cfg h s.ram s.device = some (d, ram, raised)) :
      Move cfg s a { s.record s.device.worker d ram with device := d, ram := ram }

/-- The worker takes a request only when it has none, and stages no flush. -/
structure Serving (cfg : Config) (s : State) : Prop extends ServedOnce cfg s where
  single : s.device.working ≠ none → s.device.requestPending = false
  staged : ∀ r staging, s.device.worker = .staged r staging → r.command ≠ commandFlush

theorem flight_eq_nil (h : d.flight = []) : d.working = none ∧ d.requestPending = false := by
  unfold Device.flight at h
  split at h
  · cases h
  · next hw =>
    split at h
    · cases h
    · next hp => exact ⟨hw, by simpa using hp⟩

/-- The commands stay as they are. -/
theorem Serving.same {t : State} (h : Serving cfg s) (hacc : t.accepted = s.accepted)
    (hpub : t.published = s.published) (hstarted : t.started = s.started)
    (hw : t.device.working = s.device.working) (hf : t.device.flight = s.device.flight)
    (hp : t.device.requestPending = s.device.requestPending)
    (hb : t.device.status.busy = s.device.status.busy)
    (hst : ∀ r staging, t.device.worker = .staged r staging → r.command ≠ commandFlush) :
    Serving cfg t where
  accepted := by rw [hacc, hpub, hf]; exact h.accepted
  started := by rw [hstarted, hpub, hw]; exact h.started
  busy := by rw [hb, hf]; exact h.busy
  legal := by rw [hacc]; exact h.legal
  numbered := by rw [hacc]; exact h.numbered
  single := by rw [hw, hp]; exact h.single
  staged := hst

theorem Serving.registers {raising : List Irq} (h : Serving cfg s) (hd : Registers s.device d) :
    Serving cfg { s with device := d, raising := raising, ram := ram } := by
  have hworking : d.working = s.device.working := by
    rw [Device.working, Device.working, hd.worker]
  have hflight : d.flight = s.device.flight := by
    rw [Device.flight, Device.flight, hworking, hd.pending, hd.request]
  exact h.same rfl rfl rfl hworking hflight hd.pending hd.busy (by rw [hd.worker]; exact h.staged)

theorem Serving.accept {value : UInt64} (h : Serving cfg s)
    (hb : s.device.status.busy = false)
    (hl : Legal cfg value s.device.lba s.device.sectorCount) :
    Serving cfg { s with
      device := acceptRequest cfg value s.accepted.length s.device
      accepted := s.accepted ++ [⟨value, s.device.lba, s.device.dmaAddress,
        s.device.sectorCount, s.accepted.length⟩] } := by
  have hnone : s.device.flight = [] := by
    by_contra hne
    rw [h.busy.mpr hne] at hb
    cases hb
  have hworking := (flight_eq_nil hnone).1
  have hworking' : (acceptRequest cfg value s.accepted.length s.device).working = none := hworking
  have hflight : (acceptRequest cfg value s.accepted.length s.device).flight =
      [⟨value, s.device.lba, s.device.dmaAddress, s.device.sectorCount, s.accepted.length⟩] := by
    rw [Device.flight, hworking']
    rfl
  have hacc := h.accepted
  rw [hnone, List.append_nil] at hacc
  exact {
    accepted := by rw [hflight, ← hacc]
    started := by
      rw [hworking', ← hworking]
      exact h.started
    busy := by
      rw [hflight]
      simp [acceptRequest]
    legal := by
      intro r hr
      rcases List.mem_append.mp hr with hr | hr
      · exact h.legal r hr
      · rw [List.mem_singleton.mp hr]
        exact hl
    numbered := by
      rw [List.map_append, h.numbered, List.length_append, List.length_singleton,
        List.range_succ]
      rfl
    single := fun hne => absurd hworking' hne
    staged := h.staged }

theorem Serving.work (h : Serving cfg s)
    (hs : workerStep cfg host s.ram s.device = some (d, ram, raised)) :
    Serving cfg { s.record s.device.worker d ram with device := d, ram := ram } := by
  cases workerStep_turn hs with
  | take hw hp =>
    have hworking : s.device.working = none := by rw [Device.working, hw]
    have hflight : s.device.flight = [s.device.request] := by
      rw [Device.flight, hworking]
      exact if_pos hp
    rw [hw]
    exact {
      accepted := by rw [State.record, h.accepted, hflight]; rfl
      started := by rw [State.record, h.started, hworking]; simp [Device.working]
      busy := by
        rw [h.busy, hflight]
        simp [Device.flight, Device.working]
      legal := h.legal
      numbered := h.numbered
      single := fun _ => rfl
      staged := nofun }
  | fetch hw hc =>
    rw [hw]
    refine h.same rfl rfl rfl (by simp [Device.working, hw])
      (by simp [Device.flight, Device.working, hw]) rfl rfl fun r' staging hst => ?_
    cases hst
    rw [hc]
    decide
  | read hw hf _ =>
    rw [hw]
    refine h.same rfl rfl rfl (by simp [Device.working, hw])
      (by simp [Device.flight, Device.working, hw]) rfl rfl fun r' staging hst => ?_
    cases hst
    exact hf
  | flush hw | fail hw | store hw | load hw | failStaged hw | signal hw | raise hw =>
    rw [hw]
    exact h.same rfl rfl rfl (by simp [Device.working, hw])
      (by simp [Device.flight, Device.working, hw]) rfl rfl nofun
  | @report r e hw =>
    have hworking : s.device.working = some r := by rw [Device.working, hw]
    have hpending := h.single (by simp [hworking])
    have hflight : s.device.flight = [r] := by rw [Device.flight, hworking]
    rw [hw]
    exact {
      accepted := by
        rw [State.record, h.accepted, hflight]
        simp [Device.flight, Device.working, hpending]
      started := by
        rw [State.record, h.started, hworking]
        simp [Device.working]
      busy := by simp [Device.flight, Device.working, hpending, readyStatus]
      legal := h.legal
      numbered := h.numbered
      single := fun _ => hpending
      staged := nofun }

/-- The worker holds the bytes of the request it is about to finish. -/
structure Executing (s : State) : Prop extends ExecutedOnce s where
  source : ∀ r staging, s.device.worker = .staged r staging →
    staging = if r.command = commandWrite then s.fetched.drop r.dmaAddress
      else s.fetched.drop (r.lba * sectorSize)

/-- A step before or after the transfer. -/
theorem Executing.idle {t : State} (h : Executing s) (hx : t.executed = s.executed)
    (hp : (t.published.filter isTransfer).map Prod.fst ++ t.device.carriedOut.toList =
      (s.published.filter isTransfer).map Prod.fst ++ s.device.carriedOut.toList)
    (hst : ∀ r staging, t.device.worker = .staged r staging →
      staging = if r.command = commandWrite then t.fetched.drop r.dmaAddress
        else t.fetched.drop (r.lba * sectorSize)) : Executing t where
  once := by rw [hx, hp]; exact h.once
  effect := by rw [hx]; exact h.effect
  source := hst

/-- The step that carries a transfer out. -/
theorem Executing.carry {t : State} {x : Execution} (h : Executing s)
    (hx : t.executed = s.executed ++ [x]) (hp : t.published = s.published)
    (hnone : s.device.carriedOut = none) (hout : t.device.carriedOut = some x.request)
    (heffect : x.after = if x.request.command = commandWrite then
        x.before.blit (x.request.lba * sectorSize) (x.source.drop x.request.dmaAddress)
          (x.request.sectorCount * sectorSize)
      else x.before.blit x.request.dmaAddress (x.source.drop (x.request.lba * sectorSize))
        (x.request.sectorCount * sectorSize))
    (hst : ∀ r staging, t.device.worker ≠ .staged r staging) : Executing t where
  once := by
    have honce := h.once
    rw [hnone, Option.toList_none, List.append_nil] at honce
    rw [hx, hp, hout, List.map_append, honce]
    rfl
  effect y hy := by
    rw [hx] at hy
    rcases List.mem_append.mp hy with hy | hy
    · exact h.effect y hy
    · rw [List.mem_singleton.mp hy]
      exact heffect
  source r staging heq := absurd heq (hst r staging)

theorem Executing.work (h : Executing s) (hv : Serving cfg s)
    (hs : workerStep cfg host s.ram s.device = some (d, ram, raised)) :
    Executing { s.record s.device.worker d ram with device := d, ram := ram } := by
  cases workerStep_turn hs with
  | take hw | signal hw | raise hw =>
    rw [hw]
    exact h.idle rfl (by simp [State.record, Device.carriedOut, hw]) nofun
  | @flush r e hw hc =>
    rw [hw]
    exact h.idle rfl (by cases e <;> simp [State.record, Device.carriedOut, hw, hc]) nofun
  | @fail r e hw he =>
    rw [hw]
    exact h.idle rfl (by cases e <;> simp_all [State.record, Device.carriedOut]) nofun
  | @failStaged r staging e hw he =>
    rw [hw]
    refine h.idle ?_ ?_ nofun
    · cases e <;> simp_all [State.record, Worker.succeeded]
    · cases e <;> simp_all [State.record, Device.carriedOut]
  | fetch hw hc | read hw _ hc =>
    rw [hw]
    refine h.idle rfl (by simp [State.record, Device.carriedOut, hw]) fun r' staging hst => ?_
    cases hst
    simp [State.record, hc, BlockRequest.fileOffset]
  | @store r staging n e hw hc hn he =>
    have hflush : r.command ≠ commandFlush := hv.staged r staging hw
    have hnone : s.device.carriedOut = none := by rw [Device.carriedOut, hw]
    rw [hw]
    by_cases hall : e = .none
    · obtain rfl := he.mp hall
      subst hall
      have hsource := h.source r staging hw
      rw [if_pos hc] at hsource
      refine h.carry (x := ⟨r, s.fetched, s.device.disk, s.device.disk.blit _ staging _⟩)
        (by simp only [State.record, hc, if_true]; rfl) rfl hnone ?_ ?_ nofun
      · simp [Device.carriedOut, hflush]
      · rw [if_pos hc, ← hsource]
        rfl
    · refine h.idle ?_ ?_ nofun
      · cases e <;> simp_all [State.record, Worker.succeeded]
      · cases e <;> simp_all [State.record, Device.carriedOut]
  | @load r staging hw hc =>
    have hflush : r.command ≠ commandFlush := hv.staged r staging hw
    have hnone : s.device.carriedOut = none := by rw [Device.carriedOut, hw]
    rw [hw]
    have hsource := h.source r staging hw
    rw [if_neg hc] at hsource
    refine h.carry (x := ⟨r, s.fetched, s.ram, s.ram.blit _ staging _⟩)
      (by simp only [State.record, hc, if_false]; rfl) rfl hnone ?_ ?_ nofun
    · simp [Device.carriedOut, hflush]
    · rw [if_neg hc, ← hsource]
      rfl
  | @report r e hw =>
    rw [hw]
    refine h.idle rfl ?_ nofun
    simp only [State.record, Device.carriedOut, hw, List.filter_append, List.map_append]
    cases e <;> simp [isTransfer, List.filter_cons, apply_ite]

/-- The worker steps until nothing is in flight. -/
def workerSteps (d : Device) : Nat :=
  let pending := if d.requestPending then 4 else 0
  match d.worker with
  | .waiting => pending
  | .executing _ => 3
  | .staged _ _ => 2
  | .executed _ _ => 1
  | .reported _ _ => pending + 2
  | .raising _ _ _ => pending + 1

/-- The worker steps until the first `n` accepted commands are published. -/
def remaining (n : Nat) (s : State) : Nat :=
  if n ≤ s.published.length then 0 else workerSteps s.device

end Mmio

end RiscMv.Block
