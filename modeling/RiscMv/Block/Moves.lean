import RiscMv.ForStd.Run
import RiscMv.Block.Driver

/-!
# The steps of the driver and the device

`Move` lists the transitions of `step` with the point of the driver each one starts from, as
`Turn` does those of the worker.  The locks and the wait queue are then described call by call: a
call holds `kernel_block_lock` from `copyIn` or `check` to its return, also while it waits.

## Key results
- `step_move`: every step is one of the moves
- `Move.orderly`: the locks and the wait queue agree with the points the calls are at
-/

namespace RiscMv.Block

variable {cfg : Config} {dma : Nat} {s s' : State} {a : Action} {id : CallId} {cs : CallState}

/-- The steps of a call that runs with the big kernel lock. -/
inductive CallMove (cfg : Config) (dma : Nat) (s : State) (id : CallId) (cs : CallState) :
    State → Prop
  | lock (hpc : cs.pc = .enter) (hl : s.lock = none) : CallMove cfg dma s id cs
      ({ s with lock := some id }.goto id cs
        (if cs.call.kind = Kind.write then .copyIn else .check))
  | copyIn (hpc : cs.pc = .copyIn) : CallMove cfg dma s id cs
      ({ s with ram := s.ram.blit dma cs.call.buffer cs.call.byteCount }.goto id cs .check)
  | refuse (hpc : cs.pc = .check ∨ cs.pc = .begin) : CallMove cfg dma s id cs
      (s.goto id cs (.unlock false))
  | accept (hpc : cs.pc = .check) (hp : s.pending = false) : CallMove cfg dma s id cs
      (s.goto id cs .ackIrq)
  | ackIrq (hpc : cs.pc = .ackIrq) : CallMove cfg dma s id cs
      ((s.modDevice ({ · with irqStatus := .clear })).goto id cs .begin)
  | begin (hpc : cs.pc = .begin) (hp : s.pending = false) : CallMove cfg dma s id cs
      ({ s with
        success := false, error := .none, pending := true
        pendingCall := some id }.goto id cs .writeLba)
  | writeLba (hpc : cs.pc = .writeLba) : CallMove cfg dma s id cs
      ((s.modDevice ({ · with lba := cs.call.lba })).goto id cs .writeDmaAddress)
  | writeDmaAddress (hpc : cs.pc = .writeDmaAddress) : CallMove cfg dma s id cs
      ((s.modDevice ({ · with dmaAddress := dma })).goto id cs .writeSectorCount)
  | writeSectorCount (hpc : cs.pc = .writeSectorCount) : CallMove cfg dma s id cs
      ((s.modDevice ({ · with sectorCount := cs.call.sectorCount })).goto id cs .writeCommand)
  | writeCommand (hpc : cs.pc = .writeCommand) : CallMove cfg dma s id cs
      ((storeCommand cfg cs.call.kind.command id s).goto id cs .wait)
  | copyOut (hpc : cs.pc = .copyOut) : CallMove cfg dma s id cs
      (s.goto id { cs with output := s.ram.drop dma } (.unlock true))
  | unlock {ok : Bool} (hpc : cs.pc = .unlock ok) : CallMove cfg dma s id cs
      ({ s with lock := none, bkl := none }.goto id cs (.returned ok))

/-- The steps of a woken call that takes the big kernel lock again. -/
inductive ResumeMove (s : State) (id : CallId) (cs : CallState) : State → Prop
  | failed (hpc : cs.pc = .woken false) : ResumeMove s id cs
      ({ s with bkl := some (.call id), success := false, error := .io }.goto id cs
        (.unlock false))
  | unsuccessful (hpc : cs.pc = .woken true) : ResumeMove s id cs
      ({ s with bkl := some (.call id) }.goto id cs (.unlock false))
  | done (hpc : cs.pc = .woken true) (hs : s.success = true) : ResumeMove s id cs
      ({ s with bkl := some (.call id) }.goto id cs
        (if cs.call.kind = Kind.read then .copyOut else .unlock true))

/-- The transitions of the system. -/
inductive Move (cfg : Config) (dma : Nat) (s : State) : Action → State → Prop
  | start {id : CallId} {c : Call} (hb : s.bkl = none) (hnew : s.call id = none)
      (hv : c.valid cfg = true) : Move cfg dma s (.start id c)
      ({ s with bkl := some (.call id) }.goto id ⟨c, .enter, fun _ => 0⟩ .enter)
  | reject {id : CallId} {c : Call} (hb : s.bkl = none) (hnew : s.call id = none) :
      Move cfg dma s (.start id c) (s.goto id ⟨c, .enter, fun _ => 0⟩ (.returned false))
  | call {id : CallId} {cs : CallState} {s' : State} (hb : s.bkl = some (.call id))
      (hcs : s.call id = some cs) (h : CallMove cfg dma s id cs s') : Move cfg dma s .run s'
  | block {id : CallId} {cs : CallState} (hb : s.bkl = some (.call id))
      (hcs : s.call id = some cs) (hpc : cs.pc = .wait) : Move cfg dma s (.block true)
      ({ s with waiters := s.waiters ++ [id], bkl := none }.goto id cs .blocked)
  | blockFails {id : CallId} {cs : CallState} (hb : s.bkl = some (.call id))
      (hcs : s.call id = some cs) (hpc : cs.pc = .wait) : Move cfg dma s (.block false)
      ({ s with success := false, error := .io }.goto id cs (.unlock false))
  | resume {id : CallId} {cs : CallState} {s' : State} (hb : s.bkl = none)
      (hcs : s.call id = some cs) (h : ResumeMove s id cs s') : Move cfg dma s (.resume id) s'
  | timeout {id : CallId} {cs : CallState} (hb : s.bkl = none) (hcs : s.call id = some cs)
      (hpc : cs.pc = .blocked) : Move cfg dma s (.timeout id)
      ({ s with waiters := s.waiters.erase id }.goto id cs (.woken false))
  | interrupt (hb : s.bkl = none) (hi : s.irqLine = true) :
      Move cfg dma s .interrupt { s with irqLine := false, bkl := some (.handler .readIrq) }
  | handler {pc : HandlerPc} (hb : s.bkl = some (.handler pc)) :
      Move cfg dma s .handler (handlerStep s pc)
  | worker {h : Host} {d : Device} {ram : Bytes} {raised : Bool}
      (hw : workerStep cfg h s.ram s.device = some (d, ram, raised)) :
      Move cfg dma s (.worker h)
        { s with device := d, ram := ram, irqLine := s.irqLine || raised }

/-- Whether a call at this point holds `kernel_block_lock`. -/
def Pc.locked : Pc → Bool
  | .enter | .returned _ => false
  | _ => true

/-- Whether a call at this point runs with the big kernel lock. -/
def Pc.running : Pc → Bool
  | .blocked | .woken _ | .returned _ => false
  | _ => true

@[simp] theorem State.goto_call (s : State) (id : CallId) (cs : CallState) (pc : Pc) (j : CallId) :
    (s.goto id cs pc).call j = if j = id then some { cs with pc } else s.call j := by
  simp [State.goto, Function.update_apply]

/-- What holds of every call after one has moved. -/
theorem State.forall_goto {P : CallId → CallState → Prop} {pc : Pc} (hself : P id { cs with pc })
    (hne : ∀ j cs', j ≠ id → s.call j = some cs' → P j cs') (j : CallId) (cs' : CallState)
    (hj : (s.goto id cs pc).call j = some cs') : P j cs' := by
  rw [State.goto_call] at hj
  split at hj
  · next hji => cases hj; exact hji ▸ hself
  · next hji => exact hne j cs' hji hj

/-- The locks and the wait queue agree with the points the calls are at. -/
structure Orderly (s : State) : Prop where
  lock : ∀ id cs, s.call id = some cs → (cs.pc.locked = true ↔ s.lock = some id)
  running : ∀ id cs, s.call id = some cs → (cs.pc.running = true ↔ s.bkl = some (.call id))
  waiting : ∀ id cs, s.call id = some cs → (cs.pc = .blocked ↔ id ∈ s.waiters)
  holder : ∀ id, s.lock = some id → s.call id ≠ none
  waits : ∀ id ∈ s.waiters, s.call id ≠ none
  nodup : s.waiters.Nodup

/-- What a state must say about the call that moves and about the others. -/
theorem Orderly.goto (h : Orderly s) {pc : Pc}
    (hlock : ∀ j, j ≠ id → (s'.lock = some j ↔ s.lock = some j))
    (hbkl : ∀ j, j ≠ id → (s'.bkl = some (.call j) ↔ s.bkl = some (.call j)))
    (hwait : ∀ j, j ≠ id → (j ∈ s'.waiters ↔ j ∈ s.waiters))
    (hcall : s'.call = s.call) (hnodup : s'.waiters.Nodup)
    (hown : (pc.locked = true ↔ s'.lock = some id) ∧
      (pc.running = true ↔ s'.bkl = some (.call id)) ∧ (pc = .blocked ↔ id ∈ s'.waiters)) :
    Orderly (s'.goto id cs pc) where
  lock := State.forall_goto hown.1 fun j cs' hji hj =>
    (h.lock j cs' (hcall ▸ hj)).trans (hlock j hji).symm
  running := State.forall_goto hown.2.1 fun j cs' hji hj =>
    (h.running j cs' (hcall ▸ hj)).trans (hbkl j hji).symm
  waiting := State.forall_goto hown.2.2 fun j cs' hji hj =>
    (h.waiting j cs' (hcall ▸ hj)).trans (hwait j hji).symm
  holder := by
    intro j hj
    rw [State.goto_call]
    split
    · exact Option.some_ne_none _
    · next hji => exact hcall ▸ h.holder j ((hlock j hji).mp hj)
  waits := by
    intro j hj
    rw [State.goto_call]
    split
    · exact Option.some_ne_none _
    · next hji => exact hcall ▸ h.waits j ((hwait j hji).mp hj)
  nodup := hnodup

/-- A call that moves and leaves the locks and the wait queue alone. -/
theorem Orderly.advance (h : Orderly s) {pc : Pc} (hcall : s'.call = s.call)
    (hlock : s'.lock = s.lock) (hbkl : s'.bkl = s.bkl) (hwait : s'.waiters = s.waiters)
    (hown : (pc.locked = true ↔ s.lock = some id) ∧
      (pc.running = true ↔ s.bkl = some (.call id)) ∧ (pc = .blocked ↔ id ∈ s.waiters)) :
    Orderly (s'.goto id cs pc) := by
  refine h.goto ?_ ?_ ?_ hcall (hwait ▸ h.nodup) (by rwa [hlock, hbkl, hwait])
  · intro j _; rw [hlock]
  · intro j _; rw [hbkl]
  · intro j _; rw [hwait]

/-- A move that leaves the calls, the locks and the wait queue alone. -/
theorem Orderly.congr (h : Orderly s) (hcall : s'.call = s.call) (hlock : s'.lock = s.lock)
    (hbkl : ∀ j, s'.bkl = some (.call j) ↔ s.bkl = some (.call j))
    (hwait : s'.waiters = s.waiters) : Orderly s' where
  lock j cs' hj := by rw [hlock]; exact h.lock j cs' (hcall ▸ hj)
  running j cs' hj := (h.running j cs' (hcall ▸ hj)).trans (hbkl j).symm
  waiting j cs' hj := by rw [hwait]; exact h.waiting j cs' (hcall ▸ hj)
  holder j hj := by rw [hcall]; exact h.holder j (hlock ▸ hj)
  waits j hj := by rw [hcall]; exact h.waits j (hwait ▸ hj)
  nodup := by rw [hwait]; exact h.nodup

theorem CallMove.orderly (hm : CallMove cfg dma s id cs s') (h : Orderly s)
    (hb : s.bkl = some (.call id)) (hcs : s.call id = some cs) : Orderly s' := by
  have hlocked := h.lock id cs hcs
  have hnot : id ∉ s.waiters := by
    intro hw
    have hrun := (h.running id cs hcs).mpr hb
    rw [(h.waiting id cs hcs).mpr hw] at hrun
    cases hrun
  cases hm with
  | lock hpc hl =>
    refine h.goto ?_ (fun j _ => Iff.rfl) (fun j _ => Iff.rfl) rfl h.nodup ?_
    · intro j hj; simp [hl, Ne.symm hj]
    · split <;> simp [Pc.locked, Pc.running, hb, hnot]
  | unlock hpc =>
    have hlk : s.lock = some id := hlocked.mp (by rw [hpc]; rfl)
    refine h.goto ?_ ?_ (fun j _ => Iff.rfl) rfl h.nodup ?_
    · intro j hj; simp [hlk, Ne.symm hj]
    · intro j hj; simp [hb, Ne.symm hj]
    · simp [Pc.locked, Pc.running, hnot]
  | writeCommand hpc =>
    have hlk : s.lock = some id := hlocked.mp (by rw [hpc]; rfl)
    have hs : (storeCommand cfg cs.call.kind.command id s).call = s.call ∧
        (storeCommand cfg cs.call.kind.command id s).lock = s.lock ∧
        (storeCommand cfg cs.call.kind.command id s).bkl = s.bkl ∧
        (storeCommand cfg cs.call.kind.command id s).waiters = s.waiters := by
      unfold storeCommand
      dsimp only
      split <;> exact ⟨rfl, rfl, rfl, rfl⟩
    exact h.advance hs.1 hs.2.1 hs.2.2.1 hs.2.2.2 (by simp [Pc.locked, Pc.running, hlk, hb, hnot])
  | refuse hpc =>
    have hlk : s.lock = some id := hlocked.mp (by rcases hpc with hpc | hpc <;> rw [hpc] <;> rfl)
    exact h.advance rfl rfl rfl rfl (by simp [Pc.locked, Pc.running, hlk, hb, hnot])
  | copyIn hpc | accept hpc | ackIrq hpc | begin hpc | writeLba hpc | writeDmaAddress hpc
  | writeSectorCount hpc | copyOut hpc =>
    have hlk : s.lock = some id := hlocked.mp (by rw [hpc]; rfl)
    exact h.advance rfl rfl rfl rfl (by simp [Pc.locked, Pc.running, hlk, hb, hnot])

theorem ResumeMove.orderly (hm : ResumeMove s id cs s') (h : Orderly s) (hb : s.bkl = none)
    (hcs : s.call id = some cs) : Orderly s' := by
  have hlocked := h.lock id cs hcs
  have hwait := h.waiting id cs hcs
  cases hm with
  | failed hpc | unsuccessful hpc =>
    rw [hpc] at hlocked hwait
    refine h.goto (fun j _ => Iff.rfl) ?_ (fun j _ => Iff.rfl) rfl h.nodup ?_
    · intro j hj; simp [hb, Ne.symm hj]
    · simp [Pc.locked, Pc.running, hlocked.mp rfl, ← hwait]
  | done hpc hs =>
    rw [hpc] at hlocked hwait
    refine h.goto (fun j _ => Iff.rfl) ?_ (fun j _ => Iff.rfl) rfl h.nodup ?_
    · intro j hj; simp [hb, Ne.symm hj]
    · split <;> simp [Pc.locked, Pc.running, hlocked.mp rfl, ← hwait]

/-- Waking the first waiter moves one call from `blocked` to `woken`. -/
theorem Orderly.wakeOne (h : Orderly s) {ok : Bool} : Orderly (wakeOne ok s) := by
  unfold Block.wakeOne
  split
  · exact h
  · next j rest hw =>
    obtain ⟨cs, hcs⟩ := Option.ne_none_iff_exists'.mp (h.waits j (by simp [hw]))
    have hnodup := h.nodup
    rw [hw, List.nodup_cons] at hnodup
    have hblocked := (h.waiting j cs hcs).mpr (by simp [hw])
    have hlk := (h.lock j cs hcs).mp (by rw [hblocked]; rfl)
    have hrun := h.running j cs hcs
    rw [hblocked] at hrun
    rw [hcs]
    refine h.goto (fun k _ => Iff.rfl) (fun k _ => Iff.rfl) ?_ rfl hnodup.2 ?_
    · intro k hk; simp [hw, hk]
    · exact ⟨by simp [Pc.locked, hlk], by simp [Pc.running, ← hrun], by simp [hnodup.1]⟩

theorem handlerStep_orderly (h : Orderly s) {pc : HandlerPc} (hb : s.bkl = some (.handler pc)) :
    Orderly (handlerStep s pc) := by
  cases pc with
  | complete irq status error =>
    have hnone : Orderly { s with bkl := none } := h.congr rfl rfl (by simp [hb]) rfl
    unfold handlerStep
    dsimp only
    split
    · have hdone : Orderly (requestComplete irq status error { s with bkl := none }) :=
        hnone.congr rfl rfl (fun _ => Iff.rfl) rfl
      exact hdone.wakeOne
    · exact hnone
  | _ => exact h.congr rfl rfl (by simp [handlerStep, hb]) rfl

/-- Every move keeps the calls, the locks and the wait queue in agreement. -/
theorem Move.orderly (hm : Move cfg dma s a s') (h : Orderly s) : Orderly s' := by
  cases hm with
  | @start id c hb hnew hv =>
    have hnot : id ∉ s.waiters := fun hw => h.waits id hw hnew
    have hlk : s.lock ≠ some id := fun hl => h.holder id hl hnew
    refine h.goto (fun j _ => Iff.rfl) ?_ (fun j _ => Iff.rfl) rfl h.nodup ?_
    · intro j hj; simp [hb, Ne.symm hj]
    · simp [Pc.locked, Pc.running, hnot, hlk]
  | @reject id c hb hnew =>
    have hnot : id ∉ s.waiters := fun hw => h.waits id hw hnew
    have hlk : s.lock ≠ some id := fun hl => h.holder id hl hnew
    exact h.advance rfl rfl rfl rfl (by simp [Pc.locked, Pc.running, hb, hnot, hlk])
  | call hb hcs hc => exact hc.orderly h hb hcs
  | @block id cs hb hcs hpc =>
    have hlk := (h.lock id cs hcs).mp (by rw [hpc]; rfl)
    have hnot := (h.waiting id cs hcs).not.mp (by rw [hpc]; nofun)
    refine h.goto (fun j _ => Iff.rfl) ?_ ?_ rfl ?_ ?_
    · intro j hj; simp [hb, Ne.symm hj]
    · intro j hj; simp [hj]
    · exact List.nodup_append.mpr ⟨h.nodup, by simp, by grind⟩
    · simp [Pc.locked, Pc.running, hlk]
  | @blockFails id cs hb hcs hpc =>
    have hlk := (h.lock id cs hcs).mp (by rw [hpc]; rfl)
    have hnot := (h.waiting id cs hcs).not.mp (by rw [hpc]; nofun)
    exact h.advance rfl rfl rfl rfl (by simp [Pc.locked, Pc.running, hb, hnot, hlk])
  | resume hb hcs hr => exact hr.orderly h hb hcs
  | @timeout id cs hb hcs hpc =>
    have hlk := (h.lock id cs hcs).mp (by rw [hpc]; rfl)
    refine h.goto (fun j _ => Iff.rfl) (fun j _ => Iff.rfl) ?_ rfl (h.nodup.erase id) ?_
    · intro j hj; simp [List.mem_erase_of_ne hj]
    · simp [Pc.locked, Pc.running, hb, hlk, h.nodup.mem_erase_iff]
  | interrupt hb hi => exact h.congr rfl rfl (by simp [hb]) rfl
  | handler hb => exact handlerStep_orderly h hb
  | worker hw => exact h.congr rfl rfl (fun _ => Iff.rfl) rfl

end RiscMv.Block
