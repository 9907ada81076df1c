import RiscMv.Spec.Children

/-!
# What a section can do

A section works for one thread, the one that trapped or that waits in the function the
section continues.  `Acts` lists what it may do on the way: small changes to other threads,
any change to its own thread that leaves the run queue alone, changes to its processor's
record and to its process.  `Outcome` lists the ways it can end.

## Key results
- `Acts.moves`: a section treats other threads as `Moves` says
- `MicroSteps.ready`, `MicroSteps.state_eq`: other code does not disturb a thread a processor
  works for
- `Outcome.after`: outcomes compose with work done before
-/

namespace RiscMv.Kernel

/-- The process makes thread `u` stop at its next trap. -/
def KernelProcess.Stops (q : KernelProcess) (u : ThreadRef) : Prop :=
  q.stopRequested = true ∧ q.stopOwner ≠ some u

/-- `t` is bound to processor `c`. -/
structure Pinned (c : CpuId) (t : ThreadRef) (s : Sched) : Prop where
  online : c < s.cpuCount
  listed : ∀ p, t ∈ (s.process p).threads → (s.thread t).process = p
  affinity : (s.thread t).cpuAffinity = c + 1
  queue : RunQueueOk s

/-- `t` is the current thread of processor `c`, and nobody else can dispatch, wake or free
    it. -/
structure Ready (c : CpuId) (t : ThreadRef) (s : Sched) : Prop extends Pinned c t s where
  current : s.current c = some t
  process : (s.cpu c).currentProcess = some (s.thread t).process
  notWaiting : ¬ (s.thread t).Waiting

/-- The record of a thread blocked in `waitpid` holds the pid it waits for. -/
def KernelThread.RequestOk (th : KernelThread) : Prop :=
  th.state = .blocked → ∀ pid, th.blockedIn = some (.waitpid pid) → th.waitPid = pid

/-- One act of a section that works for `t`. -/
inductive Act (π : Perm) (e : Env) (t : ThreadRef) : Sched → Sched → Prop
  | micro {s s' : Sched} (h : Micro π s s') : Act π e t s s'
  | self (s : Sched) (f : KernelThread → KernelThread)
      (home : SameHome (s.thread t) (f (s.thread t)))
      (hq : (f (s.thread t)).queued = (s.thread t).queued)
      (hwait : (s.thread t).RequestOk → (f (s.thread t)).RequestOk) :
      Act π e t s (s.modThread t f)
  | cpu (s : Sched) (f : KernelCpuLocal → KernelCpuLocal) : Act π e t s (s.modCpu e.cpu f)
  | process (s : Sched) (p : ProcessRef) (f : KernelProcess → KernelProcess)
      (hp : (s.thread t).process = p)
      (hthreads : (f (s.process p)).threads = (s.process p).threads)
      (hparent : (f (s.process p)).parent = (s.process p).parent)
      (hstop : π.clear ∨ ∀ u, u ≠ t → (s.process p).Stops u → (f (s.process p)).Stops u)
      (hfault : (f (s.process p)).faulted = true → (s.process p).faulted = true ∨ π.fault) :
      Act π e t s (s.modProcess p f)
  | history (s : Sched) (l : UserExit) :
      Act π e t s { s with lastUser := Function.update s.lastUser t l }
  | destroySpace (s : Sched) (space : SpaceRef) (hclear : π.clear) :
      Act π e t s (destroySpace space s)
  | redispatch {s s' : Sched} (h : Dequeue e t s s')
      (hpin : (s.thread t).cpuAffinity = e.cpu + 1) : Act π e t s s'

/-- Sequences of acts. -/
inductive Acts (π : Perm) (e : Env) (t : ThreadRef) (s : Sched) : Sched → Prop
  | refl : Acts π e t s s
  | tail {s' s'' : Sched} (h : Acts π e t s s') (h' : Act π e t s' s'') :
      Acts π e t s s''

variable {π : Perm} {e : Env} {c : CpuId} {t u n : ThreadRef} {p : ProcessRef} {s s' s'' : Sched}
  {x y z : Sect} {r : Sect × Exit} {f : KernelThread → KernelThread}

theorem Act.acts (h : Act π e t s s') : Acts π e t s s' := .tail .refl h

theorem Acts.trans (h : Acts π e t s s') (h' : Acts π e t s' s'') :
    Acts π e t s s'' := by
  induction h' with
  | refl => exact h
  | tail _ h'' ih => exact .tail ih h''

/-- A preorder that contains the acts contains their sequences. -/
theorem Acts.lift {P : Sched → Sched → Prop} (h : Acts π e t s s')
    (refl : ∀ s, P s s) (trans : ∀ {s s' s''}, P s s' → P s' s'' → P s s'')
    (act : ∀ {s s'}, Act π e t s s' → P s s') : P s s' := by
  induction h with
  | refl => exact refl s
  | tail _ h' ih => exact trans ih (act h')

theorem MicroSteps.acts (h : MicroSteps π s s') : Acts π e t s s' := by
  induction h with
  | refl => exact .refl
  | tail _ h' ih => exact .tail ih (.micro h')

theorem Act.moves (h : Act π e t s s') : Moves (some t) s s' := by
  cases h with
  | micro h => exact h.moves.forSubject
  | self f home hq _ => exact modThread_moves_subject home hq
  | cpu f => exact .of_eq rfl rfl rfl
  | process p f _ _ _ _ _ => exact .of_eq rfl rfl rfl
  | history l =>
    refine ⟨fun _ => .refl _, fun u hu => ?_, fun h => ⟨h.nodup, h.queued⟩⟩
    have hu : u ≠ t := fun h => hu (by rw [h])
    simp only [Function.update_of_ne hu]
    exact .refl _ _
  | destroySpace space _ => exact .of_eq rfl rfl rfl
  | redispatch h hpin =>
    refine ⟨fun u => ?_, fun u hu => ?_, h.runQueueOk⟩
    · by_cases hut : u = t
      · obtain ⟨queue, _, _, _, rfl⟩ := h.eq
        subst hut
        exact ⟨by simp, by simp, by simp [hpin]⟩
      · rw [h.thread_ne hut]
        exact .refl _
    · rw [h.thread_ne fun hut => hu (by rw [hut]), h.lastUser]
      exact .refl _ _

/-- A section treats the threads it does not work for as `Moves` says. -/
theorem Acts.moves (h : Acts π e t s s') : Moves (some t) s s' :=
  h.lift (.refl _) Moves.trans Act.moves

/-- A section changes no other processor's record. -/
theorem Acts.cpu_eq (h : Acts π e t s s') :
    (∀ d, d ≠ e.cpu → s'.cpu d = s.cpu d) ∧ s'.cpuCount = s.cpuCount :=
  h.lift (P := fun s s' => (∀ d, d ≠ e.cpu → s'.cpu d = s.cpu d) ∧ s'.cpuCount = s.cpuCount)
    (fun _ => ⟨fun _ _ => rfl, rfl⟩)
    (fun h h' => ⟨fun d hd => (h'.1 d hd).trans (h.1 d hd), h'.2.trans h.2⟩)
    fun h => by
      cases h with
      | micro h => exact ⟨fun d _ => by rw [h.steps.cpu_eq.1], h.steps.cpu_eq.2⟩
      | cpu f => exact ⟨fun d hd => Function.update_of_ne hd _ _, rfl⟩
      | redispatch h _ => exact ⟨fun d _ => by rw [h.cpu], h.cpuCount⟩
      | _ => exact ⟨fun _ _ => rfl, rfl⟩

/-! ## Threads that a processor works for -/

theorem Ready.threadActive (h : Ready c t s) : threadActive s t = true :=
  List.any_eq_true.mpr ⟨c, List.mem_range.mpr h.online, by
    have := h.current
    simp [Sched.current] at this
    simp [this]⟩

theorem Ready.processActive (h : Ready c t s) (ht : t ∈ (s.process p).threads) :
    processActive s p = true :=
  List.any_eq_true.mpr ⟨c, List.mem_range.mpr h.online, by simp [h.process, h.listed p ht]⟩

theorem MicroSteps.pinned (h : MicroSteps π s s') (hr : Pinned c t s) : Pinned c t s' where
  online := by rw [h.cpu_eq.2]; exact hr.online
  listed p hp := by
    rw [(h.moves.home t).process]
    exact hr.listed p (h.threads_subset p hp)
  affinity := by rw [(h.moves.home t).affinity]; exact hr.affinity
  queue := h.moves.runQueue hr.queue

/-- Code that works for other threads leaves a processor's thread to the processor. -/
theorem MicroSteps.ready (h : MicroSteps π s s') (hr : Ready c t s) : Ready c t s' where
  toPinned := h.pinned hr.toPinned
  current := by rw [Sched.current, h.cpu_eq.1]; exact hr.current
  process := by rw [h.cpu_eq.1, (h.moves.home t).process]; exact hr.process
  notWaiting hw := hr.notWaiting ((h.moves.thread t nofun).waiting hw)

theorem Ready.not_blocked (h : Ready c t s) : (s.thread t).state ≠ .blocked :=
  fun hb => h.notWaiting (.inr (.inl hb))

/-- A small change leaves the state of a thread alone, or wakes, ends or frees the thread. -/
theorem Micro.state_cases (h : Micro π s s') (u : ThreadRef) :
    (s'.thread u).state = (s.thread u).state ∨
      (s.thread u).state = .blocked ∧ (s'.thread u).state = .runnable ∨
      (s'.thread u).state = .zombie ∧ (π.kill u ∨ π.call ∧ threadActive s u = false) ∨
      (s'.thread u).state = .dead ∧ (π.kill u ∨ threadActive s u = false ∨
        ∃ p, u ∈ (s.process p).threads ∧ processActive s p = false) := by
  cases h with
  | thread t f h =>
    exact .inl (forall_modThread (P := fun u th => th.state = (s.thread u).state)
      (congrArg ThreadCore.state h) (fun _ _ => rfl) u)
  | other _ h => exact .inl (by rw [show s'.thread = s.thread from congrArg SchedCore.thread h])
  | push t _ _ => exact .inl (by by_cases hu : u = t <;> simp [pushRunQueue, Sched.modThread, hu])
  | erase t => exact .inl (by by_cases hu : u = t <;> simp [eraseRunQueue, Sched.modThread, hu])
  | wake t result _ hb =>
    by_cases hu : u = t
    · exact .inr (.inl ⟨hu ▸ hb, by simp [storeWake, Sched.modThread, hu]⟩)
    · exact .inl (by simp [storeWake, Sched.modThread, hu])
  | kill t f hk h =>
    obtain ⟨w, h⟩ := h
    by_cases hu : u = t
    · subst hu
      rw [modThread_thread_self]
      exact .inr (.inr (.inl ⟨congrArg ThreadCore.state h, hk⟩))
    · exact .inl (by rw [modThread_thread_ne s f hu])
  | free t h =>
    by_cases hu : u = t
    · subst hu
      exact .inr (.inr (.inr ⟨by simp [freeThread], h⟩))
    · exact .inl (by rw [freeThread, modThread_thread_ne s _ hu])
  | _ => exact .inl rfl

private theorem Micro.state_eq (h : Micro π s s') (hr : Ready c t s) (hk : ¬ π.kill t) :
    (s'.thread t).state = (s.thread t).state := by
  have hactive : threadActive s t ≠ false := by simp [hr.threadActive]
  rcases h.state_cases t with heq | ⟨hb, _⟩ | ⟨_, hkill | ⟨_, hidle⟩⟩ |
    ⟨_, hkill | hidle | ⟨p, hmem, hidle⟩⟩
  · exact heq
  · exact absurd hb hr.not_blocked
  · exact absurd hkill hk
  · exact absurd hidle hactive
  · exact absurd hkill hk
  · exact absurd hidle hactive
  · cases (hr.processActive hmem).symm.trans hidle

/-- Code that works for other threads and may not kill a processor's thread leaves its state
    alone. -/
theorem MicroSteps.state_eq (h : MicroSteps π s s') (hr : Ready c t s) (hk : ¬ π.kill t) :
    (s'.thread t).state = (s.thread t).state := by
  induction h with
  | refl => rfl
  | tail h h' ih => exact (h'.state_eq (h.ready hr) hk).trans ih

/-! ## Families -/

/-- Sections remove threads from processes and add none. -/
theorem Acts.threads_subset (h : Acts π e t s s') (p : ProcessRef) :
    (s'.process p).threads ⊆ (s.process p).threads :=
  h.lift (P := fun s s' => (s'.process p).threads ⊆ (s.process p).threads)
    (fun _ => List.Subset.refl _) (fun h h' => List.Subset.trans h' h) fun {s s'} h => by
      cases h with
      | micro h => exact h.steps.threads_subset p
      | process q f _ hthreads _ _ =>
        by_cases hq : p = q
        · subst hq
          simp [Sched.modProcess, hthreads]
        · simp [Sched.modProcess, hq]
      | redispatch h _ =>
        obtain ⟨queue, _, _, _, rfl⟩ := h.eq
        exact List.Subset.refl _
      | _ => exact List.Subset.refl _

/-- Sections change no parent, except that a process may lose its parent or be adopted by the
    init process. -/
theorem Acts.parent (h : Acts π e t s s') {q : ProcessRef}
    (hq : (s'.process p).parent = some q ∨ s'.initProcess = some q) :
    (s.process p).parent = some q ∨ s.initProcess = some q := by
  refine h.lift (P := fun s s' => ((s'.process p).parent = some q ∨ s'.initProcess = some q) →
      ((s.process p).parent = some q ∨ s.initProcess = some q))
    (fun _ => id) (fun h h' => h ∘ h') (fun {s s'} h hq => ?_) hq
  cases h with
  | micro h => exact h.steps.parent hq
  | process r f _ _ hparent _ _ =>
    by_cases hr : p = r
    · subst hr
      rw [← hparent]
      simpa [Sched.modProcess] using hq
    · simpa [Sched.modProcess, hr] using hq
  | redispatch h _ =>
    obtain ⟨queue, _, _, _, rfl⟩ := h.eq
    exact hq
  | _ => exact hq

/-- A section of `t` that ends its process may wake the other threads of the parent process. -/
def Perm.Notifies (π : Perm) (t : ThreadRef) (s : Sched) : Prop :=
  ∀ q, (s.process (s.thread t).process).parent = some q ∨ s.initProcess = some q →
    ∀ u ∈ (s.process q).threads, u ≠ t → π.child u

/-- A section of `t` that collects a child may wake the other threads of its process. -/
def Perm.Collects (π : Perm) (t : ThreadRef) (s : Sched) : Prop :=
  ∀ u ∈ (s.process (s.thread t).process).threads, u ≠ t → π.child u

theorem Acts.notifies (h : Acts π e t s s') (hc : π.Notifies t s) : π.Notifies t s' := by
  intro q hq u hu hut
  rw [(h.moves.home t).process] at hq
  exact hc q (h.parent hq) u (h.threads_subset q hu) hut

theorem Acts.collects (h : Acts π e t s s') (hc : π.Collects t s) : π.Collects t s' := by
  intro u hu hut
  rw [(h.moves.home t).process] at hu
  exact hc u (h.threads_subset _ hu) hut

theorem Ready.ne_of_blocked (h : Ready c t s) (hb : (s.thread u).state = .blocked) : u ≠ t := by
  rintro rfl
  exact h.not_blocked hb

theorem Ready.watchesParent (h : Ready c t s) (hc : π.Notifies t s) :
    π.WatchesParent (s.thread t).process s :=
  fun q hq u hu hb => hc q hq u hu (h.ne_of_blocked hb)

theorem Ready.watches (h : Ready c t s) (hc : π.Collects t s) :
    π.Watches (s.thread t).process s :=
  fun u hu hb => hc u hu (h.ne_of_blocked hb)

/-! ## Work in progress -/

theorem Pinned.self (h : Pinned c t s) (home : SameHome (s.thread t) (f (s.thread t)))
    (hq : (f (s.thread t)).queued = (s.thread t).queued) : Pinned c t (s.modThread t f) where
  online := h.online
  listed := by simpa [home.process] using h.listed
  affinity := by simpa [home.affinity] using h.affinity
  queue := (modThread_moves_subject home hq).runQueue h.queue

theorem Ready.self (h : Ready c t s) (home : SameHome (s.thread t) (f (s.thread t)))
    (hq : (f (s.thread t)).queued = (s.thread t).queued) (hw : ¬ (f (s.thread t)).Waiting) :
    Ready c t (s.modThread t f) where
  toPinned := h.toPinned.self home hq
  current := h.current
  process := by simpa [home.process] using h.process
  notWaiting := by simpa using hw

/-- From `x` to `y` a section has worked for `t` without giving up the processor. -/
structure Serving (π : Perm) (e : Env) (t : ThreadRef) (x y : Sect) : Prop where
  acts : Acts π e t x.sched y.sched
  ready : Ready e.cpu t y.sched
  frame : y.frame = x.frame
  ptbr : y.ptbr = x.ptbr
  last : y.sched.lastUser t = x.sched.lastUser t
  signals : ∀ p, (y.sched.process p).signals = (x.sched.process p).signals

theorem Serving.refl (h : Ready e.cpu t x.sched) : Serving π e t x x :=
  ⟨.refl, h, rfl, rfl, rfl, fun _ => rfl⟩

theorem Serving.trans (h : Serving π e t x y) (h' : Serving π e t y z) :
    Serving π e t x z :=
  ⟨h.acts.trans h'.acts, h'.ready, h'.frame.trans h.frame, h'.ptbr.trans h.ptbr,
    h'.last.trans h.last, fun p => (h'.signals p).trans (h.signals p)⟩

/-- Small changes keep the processor's thread served. -/
theorem Serving.micro {f : Sched → Sched} (h : Ready e.cpu t x.sched)
    (hm : MicroSteps π x.sched (f x.sched)) : Serving π e t x (x.on f) :=
  ⟨hm.acts, hm.ready h, rfl, rfl, ((hm.moves.thread t nofun).kept h.not_blocked).2,
    hm.signals_eq⟩

/-- A change of the section's own thread that leaves it to the processor. -/
theorem Serving.self (h : Ready e.cpu t x.sched)
    (home : SameHome (x.sched.thread t) (f (x.sched.thread t)))
    (hq : (f (x.sched.thread t)).queued = (x.sched.thread t).queued)
    (hw : ¬ (f (x.sched.thread t)).Waiting) : Serving π e t x (x.modThread t f) :=
  ⟨(Act.self _ f home hq fun _ hb => absurd (.inr (.inl hb)) hw).acts, h.self home hq hw, rfl, rfl,
    rfl, fun _ => rfl⟩

/-- From `x` to `y` a section has worked for `t` and can still return to it as if nothing had
    happened. -/
structure Busy (π : Perm) (e : Env) (t : ThreadRef) (x y : Sect) : Prop
    extends Serving π e t x y where
  state : x.sched.current e.cpu = some t ∧
      (y.sched.thread t).state = (x.sched.thread t).state ∨
    (y.sched.thread t).state = .running

theorem Busy.refl (h : Ready e.cpu t x.sched) : Busy π e t x x := ⟨.refl h, .inl ⟨h.current, rfl⟩⟩

theorem Busy.trans (h : Busy π e t x y) (h' : Busy π e t y z) :
    Busy π e t x z where
  toServing := h.toServing.trans h'.toServing
  state := by
    rcases h'.state with ⟨_, h'⟩ | h'
    · rw [h']; exact h.state
    · exact .inr h'

theorem Busy.micro {f : Sched → Sched} (h : Ready e.cpu t x.sched)
    (hm : MicroSteps π x.sched (f x.sched)) (hk : ¬ π.kill t) : Busy π e t x (x.on f) :=
  ⟨.micro h hm, .inl ⟨h.current, hm.state_eq h hk⟩⟩

theorem Busy.self (h : Ready e.cpu t x.sched)
    (home : SameHome (x.sched.thread t) (f (x.sched.thread t)))
    (hq : (f (x.sched.thread t)).queued = (x.sched.thread t).queued)
    (hstate : (f (x.sched.thread t)).state = (x.sched.thread t).state) :
    Busy π e t x (x.modThread t f) where
  toServing := .self h home hq (by
    simpa only [KernelThread.Waiting, hstate, hq] using h.notWaiting)
  state := .inl ⟨h.current, by simpa [Sect.modThread, Sect.on] using hstate⟩

/-! ## How a section ends -/

/-- The state in which a section that worked for `t` gave up the processor. -/
inductive Parked (π : Perm) (t : ThreadRef) (x : Sect) (s : Sched) : Prop
  | finished (h : ¬ (s.thread t).Waiting)
  | yielded (hR : π.quiet) (hctx : (s.thread t).ctx = x.frame.toContext)
      (hr : (s.thread t).state = .runnable)
  | blocked (hcall : π.call) (hctx : (s.thread t).ctx = x.frame.toContext)
      (hb : (s.thread t).state = .blocked) (hq : (s.thread t).queued = false)
  | waited (h : ThreadMoves (x.sched.thread t) (s.thread t) (x.sched.lastUser t) (s.lastUser t))

/-- A section that worked for `t` has given up the processor in state `s`. -/
structure Left (π : Perm) (e : Env) (t : ThreadRef) (x : Sect)
    (s : Sched) : Prop where
  acts : Acts π e t x.sched s
  pinned : Pinned e.cpu t s
  last : s.lastUser t = x.sched.lastUser t
  signals : ∀ p, (s.process p).signals = (x.sched.process p).signals
  parked : Parked π t x s

/-- The section ends with `t` current. -/
structure Returns (π : Perm) (e : Env) (t : ThreadRef) (x y : Sect) : Prop where
  acts : Acts π e t x.sched y.sched
  ready : Ready e.cpu t y.sched

/-- The section ends without a thread to return to. -/
structure Ends (π : Perm) (e : Env) (t : ThreadRef) (x y : Sect) : Prop where
  acts : Acts π e t x.sched y.sched
  last : y.sched.lastUser t = x.sched.lastUser t
  signals : ∀ p, (y.sched.process p).signals = (x.sched.process p).signals
  parked : Parked π t x y.sched
  queue : RunQueueOk y.sched
  current : y.sched.current e.cpu = none ∨ Ready e.cpu t y.sched

/-- What a section still does when it halts: `scheduler_finish` ends scheduling. -/
inductive Halts (π : Perm) (s : Sched) : Sched → Prop
  | panic : Halts π s s
  | finish {s' : Sched} (h : MicroSteps π { s with active := false } s') : Halts π s s'

/-- What a section must be able to do to wait in the function. -/
def Pending.Allowed (π : Perm) : Pending → Prop
  | .fault _ => π.fault
  | _ => π.call

/-- What a section must be able to do to start the rendezvous. -/
def Rendezvous.Allowed (π : Perm) : Rendezvous → Prop
  | .fault _ _ => π.fault
  | .exec _ _ _ => π.call

/-- The possible results of a section that works for `t`. -/
inductive Outcome (π : Perm) (e : Env) (t : ThreadRef) (x : Sect) :
    Sect × Exit → Prop
  /-- Return through the unchanged frame. -/
  | kept {y : Sect} (hR : π.quiet) (h : Busy π e t x y) : Outcome π e t x (y, .restore)
  /-- Return with the result of a system call. -/
  | result {y : Sect} (v : UInt64) (hcall : π.call) (h : Returns π e t x y)
      (hframe : y.frame = x.frame.setR0 v)
      (hlast : y.sched.lastUser t = (x.sched.lastUser t).setResult v)
      (hstate : x.sched.current e.cpu = some t ∧
          (y.sched.thread t).state = (x.sched.thread t).state ∨
        (y.sched.thread t).state = .running)
      (hsignals : ∀ p, (y.sched.process p).signals = (x.sched.process p).signals) :
      Outcome π e t x (y, .restore)
  /-- Return to the new image. -/
  | exec {y : Sect} (ctx : UserContext) (hclear : π.clear) (h : Returns π e t x y)
      (hframe : y.frame.toContext = ctx)
      (hflags : y.frame.flags.userMode = true ∧
        y.frame.flags.exceptionFrame = x.frame.flags.exceptionFrame)
      (hlast : y.sched.lastUser t = ⟨ctx, false, none⟩)
      (hstate : (y.sched.thread t).state = .running) : Outcome π e t x (y, .restore)
  /-- Return to `kernel_secondary_retire_entry`. -/
  | stopped {y : Sect} (h : Ends π e t x y) (hframe : y.frame.flags.userMode = false ∧
        y.frame.flags.exceptionFrame = x.frame.flags.exceptionFrame) :
      Outcome π e t x (y, .restore)
  | load {y : Sect} {n : ThreadRef} {s s' : Sched} (hload : π.load) (h : Left π e t x s)
      (hd : Dequeue e n s s') (hn : (s.thread n).kernelResumeSp = none)
      (hsched : y.sched = setCurrent e (some n) s')
      (hframe : y.frame = loadedFrame (s.thread n).ctx x.frame) :
      Outcome π e t x (y, .load n)
  | resume {y : Sect} {n : ThreadRef} {s s' : Sched} {sp : StackAddr}
      (h : Left π e t x s) (hd : Dequeue e n s s')
      (hn : (s.thread n).kernelResumeSp = some sp)
      (hsched : y.sched = (setCurrent e (some n) s').modThread n
        ({ · with kernelResumeSp := none }))
      (hframe : y.frame = x.frame) : Outcome π e t x (y, .resume sp)
  | suspend {y : Sect} {n : ThreadRef} {s s' : Sched} (depth : Nat)
      (hcall : π.call) (h : Left π e t x s) (hd : Dequeue e n s s') (hne : n ≠ t)
      (hn : (s.thread n).kernelResumeSp = none)
      (hsched : y.sched = setCurrent e (some n) s')
      (hframe : y.frame = x.frame) : Outcome π e t x (y, .suspend t n depth none)
  | switch {y : Sect} {n : ThreadRef} {s s' : Sched} {sp : StackAddr} (depth : Nat)
      (hcall : π.call) (h : Left π e t x s) (hd : Dequeue e n s s') (hne : n ≠ t)
      (hn : (s.thread n).kernelResumeSp = some sp)
      (hsched : y.sched = (setCurrent e (some n) s').modThread n
        ({ · with kernelResumeSp := none }))
      (hframe : y.frame = x.frame) : Outcome π e t x (y, .suspend t n depth (some sp))
  | idle {y : Sect} {s : Sched} {p : Pending} (hp : p.waiter = t) (hcall : p.Allowed π)
      (h : Left π e t x s)
      (hsched : y.sched = idleEnter e (setCurrent e none s))
      (hframe : y.frame = x.frame) : Outcome π e t x (y, .idle p)
  | spin {y : Sect} {v : Rendezvous} (hv : v.thread = t) (hcall : v.Allowed π)
      (hp : v.process = (y.sched.thread t).process) (h : Returns π e t x y)
      (hframe : y.frame = x.frame) (hlast : y.sched.lastUser t = x.sched.lastUser t)
      (hstop : ∀ u, u ≠ t → (y.sched.process v.process).Stops u) :
      Outcome π e t x (y, .spin v)
  | retire {y : Sect} (h : Ends π e t x y) (hframe : y.frame = x.frame) :
      Outcome π e t x (y, .retire)
  | halt {y z : Sect} (h : Ends π e t x z) (hy : Halts π z.sched y.sched) :
      Outcome π e t x (y, .halt)

theorem Halts.home (h : Halts π s s') (u : ThreadRef) : SameHome (s.thread u) (s'.thread u) := by
  cases h with
  | panic => exact .refl _
  | finish h => exact h.moves.home u

theorem Halts.current (h : Halts π s s') (c : CpuId) : s'.current c = s.current c := by
  cases h with
  | panic => rfl
  | finish h => rw [Sched.current, h.cpu_eq.1]; rfl

theorem Halts.thread_moves (h : Halts π s s') (u : ThreadRef) :
    ThreadMoves (s.thread u) (s'.thread u) (s.lastUser u) (s'.lastUser u) := by
  cases h with
  | panic => exact .refl _ _
  | finish h => exact h.moves.thread u nofun

theorem Halts.signals_eq (h : Halts π s s') (p : ProcessRef) :
    (s'.process p).signals = (s.process p).signals := by
  cases h with
  | panic => rfl
  | finish h => exact h.signals_eq p

theorem Halts.ready (h : Halts π s s') (hr : Ready c t s) : Ready c t s' := by
  cases h with
  | panic => exact hr
  | finish h => exact h.ready ⟨⟨hr.online, hr.listed, hr.affinity,
      ⟨hr.queue.nodup, hr.queue.queued⟩⟩, hr.current, hr.process, hr.notWaiting⟩

theorem Returns.after (h : Serving π e t x y) (h' : Returns π e t y z) :
    Returns π e t x z :=
  ⟨h.acts.trans h'.acts, h'.ready⟩

theorem Parked.congr (h : Parked π t x s) (hthread : s'.thread = s.thread)
    (hlast : s'.lastUser = s.lastUser) : Parked π t x s' := by
  rcases h with hw | ⟨hR, hctx, hr⟩ | ⟨hcall, hctx, hb, hq⟩ | hm
  · exact .finished (by rw [hthread]; exact hw)
  · exact .yielded hR (by rw [hthread]; exact hctx) (by rw [hthread]; exact hr)
  · exact .blocked hcall (by rw [hthread]; exact hctx) (by rw [hthread]; exact hb)
      (by rw [hthread]; exact hq)
  · exact .waited (by rw [hthread, hlast]; exact hm)

theorem Parked.after (h : Serving π e t x y) (h' : Parked π t y s) : Parked π t x s := by
  rcases h' with hw | ⟨hR, hctx, hr⟩ | ⟨hcall, hctx, hb, hq⟩ | hm
  · exact .finished hw
  · exact .yielded hR (by rw [hctx, h.frame]) hr
  · exact .blocked hcall (by rw [hctx, h.frame]) hb hq
  -- a thread that was being served did not wait, and does not now
  · exact .finished fun hw => h.ready.notWaiting (hm.waiting hw)

theorem Ends.after (h : Serving π e t x y) (h' : Ends π e t y z) :
    Ends π e t x z :=
  ⟨h.acts.trans h'.acts, h'.last.trans h.last, fun p => (h'.signals p).trans (h.signals p),
    h'.parked.after h, h'.queue, h'.current⟩

theorem Left.after (h : Serving π e t x y) (h' : Left π e t y s) :
    Left π e t x s where
  acts := h.acts.trans h'.acts
  pinned := h'.pinned
  last := h'.last.trans h.last
  signals p := (h'.signals p).trans (h.signals p)
  parked := h'.parked.after h

/-- How a processor goes on from the state `s` it has brought the scheduler to, and whether it
    halts: with what it was doing, idle, or with a thread from the run queue, whose continuation it
    takes if there is one. -/
inductive Closes (π : Perm) (e : Env) (s : Sched) : Bool → Sched → Prop
  | stay : Closes π e s false s
  | idle : Closes π e s false (idleEnter e s)
  | start {n : ThreadRef} {s' : Sched} (hd : Dequeue e n s s')
      (hn : (s.thread n).kernelResumeSp = none) : Closes π e s false (setCurrent e (some n) s')
  | take {n : ThreadRef} {s' : Sched} (hd : Dequeue e n s s') :
      Closes π e s false
        ((setCurrent e (some n) s').modThread n ({ · with kernelResumeSp := none }))
  | halt {s' : Sched} (h : Halts π s s') : Closes π e s true s'

/-- What a section does to the scheduler: its acts, and then perhaps a dispatch or a halt. -/
theorem Outcome.closes (o : Outcome π e t x r) :
    ∃ s, Acts π e t x.sched s ∧ Closes π e s r.2.isHalt r.1.sched := by
  cases o with
  | kept _ h | result _ _ h | exec _ _ h | stopped h => exact ⟨_, h.acts, .stay⟩
  | load _ h hd hn hsched => exact ⟨_, h.acts, hsched ▸ .start hd hn⟩
  | resume h hd _ hsched => exact ⟨_, h.acts, hsched ▸ .take hd⟩
  | suspend _ _ h hd _ hn hsched => exact ⟨_, h.acts, hsched ▸ .start hd hn⟩
  | switch _ _ h hd _ _ hsched => exact ⟨_, h.acts, hsched ▸ .take hd⟩
  | idle _ _ h hsched => exact ⟨setCurrent e none _, h.acts.tail (.cpu _ _), hsched ▸ .idle⟩
  | spin _ _ _ h | retire h => exact ⟨_, h.acts, .stay⟩
  | halt h hy => exact ⟨_, h.acts, .halt hy⟩

/-- Outcomes compose with work done before. -/
theorem Outcome.after (h : Busy π e t x y) (o : Outcome π e t y r) :
    Outcome π e t x r := by
  cases o with
  | kept hR h' => exact .kept hR (h.trans h')
  | result v hcall h' hframe hlast hstate hsignals =>
    refine .result v hcall (h'.after h.toServing) (by rw [hframe, h.frame])
      (by rw [hlast, h.last]) ?_ fun p => (hsignals p).trans (h.signals p)
    rcases hstate with ⟨_, hs⟩ | hs
    · rw [hs]; exact h.state
    · exact .inr hs
  | exec ctx hclear h' hframe hflags hlast hstate =>
    exact .exec ctx hclear (h'.after h.toServing) hframe (by rw [← h.frame]; exact hflags) hlast
      hstate
  | stopped h' hframe => exact .stopped (h'.after h.toServing) (by rw [← h.frame]; exact hframe)
  | load hload h' hd hn hsched hframe =>
    exact .load hload (h'.after h.toServing) hd hn hsched (by rw [hframe, h.frame])
  | resume h' hd hn hsched hframe =>
    exact .resume (h'.after h.toServing) hd hn hsched (hframe.trans h.frame)
  | suspend depth hcall h' hd hne hn hsched hframe =>
    exact .suspend depth hcall (h'.after h.toServing) hd hne hn hsched (hframe.trans h.frame)
  | switch depth hcall h' hd hne hn hsched hframe =>
    exact .switch depth hcall (h'.after h.toServing) hd hne hn hsched (hframe.trans h.frame)
  | idle hp hcall h' hsched hframe =>
    exact .idle hp hcall (h'.after h.toServing) hsched (hframe.trans h.frame)
  | spin hv hcall hp h' hframe hlast hstop =>
    exact .spin hv hcall hp (h'.after h.toServing) (hframe.trans h.frame) (hlast.trans h.last) hstop
  | retire h' hframe => exact .retire (h'.after h.toServing) (hframe.trans h.frame)
  | halt h' hy => exact .halt (h'.after h.toServing) hy

end RiscMv.Kernel
