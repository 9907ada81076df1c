import RiscMv.Kernel.List
import RiscMv.Spec.Rendezvous
import RiscMv.Spec.TidySections

/-!
# The scheduler is tidy in every reachable state

A processor that waits in the kernel for a thread does not notice that the thread has been
killed meanwhile: it goes on with the system call of a thread that has ended, which may then
enter a wait queue and be freed there.  In runs without that (`LiveCalls`) the scheduler is tidy
whenever no processor is inside a section.

## Key results
- `TidyState.step`: the invariant is preserved
- `queues_agree`: every list holds the threads whose flags say so
- `waiters_awaited`: a thread blocked in `waitpid` has a child to wait for
-/

namespace RiscMv.Kernel

/-- The thread whose system call goes on in the section: after a wait, or after the rendezvous of
    exec. -/
def resumesCall (s : State) (a : Action) : Option ThreadRef :=
  match a.input, (s.cpu a.cpu).phase with
  | .rendezvous, .spin (.exec t _ _) _ true => some t
  | _, _ => continuesCall s a

/-- The steps in which no system call goes on for a thread that has ended. -/
structure LiveCalls (s : State) (a : Action) : Prop where
  safe : SwitchSafe s a
  live : ∀ t, resumesCall s a = some t → (s.sched.thread t).state.isActive = true

/-- The process that ends in the section: its last thread exits, or it has faulted and no other
    processor works for it any more. -/
def endsProcess (s : State) (a : Action) : Option ProcessRef :=
  match a.input, (s.cpu a.cpu).phase with
  | .dispatch _ _, .trap .syscall fp =>
    match s.sched.current a.cpu with
    | some t =>
      if (s.stack fp.stack).frame.registers 0 = 0 ∧
          (s.sched.process (s.sched.thread t).process).liveThreadCount ≤ 1 then
        some (s.sched.thread t).process
      else none
    | none => none
  | .rendezvous, .spin (.fault _ p) _ true => some p
  | _, _ => none

/-- No thread waits for a child that has ended and that a process which ends hands over. -/
def AdoptsInOrder (s : State) (a : Action) : Prop :=
  ∀ p, endsProcess s a = some p → AdoptsNoEnded p s.sched

/-- The steps that keep the scheduler tidy, with the part about `waitpid` if `w` holds. -/
structure TidySteps (w : Prop) (s : State) (a : Action) : Prop extends LiveCalls s a where
  adopts : w → AdoptsInOrder s a

/-- The invariant: the scheduler is tidy, a process stops for a thread only while that thread
    waits in exec, and a process is faulted while a processor waits to end it. -/
structure TidyState (w : Prop) (s : State) : Prop extends Inv s where
  tidy : Tidy noProcess w s.sched
  owner : ∀ p o, (s.sched.process p).stopOwner = some o →
    ∃ c image fp left, (s.cpu c).phase = .spin (.exec o p image) fp left
  fault : ∀ c t p fp left, (s.cpu c).phase = .spin (.fault t p) fp left →
    (s.sched.process p).faulted = true

variable {w : Prop} {s s' : State} {a : Action} {c : CpuId} {t o : ThreadRef} {p : ProcessRef}
  {fp : StackAddr} {x : Sect} {ex : Exit} {v : Rendezvous} {e : Env} {left : Bool}

/-! ## Sections -/

theorem lockTaken_tidy (h : Tidy noProcess w s.sched) (e : Env) (fp : StackAddr) :
    Tidy noProcess w (Sect.enter s e fp).sched :=
  h.congr rfl

/-- A thread that traps is not the one its process stops for. -/
theorem TidyState.not_owner (hs : TidyState w s) {k : TrapKind}
    (hp : (s.cpu c).phase = .trap k fp) (ht : s.sched.current c = some t) :
    (s.sched.process (s.sched.thread t).process).stopOwner ≠ some t := by
  intro howner
  obtain ⟨d, image, fp', left, hd⟩ := hs.owner _ t howner
  have hcur := (hs.toInv.spin hd).1
  -- a thread is current on one processor only
  have haff := ((hs.cpu d).current t hcur).1.affinity
  have haff' := ((hs.cpu c).current t ht).1.affinity
  have hdc : d = c := Nat.succ.inj (haff.symm.trans haff')
  subst hdc
  cases hp.symm.trans hd

/-- The waiting function goes on exactly when `continuesCall` says so. -/
theorem continuesCall_of_goesOn {q : Pending} (hin : a.input = .wake)
    (hp : (s.cpu a.cpu).phase = .idle q fp true)
    (hgo : q.goesOn (schedulerDequeueOrIdle a.env
      (schedulerReapDeferred (idleLeave a.env (lockTaken a.env s.sched)))).2 = true) :
    continuesCall s a = some q.waiter := by
  simp only [continuesCall, hin, hp]
  generalize (schedulerDequeueOrIdle a.env (schedulerReapDeferred (idleLeave a.env
    (lockTaken a.env s.sched)))).2 = d at hgo ⊢
  cases q with
  | exit v => cases hgo
  | fault v => cases hgo
  | blockKernel v depth k =>
    cases d with
    | none => rfl
    | idle => cases hgo
    | next n =>
      have hn : n = v := by simpa [Pending.goesOn] using hgo
      simp [hn, Pending.waiter]
  | _ =>
    cases d with
    | none => rfl
    | _ => cases hgo

theorem resumesCall_of_continues {t : ThreadRef} (h : continuesCall s a = some t) :
    resumesCall s a = some t := by
  unfold resumesCall
  split
  · next hin hp => simp [continuesCall, hin] at h
  · exact h

theorem LiveCalls.continues (h : LiveCalls s a) {t : ThreadRef} (ht : continuesCall s a = some t) :
    (s.sched.thread t).state.isActive = true :=
  h.live t (resumesCall_of_continues ht)

/-- Every section ends with a tidy scheduler. -/
theorem TidyState.section_tidy (hs : TidyState w s) (hok : TidySteps w s a)
    (h : runSection s a = some (fp, x, ex)) : Tidy noProcess w x.sched := by
  have hphase := (hs.cpu a.cpu).phase
  unfold runSection at h
  split at h
  · next script event k fp' hin hp =>
    rw [hp] at hphase
    obtain ⟨⟨t, ht⟩, _⟩ := hphase
    have hready := ((hs.cpu a.cpu).current t ht).1
    simp only [Option.some.injEq, Prod.mk.injEq] at h
    obtain ⟨rfl, h⟩ := h
    have htidy : Tidy noProcess w
        (trapHandler a.env k fp' script event (.enter s a.env fp')).1.sched :=
      trapHandler_tidy (Ready.enter hready) (lockTaken_tidy hs.tidy a.env fp')
        (hs.not_owner hp ht) (fun hw hk hnumber hlive => hok.adopts hw _ ?_) script event
    · rw [h] at htidy
      exact htidy
    · cases k with
      | syscall =>
        simp only [endsProcess, hin, hp, ht]
        exact if_pos ⟨hnumber, hlive⟩
      | _ => cases hk
  · next q fp' hin hp =>
    rw [hp] at hphase
    simp only [Option.some.injEq, Prod.mk.injEq] at h
    obtain ⟨rfl, h⟩ := h
    have htidy : Tidy noProcess w (idleWake a.env fp' q (.enter s a.env fp')).1.sched :=
      idleWake_tidy (lockTaken_tidy hs.tidy a.env fp') (Pinned.enter (e := a.env) hphase.2.1)
        fun hgo => hok.continues (continuesCall_of_goesOn hin hp hgo)
    rw [h] at htidy
    exact htidy
  · next v fp' hin hp =>
    simp only [Option.some.injEq, Prod.mk.injEq] at h
    obtain ⟨rfl, h⟩ := h
    cases v with
    | exec t p image =>
      obtain ⟨hcur, hproc⟩ := hs.toInv.spin hp
      dsimp only [Rendezvous.thread, Rendezvous.process] at hcur hproc
      have hready := ((hs.cpu a.cpu).current _ hcur).1
      have htidy : Tidy noProcess w
          (execRendezvous a.env fp' t p image (.enter s a.env fp')).1.sched :=
        execRendezvous_tidy (Ready.enter hready) (lockTaken_tidy hs.tidy a.env fp')
          (hok.live t (by simp [resumesCall, hin, hp])) hproc.symm image
      rw [rendezvousSection] at h
      rw [h] at htidy
      exact htidy
    | fault t p =>
      have htidy := faultRendezvous_tidy (lockTaken_tidy hs.tidy a.env fp')
        (hs.fault _ _ _ _ _ hp) (fun hw => hok.adopts hw p (by simp [endsProcess, hin, hp])) a.env t
      rw [rendezvousSection] at h
      rw [h] at htidy
      exact htidy
  · next script k hin hp =>
    rw [hp] at hphase
    have hready := ((hs.cpu a.cpu).current _ hphase.1).1
    simp only [Option.some.injEq, Prod.mk.injEq] at h
    obtain ⟨rfl, h⟩ := h
    have htidy : Tidy noProcess w
        (resumedSection a.env k script (.enter s a.env k.framePointer)).1.sched :=
      resumedSection_tidy (Ready.enter hready) (lockTaken_tidy hs.tidy a.env k.framePointer)
        (hok.continues (by simp [continuesCall, hin, hp])) script
    rw [h] at htidy
    exact htidy
  · cases h

/-! ## Who stops a process -/

/-- The new image is told nothing. -/
theorem execRendezvous_signals (e : Env) (fp : StackAddr) (t : ThreadRef) (p : ProcessRef)
    (image : NewImage) (x : Sect) :
    ((execRendezvous e fp t p image x).1.sched.process p).signals = (false, false, none) := by
  have hleave : ∀ y : Sect, (syscallLeave e fp y).sched.process = y.sched.process := by
    intro y
    unfold syscallLeave
    repeat' split
    all_goals rfl
  unfold execRendezvous
  dsimp only [Sect.on]
  rw [hleave]
  dsimp only
  refine ((waitQueueWakeOne_micro (π := .telling) (e := e) trivial .gate 0 _).signals_eq p).trans ?_
  simp [rescheduleOthers, destroySpace, execHistory, execThread, execProcess, KernelProcess.signals,
    Sched.modThread]

/-- A thread of a faulted process starts no rendezvous. -/
theorem TidyState.spin_not_faulted (hs : TidyState w s) (hok : LiveCalls s a)
    (h : runSection s a = some (fp, x, .spin v)) (hstart : SectionStart s a.cpu fp t) :
    (s.sched.process (s.sched.thread t).process).faulted = false := by
  rcases section_spin_cases hs.toInv h hstart with hgo | hstop
  · exact hs.tidy.not_faulted (hok.continues hgo)
  · refine Bool.eq_false_iff.mpr fun hf => hstop ?_
    obtain ⟨hreq, howner, _⟩ := hs.tidy.stops _ hf
    exact ⟨hreq, fun heq => by cases howner.symm.trans heq⟩

/-- A processor that starts to wait for the end of a process has recorded its fault. -/
theorem spin_fault_faulted (hs : Inv s) (h : runSection s a = some (fp, x, .spin (.fault t p))) :
    (x.sched.process p).faulted = true := by
  obtain ⟨u, hstart, ho⟩ := runSection_outcome hs h
  have hfault : (sectionPerm s a fp u).fault := by
    cases ho with
    | spin _ hcall => exact hcall
  simp only [sectionPerm] at hfault
  unfold runSection at h
  split at h
  · next script event k fp' hin hp =>
    rw [hp] at hfault
    simp only [Option.some.injEq, Prod.mk.injEq] at h
    obtain ⟨rfl, h⟩ := h
    cases k with
    | exception cause address info =>
      obtain ⟨hstop, hspace⟩ := hfault
      simp only [trapHandler, kernelExceptionDispatch, hstop, hspace, kernelSchedulerFault,
        Prod.mk.injEq, Exit.spin.injEq, Rendezvous.fault.injEq] at h
      obtain ⟨rfl, _, rfl⟩ := h
      simp [Sect.on, rescheduleOthers, recordFault]
    | _ => exact hfault.elim
  · next q fp' hin hp =>
    simp only [Option.some.injEq, Prod.mk.injEq] at h
    obtain ⟨rfl, h⟩ := h
    have hgo := idleWake_isSpin hin hp (by rw [h]; rfl)
    rw [hp] at hfault
    cases q with
    | fault v => simp [continuesCall, hin, hp] at hgo
    | _ => exact hfault.elim
  · next u fp' hin hp =>
    simp only [Option.some.injEq, Prod.mk.injEq] at h
    have hspin := rendezvousSection_isSpin a.env fp' u (.enter s a.env fp')
    rw [h.2] at hspin
    cases hspin
  · next script k hin hp =>
    rw [hp] at hfault
    exact hfault.elim
  · cases h

/-- A processor leaves its rendezvous loop by a section. -/
theorem step_from_spin (h : step s a = some s') (hp : (s.cpu a.cpu).phase = .spin v fp left) :
    (∃ fp x ex, runSection s a = some (fp, x, ex) ∧ s' = applySection s a.cpu fp x ex) ∨
      s'.sched = s.sched ∧ (s'.cpu a.cpu).phase = .spin v fp true := by
  obtain ⟨_, _, ht⟩ := step_trans h
  cases ht with
  | sect hsec => exact .inl ⟨_, _, _, hsec, rfl⟩
  | spinLeave hold =>
    cases hp.symm.trans hold
    exact .inr ⟨rfl, by rw [modCpu_cpu_self]⟩
  | user hold | trap hold | iret hold | interrupt hold | interruptMain hold | wakeMain hold
  | suspendToUser hold | switchContinuation hold | resume hold | start hold | retire hold
  | secondaryStart hold =>
    cases hp.symm.trans hold

/-- What a section does to the signals of process `p`: nothing, unless its thread stops the
    process or has stopped it. -/
inductive SignalStep (s : State) (a : Action) (x : Sect) (ex : Exit) (p : ProcessRef) : Prop
  | same (h : (x.sched.process p).signals = (s.sched.process p).signals)
      (hphase : ∀ o image fp left, (s.cpu a.cpu).phase ≠ .spin (.exec o p image) fp left)
  | withdraw (hf : (s.sched.process p).faulted = false)
      (h : (x.sched.process p).stopOwner = none)
  | stop {t : ThreadRef} {image : NewImage} (hf : (s.sched.process p).faulted = false)
      (hex : ex = .spin (.exec t p image)) (h : ∀ u, u ≠ t → (x.sched.process p).stopOwner ≠ some u)

/-- The section after the rendezvous of exec. -/
theorem runSection_exec {image : NewImage} {fp' : StackAddr} (h : runSection s a = some (fp, x, ex))
    (hp : (s.cpu a.cpu).phase = .spin (.exec o p image) fp' left) :
    resumesCall s a = some o ∧ x = (execRendezvous a.env fp' o p image (.enter s a.env fp')).1 := by
  unfold runSection at h
  split at h
  · next hold => cases hp.symm.trans hold
  · next hold => cases hp.symm.trans hold
  · next hin hold =>
    cases hp.symm.trans hold
    simp only [Option.some.injEq, Prod.mk.injEq, rendezvousSection] at h
    obtain ⟨rfl, h⟩ := h
    exact ⟨by simp [resumesCall, hin, hp], by rw [h]⟩
  · next hold => cases hp.symm.trans hold
  · cases h

theorem TidyState.signalStep (hs : TidyState w s) (hok : TidySteps w s a)
    (h : runSection s a = some (fp, x, ex)) (p : ProcessRef) : SignalStep s a x ex p := by
  obtain ⟨t, hstart, ho⟩ := runSection_outcome hs.toInv h
  have hthread := hstart.thread
  unfold sectionThread at hthread
  by_cases hproc : p = (s.sched.thread t).process
  · by_cases hexec : ∃ o q image fp' left, (s.cpu a.cpu).phase = .spin (.exec o q image) fp' left
    · obtain ⟨o, q, image, fp', left, hp⟩ := hexec
      obtain ⟨hresumes, rfl⟩ := runSection_exec h hp
      have hq := (hs.toInv.spin hp).2
      rw [hp] at hthread
      obtain rfl : o = t := Option.some.inj hthread
      obtain rfl : q = p := hq.trans hproc.symm
      have hsignals := execRendezvous_signals a.env fp' o q image (.enter s a.env fp')
      simp only [KernelProcess.signals, Prod.mk.injEq] at hsignals
      exact .withdraw (hproc ▸ hs.tidy.not_faulted (hok.live o hresumes)) hsignals.2.2
    · push Not at hexec
      have hclear : ¬ (sectionPerm s a fp t).clear := by
        simp only [sectionPerm]
        exact id
      cases ex with
      | spin v =>
        have hf : (s.sched.process p).faulted = false :=
          hproc ▸ hs.spin_not_faulted hok.toLiveCalls h hstart
        cases ho with
        | spin hv _ hvp hret _ _ hstop =>
          have hvp : v.process = p := by
            rw [hvp, hproc]
            exact (hret.acts.moves.home t).process
          cases v with
          | exec o q image =>
            obtain rfl : q = p := hvp
            obtain rfl : o = t := hv
            exact .stop hf rfl fun u hu => (hstop u hu).2
          | fault o q =>
            obtain rfl : q = p := hvp
            have htidy := hs.section_tidy hok h
            exact .withdraw hf (htidy.stops q (spin_fault_faulted hs.toInv h)).2.1
      | _ => exact .same (ho.signals hclear rfl p) fun o image fp' left => hexec o p image fp' left
  · refine .same (ho.signals_ne hproc) fun o image fp' left hp => hproc ?_
    have hq := (hs.toInv.spin hp).2
    rw [hp] at hthread
    rw [← Option.some.inj hthread]
    exact hq

/-! ## Steps -/

theorem Still.tidy (hst : Still c s s') (h : Tidy noProcess w s.sched) :
    Tidy noProcess w s'.sched := by
  obtain ⟨hthread, _, hrest, _, _⟩ := hst
  have hqueues : QueuesOk s'.sched := by
    refine h.toQueuesOk.congr (fun u => ?_) (fun u => ?_) ?_ ?_
    · rw [hthread u]; rfl
    · rw [hthread u]
    · rw [hrest]; rfl
    · rw [hrest]
  refine h.requeue hqueues (fun u => by rw [hthread u]; rfl) ?_ ?_ ?_ <;> rw [hrest]

theorem secondaryStart_tidy (h : Tidy noProcess w s.sched) (e : Env) :
    Tidy noProcess w (secondaryStart s e).sched := by
  have hlock : Tidy noProcess w (lockTaken e s.sched) := h.congr rfl
  have hreap := schedulerReapDeferred_tidy hlock
  unfold secondaryStart
  dsimp only
  split
  · exact hlock.congr rfl
  · split
    · next σ heq =>
      have hturn := (schedulerDequeue_none heq).1.tidy hreap
      split
      · have hoff : Tidy noProcess w { σ with active := false } := hturn.congr rfl
        exact schedulerReapDeferred_tidy hoff
      · exact hturn.congr rfl
    · next n σ heq =>
      have hcur := setCurrent_tidy ((schedulerDequeue_some heq).tidy hreap) e (some n)
      split
      · have htake : Tidy noProcess w ((setCurrent e (some n) σ).modThread n
            ({ · with kernelResumeSp := none })) := hcur.inert rfl rfl
        exact htake
      · exact hcur

section

variable (hs : TidyState w s) (hok : TidySteps w s a) (h : Kernel.step s a = some s')
include hs hok h

theorem TidyState.step_tidy : Tidy noProcess w s'.sched := by
  obtain ⟨_, _, ht⟩ := step_trans h
  have hlock : Tidy noProcess w (lockTaken a.env s.sched) := hs.tidy.congr rfl
  rcases ht.sched_cases with ⟨fp, x, ex, hsec, rfl⟩ | hstill | ⟨i, hsched, _⟩ | rfl
  · exact hs.section_tidy hok hsec
  · exact hstill.tidy hs.tidy
  · rw [hsched]
    exact (Tidy.wakes a.env).idleInterrupt i hlock
  · exact secondaryStart_tidy hs.tidy a.env

theorem TidyState.step_owner (ho : (s'.sched.process p).stopOwner = some o) :
    ∃ c image fp left, (s'.cpu c).phase = .spin (.exec o p image) fp left := by
  have hk := step_keeps hs.toInv hok.safe h
  rcases step_signals h with ⟨fp, x, ex, hsec, rfl⟩ | hsignals
  · cases hs.signalStep hok hsec p with
    | same hsame hphase =>
      simp only [KernelProcess.signals, Prod.mk.injEq] at hsame
      obtain ⟨c, image, fp', left, hc⟩ := hs.owner p o (hsame.2.2.symm.trans ho)
      have hca : c ≠ a.cpu := by
        rintro rfl
        exact hphase o image fp' left hc
      exact ⟨c, image, fp', left, by rw [applySection_cpu_ne hca]; exact hc⟩
    | withdraw _ hnone => cases hnone.symm.trans ho
    | @stop t image _ hex hstop =>
      have hot : o = t := not_not.mp fun hne => hstop o hne ho
      subst hot hex
      exact ⟨a.cpu, image, fp, false, by rw [applySection_cpu_self]; rfl⟩
  · have hsame := hsignals p
    simp only [KernelProcess.signals, Prod.mk.injEq] at hsame
    obtain ⟨c, image, fp, left, hc⟩ := hs.owner p o (hsame.2.2.symm.trans ho)
    by_cases hca : c = a.cpu
    · subst hca
      rcases step_from_spin h hc with ⟨fp', x, ex, hsec, rfl⟩ | ⟨_, hp⟩
      · -- the section would withdraw the request
        obtain ⟨_, rfl⟩ := runSection_exec hsec hc
        have hnone := execRendezvous_signals a.env fp o p image (.enter s a.env fp)
        simp only [KernelProcess.signals, Prod.mk.injEq] at hnone
        cases hnone.2.2.symm.trans ho
      · exact ⟨a.cpu, image, fp, true, hp⟩
    · exact ⟨c, image, fp, left, by rw [hk.frame.cpu c hca]; exact hc⟩

theorem TidyState.step_fault (hc : (s'.cpu c).phase = .spin (.fault t p) fp left) :
    (s'.sched.process p).faulted = true := by
  have hk := step_keeps hs.toInv hok.safe h
  by_cases hca : c = a.cpu
  · subst hca
    rcases step_spin_cases h hc with ⟨x, hsec, rfl⟩ | ⟨hsched, left', hold⟩
    · exact spin_fault_faulted hs.toInv hsec
    · rw [hsched]
      exact hs.fault _ _ _ _ _ hold
  · rw [hk.frame.cpu c hca] at hc
    have hf := hs.fault _ _ _ _ _ hc
    rcases step_signals h with ⟨fp', x, ex, hsec, rfl⟩ | hsignals
    · cases hs.signalStep hok hsec p with
      | same hsame _ => exact (congrArg Prod.fst hsame).trans hf
      | withdraw hnf _ => cases hnf.symm.trans hf
      | stop hnf _ _ => cases hnf.symm.trans hf
    · exact (congrArg Prod.fst (hsignals p)).trans hf

/-- Every such step keeps the scheduler tidy. -/
theorem TidyState.step : TidyState w s' where
  toInv := step_inv hs.toInv hok.safe h
  tidy := hs.step_tidy hok h
  owner _ _ ho := hs.step_owner hok h ho
  fault _ _ _ _ _ hc := hs.step_fault hok h hc

end

/-! ## Runs -/

/-- What registration establishes about the processes: a thread that takes part in scheduling is
    in the list of a registered process, the processes count their threads, and parents and
    children agree. -/
structure Registered (s : State) (t : ThreadRef) : Prop extends Boot s t where
  timeoutQueue : s.sched.timeoutQueue = []
  rings : s.sched.rings.Hold s.sched.queue
  nodup : ∀ p, (s.sched.process p).threads.Nodup
  member : ∀ u, (s.sched.thread u).state ≠ .new →
    u ∈ (s.sched.process (s.sched.thread u).process).threads ∧
      (s.sched.thread u).process ∈ s.sched.processes
  counted : ∀ p, (s.sched.process p).liveThreadCount = (s.sched.process p).threads.length
  children : ∀ p, Roster (s.sched.process p).children fun q =>
    (s.sched.process q).parent = some p

theorem Boot.state_cases (h : Boot s t) (u : ThreadRef) :
    ((s.sched.thread u).state = .running ∨ (s.sched.thread u).state = .new) ∧
        (s.sched.thread u).queued = false ∨
      (s.sched.thread u).state = .runnable ∧ (s.sched.thread u).queued = true := by
  by_cases hu : u = t
  · subst hu
    exact .inl ⟨.inl h.first.1, h.first.2.1⟩
  · rcases (h.other u hu).2 with hrun | hnew
    · exact .inr hrun
    · exact .inl ⟨.inr hnew.1, hnew.2⟩

theorem Registered.tidy (h : Registered s t) : Tidy noProcess w s.sched := by
  have hlive : ∀ u, (s.sched.thread u).state.isLive = true := fun u => by
    rcases h.state_cases u with ⟨hst | hst, _⟩ | ⟨hst, _⟩ <;> rw [hst] <;> rfl
  have hnew : ∀ u, (s.sched.thread u).state.isActive = true → (s.sched.thread u).state ≠ .new := by
    intro u ha hst
    rw [hst] at ha
    cases ha
  have hcount : ∀ ts, liveCount s.sched ts = ts.length := fun ts =>
    List.countP_eq_length.mpr fun u _ => hlive u
  refine ⟨⟨h.rings, ⟨h.runQueue.nodup, h.runQueue.queued⟩, ?_, fun q => ?_, ?_,
      fun u => ⟨fun hq => ?_, ?_, ?_⟩⟩,
    ⟨h.nodup, h.listed, fun u ha => (h.member u (hnew u ha)).1,
      fun u ha => (h.member u (hnew u ha)).2, fun p ho => ?_, ?_, fun p hf => ?_, fun p _ _ => ?_⟩,
    ⟨h.children, ?_⟩, fun _ u pid hb => ?_⟩
  · rw [h.timeoutQueue]
    exact ⟨List.nodup_nil, fun u => by simp [(h.thread u).timeoutQueued]⟩
  · rw [h.waiters q]
    exact ⟨List.nodup_nil, fun u => by simp [(h.thread u).waitQueue]⟩
  · rw [h.reapQueues.2]
    exact ⟨List.nodup_nil, fun u => by simp [(h.thread u).reapQueued]⟩
  · rcases h.state_cases u with ⟨_, hno⟩ | ⟨hst, _⟩
    · cases hno.symm.trans hq
    · exact hst
  · simp [(h.thread u).waitQueue]
  · simp [(h.thread u).reapQueued]
  · rcases ho with ho | ho
    · cases (h.process p).active.symm.trans ho
    · cases (h.process p).faulted.symm.trans ho
  · simp [h.reapQueues.1]
  · cases (h.process p).faulted.symm.trans hf
  · rw [hcount]
    exact h.counted p
  · simp [h.reapQueues.1]
  · rcases h.state_cases u with ⟨hst | hst, _⟩ | ⟨hst, _⟩ <;> cases hst.symm.trans hb

theorem Boot.not_spin (h : Boot s t) : (s.cpu c).phase ≠ .spin v fp left := by
  by_cases hc : c = 0
  · rw [hc, h.boot]
    exact nofun
  · rcases h.secondary c hc with hp | ⟨woken, hp⟩ <;> rw [hp] <;> exact nofun

theorem Registered.tidyState (h : Registered s t) : TidyState w s where
  toInv := h.toBoot.inv
  tidy := h.tidy
  owner p o ho := by cases (h.process p).stopOwner.symm.trans ho
  fault _ _ _ _ _ hp := absurd hp h.toBoot.not_spin

/-- The first thread was taken from the front. -/
theorem BootConfig.range_eq (cfg : BootConfig) (howner : cfg.owner ≠ []) :
    List.range cfg.owner.length = 0 :: cfg.runQueue := by
  obtain ⟨n, hn⟩ : ∃ n, cfg.owner.length = n + 1 :=
    Nat.exists_eq_succ_of_ne_zero (List.length_pos_of_ne_nil howner).ne'
  rw [runQueue, hn, List.range_succ_eq_map, List.filter_cons_of_neg (by simp),
    List.filter_eq_self.mpr (by simp)]

theorem BootConfig.rings_hold (cfg : BootConfig) (howner : cfg.owner ≠ []) :
    cfg.sched.rings.Hold cfg.sched.queue := by
  have hall := Rings.init_hold.pushAll (l := .run) (List.range cfg.owner.length) List.nodup_range
    fun _ _ _ _ => List.not_mem_nil
  have hpop := hall.popFront (l := .run)
    (by rw [Function.update_self, List.nil_append, cfg.range_eq howner])
  rw [Function.update_idem] at hpop
  have hqueue : cfg.sched.queue = Function.update (fun _ => []) .run cfg.runQueue := by
    funext l
    cases l <;> rfl
  rw [hqueue]
  exact hpop

theorem BootConfig.registered (cfg : BootConfig) (hcpu : 0 < cfg.cpuCount) (howner : cfg.owner ≠ [])
    (hparent : ∀ q p, cfg.parent q = some p → q ∈ cfg.owner) : Registered cfg.state 0 where
  toBoot := cfg.state_boot hcpu
  timeoutQueue := rfl
  rings := cfg.rings_hold howner
  nodup p := List.nodup_range.filter _
  member u hu := by
    have hlen : u < cfg.owner.length := by
      by_contra hlen
      have h0 : u ≠ 0 := by
        rintro rfl
        exact hlen (List.length_pos_of_ne_nil howner)
      simp [state, sched, thread, h0, hlen] at hu
    refine ⟨?_, ?_⟩
    · simp [state, sched, process, threads, thread, hlen]
    · simp [state, sched, thread, hlen]
  counted p := rfl
  children p := by
    refine ⟨(List.nodup_dedup _).filter _, fun q => ?_⟩
    simp only [state, sched, process, List.mem_filter, List.mem_dedup, beq_iff_eq]
    exact ⟨And.right, fun hq => ⟨hparent q p hq, hq⟩⟩

/-- The context of a system call that sleeps for a second. -/
def sleepCall : UserContext :=
  { userContext false 13 with
    registers := Function.update (userContext false 13).registers 1 1000 }

/-- In a run in which no system call goes on for a thread that has ended, the lists and the flags
    of the threads agree, the links and the count of each list are those of the threads in it,
    registering a process keeps that, and a thread that is woken and whose timeout expires is queued
    once. -/
theorem queues_agree {s₀ : State} {t₀ : ThreadRef} (hb : Registered s₀ t₀)
    (hr : Run step LiveCalls s₀ s) :
    QueuesOk s.sched ∧
    (∀ l, Represents (s.sched.rings.list l) s.sched.rings.links
        (Rings.nodes l (s.sched.queue l)) ∧
      s.sched.rings.count l = (s.sched.queue l).length) ∧
    (∀ p, QueuesOk (schedulerRegisterProcess p s.sched).1) ∧
    ∀ (e : Env) (t : ThreadRef) (result : Int64), (s.sched.thread t).state = .blocked →
      (schedulerExpireTimeouts e (schedulerWakeWaiter e t result s.sched)).runQueue.count t = 1 ∧
      (schedulerWakeWaiter e t result (schedulerExpireTimeouts e s.sched)).runQueue.count t =
        1 := by
  have hs : TidyState False s :=
    hr.invariant hb.tidyState fun _ _ _ hs hok h => hs.step ⟨hok, nofun⟩ h
  have hq := hs.tidy.toQueuesOk
  exact ⟨hq, fun l => ⟨hq.rings.ring l, hq.rings.count l⟩,
    fun p => (schedulerRegisterProcess_tidy hs.tidy p).toQueuesOk,
    fun e t result hblocked => wake_expire_once hs.tidy hblocked e result⟩

/-- The first thread sleeps; both its wake-up and its timeout queue it once. -/
theorem queues_agree_sleep : ∃ s, Run step LiveCalls twoThreads.state s ∧
    (s.sched.thread 0).state = .blocked ∧ s.sched.timeoutQueue = [0] ∧ QueuesOk s.sched ∧
    (Represents (s.sched.rings.list .timeout) s.sched.rings.links [.thread .timeoutNode 0] ∧
      s.sched.rings.count .timeout = 1) ∧
    (schedulerExpireTimeouts (bootAct .iret).env
      (schedulerWakeWaiter (bootAct .iret).env 0 0 s.sched)).runQueue.count 0 = 1 := by
  have h₁ : Run step LiveCalls twoThreads.state _ :=
    Run.refl.tail (a := bootAct .switch) ⟨nofun, nofun⟩ rfl
  have h₂ := h₁.tail (a := bootAct (.user sleepCall)) ⟨trivial, nofun⟩ rfl
  have h₃ := h₂.tail (a := bootAct (.trap .syscall)) ⟨trivial, nofun⟩ rfl
  have h₄ := h₃.tail (a := bootAct (.dispatch (.done 0) .none)) ⟨trivial, nofun⟩ rfl
  have hb : Registered twoThreads.state 0 :=
    twoThreads.registered Nat.one_pos (by decide) fun _ _ hp => nomatch hp
  obtain ⟨hq, hrings, _, honce⟩ := queues_agree hb h₄
  exact ⟨_, h₄, rfl, rfl, hq, hrings .timeout, (honce _ 0 0 rfl).1⟩

/-- In the same runs the family tree and the lists of threads agree with the records: an active
    thread is listed once, in its process, which is registered and, unless it is being stopped,
    counts its live threads. -/
theorem families_agree {s₀ : State} {t₀ : ThreadRef} (hb : Registered s₀ t₀)
    (hr : Run step LiveCalls s₀ s) : Lives noProcess s.sched ∧ Kin s.sched := by
  have hs : TidyState False s :=
    hr.invariant hb.tidyState fun _ _ _ hs hok h => hs.step ⟨hok, nofun⟩ h
  exact ⟨hs.tidy.toLives, hs.tidy.toKin⟩

/-- Whether no thread is started and no call goes on for a thread that has ended. -/
def liveCheck (s : State) (a : Action) : Bool :=
  (match (s.cpu a.cpu).phase with
    | .suspend _ _ _ none _ | .start _ => false
    | _ => true) && (resumesCall s a).all fun t => (s.sched.thread t).state.isActive

theorem liveCheck_live (h : liveCheck s a = true) : LiveCalls s a := by
  simp only [liveCheck, Bool.and_eq_true, Option.all_eq_true] at h
  refine ⟨?_, h.2⟩
  unfold SwitchSafe
  split
  · next hp => simp [hp] at h
  · next hp => simp [hp] at h
  · trivial

/-- A system call of the boot processor's thread, up to its return. -/
def bootCall (ctx : UserContext) : List Action :=
  [bootAct (.user ctx), bootAct (.trap .syscall), bootAct (.dispatch (.done 0) .none),
    bootAct .iret]

/-- The parent waits for the disk while the child runs, and goes on with its call.  Then it waits
    for the child, which exits and is collected. -/
theorem families_agree_childExits : ∃ s, Run step LiveCalls parentAndChild.state s ∧
    (s.cpu 0).phase = .user ∧ s.sched.current 0 = some 0 ∧ (s.sched.process 1).state = .zombie ∧
    (s.sched.process 0).children = [] ∧ s.sched.reapQueue = [1] ∧
    Lives noProcess s.sched ∧ Kin s.sched := by
  have h₁ : Run step LiveCalls parentAndChild.state _ :=
    Run.refl.tail (a := bootAct .switch) ⟨nofun, nofun⟩ rfl
  have h₂ := h₁.guarded (fun _ _ _ => liveCheck_live)
    [bootAct (.user (userContext false 12)), bootAct (.trap .syscall),
      bootAct (.dispatch (.block .block 0 0 64 (.done 0)) .none)] rfl
  have h₃ := h₂.tail (a := bootAct .switch)
    ⟨⟨by decide, fun u _ hsp => by match u with | 0 | 1 | _ + 2 => cases hsp⟩, nofun⟩ rfl
  have h₄ := h₃.guarded (fun _ _ _ => liveCheck_live) ([bootAct (.trap .device),
    bootAct (.dispatch (.done 0) (.wakeOne .block 0)), bootAct .iret, bootAct (.trap .timer),
    bootAct (.dispatch (.done 0) .none), bootAct .switch, bootAct (.resumed (.done 0)),
    bootAct .iret] ++ bootCall (userContext false 5) ++ bootCall (userContext false 0)) rfl
  have hb : Registered parentAndChild.state 0 :=
    parentAndChild.registered Nat.one_pos (by decide) fun q p hp => by
      by_cases hq : q = 1
      · simp [parentAndChild, hq]
      · simp [parentAndChild, hq] at hp
  exact ⟨_, h₄, rfl, rfl, rfl, rfl, rfl, families_agree hb h₄⟩

/-- The first thread waits for the disk once more after the second one's fault, and the process is
    reaped. -/
def waitAfterEnd : List Action :=
  resumedInFault ++
    [bootAct (.resumed (.block .block 0 0 64 (.done 0))), bootAct (.interrupt .timer),
      secondAct .spinLeave, secondAct .rendezvous, secondAct .iret, secondAct .retire,
      secondAct .secondaryStart]

/-- A thread that has been freed is still in the wait queue of the disk. -/
theorem waitAfterEnd_freed : ∃ s, Registered threeThreads.state 0 ∧
    Run step (fun _ _ => True) threeThreads.state s ∧ s.sched.waiters .block = [0] ∧
    (s.sched.thread 0).waitQueue = some .block ∧ (s.sched.thread 0).state = .dead := by
  obtain ⟨s, hr, hs⟩ := Run.exists_of_runList step threeThreads.state waitAfterEnd
    (fun s => s.sched.waiters .block == [0] && (s.sched.thread 0).waitQueue == some .block &&
      (s.sched.thread 0).state == .dead) (by decide +kernel)
  simp only [Bool.and_eq_true, beq_iff_eq] at hs
  obtain ⟨⟨hwait, hqueue⟩, hstate⟩ := hs
  exact ⟨s, threeThreads.registered Nat.two_pos (by decide) (fun _ _ hp => nomatch hp), hr, hwait,
    hqueue, hstate⟩

/-- In a run in which, besides, no process that ends hands over a child that has ended to a waiting
    parent, a thread blocked in `waitpid` has a matching child, and none of them has ended. -/
theorem waiters_awaited {s₀ : State} {t₀ : ThreadRef} (hb : Registered s₀ t₀)
    (hr : Run step (TidySteps True) s₀ s) (pid : UInt64)
    (hstate : (s.sched.thread t).state = .blocked)
    (hwait : (s.sched.thread t).blockedIn = some (.waitpid pid)) :
    (∃ c ∈ (s.sched.process (s.sched.thread t).process).children,
      schedulerWaitMatches pid (s.sched.process c).pid = true) ∧
    ∀ c ∈ (s.sched.process (s.sched.thread t).process).children,
      schedulerWaitMatches pid (s.sched.process c).pid = true →
      (s.sched.process c).state ≠ .zombie := by
  have hs : TidyState True s := hr.invariant hb.tidyState fun _ _ _ hs hok h => hs.step hok h
  obtain ⟨_, hchild, hended⟩ := hs.tidy.waits trivial t pid hstate hwait
  exact ⟨hchild, fun c hc => hended c hc id⟩

/-- One processor and four processes of one thread each: the last two are children of the first,
    and the second is a child of the third. -/
def smallFamily : BootConfig :=
  ⟨1, [0, 1, 2, 3], fun p => if p = 1 then some 2 else if p = 2 ∨ p = 3 then some 0 else none⟩

/-- The context of a system call that waits for the fourth process. -/
def waitFourth : UserContext :=
  { userContext false 6 with
    registers := Function.update (userContext false 6).registers 1 4 }

/-- Whether the listed threads wait for no child that `p` hands over and that has ended. -/
def adoptsCheck (p : ProcessRef) (s : Sched) : Bool :=
  s.processes.all fun q => (s.process q).threads.all fun t =>
    match (s.thread t).blockedIn with
    | some (.waitpid pid) => (s.process p).children.all fun c =>
        !schedulerWaitMatches pid (s.process c).pid || (s.process c).state != .zombie
    | _ => true

theorem Lives.adoptsNoEnded {X : ProcessRef → Prop} {s : Sched} (h : Lives X s)
    (hcheck : adoptsCheck p s = true) : AdoptsNoEnded p s := by
  intro t pid hb hin _ c hc _ hmatch hzombie
  have ha : (s.thread t).state.isActive = true := by rw [hb]; rfl
  have hall := List.all_eq_true.mp (List.all_eq_true.mp hcheck _ (h.registered t ha)) t
    (h.member t ha)
  rw [hin] at hall
  simpa [hmatch, hzombie] using List.all_eq_true.mp hall c hc

/-- The first process waits for the fourth one.  The second exits, and then its parent, the third,
    which hands it over to the first: both have ended, but nobody waits for them. -/
theorem waiters_awaited_adopts : ∃ s, Run step (TidySteps True) smallFamily.state s ∧
    (s.sched.thread 0).state = .blocked ∧ (s.sched.thread 0).blockedIn = some (.waitpid 4) ∧
    (s.sched.process 0).children = [2, 3, 1] ∧ (s.sched.process 1).state = .zombie ∧
    (∃ c ∈ (s.sched.process (s.sched.thread 0).process).children,
      schedulerWaitMatches 4 (s.sched.process c).pid = true) ∧
    ∀ c ∈ (s.sched.process (s.sched.thread 0).process).children,
      schedulerWaitMatches 4 (s.sched.process c).pid = true →
      (s.sched.process c).state ≠ .zombie := by
  have hb : Registered smallFamily.state 0 :=
    smallFamily.registered Nat.one_pos (by decide) fun q p hp => by
      simp only [smallFamily] at hp ⊢
      grind
  have h₁ : Run step (TidySteps True) smallFamily.state _ :=
    Run.refl.tail (a := bootAct .switch) ⟨⟨nofun, nofun⟩, fun _ => nofun⟩ rfl
  have hguard : ∀ s a, Run step (TidySteps True) smallFamily.state s →
      (liveCheck s a && (endsProcess s a).all (adoptsCheck · s.sched)) = true →
      TidySteps True s a := by
    intro s a hr hg
    have hs : TidyState True s := hr.invariant hb.tidyState fun _ _ _ hs hok h => hs.step hok h
    simp only [Bool.and_eq_true, Option.all_eq_true] at hg
    exact ⟨liveCheck_live hg.1, fun _ p hp => hs.tidy.toLives.adoptsNoEnded (hg.2 p hp)⟩
  obtain ⟨s, hr, hs⟩ := h₁.exists_guarded hguard
    (bootCall waitFourth ++ bootCall (userContext false 0) ++ bootCall (userContext false 0))
    (fun s => (s.sched.thread 0).state == .blocked &&
      (s.sched.thread 0).blockedIn == some (.waitpid 4) &&
      (s.sched.process 0).children == [2, 3, 1] && (s.sched.process 1).state == .zombie)
    (by decide +kernel)
  simp only [Bool.and_eq_true, beq_iff_eq] at hs
  obtain ⟨⟨⟨hstate, hwait⟩, hchildren⟩, hended⟩ := hs
  exact ⟨s, hr, hstate, hwait, hchildren, hended, waiters_awaited hb hr 4 hstate hwait⟩

/-- One processor and four processes of one thread each, every one but the first a child of the
    one before. -/
def fourGenerations : BootConfig :=
  ⟨1, [0, 1, 2, 3], fun p => if 0 < p ∧ p < 4 then some (p - 1) else none⟩

/-- The first process waits for any child; the last one exits, and then its parent. -/
def adoptedZombie : List Action :=
  [bootAct .switch] ++ bootCall (userContext false 5) ++ bootCall (userContext false 3) ++
    bootCall (userContext false 3) ++ bootCall (userContext false 0) ++
    bootCall (userContext false 3) ++ bootCall (userContext false 0)

/-- The first process still waits although its new child has ended. -/
theorem adoptedZombie_unnoticed : ∃ s, Registered fourGenerations.state 0 ∧
    Run step (fun _ _ => True) fourGenerations.state s ∧
    (s.sched.thread 0).state = .blocked ∧
    (s.sched.thread 0).blockedIn = some (.waitpid uint64Max) ∧
    3 ∈ (s.sched.process 0).children ∧ (s.sched.process 3).state = .zombie ∧
    schedulerWaitMatches uint64Max (s.sched.process 3).pid = true := by
  obtain ⟨s, hr, hs⟩ := Run.exists_of_runList step fourGenerations.state adoptedZombie
    (fun s => (s.sched.thread 0).state == .blocked &&
      (s.sched.thread 0).blockedIn == some (.waitpid uint64Max) &&
      (s.sched.process 0).children.contains 3 && (s.sched.process 3).state == .zombie &&
      schedulerWaitMatches uint64Max (s.sched.process 3).pid) (by decide +kernel)
  simp only [Bool.and_eq_true, beq_iff_eq, List.contains_iff_mem] at hs
  obtain ⟨⟨⟨⟨hstate, hwait⟩, hchild⟩, hended⟩, hmatch⟩ := hs
  refine ⟨s, fourGenerations.registered Nat.one_pos (by decide) fun q p hp => ?_, hr, hstate,
    hwait, hchild, hended, hmatch⟩
  simp only [fourGenerations] at hp ⊢
  split at hp
  · next hq => exact (List.mem_range (n := 4)).mpr hq.2
  · cases hp

end RiscMv.Kernel
