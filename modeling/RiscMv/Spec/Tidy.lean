import RiscMv.ForStd.Roster
import RiscMv.Spec.Moves

/-!
# What the lists of the scheduler say about threads and processes

The scheduler keeps a thread in at most one of its lists by flags in the thread record, and
counts the threads of a process that have not ended.  `Tidy` collects what has to hold between
the lists, the flags and the states whenever no processor is inside a section.

Inside a section the count of a process may be off for a while: `Tidy X w` leaves out the counts
of the processes in `X`.  The part about `waitpid` holds only in some runs; `w` says whether it
is included.

## Key results
- `QueuesOk.modThread`, `Lives.modThread`, `Lives.kill`, `Waits.modThread`: what is to show when
  a thread record changes
- `Lives.modProcess`, `Kin.modProcess`: the same for a process record
-/

namespace RiscMv.Kernel

/-- The thread has not ended. -/
def ThreadState.isLive : ThreadState → Bool
  | .zombie | .dead => false
  | _ => true

/-- The thread takes part in scheduling. -/
def ThreadState.isActive : ThreadState → Bool
  | .running | .runnable | .blocked => true
  | _ => false

theorem ThreadState.isLive_of_isActive {st : ThreadState} (h : st.isActive = true) :
    st.isLive = true := by
  cases st <;> first | rfl | cases h

theorem ThreadState.not_isActive {st : ThreadState} (h : st.isLive = false) :
    ¬ st.isActive = true := by
  intro ha
  rw [ThreadState.isLive_of_isActive ha] at h
  cases h

/-- What the flags of a thread record say about its state. -/
structure KernelThread.StatusOk (th : KernelThread) : Prop where
  queued : th.queued = true → th.state = .runnable
  waiting : ∀ q, th.waitQueue = some q → th.state = .blocked
  reaped : th.reapQueued = true → th.state = .zombie

/-- The lists of the scheduler hold the threads whose flags say so, once each, and are linked as
    rings with the right counts. -/
structure QueuesOk (s : Sched) : Prop where
  rings : s.rings.Hold s.queue
  run : Roster s.runQueue fun t => (s.thread t).queued = true
  timeout : Roster s.timeoutQueue fun t => (s.thread t).timeoutQueued = true
  wait : ∀ q, Roster (s.waiters q) fun t => (s.thread t).waitQueue = some q
  reap : Roster s.threadReapQueue fun t => (s.thread t).reapQueued = true
  status : ∀ t, (s.thread t).StatusOk

/-- The process has ended or is about to. -/
def KernelProcess.Over (q : KernelProcess) : Prop := q.state = .zombie ∨ q.faulted = true

/-- The number of threads in the list that have not ended. -/
def liveCount (s : Sched) (ts : List ThreadRef) : Nat :=
  ts.countP fun t => (s.thread t).state.isLive

/-- The threads of the processes, those that have not ended, and their number. -/
structure Lives (X : ProcessRef → Prop) (s : Sched) : Prop where
  nodup : ∀ p, (s.process p).threads.Nodup
  listed : ∀ p, ∀ t ∈ (s.process p).threads, (s.thread t).process = p
  member : ∀ t, (s.thread t).state.isActive = true →
    t ∈ (s.process (s.thread t).process).threads
  registered : ∀ t, (s.thread t).state.isActive = true → (s.thread t).process ∈ s.processes
  ends : ∀ p, (s.process p).Over → ∀ t ∈ (s.process p).threads,
    (s.thread t).state.isLive = false
  reaped : ∀ p ∈ s.reapQueue, (s.process p).state = .zombie
  stops : ∀ p, (s.process p).faulted = true → (s.process p).stopRequested = true ∧
    (s.process p).stopOwner = none ∧ (s.process p).liveThreadCount = 0
  counted : ∀ p, ¬ X p → (s.process p).stopRequested = false →
    (s.process p).liveThreadCount = liveCount s (s.process p).threads

/-- The children of each process are those that have it as their parent. -/
structure Kin (s : Sched) : Prop where
  children : ∀ p, Roster (s.process p).children fun c => (s.process c).parent = some p
  orphan : ∀ p ∈ s.reapQueue, (s.process p).parent = none

/-- If the thread is blocked in `waitpid`, it has a child to wait for, and no such child outside
    `I` has ended. -/
def WaitOk (I : ProcessRef → Prop) (s : Sched) (t : ThreadRef) : Prop :=
  ∀ pid, (s.thread t).state = .blocked → (s.thread t).blockedIn = some (.waitpid pid) →
    (s.thread t).waitPid = pid ∧
    (∃ c ∈ (s.process (s.thread t).process).children,
      schedulerWaitMatches pid (s.process c).pid = true) ∧
    ∀ c ∈ (s.process (s.thread t).process).children, ¬ I c →
      schedulerWaitMatches pid (s.process c).pid = true → (s.process c).state ≠ .zombie

/-- No process is left out. -/
def noProcess : ProcessRef → Prop := fun _ => False

/-- A thread blocked in `waitpid` has a child to wait for, and no such child has ended. -/
def Waits (s : Sched) : Prop := ∀ t, WaitOk noProcess s t

/-- The lists, the flags and the states agree. -/
structure Tidy (X : ProcessRef → Prop) (w : Prop) (s : Sched) : Prop extends
    QueuesOk s, Lives X s, Kin s where
  waits : w → Waits s

variable {X : ProcessRef → Prop} {w : Prop} {s s' : Sched} {t u : ThreadRef} {p q : ProcessRef}
  {f : KernelThread → KernelThread} {g : KernelProcess → KernelProcess}

theorem QueuesOk.runQueueOk (h : QueuesOk s) : RunQueueOk s := ⟨h.run.nodup, h.run.mem⟩

/-! ## One thread changes -/

/-- A field that an update of one record keeps. -/
theorem modThread_proj {β : Type} (F : KernelThread → β)
    (h : F (f (s.thread t)) = F (s.thread t)) (u : ThreadRef) :
    F ((s.modThread t f).thread u) = F (s.thread u) :=
  forall_modThread (P := fun u th => F th = F (s.thread u)) h (fun _ _ => rfl) u

/-- An operation on the lists that concerns one thread. -/
theorem QueuesOk.moved (h : QueuesOk s) (hne : ∀ u, u ≠ t → s'.thread u = s.thread u)
    (rings : s.rings.Hold s.queue → s'.rings.Hold s'.queue)
    (run : Moved t s.runQueue ((s.thread t).queued = true) ((s'.thread t).queued = true)
      s'.runQueue)
    (timeout : Moved t s.timeoutQueue ((s.thread t).timeoutQueued = true)
      ((s'.thread t).timeoutQueued = true) s'.timeoutQueue)
    (wait : ∀ q, Moved t (s.waiters q) ((s.thread t).waitQueue = some q)
      ((s'.thread t).waitQueue = some q) (s'.waiters q))
    (reap : Moved t s.threadReapQueue ((s.thread t).reapQueued = true)
      ((s'.thread t).reapQueued = true) s'.threadReapQueue)
    (hok : (s'.thread t).StatusOk) : QueuesOk s' where
  rings := rings h.rings
  run := h.run.moved (fun u hu => by rw [hne u hu]) run
  timeout := h.timeout.moved (fun u hu => by rw [hne u hu]) timeout
  wait q := (h.wait q).moved (fun u hu => by rw [hne u hu]) (wait q)
  reap := h.reap.moved (fun u hu => by rw [hne u hu]) reap
  status u := by
    by_cases hu : u = t
    · exact hu ▸ hok
    · rw [hne u hu]
      exact h.status u

/-- The flags of a thread record that say which lists hold the thread. -/
def KernelThread.flags (th : KernelThread) : Bool × Bool × Option WaitQueue × Bool :=
  (th.queued, th.timeoutQueued, th.waitQueue, th.reapQueued)

/-- Neither the lists nor what they have to agree with changes. -/
theorem QueuesOk.congr (h : QueuesOk s) (hflags : ∀ u, (s'.thread u).flags = (s.thread u).flags)
    (hstate : ∀ u, (s'.thread u).state = (s.thread u).state) (hqueue : s'.queue = s.queue)
    (hrings : s'.rings = s.rings) : QueuesOk s' := by
  simp only [KernelThread.flags, Prod.mk.injEq] at hflags
  have hrun : s'.runQueue = s.runQueue := congrFun hqueue .run
  have htimeout : s'.timeoutQueue = s.timeoutQueue := congrFun hqueue .timeout
  have hwait q : s'.waiters q = s.waiters q := congrFun hqueue (.wait q)
  have hreap : s'.threadReapQueue = s.threadReapQueue := congrFun hqueue .reap
  refine ⟨by rw [hqueue, hrings]; exact h.rings, ?_, ?_, fun q => ?_, ?_, fun u => ⟨?_, ?_, ?_⟩⟩
  · rw [hrun]; exact h.run.congr fun u => by rw [(hflags u).1]
  · rw [htimeout]; exact h.timeout.congr fun u => by rw [(hflags u).2.1]
  · rw [hwait]; exact (h.wait q).congr fun u => by rw [(hflags u).2.2.1]
  · rw [hreap]; exact h.reap.congr fun u => by rw [(hflags u).2.2.2]
  · rw [(hflags u).1, hstate]; exact (h.status u).queued
  · rw [(hflags u).2.2.1, hstate]; exact (h.status u).waiting
  · rw [(hflags u).2.2.2, hstate]; exact (h.status u).reaped

theorem QueuesOk.modThread (h : QueuesOk s)
    (hflags : (f (s.thread t)).flags = (s.thread t).flags)
    (hok : (f (s.thread t)).StatusOk) : QueuesOk (s.modThread t f) := by
  simp only [KernelThread.flags, Prod.mk.injEq] at hflags
  obtain ⟨hq, ht, hw, hr⟩ := hflags
  refine h.moved (fun u hu => modThread_thread_ne s f hu) id (.stay ?_) (.stay ?_)
    (fun q => .stay ?_) (.stay ?_) ?_ <;> rw [modThread_thread_self]
  · rw [hq]
  · rw [ht]
  · rw [hw]
  · rw [hr]
  · exact hok

theorem liveCount_modThread (hlive : (f (s.thread t)).state.isLive = (s.thread t).state.isLive)
    (ts : List ThreadRef) : liveCount (s.modThread t f) ts = liveCount s ts := by
  unfold liveCount
  exact List.countP_congr fun u _ => by rw [modThread_proj (·.state.isLive) hlive u]

/-- A thread changes, and the counts that matter stay. -/
theorem Lives.change (h : Lives X s) (hproc : (f (s.thread t)).process = (s.thread t).process)
    (hlive : (f (s.thread t)).state.isLive = true → (s.thread t).state.isLive = true)
    (hact : (f (s.thread t)).state.isActive = true → (s.thread t).state.isActive = true)
    (hcount : ∀ p, ¬X p → (s.process p).stopRequested = false →
      liveCount (s.modThread t f) (s.process p).threads = liveCount s (s.process p).threads) :
    Lives X (s.modThread t f) where
  nodup := h.nodup
  listed p u hu := by
    rw [modThread_proj (·.process) hproc u]
    exact h.listed p u hu
  member := forall_modThread
    (P := fun u th => th.state.isActive = true → u ∈ (s.process th.process).threads)
    (fun ha => by rw [hproc]; exact h.member t (hact ha)) fun u _ => h.member u
  registered := forall_modThread
    (P := fun _ th => th.state.isActive = true → th.process ∈ s.processes)
    (fun ha => by rw [hproc]; exact h.registered t (hact ha)) fun u _ => h.registered u
  ends p ho := fun u hu => forall_modThread (s := s) (t := t) (f := f)
    (P := fun u th => u ∈ (s.process p).threads → th.state.isLive = false)
    (fun ht => Bool.eq_false_iff.mpr fun hl => Bool.eq_false_iff.mp (h.ends p ho t ht) (hlive hl))
    (fun u _ hu => h.ends p ho u hu) u hu
  reaped := h.reaped
  stops := h.stops
  counted p hX hr := (h.counted p hX hr).trans (hcount p hX hr).symm

/-- A thread changes its state, but neither ends nor starts to take part. -/
theorem Lives.modThread (h : Lives X s) (hproc : (f (s.thread t)).process = (s.thread t).process)
    (hlive : (f (s.thread t)).state.isLive = (s.thread t).state.isLive)
    (hact : (f (s.thread t)).state.isActive = true → (s.thread t).state.isActive = true) :
    Lives X (s.modThread t f) :=
  h.change hproc (fun hl => hlive ▸ hl) hact fun _ _ _ => liveCount_modThread hlive _

/-- A thread ends while the count of its process does not matter. -/
theorem Lives.kill (h : Lives X s) (hproc : (f (s.thread t)).process = (s.thread t).process)
    (hend : (f (s.thread t)).state.isLive = false)
    (hX : X (s.thread t).process ∨ (s.process (s.thread t).process).stopRequested = true) :
    Lives X (s.modThread t f) := by
  refine h.change hproc (fun hl => absurd hl (Bool.eq_false_iff.mp hend))
    (fun ha => absurd ha (ThreadState.not_isActive hend)) fun p hXp hr => ?_
  have hpt : p ≠ (s.thread t).process := by
    rintro rfl
    rcases hX with hX | hX
    · exact hXp hX
    · cases hX.symm.trans hr
  have htp : ∀ u ∈ (s.process p).threads, u ≠ t := by
    rintro u hu rfl
    exact hpt (h.listed p u hu).symm
  exact List.countP_congr fun u hu => by rw [modThread_thread_ne s f (htp u hu)]

theorem Kin.modThread (h : Kin s) : Kin (s.modThread t f) := ⟨h.children, h.orphan⟩

/-- What is to show of a thread that is blocked in `waitpid` afterwards. -/
theorem Waits.modThread (h : Waits s) (hproc : (f (s.thread t)).process = (s.thread t).process)
    (ht : ∀ pid, (f (s.thread t)).state = .blocked →
      (f (s.thread t)).blockedIn = some (.waitpid pid) →
      ((s.thread t).state = .blocked ∧ (s.thread t).blockedIn = some (.waitpid pid) ∧
        (f (s.thread t)).waitPid = (s.thread t).waitPid) ∨
      ((f (s.thread t)).waitPid = pid ∧
        (∃ c ∈ (s.process (s.thread t).process).children,
          schedulerWaitMatches pid (s.process c).pid = true) ∧
        ∀ c ∈ (s.process (s.thread t).process).children,
          schedulerWaitMatches pid (s.process c).pid = true → (s.process c).state ≠ .zombie)) :
    Waits (s.modThread t f) := by
  intro u pid
  by_cases hu : u = t
  · subst hu
    rw [modThread_thread_self, modThread_process, hproc]
    intro hb hin
    rcases ht pid hb hin with ⟨hb', hin', hw⟩ | ⟨hw, hex, hz⟩
    · obtain ⟨hpid, hrest⟩ := h u pid hb' hin'
      exact ⟨hw.trans hpid, hrest⟩
    · exact ⟨hw, hex, fun c hc _ => hz c hc⟩
  · rw [modThread_thread_ne s f hu, modThread_process]
    exact h u pid

/-- A thread that is not blocked afterwards does not wait. -/
theorem Waits.modThread_of_ne (h : Waits s)
    (hproc : (f (s.thread t)).process = (s.thread t).process)
    (ht : (f (s.thread t)).state ≠ .blocked) : Waits (s.modThread t f) :=
  h.modThread hproc fun _ hb => absurd hb ht

/-! ## One process changes -/

@[simp] theorem modProcess_thread (s : Sched) (p : ProcessRef)
    (g : KernelProcess → KernelProcess) : (s.modProcess p g).thread = s.thread := rfl

/-- A field that an update of one record keeps. -/
theorem modProcess_proj {β : Type} (F : KernelProcess → β)
    (h : F (g (s.process p)) = F (s.process p)) (q : ProcessRef) :
    F ((s.modProcess p g).process q) = F (s.process q) :=
  forall_modProcess (P := fun q r => F r = F (s.process q)) h (fun _ _ => rfl) q

/-- The threads of a process stay, but not what is recorded about them. -/
theorem Lives.modProcess (h : Lives X s)
    (hthreads : (g (s.process p)).threads = (s.process p).threads)
    (hover : (g (s.process p)).Over → ∀ t ∈ (s.process p).threads,
      (s.thread t).state.isLive = false)
    (hreaped : (s.process p).state = .zombie → (g (s.process p)).state = .zombie)
    (hstops : (g (s.process p)).faulted = true → (g (s.process p)).stopRequested = true ∧
      (g (s.process p)).stopOwner = none ∧ (g (s.process p)).liveThreadCount = 0)
    (hcounted : ¬ X p → (g (s.process p)).stopRequested = false →
      (g (s.process p)).liveThreadCount = liveCount s (s.process p).threads) :
    Lives X (s.modProcess p g) where
  nodup q := by rw [modProcess_proj (·.threads) hthreads q]; exact h.nodup q
  listed q := by rw [modProcess_proj (·.threads) hthreads q]; exact h.listed q
  member t := by rw [modProcess_proj (·.threads) hthreads _]; exact h.member t
  registered := h.registered
  ends := forall_modProcess
    (P := fun _ r => r.Over → ∀ t ∈ r.threads, (s.thread t).state.isLive = false)
    (fun ho => by rw [hthreads]; exact hover ho) fun q _ => h.ends q
  reaped q hq := forall_modProcess (s := s) (p := p) (g := g)
    (P := fun q r => (s.process q).state = .zombie → r.state = .zombie) hreaped
    (fun _ _ => id) q (h.reaped q hq)
  stops := forall_modProcess
    (P := fun _ r => r.faulted = true →
      r.stopRequested = true ∧ r.stopOwner = none ∧ r.liveThreadCount = 0) hstops
    fun q _ => h.stops q
  counted := forall_modProcess
    (P := fun q r => ¬ X q → r.stopRequested = false → r.liveThreadCount = liveCount s r.threads)
    (by rw [hthreads]; exact hcounted) fun q _ => h.counted q

/-- A thread that has ended is taken out of its process. -/
theorem Lives.eraseThread (h : Lives X s) (ht : (s.thread t).state.isLive = false)
    (hthreads : (g (s.process p)).threads = (s.process p).threads.erase t)
    (hlife : (g (s.process p)).state = (s.process p).state ∧
      (g (s.process p)).faulted = (s.process p).faulted ∧
      (g (s.process p)).stopRequested = (s.process p).stopRequested ∧
      (g (s.process p)).stopOwner = (s.process p).stopOwner ∧
      (g (s.process p)).liveThreadCount = (s.process p).liveThreadCount) :
    Lives X (s.modProcess p g) where
  nodup := forall_modProcess (P := fun _ r => r.threads.Nodup)
    (by rw [hthreads]; exact (h.nodup p).erase t) fun q _ => h.nodup q
  listed := forall_modProcess (P := fun q r => ∀ u ∈ r.threads, (s.thread u).process = q)
    (by rw [hthreads]; exact fun u hu => h.listed p u (List.mem_of_mem_erase hu))
    fun q _ => h.listed q
  member u hu := by
    have hne : u ≠ t := by
      rintro rfl
      exact ThreadState.not_isActive ht hu
    have hmem := h.member u hu
    exact forall_modProcess (s := s) (p := p) (g := g)
      (P := fun q r => u ∈ (s.process q).threads → u ∈ r.threads)
      (by rw [hthreads]; exact (List.mem_erase_of_ne hne).mpr) (fun _ _ => id) _ hmem
  registered := h.registered
  ends := forall_modProcess
    (P := fun _ r => r.Over → ∀ u ∈ r.threads, (s.thread u).state.isLive = false)
    (by
      rw [hthreads, KernelProcess.Over, hlife.1, hlife.2.1]
      exact fun ho u hu => h.ends p ho u (List.mem_of_mem_erase hu)) fun q _ => h.ends q
  reaped q hq := by rw [modProcess_proj (·.state) hlife.1 q]; exact h.reaped q hq
  stops q := by
    rw [modProcess_proj (·.faulted) hlife.2.1 q, modProcess_proj (·.stopRequested) hlife.2.2.1 q,
      modProcess_proj (·.stopOwner) hlife.2.2.2.1 q,
      modProcess_proj (·.liveThreadCount) hlife.2.2.2.2 q]
    exact h.stops q
  counted := forall_modProcess
    (P := fun q r => ¬ X q → r.stopRequested = false → r.liveThreadCount = liveCount s r.threads)
    (by
      -- the count does not see a thread that has ended
      have hcount : liveCount s ((s.process p).threads.erase t) =
          liveCount s (s.process p).threads := by
        unfold liveCount
        rw [List.countP_erase]
        simp [ht]
      rw [hthreads, hcount, hlife.2.2.1, hlife.2.2.2.2]
      exact h.counted p) fun q _ => h.counted q

theorem Kin.modProcess (h : Kin s)
    (hchildren : (g (s.process p)).children = (s.process p).children)
    (hparent : (g (s.process p)).parent = (s.process p).parent) : Kin (s.modProcess p g) where
  children q := by
    rw [modProcess_proj (·.children) hchildren q]
    exact (h.children q).congr fun c => by rw [modProcess_proj (·.parent) hparent c]
  orphan q hq := by rw [modProcess_proj (·.parent) hparent q]; exact h.orphan q hq

theorem Waits.modProcess (h : Waits s)
    (hchildren : (g (s.process p)).children = (s.process p).children)
    (hpid : (g (s.process p)).pid = (s.process p).pid)
    (hstate : (g (s.process p)).state = .zombie → (s.process p).state = .zombie) :
    Waits (s.modProcess p g) := by
  intro t pid hb hin
  obtain ⟨hwait, ⟨c, hc, hm⟩, hz⟩ := h t pid hb hin
  rw [modProcess_thread, modProcess_proj (·.children) hchildren]
  refine ⟨hwait, ⟨c, hc, by rw [modProcess_proj (·.pid) hpid]; exact hm⟩, fun c hc hI hm => ?_⟩
  rw [modProcess_proj (·.pid) hpid] at hm
  exact fun hzombie => hz c hc hI hm (forall_modProcess (s := s) (p := p) (g := g)
    (P := fun q r => r.state = .zombie → (s.process q).state = .zombie) hstate (fun _ _ => id) c
    hzombie)

theorem QueuesOk.modProcess (h : QueuesOk s) : QueuesOk (s.modProcess p g) :=
  ⟨h.rings, h.run, h.timeout, h.wait, h.reap, h.status⟩

/-! ## Nothing that matters changes -/

/-- The part of a thread record that the lists of threads and processes depend on. -/
structure ThreadStanding where
  process : ProcessRef
  state : ThreadState
  blockedIn : Option BlockReason
  waitPid : UInt64

/-- The part of a thread record that the lists of threads and processes depend on. -/
def KernelThread.standing (th : KernelThread) : ThreadStanding :=
  ⟨th.process, th.state, th.blockedIn, th.waitPid⟩

/-- Only the lists that the flags of thread records are about change. -/
theorem Tidy.requeue (h : Tidy X w s) (hq : QueuesOk s')
    (hthread : ∀ u, (s'.thread u).standing = (s.thread u).standing)
    (hprocess : s'.process = s.process) (hreap : s'.reapQueue = s.reapQueue)
    (hlist : s'.processes = s.processes) : Tidy X w s' := by
  simp only [KernelThread.standing, ThreadStanding.mk.injEq] at hthread
  have hproc u := (hthread u).1
  have hstate u := (hthread u).2.1
  have hin u := (hthread u).2.2.1
  have hpid u := (hthread u).2.2.2
  refine ⟨hq, ⟨?_, ?_, ?_, ?_, ?_, ?_, ?_, ?_⟩, ⟨?_, ?_⟩, fun hw => ?_⟩ <;>
    simp only [Waits, WaitOk, liveCount, hproc, hstate, hin, hpid, hprocess, hreap, hlist]
  · exact h.nodup
  · exact h.listed
  · exact h.member
  · exact h.registered
  · exact h.ends
  · exact h.reaped
  · exact h.stops
  · exact h.counted
  · exact h.children
  · exact h.orphan
  · exact h.waits hw

/-- A change outside the part of a thread record that matters. -/
theorem Tidy.inert (h : Tidy X w s) (hst : (f (s.thread t)).standing = (s.thread t).standing)
    (hflags : (f (s.thread t)).flags = (s.thread t).flags) : Tidy X w (s.modThread t f) := by
  refine h.requeue (h.toQueuesOk.modThread hflags ?_) (modThread_proj (·.standing) hst) rfl rfl rfl
  have hok := h.status t
  have hstate : (f (s.thread t)).state = (s.thread t).state := congrArg ThreadStanding.state hst
  simp only [KernelThread.flags, Prod.mk.injEq] at hflags
  exact ⟨by rw [hflags.1, hstate]; exact hok.queued,
    by rw [hflags.2.2.1, hstate]; exact hok.waiting,
    by rw [hflags.2.2.2, hstate]; exact hok.reaped⟩

/-- The part of a process record that matters. -/
structure ProcessStatus where
  threads : List ThreadRef
  children : List ProcessRef
  parent : Option ProcessRef
  stopOwner : Option ThreadRef
  pid : UInt64
  liveThreadCount : Nat
  state : ProcessState
  faulted : Bool
  stopRequested : Bool

/-- The part of a process record that matters. -/
def KernelProcess.status (r : KernelProcess) : ProcessStatus :=
  ⟨r.threads, r.children, r.parent, r.stopOwner, r.pid, r.liveThreadCount, r.state, r.faulted,
    r.stopRequested⟩

/-- A change outside the part of a process record that matters. -/
theorem Tidy.inertProcess (h : Tidy X w s)
    (hst : (g (s.process p)).status = (s.process p).status) : Tidy X w (s.modProcess p g) := by
  simp only [KernelProcess.status, ProcessStatus.mk.injEq] at hst
  obtain ⟨hthreads, hchildren, hparent, howner, hpid, hlive, hstate, hfault, hreq⟩ := hst
  refine ⟨h.toQueuesOk.modProcess,
    h.toLives.modProcess hthreads ?_ (by rw [hstate]; exact id) ?_ ?_,
    h.toKin.modProcess hchildren hparent,
    fun hw => (h.waits hw).modProcess hchildren hpid (by rw [hstate]; exact id)⟩
  · rw [KernelProcess.Over, hstate, hfault]
    exact h.ends p
  · rw [hfault, hreq, howner, hlive]
    exact h.stops p
  · rw [hreq, hlive]
    exact h.counted p

/-- The part of the scheduler that matters. -/
structure SchedStatus where
  thread : ThreadRef → KernelThread
  process : ProcessRef → KernelProcess
  processes : List ProcessRef
  queue : ThreadList → List ThreadRef
  rings : Rings
  reapQueue : List ProcessRef

/-- The part of the scheduler that matters. -/
def Sched.status (s : Sched) : SchedStatus :=
  ⟨s.thread, s.process, s.processes, s.queue, s.rings, s.reapQueue⟩

/-- A change outside the part of the scheduler that matters. -/
theorem Tidy.congr (h : Tidy X w s) (hs : s'.status = s.status) : Tidy X w s' := by
  simp only [Sched.status, SchedStatus.mk.injEq] at hs
  obtain ⟨hthread, hprocess, hlist, hqueue, hrings, hreaped⟩ := hs
  exact h.requeue (h.toQueuesOk.congr (fun u => by rw [hthread]) (fun u => by rw [hthread]) hqueue
    hrings) (fun u => by rw [hthread]) hprocess hreaped hlist

/-! ## A thread and its place in the lists change -/

/-- Only the lists of threads differ. -/
structure SameRecords (s s' : Sched) : Prop where
  thread : s'.thread = s.thread
  process : s'.process = s.process
  reapQueue : s'.reapQueue = s.reapQueue
  processes : s'.processes = s.processes

theorem SameRecords.lives (hs : SameRecords s s') (h : Lives X s) : Lives X s' := by
  obtain ⟨hthread, hprocess, hreap, hlist⟩ := hs
  refine ⟨?_, ?_, ?_, ?_, ?_, ?_, ?_, ?_⟩ <;>
    simp only [liveCount, hthread, hprocess, hreap, hlist]
  · exact h.nodup
  · exact h.listed
  · exact h.member
  · exact h.registered
  · exact h.ends
  · exact h.reaped
  · exact h.stops
  · exact h.counted

theorem SameRecords.kin (hs : SameRecords s s') (h : Kin s) : Kin s' := by
  obtain ⟨_, hprocess, hreap, _⟩ := hs
  refine ⟨?_, ?_⟩ <;> simp only [hprocess, hreap]
  · exact h.children
  · exact h.orphan

theorem SameRecords.waits (hs : SameRecords s s') (h : Waits s) : Waits s' := by
  simp only [Waits, WaitOk, hs.thread, hs.process]
  exact h

/-- A thread moves from one state to another in which it takes part in scheduling. -/
theorem Tidy.move (h : Tidy X w s) (hs : SameRecords s s')
    (hproc : (f (s.thread t)).process = (s.thread t).process)
    (hlive : (f (s.thread t)).state.isLive = (s.thread t).state.isLive)
    (hact : (f (s.thread t)).state.isActive = true → (s.thread t).state.isActive = true)
    (hwait : ∀ pid, (f (s.thread t)).state = .blocked →
      (f (s.thread t)).blockedIn = some (.waitpid pid) →
      (f (s.thread t)).standing = (s.thread t).standing)
    (rings : s.rings.Hold s.queue → s'.rings.Hold s'.queue)
    (run : Moved t s.runQueue ((s.thread t).queued = true) ((f (s.thread t)).queued = true)
      s'.runQueue)
    (timeout : Moved t s.timeoutQueue ((s.thread t).timeoutQueued = true)
      ((f (s.thread t)).timeoutQueued = true) s'.timeoutQueue)
    (wait : ∀ q, Moved t (s.waiters q) ((s.thread t).waitQueue = some q)
      ((f (s.thread t)).waitQueue = some q) (s'.waiters q))
    (reap : Moved t s.threadReapQueue ((s.thread t).reapQueued = true)
      ((f (s.thread t)).reapQueued = true) s'.threadReapQueue)
    (hok : (f (s.thread t)).StatusOk) : Tidy X w (s'.modThread t f) := by
  have hself : (s'.modThread t f).thread t = f (s.thread t) := by
    rw [modThread_thread_self, hs.thread]
  rw [← hs.thread] at hproc hlive hact hwait
  refine ⟨h.toQueuesOk.moved (t := t) ?_ rings ?_ ?_ ?_ ?_ ?_,
    (hs.lives h.toLives).modThread hproc hlive hact, (hs.kin h.toKin).modThread,
    fun hw => (hs.waits (h.waits hw)).modThread hproc fun pid hb hin => ?_⟩
  · intro u hu
    rw [modThread_thread_ne _ _ hu, hs.thread]
  · rw [hself]; exact run
  · rw [hself]; exact timeout
  · rw [hself]; exact wait
  · rw [hself]; exact reap
  · rw [hself]; exact hok
  · have hst := hwait pid hb hin
    simp only [KernelThread.standing, ThreadStanding.mk.injEq] at hst
    exact .inl ⟨hst.2.1 ▸ hb, hst.2.2.1 ▸ hin, hst.2.2.2⟩

/-- A thread ends while the count of its process does not matter. -/
theorem Tidy.kill (h : Tidy X w s) (hproc : (f (s.thread t)).process = (s.thread t).process)
    (hend : (f (s.thread t)).state.isLive = false)
    (hX : X (s.thread t).process ∨ (s.process (s.thread t).process).stopRequested = true)
    (hflags : (f (s.thread t)).flags = (s.thread t).flags) (hok : (f (s.thread t)).StatusOk) :
    Tidy X w (s.modThread t f) :=
  ⟨h.toQueuesOk.modThread hflags hok, h.toLives.kill hproc hend hX, h.toKin.modThread,
    fun hw => (h.waits hw).modThread_of_ne hproc fun hb => by rw [hb] at hend; cases hend⟩

/-- Fewer counts are left out. -/
theorem Tidy.mono {Y : ProcessRef → Prop} (h : Tidy X w s) (hXY : ∀ p, X p → Y p) : Tidy Y w s :=
  ⟨h.toQueuesOk, { h.toLives with counted := fun p hY => h.counted p fun hX => hY (hXY p hX) },
    h.toKin, h.waits⟩

/-- The part about `waitpid` may be left out. -/
theorem Tidy.forget (h : Tidy X w s) : Tidy X False s :=
  ⟨h.toQueuesOk, h.toLives, h.toKin, nofun⟩

end RiscMv.Kernel
