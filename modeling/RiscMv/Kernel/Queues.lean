import RiscMv.Kernel.Sched

/-!
# Queues, wake-ups and reclamation (`scheduler.c`, `process.c`)

The functions of the scheduler that only change scheduler data.  Each runs inside one
big-kernel-lock section.  Counters kept for the boot self-test are left out.
-/

namespace RiscMv.Kernel

/-! ## Run queue -/

/-- Appends a thread to the run queue. -/
def pushRunQueue (t : ThreadRef) (s : Sched) : Sched :=
  { s with
    runQueue := s.runQueue ++ [t]
    rings := s.rings.pushBack .run t }.modThread t ({ · with queued := true })

/-- `scheduler_enqueue`: the new state, and whether the thread was queued. -/
def schedulerEnqueue (t : ThreadRef) (s : Sched) : Sched × Bool :=
  if (s.thread t).queued ∨ (s.thread t).state ≠ .runnable then (s, false)
  else (pushRunQueue t s, true)

/-- The loop of `scheduler_dequeue`: at most `candidates` threads are taken from the front;
    those pinned to another processor go to the back, with `queued` still set. -/
def schedulerDequeueLoop (affinity : Nat) : Nat → Sched → Option ThreadRef × Sched
  | 0, s => (none, s)
  | candidates + 1, s =>
    match s.runQueue with
    | [] => (none, s)
    | t :: rest =>
      if (s.thread t).cpuAffinity ≠ 0 ∧ (s.thread t).cpuAffinity ≠ affinity then
        schedulerDequeueLoop affinity candidates { s with
          runQueue := rest ++ [t]
          rings := (s.rings.popFront .run).pushBack .run t }
      else
        (some t, { s with runQueue := rest, rings := s.rings.popFront .run }.modThread t fun th =>
          { th with cpuAffinity := affinity, queued := false, state := .running })

/-- `scheduler_dequeue`: the next thread for this processor, pinned to it from now on. -/
def schedulerDequeue (e : Env) (s : Sched) : Option ThreadRef × Sched :=
  schedulerDequeueLoop (e.cpu + 1) s.runQueue.length s

/-- Takes a thread out of the run queue. -/
def eraseRunQueue (t : ThreadRef) (s : Sched) : Sched :=
  { s with
    runQueue := s.runQueue.erase t
    rings := s.rings.remove .run t }.modThread t ({ · with queued := false })

/-- Removes a thread from the run queue, as `scheduler_request_process_stop`,
    `scheduler_exec_discard_other_threads` and `kernel_scheduler_fault` do. -/
def leaveRunQueue (t : ThreadRef) (s : Sched) : Sched :=
  if (s.thread t).queued then eraseRunQueue t s else s

/-- `scheduler_queue_reap`. -/
def schedulerQueueReap (p : ProcessRef) (s : Sched) : Sched :=
  if (s.process p).parent.isSome ∨ (s.process p).reapQueued then s
  else { s with reapQueue := s.reapQueue ++ [p] }.modProcess p ({ · with reapQueued := true })

/-! ## Wait queues -/

/-- The wait queue part of `scheduler_detach_wait`. -/
def leaveWaitQueue (t : ThreadRef) (s : Sched) : Sched :=
  match (s.thread t).waitQueue with
  | some q => { s with
      waiters := Function.update s.waiters q ((s.waiters q).erase t)
      rings := s.rings.remove (.wait q) t }.modThread t ({ · with waitQueue := none })
  | none => s

/-- The timeout queue part of `scheduler_detach_wait`. -/
def leaveTimeoutQueue (t : ThreadRef) (s : Sched) : Sched :=
  if (s.thread t).timeoutQueued then
    { s with
      timeoutQueue := s.timeoutQueue.erase t
      rings := s.rings.remove .timeout t }.modThread t ({ · with timeoutQueued := false })
  else s

/-- `scheduler_detach_wait`. -/
def schedulerDetachWait (t : ThreadRef) (s : Sched) : Sched :=
  (leaveTimeoutQueue t (leaveWaitQueue t s)).modThread t fun th => { th with
    waitDeadline := 0, waitTimeoutResult := 0, waitBufferAddress := 0, waitBufferSize := 0 }

/-- `scheduler_wait_matches`, for a child's pid. -/
def schedulerWaitMatches (requestedPid childPid : UInt64) : Bool :=
  requestedPid == 0 || requestedPid == uint64Max || requestedPid == childPid

/-- The IPI that `scheduler_wake_waiter` sends after queueing a thread. -/
def wakeProcessorFor (e : Env) (t : ThreadRef) (s : Sched) : Sched :=
  if s.active then
    if (s.thread t).cpuAffinity ≠ 0 then wakeLogical e ((s.thread t).cpuAffinity - 1) s
    else wakeIdleOther e s
  else s

/-- The stores of `scheduler_wake_waiter` into the thread, which make it runnable. -/
def storeWake (t : ThreadRef) (result : Int64) (s : Sched) : Sched :=
  { s with
    lastUser := Function.update s.lastUser t ((s.lastUser t).setResult result.toUInt64)
  }.modThread t fun th => { th with
    ctx := th.ctx.setR0 result.toUInt64, kernelWaitResult := result,
    waitPid := 0, waitStatusAddress := 0, waitTid := 0, joinStatusAddress := 0,
    state := .runnable }

/-- The end of `scheduler_wake_waiter`: the thread is queued and a processor told. -/
def enqueueWoken (e : Env) (t : ThreadRef) (s : Sched) : Sched :=
  match schedulerEnqueue t s with
  | (s, false) => { s with completionError := true }
  | (s, true) => wakeProcessorFor e t s

/-- `scheduler_wake_waiter`. -/
def schedulerWakeWaiter (e : Env) (t : ThreadRef) (result : Int64) (s : Sched) : Sched :=
  if (s.thread t).state ≠ .blocked then s
  else enqueueWoken e t (storeWake t result (schedulerDetachWait t s))

/-- `kernel_wait_queue_wake_one`: the new state and the number of threads woken. -/
def waitQueueWakeOne (e : Env) (q : WaitQueue) (result : Int64) (s : Sched) : Sched × Nat :=
  match s.waiters q with
  | [] => (s, 0)
  | t :: _ =>
    if (s.thread t).state ≠ .blocked ∨ (s.thread t).waitQueue ≠ some q then
      ({ s with completionError := true }, 0)
    else (schedulerWakeWaiter e t result s, 1)

/-- The loop of `kernel_wait_queue_wake_all`, which ends at the latest after `fuel` wakes. -/
def waitQueueWakeAllLoop (e : Env) (q : WaitQueue) (result : Int64) : Nat → Sched → Sched
  | 0, s => s
  | fuel + 1, s =>
    if (s.waiters q).isEmpty then s
    else match waitQueueWakeOne e q result s with
      | (s, 1) => waitQueueWakeAllLoop e q result fuel s
      | (s, _) => { s with completionError := true }

/-- `kernel_wait_queue_wake_all`. -/
def waitQueueWakeAll (e : Env) (q : WaitQueue) (result : Int64) (s : Sched) : Sched :=
  waitQueueWakeAllLoop e q result (s.waiters q).length s

/-- `kernel_wait_queue_wake_read_one` with `size` bytes of data. -/
def waitQueueWakeReadOne (e : Env) (q : WaitQueue) (size : UInt64) (s : Sched) : Sched :=
  match s.waiters q with
  | [] => s
  | t :: _ =>
    if size = 0 then s
    else if (s.thread t).state ≠ .blocked ∨ (s.thread t).waitQueue ≠ some q ∨
        (s.thread t).waitBufferSize = 0 then
      { s with completionError := true }
    else
      let copied := if size < (s.thread t).waitBufferSize then size
        else (s.thread t).waitBufferSize
      let space := (s.process (s.thread t).process).addressSpace
      let result := if e.copyToUser space (s.thread t).waitBufferAddress then copied.toInt64
        else -kernelErrorFault
      schedulerWakeWaiter e t result s

/-- `scheduler_expire_timeouts`, over the threads of the timeout queue. -/
def schedulerExpireLoop (e : Env) : List ThreadRef → Sched → Sched
  | [], s => s
  | t :: rest, s =>
    if (s.thread t).timeoutQueued ∧ (s.thread t).waitDeadline ≤ s.timerCount then
      schedulerExpireLoop e rest (schedulerWakeWaiter e t (s.thread t).waitTimeoutResult s)
    else schedulerExpireLoop e rest s

/-- `scheduler_expire_timeouts`. -/
def schedulerExpireTimeouts (e : Env) (s : Sched) : Sched :=
  schedulerExpireLoop e s.timeoutQueue s

/-! ## Join -/

/-- Appends a thread to the reap queue. -/
def pushThreadReapQueue (t : ThreadRef) (s : Sched) : Sched :=
  { s with
    threadReapQueue := s.threadReapQueue ++ [t]
    rings := s.rings.pushBack .reap t }.modThread t ({ · with reapQueued := true })

/-- `scheduler_queue_thread_reap`. -/
def schedulerQueueThreadReap (t : ThreadRef) (s : Sched) : Sched :=
  if (s.thread t).state ≠ .zombie ∨ (s.thread t).reapQueued then
    { s with completionError := true }
  else pushThreadReapQueue t s

/-- Removes a thread from the reap queue, as `scheduler_request_process_stop` and
    `scheduler_exec_discard_other_threads` do. -/
def leaveThreadReapQueue (t : ThreadRef) (s : Sched) : Sched :=
  if (s.thread t).reapQueued then
    { s with
      threadReapQueue := s.threadReapQueue.erase t
      rings := s.rings.remove .reap t }.modThread t ({ · with reapQueued := false })
  else s

/-- `scheduler_find_thread`. -/
def schedulerFindThread (s : Sched) (p : ProcessRef) (tid : UInt64) : Option ThreadRef :=
  if tid = 0 then none else (s.process p).threads.find? fun t => (s.thread t).tid == tid

/-- Clears `join_waiter` of the thread that `t` waits for in join, if it names `t`. -/
def unlinkJoin (p : ProcessRef) (t : ThreadRef) (s : Sched) : Sched :=
  match schedulerFindThread s p (s.thread t).waitTid with
  | some target =>
    if (s.thread target).joinWaiter = some t then
      s.modThread target ({ · with joinWaiter := none })
    else s
  | none => s

/-- `scheduler_notify_joiner`. -/
def schedulerNotifyJoiner (e : Env) (target : ThreadRef) (s : Sched) : Sched :=
  match (s.thread target).joinWaiter with
  | none => s
  | some waiter =>
    let s := s.modThread target ({ · with joinWaiter := none })
    let w := s.thread waiter
    if w.state ≠ .blocked ∨ w.waitTid ≠ (s.thread target).tid then
      { s with completionError := true }
    else if w.joinStatusAddress ≠ 0 ∧
        ¬ e.copyToUser (s.process w.process).addressSpace w.joinStatusAddress then
      schedulerWakeWaiter e waiter (-kernelErrorFault) s
    else
      schedulerWakeWaiter e waiter (s.thread target).tid.toInt64
        (schedulerQueueThreadReap target s)

/-! ## Children -/

/-- `scheduler_collect_child`. -/
def schedulerCollectChild (parent child : ProcessRef) (s : Sched) : Sched :=
  if (s.process child).parent ≠ some parent then s
  else schedulerQueueReap child
    ((s.modProcess parent fun p => { p with children := p.children.erase child }).modProcess
      child ({ · with parent := none }))

/-- Wakes `t` because of a child, recording what it was blocked in. -/
def childWake (e : Env) (t : ThreadRef) (result : Int64) (s : Sched) : Sched :=
  schedulerWakeWaiter e t result
    { s with childWakes := (t, (s.thread t).blockedIn) :: s.childWakes }

/-- The loop of `scheduler_wake_stale_waiters` over the parent's threads. -/
def wakeStaleLoop (e : Env) (parent : ProcessRef) (reapedPid : UInt64) :
    List ThreadRef → Sched → Sched
  | [], s => s
  | t :: rest, s =>
    if (s.thread t).state = .blocked ∧
        ((s.thread t).waitPid = reapedPid ∨
          (((s.thread t).waitPid = 0 ∨ (s.thread t).waitPid = uint64Max) ∧
            (s.process parent).children = [])) then
      wakeStaleLoop e parent reapedPid rest (childWake e t (-kernelErrorNoChild) s)
    else wakeStaleLoop e parent reapedPid rest s

/-- `scheduler_wake_stale_waiters`. -/
def schedulerWakeStaleWaiters (e : Env) (parent : ProcessRef) (reapedPid : UInt64)
    (s : Sched) : Sched :=
  wakeStaleLoop e parent reapedPid (s.process parent).threads s

/-- The pid requested by the `waitpid` a thread is blocked in. -/
def KernelThread.waitRequest (th : KernelThread) : Option UInt64 :=
  match th.blockedIn with
  | some (.waitpid pid) => some pid
  | _ => none

/-- The loop of `scheduler_notify_parent` over the parent's threads. -/
def notifyParentLoop (e : Env) (parent child : ProcessRef) : List ThreadRef → Sched → Sched
  | [], s => s
  | t :: rest, s =>
    let th := s.thread t
    let childPid := (s.process child).pid
    if th.state ≠ .blocked ∨ ¬ schedulerWaitMatches th.waitPid childPid then
      notifyParentLoop e parent child rest s
    else if th.waitStatusAddress ≠ 0 ∧
        ¬ e.copyToUser (s.process parent).addressSpace th.waitStatusAddress then
      notifyParentLoop e parent child rest (childWake e t (-kernelErrorFault) s)
    else
      let s := { s with collected := (childPid, th.waitRequest) :: s.collected }
      schedulerWakeStaleWaiters e parent childPid
        (childWake e t childPid.toInt64 (schedulerCollectChild parent child s))

/-- `scheduler_notify_parent`. -/
def schedulerNotifyParent (e : Env) (child : ProcessRef) (s : Sched) : Sched :=
  match (s.process child).parent with
  | none => s
  | some parent => notifyParentLoop e parent child (s.process parent).threads s

/-- The loop of `scheduler_orphan_children` over the children taken from the old parent. -/
def orphanLoop (newParent : Option ProcessRef) : List ProcessRef → Sched → Sched
  | [], s => s
  | child :: rest, s =>
    let s := s.modProcess child ({ · with parent := newParent })
    match newParent with
    | some np =>
      orphanLoop newParent rest
        (s.modProcess np fun p => { p with children := p.children ++ [child] })
    | none =>
      if (s.process child).state = .zombie then
        orphanLoop newParent rest (schedulerQueueReap child s)
      else orphanLoop newParent rest s

/-- The process that adopts the children of `parent`. -/
def orphanParent (s : Sched) (parent : ProcessRef) : Option ProcessRef :=
  match s.initProcess with
  | some init => if parent ≠ init ∧ (s.process init).state ≠ .zombie then some init else none
  | none => none

/-- `scheduler_orphan_children`. -/
def schedulerOrphanChildren (parent : ProcessRef) (s : Sched) : Sched :=
  orphanLoop (orphanParent s parent) (s.process parent).children
    (s.modProcess parent ({ · with children := [] }))

/-- `KERNEL_EXCEPTION_LOAD_PAGE_FAULT`. -/
def loadPageFault : UInt64 := 9

/-- `KERNEL_EINFO_ORIGIN_USER`. -/
def einfoOriginUser : UInt64 := 0x20

/-- The consistency checks of `scheduler_record_process_completion` that only set
    `scheduler_completion_error`. -/
def completionSuspicious (s : Sched) (p : ProcessRef) : Bool :=
  let q := s.process p
  (if q.faulted then
      q.faultCause != loadPageFault || q.faultAddress != 0 ||
        q.faultInfo &&& einfoOriginUser == 0 || q.exitStatus != -loadPageFault.toInt64
    else q.exitStatus != 0) ||
  q.threads.any fun t =>
    let th := s.thread t
    let valid := if q.faulted then th.exitStatus == q.exitStatus
      else th.exitStatus == 0 && th.writeCount != 0
    th.state != .zombie || !valid || th.tid == 0

/-- `scheduler_record_process_completion`. -/
def schedulerRecordProcessCompletion (e : Env) (p : ProcessRef) (s : Sched) : Sched :=
  if (s.process p).state ≠ .zombie ∨ (s.process p).liveThreadCount ≠ 0 then
    { s with completionError := true }
  else
    let s := { s with completionError := s.completionError || completionSuspicious s p }
    schedulerQueueReap p (schedulerNotifyParent e p (schedulerOrphanChildren p s))

/-! ## Reclamation -/

/-- `kernel_free` of a thread and its kernel stack. -/
def freeThread (t : ThreadRef) (s : Sched) : Sched :=
  s.modThread t ({ · with state := .dead, freed := true })

/-- `kernel_thread_destroy`. -/
def threadDestroy (t : ThreadRef) (s : Sched) : Sched :=
  let th := s.thread t
  if th.queued ∨ th.waitQueue.isSome ∨ th.timeoutQueued ∨
      (th.state ≠ .zombie ∧ th.state ≠ .dead) then
    { s with completionError := true }
  else
    freeThread t (s.modProcess th.process fun p =>
      { p with threads := p.threads.erase t, threadCount := p.threadCount - 1 })

/-- Clears the parent of every process in the list. -/
def clearParents : List ProcessRef → Sched → Sched
  | [], s => s
  | child :: rest, s => clearParents rest (s.modProcess child ({ · with parent := none }))

/-- Frees every thread in the list. -/
def freeThreads : List ThreadRef → Sched → Sched
  | [], s => s
  | t :: rest, s => freeThreads rest (freeThread t s)

/-- Takes a process out of its parent's list of children. -/
def leaveParent (p : ProcessRef) (s : Sched) : Sched :=
  match (s.process p).parent with
  | some parent => (s.modProcess parent fun q =>
      { q with children := q.children.erase p }).modProcess p ({ · with parent := none })
  | none => s

/-- `kernel_free` of a process and `kernel_address_space_destroy` of its address space. -/
def freeProcess (p : ProcessRef) (s : Sched) : Sched :=
  { s with destroyedSpaces := (s.process p).addressSpace :: s.destroyedSpaces }.modProcess p
    ({ · with threads := [], children := [], freed := true })

/-- `kernel_process_destroy`. -/
def processDestroy (p : ProcessRef) (s : Sched) : Sched :=
  let s := leaveParent p s
  let s := clearParents (s.process p).children s
  freeProcess p (freeThreads (s.process p).threads s)

/-- Takes thread `t` from the front of the reap queue, before `rest`. -/
def popThreadReapQueue (t : ThreadRef) (rest : List ThreadRef) (s : Sched) : Sched :=
  { s with threadReapQueue := rest, rings := s.rings.popFront .reap }.modThread t
    ({ · with reapQueued := false })

/-- The first loop of `scheduler_reap_deferred`, over the queued threads; the flag says
    whether the function goes on to the processes. -/
def reapThreadsLoop : List ThreadRef → Sched → Sched × Bool
  | [], s => (s, true)
  | t :: rest, s =>
    let s := popThreadReapQueue t rest s
    if threadActive s t then (pushThreadReapQueue t s, false)
    else reapThreadsLoop rest (threadDestroy t s)

/-- Takes a process out of the list of registered processes. -/
def unregisterProcess (p : ProcessRef) (s : Sched) : Sched :=
  { s with
    processes := s.processes.erase p
    initProcess := if s.initProcess = some p then none else s.initProcess }.modProcess p
    ({ · with registered := false })

/-- The second loop of `scheduler_reap_deferred`, over the queued processes. -/
def reapProcessesLoop : List ProcessRef → Sched → Sched
  | [], s => s
  | p :: rest, s =>
    let s := { s with reapQueue := rest }.modProcess p ({ · with reapQueued := false })
    if processActive s p then
      { s with reapQueue := s.reapQueue ++ [p] }.modProcess p ({ · with reapQueued := true })
    else reapProcessesLoop rest (processDestroy p (unregisterProcess p s))

/-- `scheduler_reap_deferred`. -/
def schedulerReapDeferred (s : Sched) : Sched :=
  match reapThreadsLoop s.threadReapQueue s with
  | (s, false) => s
  | (s, true) => reapProcessesLoop s.reapQueue s

/-- `scheduler_has_blocked_thread`. -/
def schedulerHasBlockedThread (s : Sched) : Bool :=
  s.processes.any fun p => (s.process p).threads.any fun t => (s.thread t).state == .blocked

/-- What `scheduler_dequeue_or_idle` finds before it would wait. -/
inductive Dequeued where
  | next (t : ThreadRef)
  | none
  | idle
  deriving DecidableEq

/-- One round of `scheduler_dequeue_or_idle`, up to the release of the big kernel lock
    before `kernel_idle_wait`. -/
def schedulerDequeueOrIdle (e : Env) (s : Sched) : Sched × Dequeued :=
  match schedulerDequeue e s with
  | (some t, s) => (s, .next t)
  | (none, s) =>
    if !schedulerHasBlockedThread s && !hasRunningThread s then (s, .none)
    else (idleEnter e (setCurrent e none s), .idle)

/-! ## Registration -/

/-- The checks of `kernel_scheduler_register_process`. -/
def registrable (p : ProcessRef) (s : Sched) : Bool :=
  let q := s.process p
  q.threadCount != 0 && !q.registered && !q.reapQueued &&
    (q.threads.all fun t =>
      let th := s.thread t
      th.process == p && th.state == .new && !th.queued && !th.reapQueued && th.tid != 0) &&
    q.threads.length == q.threadCount && q.liveThreadCount == q.threadCount

/-- The second loop of `kernel_scheduler_register_process`: `false` if a thread could not be
    queued. -/
def registerThreads : List ThreadRef → Sched → Sched × Bool
  | [], s => (s, true)
  | t :: rest, s =>
    match schedulerEnqueue t (s.modThread t ({ · with state := .runnable })) with
    | (s, true) => registerThreads rest s
    | (s, false) => (s, false)

/-- The rollback loop of `kernel_scheduler_register_process`. -/
def unregisterThreads : List ThreadRef → Sched → Sched
  | [], s => s
  | t :: rest, s =>
    unregisterThreads rest ((leaveRunQueue t s).modThread t ({ · with state := .new }))

/-- `kernel_scheduler_register_process`: the new state, and whether the process was
    registered. -/
def schedulerRegisterProcess (p : ProcessRef) (s : Sched) : Sched × Bool :=
  if !registrable p s then (s, false)
  else
    let threads := (s.process p).threads
    let s := { s with processes := s.processes ++ [p] }.modProcess p ({ · with registered := true })
    match registerThreads threads s with
    | (s, true) => (s, true)
    | (s, false) =>
      let s := unregisterThreads threads s
      ({ s with processes := s.processes.erase p }.modProcess p ({ · with registered := false }),
        false)

end RiscMv.Kernel
