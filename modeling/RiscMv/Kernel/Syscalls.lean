import RiscMv.Kernel.Sections

/-!
# System calls (`syscall.c`, `scheduler.c`)

`kernel_syscall_dispatch` and the scheduler functions it calls, each as a section.  A
function that waits in `scheduler_dequeue_or_idle` is split there: `pendingDequeued` is what
it does with the outcome, whether the outcome comes at once or after idling.
-/

namespace RiscMv.Kernel

/-! ## System call entry and return -/

/-- `kernel_scheduler_syscall_enter`. -/
def syscallEnter (e : Env) (framePointer : StackAddr) (x : Sect) : Sect :=
  match x.sched.current e.cpu with
  | some t => x.modThread t ({ · with activeTrapFrame := some framePointer })
  | none => x

/-- `kernel_scheduler_syscall_leave`. -/
def syscallLeave (e : Env) (framePointer : StackAddr) (x : Sect) : Sect :=
  match x.sched.current e.cpu with
  | some t =>
    if (x.sched.thread t).activeTrapFrame = some framePointer then
      x.modThread t ({ · with activeTrapFrame := none })
    else x
  | none => x

/-- `kernel_scheduler_termination_requested`. -/
def terminationRequested (e : Env) (s : Sched) : Option Int64 :=
  match s.current e.cpu with
  | some t =>
    let p := s.process (s.thread t).process
    if p.faulted then some p.exitStatus else none
  | none => none

/-- Stores a system call's result in R0 of the frame, and in the history of the thread. -/
def storeResult (e : Env) (result : Int64) (x : Sect) : Sect :=
  let x := { x with frame := x.frame.setR0 result.toUInt64 }
  match x.sched.current e.cpu with
  | some t => x.on fun s => { s with
      lastUser := Function.update s.lastUser t ((s.lastUser t).setResult result.toUInt64) }
  | none => x

/-- The end of `kernel_syscall_dispatch` once `result` is known. -/
def syscallFinish (e : Env) (framePointer : StackAddr) (result : Int64) (x : Sect) :
    Sect × Exit :=
  match terminationRequested e x.sched with
  | some status => kernelSchedulerExit e status (syscallLeave e framePointer x)
  | none => (syscallLeave e framePointer (storeResult e result x), .restore)

/-! ## Blocking -/

/-- Marks `t` as blocked in `q`, with a timeout after `ticks` if that is not zero. -/
def enterWaitQueue (t : ThreadRef) (q : WaitQueue) (ticks : UInt64) (timeoutResult : Int64)
    (s : Sched) : Sched :=
  let s := { s with
    waiters := Function.update s.waiters q (s.waiters q ++ [t])
    rings := s.rings.pushBack (.wait q) t }.modThread t
    ({ · with state := .blocked, waitQueue := some q, blockedIn := some (.queue q) })
  if ticks ≠ 0 then
    { s with
      timeoutQueue := s.timeoutQueue ++ [t]
      rings := s.rings.pushBack .timeout t }.modThread t fun th => { th with
      waitDeadline := s.timerCount + ticks, waitTimeoutResult := timeoutResult,
      timeoutQueued := true }
  else s

/-- Whether `ticks` from now is representable. -/
def ticksOverflow (s : Sched) (ticks : UInt64) : Bool :=
  ticks != 0 && ticks > uint64Max - s.timerCount

/-- `kernel_scheduler_block_current` up to `scheduler_dequeue_or_idle`: the waiter and the
    blocked state, or `none` where the function returns 1 at once. -/
def blockCurrentEnter (e : Env) (q : WaitQueue) (ticks : UInt64) (timeoutResult : Int64)
    (x : Sect) : Option (ThreadRef × Sect) :=
  match currentSpace e x.sched with
  | none => none
  | some waiter =>
    if ticksOverflow x.sched ticks ∨ (x.sched.thread waiter).waitQueue.isSome ∨
        (x.sched.thread waiter).timeoutQueued then none
    else some (waiter, (schedulerSave waiter x).on (enterWaitQueue waiter q ticks timeoutResult))

/-- What a caller of `kernel_scheduler_block_current` does when it returns 1. -/
def blockCurrentFailed (e : Env) (framePointer : StackAddr) (caller : BlockCaller)
    (x : Sect) : Sect × Exit :=
  let x := match caller, x.sched.current e.cpu with
    | .read, some t => x.modThread t ({ · with waitBufferAddress := 0, waitBufferSize := 0 })
    | _, _ => x
  syscallFinish e framePointer (-kernelErrorAgain) x

/-- `kernel_scheduler_block_kernel` up to `scheduler_dequeue_or_idle`. -/
def blockKernelEnter (e : Env) (q : WaitQueue) (ticks : UInt64) (timeoutResult : Int64)
    (x : Sect) : Option (ThreadRef × Sect) :=
  match x.sched.current e.cpu with
  | none => none
  | some waiter =>
    let th := x.sched.thread waiter
    if th.activeTrapFrame.isNone ∨ th.kernelResumeSp.isSome ∨ th.waitQueue.isSome ∨
        th.timeoutQueued ∨ ticksOverflow x.sched ticks then none
    else
      let x := (schedulerSave waiter x).modThread waiter
        ({ · with kernelWaitResult := timeoutResult })
      some (waiter, x.on (enterWaitQueue waiter q ticks timeoutResult))

/-- The way `kernel_scheduler_block_kernel` switches from `waiter` to another thread. -/
def blockKernelSwitch (waiter next : ThreadRef) (depth : Nat) (x : Sect) : Sect × Exit :=
  match (x.sched.thread next).kernelResumeSp with
  | some sp =>
    let x := switchSpace (some waiter) next (x.modThread next ({ · with kernelResumeSp := none }))
    ({ x with ksp := kernelStackTop next }, .suspend waiter next depth (some sp))
  | none => (x, .suspend waiter next depth none)

/-- The failure path shared by the waiting functions: the waiter runs on. -/
def waiterRuns (e : Env) (waiter : ThreadRef) (x : Sect) : Sect :=
  (x.on (setCurrent e (some waiter))).modThread waiter ({ · with state := .running })

/-! ## exec -/

/-- Marks a thread as a zombie unless a processor still works for it. -/
def stopZombie (t : ThreadRef) (s : Sched) : Sched :=
  if !threadActive s t ∧ (s.thread t).state ≠ .dead then
    s.modThread t ({ · with state := .zombie })
  else s

/-- What `scheduler_request_process_stop` does to a thread other than the owner. -/
def requestStopThread (t : ThreadRef) (s : Sched) : Sched :=
  stopZombie t (schedulerDetachWait t (leaveThreadReapQueue t (leaveRunQueue t s)))

/-- The loop of `scheduler_request_process_stop`. -/
def requestStopThreads (owner : ThreadRef) : List ThreadRef → Sched → Sched
  | [], s => s
  | t :: rest, s =>
    requestStopThreads owner rest (if t = owner then s else requestStopThread t s)

/-- `scheduler_request_process_stop`. -/
def schedulerRequestProcessStop (p : ProcessRef) (owner : ThreadRef) (s : Sched) : Sched :=
  let s := s.modProcess p ({ · with stopOwner := some owner, stopRequested := true })
  requestStopThreads owner (s.process p).threads s

/-- What `scheduler_exec_discard_other_threads` does to a thread other than the current. -/
def discardThread (p : ProcessRef) (t : ThreadRef) (s : Sched) : Sched :=
  let s := unlinkJoin p t (schedulerDetachWait t (leaveThreadReapQueue t (leaveRunQueue t s)))
  freeThread t ((s.modProcess p fun q => { q with threads := q.threads.erase t }).modThread t
    ({ · with joinWaiter := none }))

/-- The loop of `scheduler_exec_discard_other_threads`. -/
def discardThreads (p : ProcessRef) (current : ThreadRef) : List ThreadRef → Sched → Sched
  | [], s => s
  | t :: rest, s =>
    discardThreads p current rest (if t = current then s else discardThread p t s)

/-- `scheduler_exec_discard_other_threads`. -/
def schedulerExecDiscardOtherThreads (p : ProcessRef) (current : ThreadRef) (s : Sched) :
    Sched :=
  (discardThreads p current (s.process p).threads s).modProcess p
    ({ · with threadCount := 1, liveThreadCount := 1 })

/-- `kernel_scheduler_exec` from `scheduler_request_process_stop` to its rendezvous. -/
def execStop (e : Env) (image : NewImage) (thread : ThreadRef) (x : Sect) : Sect × Exit :=
  let p := (x.sched.thread thread).process
  let x := x.on fun s => rescheduleOthers e (schedulerRequestProcessStop p thread s)
  (x, .spin (.exec thread p image))

/-- The process record of the new image. -/
def execProcess (p : ProcessRef) (image : NewImage) (s : Sched) : Sched :=
  s.modProcess p fun q => { q with
    stopRequested := false, stopOwner := none, addressSpace := image.addressSpace,
    exitStatus := -1, faultCause := 0, faultAddress := 0, faultInfo := 0, faulted := false,
    state := .active }

/-- The startup context of the new image. -/
def NewImage.startContext (image : NewImage) : UserContext :=
  { image.ctx with flags := { clearFlags with interruptEnable := true } }

/-- The thread record of the new image. -/
def execThread (thread : ThreadRef) (image : NewImage) (s : Sched) : Sched :=
  s.modThread thread fun th => { th with
    ctx := image.startContext, exitStatus := -1, waitPid := 0, waitStatusAddress := 0,
    waitTid := 0, joinStatusAddress := 0, joinWaiter := none, state := .running }

/-- The history of a thread that starts a new image: it has not left user mode yet. -/
def execHistory (thread : ThreadRef) (image : NewImage) (s : Sched) : Sched :=
  { s with lastUser := Function.update s.lastUser thread ⟨image.startContext, false, none⟩ }

/-- The destruction of the old image's address space. -/
def destroySpace (space : SpaceRef) (s : Sched) : Sched :=
  { s with destroyedSpaces := space :: s.destroyedSpaces }

/-- The frame that `kernel_scheduler_exec` leaves. -/
def execFrame (image : NewImage) (frame : TrapFrame) : TrapFrame :=
  { loadedFrame image.startContext frame with flags := { image.startContext.flags with
      userMode := true, exceptionFrame := frame.flags.exceptionFrame } }

/-- `kernel_scheduler_exec` after its rendezvous, and the gate release and return of
    `syscall_exec`. -/
def execRendezvous (e : Env) (framePointer : StackAddr) (thread : ThreadRef) (p : ProcessRef)
    (image : NewImage) (x : Sect) : Sect × Exit :=
  let old := (x.sched.process p).addressSpace
  let x := x.on (schedulerExecDiscardOtherThreads p thread)
  let x := x.on fun s => execThread thread image (execProcess p image s)
  let x := x.on fun s => destroySpace old (execHistory thread image s)
  let x := { x with
    frame := execFrame image x.frame
    ptbr := image.addressSpace
    ksp := kernelStackTop thread }
  let x := x.on fun s => (waitQueueWakeOne e .gate 0 (rescheduleOthers e s)).1
  (syscallLeave e framePointer x, .restore)

/-! ## Waiting for the run queue -/

/-- `kernel_scheduler_block_current` after `scheduler_dequeue_or_idle`. -/
def blockCurrentDequeued (e : Env) (framePointer : StackAddr) (waiter : ThreadRef)
    (caller : BlockCaller) (x : Sect) : Dequeued → Sect × Exit
  | .idle => (x, .idle (.blockCurrent waiter caller))
  | .none => blockCurrentFailed e framePointer caller
      (waiterRuns e waiter (x.on (schedulerDetachWait waiter)))
  | .next next => schedulerLoad (some waiter) next (x.on (setCurrent e (some next)))

/-- `kernel_scheduler_block_kernel` after `scheduler_dequeue_or_idle`; `rest` is what the
    caller does when the function returns in this section. -/
def blockKernelDequeued (e : Env) (waiter : ThreadRef) (depth : Nat) (k : Script)
    (rest : Sect → Sect × Exit) (x : Sect) : Dequeued → Sect × Exit
  | .idle => (x, .idle (.blockKernel waiter depth k))
  | .none => rest (waiterRuns e waiter (x.on (schedulerDetachWait waiter)))
  | .next next =>
    let x := x.on (setCurrent e (some next))
    if next ≠ waiter then blockKernelSwitch waiter next depth x
    else rest (x.modThread waiter ({ · with kernelWaitResult := 0 }))

/-- `kernel_scheduler_waitpid` after `scheduler_dequeue_or_idle`. -/
def waitpidDequeued (e : Env) (framePointer : StackAddr) (waiter : ThreadRef) (x : Sect) :
    Dequeued → Sect × Exit
  | .idle => (x, .idle (.waitpid waiter))
  | .none => syscallFinish e framePointer (-kernelErrorAgain)
      ((waiterRuns e waiter x).modThread waiter ({ · with waitPid := 0, waitStatusAddress := 0 }))
  | .next next => schedulerLoad (some waiter) next (x.on (setCurrent e (some next)))

/-- `kernel_scheduler_join` after `scheduler_dequeue_or_idle`. -/
def joinDequeued (e : Env) (framePointer : StackAddr) (waiter target : ThreadRef) (x : Sect) :
    Dequeued → Sect × Exit
  | .idle => (x, .idle (.join waiter target))
  | .none => syscallFinish e framePointer (-kernelErrorAgain)
      (((waiterRuns e waiter x).modThread waiter
        ({ · with waitTid := 0, joinStatusAddress := 0 })).modThread target
        ({ · with joinWaiter := none }))
  | .next next => schedulerLoad (some waiter) next (x.on (setCurrent e (some next)))

/-! ## File system calls -/

/-- `kernel_scheduler_block_current` and the rest of its caller. -/
def kernelSchedulerBlockCurrent (e : Env) (framePointer : StackAddr) (caller : BlockCaller)
    (q : WaitQueue) (ticks : UInt64) (timeoutResult : Int64) (x : Sect) : Sect × Exit :=
  match blockCurrentEnter e q ticks timeoutResult x with
  | none => blockCurrentFailed e framePointer caller x
  | some (waiter, x) => dequeueThen e x (blockCurrentDequeued e framePointer waiter caller)

/-- Runs the rest of a file system call of the current thread until it returns or waits. -/
def runScript (e : Env) (framePointer : StackAddr) : Script → Sect → Sect × Exit
  | .done result, x => syscallFinish e framePointer result x
  | .gateUnlock k, x =>
    runScript e framePointer k (x.on fun s => (waitQueueWakeOne e .gate 0 s).1)
  | .reap k, x => runScript e framePointer k (x.on schedulerReapDeferred)
  | .block q ticks timeoutResult depth k, x =>
    match blockKernelEnter e q ticks timeoutResult x with
    | none => runScript e framePointer k x
    | some (waiter, x) =>
      dequeueThen e x (blockKernelDequeued e waiter depth k (runScript e framePointer k))
  | .blockRead address size, x =>
    let x := syscallLeave e framePointer x
    match currentSpace e x.sched with
    | none => syscallFinish e framePointer (-kernelErrorFault) x
    | some t =>
      kernelSchedulerBlockCurrent e framePointer .read .keyboard 0 0
        (x.modThread t ({ · with waitBufferAddress := address, waitBufferSize := size }))
  | .present, x =>
    kernelSchedulerBlockCurrent e framePointer .present .display 0 0
      (syscallLeave e framePointer x)
  | .exec image, x =>
    match x.sched.current e.cpu with
    | none => syscallFinish e framePointer (-kernelErrorInvalid) x
    | some thread => execStop e image thread x

/-- Continues the function that waited in `scheduler_dequeue_or_idle`. -/
def pendingDequeued (e : Env) (framePointer : StackAddr) (p : Pending) (x : Sect)
    (d : Dequeued) : Sect × Exit :=
  match p with
  | .blockCurrent waiter caller => blockCurrentDequeued e framePointer waiter caller x d
  | .blockKernel waiter depth k =>
    blockKernelDequeued e waiter depth k (runScript e framePointer k) x d
  | .waitpid waiter => waitpidDequeued e framePointer waiter x d
  | .join waiter target => joinDequeued e framePointer waiter target x d
  | .exit previous => exitDequeued e previous p x d
  | .fault previous => exitDequeued e previous p x d

/-! ## sleep, waitpid, join, yield -/

/-- `kernel_scheduler_sleep`. -/
def kernelSchedulerSleep (e : Env) (framePointer : StackAddr) (milliseconds : UInt64)
    (x : Sect) : Sect × Exit :=
  let ticks := (milliseconds + 1) / 2
  match currentSpace e x.sched with
  | none => syscallFinish e framePointer (-kernelErrorInvalid) x
  | some _ =>
    if milliseconds = 0 then syscallFinish e framePointer 0 x
    else if milliseconds > uint64Max - 1 ∨ ticks = 0 ∨ ticks > uint64Max - x.sched.timerCount then
      syscallFinish e framePointer (-kernelErrorInvalid) x
    else kernelSchedulerBlockCurrent e framePointer .sleep .sleep ticks 0
      (x.on schedulerReapDeferred)

/-- `kernel_scheduler_waitpid` when a matching zombie child was found. -/
def waitpidCollect (e : Env) (framePointer : StackAddr) (parent zombie : ProcessRef)
    (pid statusAddress : UInt64) (x : Sect) : Sect × Exit :=
  let childPid := (x.sched.process zombie).pid
  if statusAddress ≠ 0 ∧
      ¬ e.copyToUser (x.sched.process parent).addressSpace statusAddress then
    syscallFinish e framePointer (-kernelErrorFault) x
  else
    let x := x.on fun s => { s with collected := (childPid, some pid) :: s.collected }
    let x := x.on fun s =>
      schedulerWakeStaleWaiters e parent childPid (schedulerCollectChild parent zombie s)
    syscallFinish e framePointer childPid.toInt64 x

/-- `kernel_scheduler_waitpid`. -/
def kernelSchedulerWaitpid (e : Env) (framePointer : StackAddr) (pid statusAddress : UInt64)
    (x : Sect) : Sect × Exit :=
  match currentSpace e x.sched with
  | none => syscallFinish e framePointer (-kernelErrorInvalid) x
  | some waiter =>
    if pid ≠ 0 ∧ pid ≠ uint64Max ∧ pid > int64Max then
      syscallFinish e framePointer (-kernelErrorInvalid) x
    else
      let x := x.on schedulerReapDeferred
      let parent := (x.sched.thread waiter).process
      let matching := (x.sched.process parent).children.filter fun child =>
        schedulerWaitMatches pid (x.sched.process child).pid
      match matching with
      | [] => syscallFinish e framePointer (-kernelErrorNoChild) x
      | _ :: _ =>
        match matching.find? fun child => (x.sched.process child).state == .zombie with
        | some zombie => waitpidCollect e framePointer parent zombie pid statusAddress x
        | none =>
          let x := (schedulerSave waiter x).modThread waiter fun th => { th with
            waitPid := pid, waitStatusAddress := statusAddress, state := .blocked,
            blockedIn := some (.waitpid pid) }
          dequeueThen e x (waitpidDequeued e framePointer waiter)

/-- `kernel_scheduler_join` once the target thread is known. -/
def joinTarget (e : Env) (framePointer : StackAddr) (waiter target : ThreadRef)
    (tid statusAddress : UInt64) (x : Sect) : Sect × Exit :=
  if (x.sched.thread target).state = .dead ∨ (x.sched.thread target).reapQueued then
    syscallFinish e framePointer (-kernelErrorInvalid) x
  else if (x.sched.thread target).joinWaiter.isSome then
    syscallFinish e framePointer (-kernelErrorBusy) x
  else if (x.sched.thread target).state = .zombie then
    if statusAddress ≠ 0 ∧ ¬ e.copyToUser (x.space waiter) statusAddress then
      syscallFinish e framePointer (-kernelErrorFault) x
    else syscallFinish e framePointer (x.sched.thread target).tid.toInt64
      (x.on (schedulerQueueThreadReap target))
  else
    let x := (schedulerSave waiter x).modThread waiter fun th => { th with
      waitTid := tid, joinStatusAddress := statusAddress, state := .blocked,
      blockedIn := some (.join tid) }
    dequeueThen e (x.modThread target ({ · with joinWaiter := some waiter }))
      (joinDequeued e framePointer waiter target)

/-- `kernel_scheduler_join`. -/
def kernelSchedulerJoin (e : Env) (framePointer : StackAddr) (tid statusAddress : UInt64)
    (x : Sect) : Sect × Exit :=
  match currentSpace e x.sched with
  | none => syscallFinish e framePointer (-kernelErrorInvalid) x
  | some waiter =>
    if tid = 0 ∨ tid > int64Max then syscallFinish e framePointer (-kernelErrorInvalid) x
    else
      let x := x.on schedulerReapDeferred
      if (x.sched.thread waiter).tid = tid then
        syscallFinish e framePointer (-kernelErrorDeadlock) x
      else match schedulerFindThread x.sched (x.sched.thread waiter).process tid with
        | none => syscallFinish e framePointer (-kernelErrorInvalid) x
        | some target => joinTarget e framePointer waiter target tid statusAddress x

/-- `kernel_scheduler_yield`. -/
def kernelSchedulerYield (e : Env) (x : Sect) : Sect × Exit :=
  match currentSpace e x.sched with
  | none => (x, .restore)
  | some previous => schedulerReschedule e previous (x.on schedulerReapDeferred)

/-! ## Dispatch -/

/-- The system calls whose body is a `Script`: write, read, open, close, seek, fsync, exec,
    display_mode and display_present. -/
def scriptedSyscall (number : UInt64) : Bool :=
  [1, 2, 8, 9, 10, 11, 12, 14, 15].contains number

/-- `kernel_syscall_dispatch`. -/
def kernelSyscallDispatch (e : Env) (framePointer : StackAddr) (script : Script) (x : Sect) :
    Sect × Exit :=
  match stopCurrent e x with
  | some x => (x, .restore)
  | none =>
    match currentSpace e x.sched with
    | none => (x, .restore)
    | some t =>
      let x := syscallEnter e framePointer x
      let leave := syscallLeave e framePointer x
      let number := x.frame.registers 0
      let argument1 := x.frame.registers 1
      let argument2 := x.frame.registers 2
      if number = 0 then kernelSchedulerExit e argument1.toInt64 leave
      else if number = 3 then kernelSchedulerYield e leave
      else if number = 4 then
        syscallFinish e framePointer
          (x.sched.process (x.sched.thread t).process).pid.toInt64 x
      else if number = 5 then kernelSchedulerWaitpid e framePointer uint64Max argument1 leave
      else if number = 6 then
        if argument1 = 0 ∨ argument1 > int64Max then
          syscallFinish e framePointer (-kernelErrorInvalid) x
        else kernelSchedulerWaitpid e framePointer argument1 argument2 leave
      else if number = 7 then kernelSchedulerJoin e framePointer argument1 argument2 leave
      else if number = 13 then kernelSchedulerSleep e framePointer argument1 leave
      else if scriptedSyscall number then runScript e framePointer script x
      else syscallFinish e framePointer (-kernelErrorNotImplemented) x

end RiscMv.Kernel
