import IanOS.Userspace.Files

/-!
# Processes

The life cycle of processes in `kernel/src/userspace/userspace.cpp`: creation, process groups, exit
with the wakeups it causes, waiting for children, and reaping.

What the loader does before a process gets its slot (building the address space and reading the
image) is the `ProcessImage` it produces.  Giving pages and address spaces back to the page
allocator has no effect on the state here: nobody translates through the address space of a reaped
process.
-/

namespace IanOS

/-- What the loader hands over: the entry point, the root of the new address space, the top of the
user stack and the translation through the new address space. -/
structure ProcessImage where
  entry : Word64
  root : ℕ
  userStackTop : Word64
  mapping : ℕ → ℕ

namespace Machine

variable {V : Type} (s : Machine V)

/-- `UserspaceManager::initialize`. -/
def initializeManager : Machine V :=
  { s with
    processes := { s.processes with count := 0 }
    threads := { s.threads with count := 0 }
    pipes := { slot := fun _ => {}, count := kMaxPipes }
    nextPid := 1, nextTid := 1, activePid := 0, activeTid := 0, lastUserPickIndex := 0
    currentSliceTicks := 0, foregroundProcessGroupId := 0 }

/-! ## Creation -/

def createMainThread (j : ℕ) : Bool × Machine V :=
  let process := s.process j
  if process.entry = 0 ∨ process.addressSpaceRoot = 0 ∨ process.userStackTop = 0 then (false, s)
  else
    match s.threads.allocate (fun t => t.state = .empty) kMaxUserThreads with
    | none => (false, s)
    | some (i, threads) =>
      let thread : UserThread :=
        { tid := s.nextTid, pid := process.pid, state := .created, entry := process.entry
          userStackPointer := process.userStackTop - 16
          addressSpaceRoot := process.addressSpaceRoot, rflags := 0x202 }
      (true,
        { s with threads := threads.set i thread, nextTid := s.nextTid + 1 }.setProcess j
          fun p => { p with mainThreadId := s.nextTid })

/-- The record of a new process goes into its slot. -/
def enterProcess (entry : Word64) (root : ℕ) (userStackTop : Word64) (ownsAddressSpace : Bool) :
    Option (ℕ × Machine V) :=
  match s.processes.allocate (fun p => p.state = .empty) kMaxUserProcesses with
  | none => none
  | some (j, processes) =>
    let process : Process :=
      { pid := s.nextPid, state := .created, entry := entry, addressSpaceRoot := root
        userStackTop := userStackTop, nextFd := 3, currentDirectory := [0x2f]
        ownsAddressSpace := ownsAddressSpace, processGroupId := s.nextPid }
    some (j, { s with processes := processes.set j process, nextPid := s.nextPid + 1 })

section
variable [FileSystem V]

/-- `create_process` and `create_process_from_elf`, from where the process gets its slot.  A failure
after that leaves the slot in use. -/
def createProcess (image : ProcessImage) : Option ℕ × Machine V :=
  let s := { s with spaces := Function.update s.spaces image.root image.mapping }
  match s.enterProcess image.entry image.root image.userStackTop true with
  | none => (none, s)
  | some (j, s) =>
    let r := s.createMainThread j
    if ¬ r.1 then (none, r.2)
    else
      let r := r.2.installDefaultStandardFds j
      (if r.1 then some (s.process j).pid else none, r.2)

/-- `create_process_stub`: a process without a thread. -/
def createProcessStub (entry : Word64) (root : ℕ) : Option ℕ × Machine V :=
  if entry = 0 then (none, s)
  else
    match s.enterProcess entry root 0 false with
    | none => (none, s)
    | some (j, s) =>
      let r := s.installDefaultStandardFds j
      (if r.1 then some (s.process j).pid else none, r.2)

end

/-- Without an active process, this one becomes it. -/
def claimActive (pid : ℕ) : Machine V :=
  if s.activePid = 0 then { s with activePid := pid } else s

/-- A thread that was created can run. -/
def startThread (tid : ℕ) : Machine V :=
  s.onThread tid fun t => if t.state = .created then { t with state := .runnable } else t

def markRunnable (pid : ℕ) : Bool × Machine V :=
  match s.findProcess pid with
  | none => (false, s)
  | some j =>
    if (s.process j).state ≠ .created then (false, s)
    else
      (((s.setProcess j fun p => { p with state := .runnable }).claimActive pid).startThread
        (s.process j).mainThreadId).updateUserPreemptionGate

/-! ## Parents and groups -/

def setParent (pid parentPid : ℕ) : Bool × Machine V :=
  match s.findOwner pid with
  | none => (false, s)
  | some j =>
    if parentPid ≠ 0 ∧ (s.findProcess parentPid).isNone then (false, s)
    else (true, s.setProcess j fun p => { p with parentPid := parentPid })

def setProcessGroup (callerPid pid groupId : ℕ) : Bool × Machine V :=
  if callerPid = 0 ∨ pid = 0 ∨ groupId = 0 then (false, s)
  else
    match s.findOwner pid with
    | none => (false, s)
    | some j =>
      if pid ≠ callerPid ∧ (s.process j).parentPid ≠ callerPid then (false, s)
      else (true, s.setProcess j fun p => { p with processGroupId := groupId })

def setForegroundProcessGroup (callerPid groupId : ℕ) : Bool × Machine V :=
  if callerPid = 0 then (false, s)
  else
    match s.findOwner callerPid with
    | none => (false, s)
    | some c =>
      let target := if groupId = 0 then (s.process c).processGroupId else groupId
      if target = 0 then (false, s)
      else if target = (s.process c).processGroupId ∨ (s.processes.find fun p =>
            p.Live ∧ p.parentPid = callerPid ∧ p.processGroupId = target).isSome then
        (true, { s with foregroundProcessGroupId := target })
      else (false, s)

/-- What was active is active no longer. -/
def forgetActive (pid main : ℕ) : Machine V :=
  { s with
    activeTid := if s.activeTid = main then 0 else s.activeTid
    activePid := if s.activePid = pid then 0 else s.activePid }

/-- The body of the loop of `stop_process_group`. -/
def stopMember (callerPid groupId : ℕ) (r : ℕ × Machine V) (j : ℕ) : ℕ × Machine V :=
  let process := r.2.process j
  if process.state = .runnable ∧ process.processGroupId = groupId ∧ process.pid ≠ callerPid ∧
      process.parentPid = callerPid then
    (r.1 + 1,
      ((r.2.setProcess j fun p => { p with state := .stopped }).parkThread
        process.mainThreadId).forgetActive process.pid process.mainThreadId)
  else r

def stopProcessGroup (callerPid groupId : ℕ) : ℕ × Machine V :=
  if callerPid = 0 ∨ groupId = 0 then (0, s)
  else (List.range s.processes.count).foldl (stopMember callerPid groupId) (0, s)

/-- The body of the loop of `continue_process_group`. -/
def continueMember (callerPid groupId : ℕ) (r : ℕ × Machine V) (j : ℕ) : ℕ × Machine V :=
  let process := r.2.process j
  if process.state = .stopped ∧ process.processGroupId = groupId ∧ process.pid ≠ callerPid ∧
      process.parentPid = callerPid then
    (r.1 + 1, r.2.setProcess j fun p => { p with state := .runnable })
  else r

def continueProcessGroup (callerPid groupId : ℕ) : ℕ × Machine V :=
  if callerPid = 0 ∨ groupId = 0 then (0, s)
  else
    let r := (List.range s.processes.count).foldl (continueMember callerPid groupId) (0, s)
    if r.1 = 0 then r
    else
      let gate := r.2.updateUserPreemptionGate
      (if gate.1 then r.1 else 0, gate.2)

/-! ## Waiting for children -/

/-- The pointer a blocked wait was given for its result. -/
def resultPointer (t : UserThread) : ℕ :=
  (if t.waitProcessId = 0 then t.gpr.rdi else t.gpr.rsi).toNat

/-- The size of the result of a wait: `WaitAnyInfo`, or a code. -/
def resultSize (t : UserThread) : ℕ := if t.waitProcessId = 0 then 16 else 8

/-- `wake_process_waiters` can write a result here: the pointer is not null, aligned and mapped, and
the result does not cross the end of the page. -/
def PointerWritable (root pointer size : ℕ) : Prop :=
  pointer ≠ 0 ∧ pointer % 8 = 0 ∧ s.translate root pointer ≠ 0 ∧
    s.translate root pointer % kPageSize ≤ kPageSize - size
  deriving Decidable

/-- The result of a blocked wait can be written. -/
def ResultWritable (t : UserThread) : Prop :=
  s.PointerWritable t.addressSpaceRoot (resultPointer t) (resultSize t)
  deriving Decidable

/-- A thread that is blocked on this child, or on any child when it is one of its own. -/
def AwaitsChild (targetPid i : ℕ) : Prop :=
  (s.thread i).state = .blocked ∧ (s.thread i).blockReason = .processWait ∧
    s.processRunnable (s.thread i).pid ∧
    s.processHas targetPid (fun p => p.parentPid = (s.thread i).pid) ∧
    ((s.thread i).waitProcessId = 0 ∨ (s.thread i).waitProcessId = targetPid)
  deriving Decidable

/-- The body of the loop of `wake_process_waiters`. -/
def wakeProcessWaiter (targetPid exitCode : ℕ) (r : ℕ × Machine V) (i : ℕ) : ℕ × Machine V :=
  let s := r.2
  let thread := s.thread i
  if s.AwaitsChild targetPid i ∧ s.ResultWritable thread then
    let phys := s.translate thread.addressSpaceRoot (resultPointer thread)
    let bytes :=
      if thread.waitProcessId = 0 then wordBytes targetPid ++ wordBytes exitCode
      else wordBytes exitCode
    (r.1 + 1, { s with mem := Bytes.store s.mem phys bytes }.completeCall i 1 kErrorNone)
  else r

def wakeProcessWaiters (targetPid exitCode : ℕ) : ℕ × Machine V :=
  if targetPid = 0 then (0, s)
  else (List.range s.threads.count).foldl (wakeProcessWaiter targetPid exitCode) (0, s)

/-- `wait_process`: the code of an exited child. -/
def waitProcess (waiterPid targetPid : ℕ) : Option ℕ :=
  match s.findProcess targetPid with
  | none => none
  | some j =>
    if (s.process j).parentPid ≠ waiterPid ∨ (s.process j).state ≠ .exited then none
    else some (s.process j).exitCode

/-- `wait_any_process`: the identifier and the code of the first exited child. -/
def waitAnyProcess (waiterPid : ℕ) : Option (ℕ × ℕ) :=
  if waiterPid = 0 then none
  else
    (s.processes.find fun p => p.parentPid = waiterPid ∧ p.state = .exited).map fun j =>
      ((s.process j).pid, (s.process j).exitCode)

def processWaitWouldBlock (waiterPid targetPid : ℕ) : Prop :=
  waiterPid ≠ 0 ∧ targetPid ≠ 0 ∧
    s.processHas targetPid fun p => p.parentPid = waiterPid ∧ p.state ≠ .exited
  deriving Decidable

/-! ## Exit -/

/-- The pipes on which a process has an open descriptor of this kind. -/
def pipeEnds (kind : FileDescriptorKind) (fds : List FileDescriptor) : List ℕ :=
  (fds.filter fun fd => fd.isOpen ∧ fd.pipeId ≠ 0 ∧ fd.kind = kind).map FileDescriptor.pipeId

def markedProcess (code : ℕ) (reason : ProcessTerminationReason) (p : Process) : Process :=
  { p with state := .exited, exitCode := code, terminationReason := reason }

def exitedThread (t : UserThread) : UserThread := { t with state := .exited }

/-- The first part of `exit_process`: the process and its thread are marked. -/
def markExited (j code : ℕ) (reason : ProcessTerminationReason) : Machine V :=
  ((s.setProcess j (markedProcess code reason)).record (.exited (s.process j).pid)).onThread
    (s.process j).mainThreadId exitedThread

/-- The wakeups of `exit_process`. -/
def wakeAtExit (readerPipes writerPipes : List ℕ) (pid code : ℕ) : Machine V :=
  let s := readerPipes.foldl (fun s id => (s.wakePipeWaiters id false true).2) s
  let s := writerPipes.foldl (fun s id => (s.wakePipeWaiters id true false).2) s
  (s.wakeProcessWaiters pid code).2

def exitProcess (pid code : ℕ) (reason : ProcessTerminationReason) : Bool × Machine V :=
  match s.findOwner pid with
  | none => (false, s)
  | some j =>
    let readerPipes := pipeEnds .pipeRead (s.fds j)
    let writerPipes := pipeEnds .pipeWrite (s.fds j)
    (((s.markExited j code reason).wakeAtExit readerPipes writerPipes pid code).forgetActive pid
      (s.process j).mainThreadId).updateUserPreemptionGate

/-- The body of the loop of `kill_process_group`; `c` is the caller's slot. -/
def killMember (c callerPid groupId code : ℕ) (reason : ProcessTerminationReason)
    (r : ℕ × Machine V) (j : ℕ) : ℕ × Machine V :=
  let process := r.2.process j
  let callerParent := (r.2.process c).parentPid
  if process.Live ∧ process.processGroupId = groupId ∧ process.pid ≠ callerPid ∧
      (process.parentPid = callerPid ∨ callerParent ≠ 0 ∧ process.parentPid = callerParent) then
    let e := r.2.exitProcess process.pid code reason
    (if e.1 then r.1 + 1 else r.1, e.2)
  else r

def killProcessGroup (callerPid groupId code : ℕ) (reason : ProcessTerminationReason) :
    ℕ × Machine V :=
  if callerPid = 0 ∨ groupId = 0 then (0, s)
  else
    match s.findOwner callerPid with
    | none => (0, s)
    | some c =>
      (List.range s.processes.count).foldl (killMember c callerPid groupId code reason) (0, s)

/-! ## Reaping -/

/-- The body of the loop of `reap_exited` over the threads. -/
def reapThread (pid : ℕ) (s : Machine V) (i : ℕ) : Machine V :=
  if (s.thread i).pid = pid ∧ (s.thread i).state ≠ .empty then
    { s with activeTid := if s.activeTid = (s.thread i).tid then 0 else s.activeTid }.setThread i
      fun _ => {}
  else s

def forgetActivePid (pid : ℕ) : Machine V :=
  { s with activePid := if s.activePid = pid then 0 else s.activePid }

/-- The record of a process that has been reaped; its identifier and code stay. -/
def reapedProcess (p : Process) : Process :=
  { p with
    parentPid := 0, state := .empty, entry := 0, addressSpaceRoot := 0, userStackTop := 0
    mainThreadId := 0, terminationReason := .none, nextFd := 3, currentDirectory := []
    ownsAddressSpace := false, processGroupId := 0 }

variable [FileSystem V]

/-- The first part of `reap_exited`: all descriptors are closed, then the pipes are looked at. -/
def closeAll (j : ℕ) : Machine V :=
  let pipes := ((s.fds j).filter fun fd => fd.OnPipe).map FileDescriptor.pipeId
  let fds := (s.fds j).map fun fd => if fd.isOpen then {} else fd
  let closed := { s with vfs := (s.fds j).foldl releaseHandle s.vfs }.setFds j fds
  pipes.foldl (fun s id => (s.cleanupPipeIfUnreferenced id).2) closed

def reapExited (pid : ℕ) : Bool × Machine V :=
  match s.findProcess pid with
  | none => (false, s)
  | some j =>
    if (s.process j).state ≠ .exited then (false, s)
    else
      let s := s.closeAll j
      let s := (List.range s.threads.count).foldl (reapThread pid) s
      ((s.forgetActivePid pid).setProcess j reapedProcess).updateUserPreemptionGate

end Machine
end IanOS
