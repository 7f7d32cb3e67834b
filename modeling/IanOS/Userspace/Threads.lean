import IanOS.Userspace.State

/-!
# Threads

The functions of `kernel/src/userspace/userspace.cpp` that move threads between their states:
activation, saving the frame of the active thread, blocking it, waking sleepers, and choosing the
thread to run next.
-/

namespace IanOS

namespace UserThread

/-- The assignments that end a wait. -/
def clearWait (t : UserThread) : UserThread :=
  { t with
    blockReason := .none, waitPipeId := 0, waitProcessId := 0, waitWakeTick := 0, waitFd := 0
    waitBuffer := 0, waitSize := 0 }

/-- Put the result of a system call into the saved registers. -/
def setResult (value error : ℕ) (t : UserThread) : UserThread :=
  { t with gpr := (t.gpr.setRax (BitVec.ofNat 64 value)).setRdx (BitVec.ofNat 64 error) }

/-- A blocked call ends with a result, and the thread can run. -/
def complete (value error : ℕ) (t : UserThread) : UserThread :=
  { (t.setResult value error).clearWait with state := .runnable }

end UserThread

namespace Machine

variable {V : Type} (s : Machine V)

/-! ## The preemption gate -/

/-- `hk::timer::start_lapic_system_tick`. -/
def startLapicSystemTick : Bool × Machine V :=
  if s.lapicConfigures then (true, { s with lapicActive := true }) else (false, s)

def schedulableThreadCount : ℕ :=
  ((List.range s.threads.count).filter fun i =>
    ((s.thread i).state = .runnable ∨ (s.thread i).state = .running) ∧
      (s.processes.find fun p => p.pid = (s.thread i).pid ∧ p.state = .runnable).isSome).length

/-- Start the timer if need be and enable preemption. -/
def enableUserPreemption : Bool × Machine V :=
  let r := if s.lapicActive then (true, s) else s.startLapicSystemTick
  if r.1 then (true, { r.2 with userPreemption := true }) else r

def updateUserPreemptionGate : Bool × Machine V :=
  if 1 < s.schedulableThreadCount then s.enableUserPreemption
  else (true, { s with userPreemption := false })

/-! ## Activating and saving -/

/-- A thread that was running can run. -/
def parkThread (tid : ℕ) : Machine V :=
  s.onThread tid fun t => if t.state = .running then { t with state := .runnable } else t

/-- The thread that was active is no longer running. -/
def demoteActive (tid : ℕ) : Machine V :=
  if s.activeTid ≠ 0 ∧ s.activeTid ≠ tid then s.parkThread s.activeTid else s

def activateThread (tid : ℕ) : Bool × Machine V :=
  match s.findThread tid with
  | none => (false, s)
  | some next =>
    if (s.thread next).state ≠ .runnable ∧ (s.thread next).state ≠ .running then (false, s)
    else if ¬ s.processRunnable (s.thread next).pid then (false, s)
    else
      let s := (s.demoteActive tid).setThread next fun t => { t with state := .running }
      (true, { s with
          activeTid := (s.thread next).tid
          activePid := (s.thread next).pid
          currentSliceTicks := 0
          lastUserPickIndex :=
            (s.threads.find fun t => t.tid = tid).getD s.lastUserPickIndex })

def saveActiveThreadFrame (rip rsp : Word64) : Bool × Machine V :=
  match s.currentThread with
  | none => (false, s)
  | some i =>
    if (s.thread i).state = .empty ∨ (s.thread i).state = .exited then (false, s)
    else if rip = 0 ∨ rsp = 0 then (false, s)
    else if ¬ s.processRunnable (s.thread i).pid then (false, s)
    else if s.translate (s.thread i).addressSpaceRoot rip.toNat = 0 ∨
        s.translate (s.thread i).addressSpaceRoot rsp.toNat = 0 then (false, s)
    else (true, s.setThread i fun t => { t with entry := rip, userStackPointer := rsp })

def markActiveThreadRunnable : Bool × Machine V :=
  match s.currentThread with
  | none => (false, s)
  | some i =>
    if (s.thread i).state ≠ .running then (false, s)
    else (true, s.setThread i fun t => { t.clearWait with state := .runnable })

/-! ## Blocking the active thread -/

/-- What the blocking functions share: the active thread must be running and pass a check, and is
then blocked with the fields of its wait filled in. -/
def blockActiveThread (check : UserThread → Prop) [DecidablePred check]
    (wait : UserThread → UserThread) : Bool × Machine V :=
  match s.currentThread with
  | none => (false, s)
  | some i =>
    if (s.thread i).state ≠ .running ∨ ¬ check (s.thread i) then (false, s)
    else (true, s.setThread i fun t => { wait t.clearWait with state := .blocked })

def blockActiveThreadOnPipe (pipeId : ℕ) (writeEnd : Bool) (fd buffer size : ℕ) :
    Bool × Machine V :=
  s.blockActiveThread (fun _ => pipeId ≠ 0 ∧ (s.findPipe pipeId).isSome) fun t =>
    { t with
      blockReason := if writeEnd then .pipeWrite else .pipeRead
      waitPipeId := pipeId, waitFd := fd, waitBuffer := buffer, waitSize := size }

def blockActiveThreadOnProcess (targetPid : ℕ) : Bool × Machine V :=
  s.blockActiveThread (fun _ => targetPid ≠ 0 ∧ s.processLive targetPid) fun t =>
    { t with blockReason := .processWait, waitProcessId := targetPid }

/-- The process has a child that has not exited. -/
def processWaitAnyWouldBlock (waiterPid : ℕ) : Prop :=
  waiterPid ≠ 0 ∧ ∃ j < s.processes.count,
    (s.process j).state ≠ .empty ∧ (s.process j).parentPid = waiterPid ∧
    (s.process j).state ≠ .exited

instance (waiterPid : ℕ) : Decidable (s.processWaitAnyWouldBlock waiterPid) :=
  inferInstanceAs (Decidable (_ ∧ _))

def blockActiveThreadOnAnyProcess : Bool × Machine V :=
  s.blockActiveThread (fun t => s.processWaitAnyWouldBlock t.pid) fun t =>
    { t with blockReason := .processWait }

def blockActiveThreadUntil (wakeTick : ℕ) : Bool × Machine V :=
  s.blockActiveThread (fun _ => wakeTick ≠ 0) fun t =>
    { t with blockReason := .sleep, waitWakeTick := wakeTick }

/-! ## Waking -/

/-- A blocked call of the thread in a slot ends with this result. -/
def completeCall (i value error : ℕ) : Machine V :=
  (s.setThread i (UserThread.complete value error)).record (.completed (s.thread i).tid value error)

/-- The body of the loop of `wake_sleepers`. -/
def wakeSleeper (nowTick : ℕ) (r : ℕ × Machine V) (i : ℕ) : ℕ × Machine V :=
  let thread := r.2.thread i
  if thread.state = .blocked ∧ thread.blockReason = .sleep ∧ thread.waitWakeTick ≠ 0 ∧
      thread.waitWakeTick ≤ nowTick ∧ r.2.processRunnable thread.pid then
    (r.1 + 1, r.2.completeCall i 0 kErrorNone)
  else r

def wakeSleepers (nowTick : ℕ) : ℕ × Machine V :=
  if nowTick = 0 then (0, s)
  else (List.range s.threads.count).foldl (wakeSleeper nowTick) (0, s)

/-! ## Choosing the next thread -/

def kUserCodeSelector : Word64 := 0x23
def kUserDataSelector : Word64 := 0x1b

def buildLaunchContext (tid : ℕ) : Option UserLaunchContext :=
  match s.findThread tid with
  | none => none
  | some i =>
    let thread := s.thread i
    if thread.state ≠ .runnable ∧ thread.state ≠ .running then none
    else if ¬ s.processRunnable thread.pid then none
    else if s.translate thread.addressSpaceRoot thread.entry.toNat = 0 then none
    else if s.translate thread.addressSpaceRoot thread.userStackPointer.toNat = 0 then none
    else some
      { tid := thread.tid
        pid := thread.pid
        rip := thread.entry
        rsp := thread.userStackPointer
        cr3 := thread.addressSpaceRoot
        cs := kUserCodeSelector
        ss := kUserDataSelector
        rflags := if thread.rflags ≠ 0 then thread.rflags else 0x202 }

/-- The slots in the order in which `select_next_runnable_thread` tries them. -/
def pickOrder : List ℕ :=
  (List.range s.threads.count).map fun step =>
    (s.lastUserPickIndex + (step + 1)) % s.threads.count

def selectNextRunnableThread : Option UserLaunchContext × Machine V :=
  match s.pickOrder.find? fun i =>
      (s.thread i).state = .runnable ∧ s.processRunnable (s.thread i).pid with
  | none => (none, s)
  | some index =>
    match s.buildLaunchContext (s.thread index).tid with
    | none => (none, s)
    | some context => (some context, { s with lastUserPickIndex := index })

/-! ## Execution contexts -/

def saveCurrentContext : Option UserExecutionContext :=
  if s.currentTid = 0 ∨ s.currentPid = 0 then none
  else
    match s.threads.find fun t =>
        t.tid = s.currentTid ∧ t.state ≠ .empty ∧ t.pid = s.currentPid,
      s.processes.find fun p => p.pid = s.currentPid ∧ p.state = .runnable with
    | some i, some j =>
      if (s.thread i).addressSpaceRoot = 0 then none
      else some
        { tid := (s.thread i).tid
          pid := (s.process j).pid
          cr3 := (s.thread i).addressSpaceRoot
          valid := true }
    | _, _ => none

def restoreContext (context : UserExecutionContext) : Bool × Machine V :=
  if !context.valid ∨ context.tid = 0 ∨ context.pid = 0 ∨ context.cr3 = 0 then (false, s)
  else
    match s.findThread context.tid, s.findProcess context.pid with
    | some i, some j =>
      if (s.thread i).pid ≠ (s.process j).pid ∨ (s.thread i).addressSpaceRoot ≠ context.cr3 then
        (false, s)
      else if (s.process j).state ≠ .runnable then (false, s)
      else if (s.thread i).state = .exited ∨ (s.thread i).state = .empty then (false, s)
      else s.activateThread context.tid
    | _, _ => (false, s)

/-! ## Time slices -/

def noteCurrentUserTick : Bool × Machine V :=
  match s.currentThread with
  | none => (false, s)
  | some i =>
    if (s.thread i).state = .empty ∨ (s.thread i).state = .exited then (false, s)
    else if ¬ s.processLive (s.thread i).pid then (false, s)
    else (true, { s with currentSliceTicks := s.currentSliceTicks + 1 })

def userTimesliceExpired : Bool × Machine V :=
  if s.schedulableThreadCount ≤ 1 then (false, { s with currentSliceTicks := 0 })
  else if s.currentSliceTicks < kUserTimesliceQuantum then (false, s)
  else (true, { s with currentSliceTicks := 0 })

end Machine
end IanOS
