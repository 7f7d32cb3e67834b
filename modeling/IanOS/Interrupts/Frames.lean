import IanOS.Userspace.Processes

/-!
# Switching user threads from an interrupt frame

The routines of `kernel/src/interrupts/exceptions.cpp` that rewrite the frame of an interrupt, so
that returning from it resumes another user thread.  Each returns whether it switched, the frame as
it leaves it, and the state.

`yield_user_thread_from_frame` and `preempt_user_thread_from_frame` differ only in statistics and
log messages.  The four blocking routines share one course: a successor is selected first, the
result registers get their values, the caller is saved and blocked, and the successor is activated.
-/

namespace IanOS

structure ExceptionFrame where
  gpr : Registers
  vector : ℕ
  error : Word64
  rip : Word64
  cs : Word64
  rflags : Word64
  rsp : Word64
  ss : Word64

namespace ExceptionFrame

/-- The interrupt came from user mode. -/
def FromUser (frame : ExceptionFrame) : Prop := frame.cs &&& 3#64 ≠ 0
  deriving Decidable

/-- `frame->rax` and `frame->rdx`. -/
def setResult (value error : ℕ) (frame : ExceptionFrame) : ExceptionFrame :=
  { frame with gpr := (frame.gpr.setRax (BitVec.ofNat 64 value)).setRdx (BitVec.ofNat 64 error) }

/-- `restore_user_registers` and the assignments after it. -/
def resume (frame : ExceptionFrame) (thread : UserThread) (next : UserLaunchContext) :
    ExceptionFrame :=
  { frame with
    gpr := thread.gpr, rip := next.rip, rsp := next.rsp, rflags := next.rflags, cs := next.cs
    ss := next.ss }

end ExceptionFrame

namespace Machine

variable {V : Type} (s : Machine V)

/-- `save_user_registers`, for the thread that `find_thread` returns. -/
def saveUserRegisters (tid : ℕ) (frame : ExceptionFrame) : Machine V :=
  s.onThread tid fun t => { t with gpr := frame.gpr, rflags := frame.rflags }

/-! ## Yielding and preemption -/

/-- Activate the next thread, or the current one again if there is no other. -/
def switchToNext (tid : ℕ) (frame : ExceptionFrame) : Bool × ExceptionFrame × Machine V :=
  let r := s.selectNextRunnableThread
  match r.1 with
  | none => (false, frame, (r.2.activateThread tid).2)
  | some next =>
    if next.tid = tid then (false, frame, (r.2.activateThread tid).2)
    else
      let a := r.2.activateThread next.tid
      if ¬ a.1 then (false, frame, (a.2.activateThread tid).2)
      else
        match a.2.findThread next.tid with
        | none => (false, frame, (a.2.activateThread tid).2)
        | some i => (true, frame.resume (a.2.thread i) next, { a.2 with cr3 := next.cr3 })

/-- The course of yielding and of preemption. -/
def switchFromFrame (frame : ExceptionFrame) : Bool × ExceptionFrame × Machine V :=
  if ¬ frame.FromUser ∨ s.currentTid = 0 then (false, frame, s)
  else
    let r := s.saveActiveThreadFrame frame.rip frame.rsp
    if ¬ r.1 then (false, frame, r.2)
    else
      let m := (r.2.saveUserRegisters s.currentTid frame).markActiveThreadRunnable
      if ¬ m.1 then (false, frame, m.2) else m.2.switchToNext s.currentTid frame

def yieldUserThreadFromFrame (frame : ExceptionFrame) : Bool × ExceptionFrame × Machine V :=
  s.switchFromFrame frame

def preemptUserThreadFromFrame (frame : ExceptionFrame) : Bool × ExceptionFrame × Machine V :=
  s.switchFromFrame frame

/-! ## Blocking system calls -/

/-- The undoing of a block when the successor could not be activated. -/
def unblock (tid : ℕ) : Machine V :=
  s.onThread tid fun t => { t.clearWait with state := .running }

/-- The end of a blocking routine: save and block the caller, and switch to the successor. -/
def blockAndSwitch (tid : ℕ) (frame : ExceptionFrame) (next : UserLaunchContext) (nextSlot : ℕ)
    (block finish : Machine V → Bool × Machine V) : Bool × ExceptionFrame × Machine V :=
  let r := s.saveActiveThreadFrame frame.rip frame.rsp
  if ¬ r.1 then (false, frame, r.2)
  else
    let b := block (r.2.saveUserRegisters tid frame)
    if ¬ b.1 then (false, frame, b.2)
    else
      let a := b.2.activateThread next.tid
      if ¬ a.1 then (false, frame, a.2.unblock tid)
      else
        let f := finish a.2
        if ¬ f.1 then (false, frame, f.2)
        else (true, frame.resume (f.2.thread nextSlot) next, { f.2 with cr3 := next.cr3 })

/-- The course of the blocking routines, after their own checks.  `prepare` runs once a successor is
known, `error` is the error the saved registers get, and `finish` runs after the switch. -/
def blockFromFrame (frame : ExceptionFrame) (error : ℕ) (prepare : Machine V → Machine V)
    (block finish : Machine V → Bool × Machine V) : Bool × ExceptionFrame × Machine V :=
  let r := s.selectNextRunnableThread
  match r.1 with
  | none => (false, frame, r.2)
  | some next =>
    if next.tid = s.currentTid then (false, frame, r.2)
    else
      match r.2.findThread next.tid with
      | none => (false, frame, r.2)
      | some nextSlot =>
        (prepare r.2).blockAndSwitch s.currentTid
          (frame.setResult 0 error) next nextSlot block finish

def blockUserPipeSyscallFromFrame (frame : ExceptionFrame) (writeEnd : Bool) (fd : ℕ) :
    Bool × ExceptionFrame × Machine V :=
  if ¬ frame.FromUser ∨ s.currentTid = 0 then (false, frame, s)
  else
    match s.resolvePipeFd s.currentPid fd writeEnd with
    | none => (false, frame, s)
    | some pipeId =>
      s.blockFromFrame frame kErrorWouldBlock id
        (fun s =>
          s.blockActiveThreadOnPipe pipeId writeEnd fd frame.gpr.rsi.toNat frame.gpr.rdx.toNat)
        fun s => (true, s)

def blockUserWaitSyscallFromFrame (frame : ExceptionFrame) (targetPid : ℕ) :
    Bool × ExceptionFrame × Machine V :=
  if ¬ frame.FromUser ∨ targetPid = 0 ∨ s.currentTid = 0 ∨
      ¬ s.processWaitWouldBlock s.currentPid targetPid then (false, frame, s)
  else
    s.blockFromFrame frame kErrorWouldBlock id
      (fun s => s.blockActiveThreadOnProcess targetPid) updateUserPreemptionGate

def blockUserWaitAnySyscallFromFrame (frame : ExceptionFrame) :
    Bool × ExceptionFrame × Machine V :=
  if ¬ frame.FromUser ∨ s.currentTid = 0 ∨ ¬ s.processWaitAnyWouldBlock s.currentPid then
    (false, frame, s)
  else
    s.blockFromFrame frame kErrorWouldBlock id blockActiveThreadOnAnyProcess
      updateUserPreemptionGate

/-- The timer is started when it is not running; whether that works is not looked at. -/
def ensureTick : Machine V := if s.lapicActive then s else s.startLapicSystemTick.2

def blockUserSleepSyscallFromFrame (frame : ExceptionFrame) (deltaTicks : ℕ) :
    Bool × ExceptionFrame × Machine V :=
  if ¬ frame.FromUser ∨ deltaTicks = 0 ∨ s.currentTid = 0 then (false, frame, s)
  else
    s.blockFromFrame frame kErrorNone ensureTick
      (fun s => s.blockActiveThreadUntil ((s.ticks + deltaTicks) % 2 ^ 64)) fun s => (true, s)

/-! ## Exit -/

def exitUserThreadFromFrame (frame : ExceptionFrame) (code : ℕ) :
    Bool × ExceptionFrame × Machine V :=
  if ¬ frame.FromUser ∨ s.currentPid = 0 then (false, frame, s)
  else
    let e := s.exitProcess s.currentPid code .exited
    if ¬ e.1 then (false, frame, e.2)
    else
      let r := e.2.selectNextRunnableThread
      match r.1 with
      | none => (false, frame, r.2)
      | some next =>
        let a := r.2.activateThread next.tid
        if ¬ a.1 then (false, frame, a.2)
        else
          match a.2.findThread next.tid with
          | none => (false, frame, a.2)
          | some i => (true, frame.resume (a.2.thread i) next, { a.2 with cr3 := next.cr3 })

end Machine
end IanOS
