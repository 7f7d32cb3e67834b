import IanOS.Syscall.Dispatch
import IanOS.Userspace.Runs

/-!
# The interrupt dispatcher

`interrupt_dispatch` of `kernel/src/interrupts/exceptions.cpp`.  It gets the frame of the
interrupted code and returns the frame to which the processor returns; an exception halts the
machine and returns nothing.

The branches that call the scheduler of kernel threads are left out: they are taken only after
`set_preemption_enabled(true)`, which nothing calls.

What can happen to the manager is a call of one of its functions, a system call made by the kernel
itself, or an interrupt: this is `Action`.
-/

namespace IanOS

open Program (get op)

namespace ExceptionFrame

/-- The system call the frame asks for. -/
def number (frame : ExceptionFrame) : SyscallNumber := .decode frame.gpr.rax.toNat

end ExceptionFrame

variable {V : Type}

/-! ## System calls -/

/-- Run a routine that may switch threads; go on with its frame if it has not. -/
def unlessSwitched (routine : Code V (Bool × ExceptionFrame))
    (rest : ExceptionFrame → Code V ExceptionFrame) : Code V ExceptionFrame := do
  let r ← routine
  if r.1 then pure r.2 else rest r.2

/-- `Exit` of a user thread. -/
def exitFromFrame (frame : ExceptionFrame) : Code V (Bool × ExceptionFrame) :=
  if frame.number = .exit then op (.exitUserThreadFromFrame frame frame.gpr.rdi.toNat)
  else pure (false, frame)

/-- `SleepTicks` of a user thread. -/
def sleepFromFrame (frame : ExceptionFrame) : Code V (Bool × ExceptionFrame) :=
  if frame.number = .sleepTicks ∧ frame.gpr.rdi ≠ 0 then
    op (.blockUserSleepSyscallFromFrame frame frame.gpr.rdi.toNat)
  else pure (false, frame)

/-- The calls that block when the dispatcher says that they would. -/
def blockIfAsked (frame : ExceptionFrame) (result : Result) : Code V (Bool × ExceptionFrame) :=
  if result.error ≠ kErrorWouldBlock then pure (false, frame)
  else
    match frame.number with
    | .read => op (.blockUserPipeSyscallFromFrame frame false (narrow frame.gpr.rdi.toNat))
    | .writeFile => op (.blockUserPipeSyscallFromFrame frame true (narrow frame.gpr.rdi.toNat))
    | .write =>
      if (frame.gpr.rdi.toNat = kStdoutFd ∨ frame.gpr.rdi.toNat = kStderrFd) ∧
          frame.gpr.rdx ≠ 0 then
        op (.blockUserPipeSyscallFromFrame frame true (narrow frame.gpr.rdi.toNat))
      else pure (false, frame)
    | .wait => op (.blockUserWaitSyscallFromFrame frame frame.gpr.rdi.toNat)
    | .waitAny => op (.blockUserWaitAnySyscallFromFrame frame)
    | _ => pure (false, frame)

/-- The dispatcher, with the blocking that may follow; the result goes into the frame. -/
def dispatchFrame (frame : ExceptionFrame) (ext : External V) : Code V ExceptionFrame := do
  let result ← dispatch frame.gpr.rax.toNat frame.gpr.rdi.toNat frame.gpr.rsi.toNat
    frame.gpr.rdx.toNat frame.gpr.r10.toNat ext
  unlessSwitched (blockIfAsked frame result) fun frame =>
    pure (frame.setResult result.value result.error)

/-- Vector 0x80. -/
def systemCall (frame : ExceptionFrame) (ext : External V) : Code V ExceptionFrame :=
  if frame.number = .yield then
    unlessSwitched (op (.yieldUserThreadFromFrame frame)) fun frame =>
      pure (frame.setResult 0 kErrorNone)
  else
    unlessSwitched (exitFromFrame frame) fun frame =>
      unlessSwitched (sleepFromFrame frame) fun frame => dispatchFrame frame ext

/-! ## Timers -/

/-- The programmable interval timer. -/
def pitInterrupt : Code V Unit := do
  op .pitNoteTick
  let s ← get
  let _ ← op (.wakeSleepers s.ticks)
  pure ()

/-- The timer of the local interrupt controller. -/
def lapicInterrupt (frame : ExceptionFrame) : Code V ExceptionFrame := do
  op .lapicNoteTick
  let _ ← if frame.FromUser then op .noteCurrentUserTick else pure false
  let s ← get
  let _ ← op (.wakeSleepers s.ticks)
  let s ← get
  if frame.FromUser ∧ s.userPreemption then do
    let expired ← op .userTimesliceExpired
    if expired then do
      let r ← op (.preemptUserThreadFromFrame frame)
      pure r.2
    else pure frame
  else pure frame

/-- `interrupt_dispatch`. -/
def interruptDispatch (frame : ExceptionFrame) (ext : External V) :
    Code V (Option ExceptionFrame) :=
  if frame.vector < 32 then pure none
  else if frame.vector < 48 then
    if frame.vector = 32 then do
      pitInterrupt
      pure (some frame)
    else pure (some frame)
  else if frame.vector = 0x40 then do
    let frame ← lapicInterrupt frame
    pure (some frame)
  else if frame.vector = 0x80 then do
    let frame ← systemCall frame ext
    pure (some frame)
  else pure (some frame)

/-! ## Actions -/

/-- What can happen to the manager. -/
inductive Action (V : Type)
  | operation (o : Σ β, Op V β)
  | dispatch (number arg0 arg1 arg2 arg3 : ℕ) (ext : External V)
  | interrupt (frame : ExceptionFrame) (ext : External V)

namespace Action

def program : Action V → Code V Unit
  | operation o => do
    let _ ← op o.2
    pure ()
  | dispatch number arg0 arg1 arg2 arg3 ext => do
    let _ ← IanOS.dispatch number arg0 arg1 arg2 arg3 ext
    pure ()
  | interrupt frame ext => do
    let _ ← interruptDispatch frame ext
    pure ()

end Action

namespace Machine

variable [FileSystem V]

/-- The operations an action performs. -/
def trace (s : Machine V) (a : Action V) : List (Σ β, Op V β) := Program.trace exec a.program s

/-- The state after an action. -/
def act (s : Machine V) (a : Action V) : Machine V := (Program.run exec a.program s).2

/-- The invariant of the tables holds after every sequence of actions from the start of the manager.
-/
theorem actions_keep_tables (s : Machine V) (actions : List (Action V)) :
    Inv (actions.foldl act s.initializeManager) := by
  refine List.foldlRecOn actions act (Inv.initializeManager s) fun t ht a _ => ?_
  have hrun : t.act a = (t.trace a).foldl step t := Program.run_state exec a.program t
  exact hrun ▸ ht.run (t.trace a)

end Machine
end IanOS
