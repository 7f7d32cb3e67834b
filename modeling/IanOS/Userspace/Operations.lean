import IanOS.Interrupts.Frames
import IanOS.Lib.Program

/-!
# The operations of the manager

The functions that change the state, as one type of operations with their results: the public
functions of `UserspaceManager`, the frame routines, and what the interrupt and system-call code
does to the timers and to memory.  Code that uses them is a `Program`.

Functions that change nothing in this model (the queries, and those that only count) are not
operations.
-/

namespace IanOS

inductive Op (V : Type) : Type → Type
  | initializeManager : Op V Unit
  | createProcess (image : ProcessImage) : Op V (Option ℕ)
  | createProcessStub (entry : Word64) (root : ℕ) : Op V (Option ℕ)
  | markRunnable (pid : ℕ) : Op V Bool
  | setParent (pid parentPid : ℕ) : Op V Bool
  | setProcessGroup (callerPid pid groupId : ℕ) : Op V Bool
  | setForegroundProcessGroup (callerPid groupId : ℕ) : Op V Bool
  | killProcessGroup (callerPid groupId code : ℕ) (reason : ProcessTerminationReason) : Op V ℕ
  | stopProcessGroup (callerPid groupId : ℕ) : Op V ℕ
  | continueProcessGroup (callerPid groupId : ℕ) : Op V ℕ
  | exitProcess (pid code : ℕ) (reason : ProcessTerminationReason) : Op V Bool
  | reapExited (pid : ℕ) : Op V Bool
  | activateThread (tid : ℕ) : Op V Bool
  | saveActiveThreadFrame (rip rsp : Word64) : Op V Bool
  | markActiveThreadRunnable : Op V Bool
  | blockActiveThreadOnPipe (pipeId : ℕ) (writeEnd : Bool) (fd buffer size : ℕ) : Op V Bool
  | blockActiveThreadOnProcess (targetPid : ℕ) : Op V Bool
  | blockActiveThreadOnAnyProcess : Op V Bool
  | blockActiveThreadUntil (wakeTick : ℕ) : Op V Bool
  | wakePipeWaiters (pipeId : ℕ) (readers writers : Bool) : Op V ℕ
  | wakeProcessWaiters (targetPid exitCode : ℕ) : Op V ℕ
  | wakeSleepers (nowTick : ℕ) : Op V ℕ
  | restoreContext (context : UserExecutionContext) : Op V Bool
  | selectNextRunnableThread : Op V (Option UserLaunchContext)
  | openFile (pid : ℕ) (path : Path) : Op V ℕ
  | redirectFile (pid targetFd : ℕ) (path : Path) : Op V Bool
  | redirectFileAppend (pid targetFd : ℕ) (path : Path) : Op V Bool
  | createPipe : Op V ℕ
  | attachPipeFd (pid targetFd pipeId : ℕ) (writeEnd : Bool) : Op V Bool
  | closePipe (pipeId : ℕ) : Op V Bool
  | readFile (pid fd buffer size : ℕ) : Op V ℕ
  | writeFile (pid fd buffer size : ℕ) : Op V ℕ
  | seekFile (pid fd offset : ℕ) : Op V Bool
  | closeFile (pid fd : ℕ) : Op V Bool
  | duplicateFile (pid sourceFd : ℕ) : Op V ℕ
  | duplicateFileTo (pid sourceFd targetFd : ℕ) : Op V Bool
  | inheritStandardFds (childPid parentPid : ℕ) : Op V Bool
  | setCurrentDirectory (pid : ℕ) (path : Path) : Op V Bool
  | updateUserPreemptionGate : Op V Bool
  | noteCurrentUserTick : Op V Bool
  | userTimesliceExpired : Op V Bool
  | yieldUserThreadFromFrame (frame : ExceptionFrame) : Op V (Bool × ExceptionFrame)
  | preemptUserThreadFromFrame (frame : ExceptionFrame) : Op V (Bool × ExceptionFrame)
  | blockUserPipeSyscallFromFrame (frame : ExceptionFrame) (writeEnd : Bool) (fd : ℕ) :
      Op V (Bool × ExceptionFrame)
  | blockUserWaitSyscallFromFrame (frame : ExceptionFrame) (targetPid : ℕ) :
      Op V (Bool × ExceptionFrame)
  | blockUserWaitAnySyscallFromFrame (frame : ExceptionFrame) : Op V (Bool × ExceptionFrame)
  | blockUserSleepSyscallFromFrame (frame : ExceptionFrame) (deltaTicks : ℕ) :
      Op V (Bool × ExceptionFrame)
  | exitUserThreadFromFrame (frame : ExceptionFrame) (code : ℕ) : Op V (Bool × ExceptionFrame)
  /-- `set_user_preemption_enabled(true)` after the timer has been started. -/
  | enableUserPreemption : Op V Bool
  | pitNoteTick : Op V Unit
  | lapicNoteTick : Op V Unit
  | stopLapicTimer : Op V Unit
  /-- A store through the address space in use. -/
  | storeUser (address : ℕ) (bytes : List UInt8) : Op V Unit
  /-- User code and the other subsystems change memory and the file system. -/
  | environment (vfs : V) (mem : ℕ → UInt8) : Op V Unit

namespace Machine

variable {V : Type} [FileSystem V]

/-- Regroup what a frame routine returns. -/
def regroup (r : Bool × ExceptionFrame × Machine V) : (Bool × ExceptionFrame) × Machine V :=
  ((r.1, r.2.1), r.2.2)

def exec : ∀ {β : Type}, Op V β → Machine V → β × Machine V
  | _, .initializeManager, s => ((), s.initializeManager)
  | _, .createProcess image, s => s.createProcess image
  | _, .createProcessStub entry root, s => s.createProcessStub entry root
  | _, .markRunnable pid, s => s.markRunnable pid
  | _, .setParent pid parentPid, s => s.setParent pid parentPid
  | _, .setProcessGroup callerPid pid groupId, s => s.setProcessGroup callerPid pid groupId
  | _, .setForegroundProcessGroup callerPid groupId, s =>
    s.setForegroundProcessGroup callerPid groupId
  | _, .killProcessGroup callerPid groupId code reason, s =>
    s.killProcessGroup callerPid groupId code reason
  | _, .stopProcessGroup callerPid groupId, s => s.stopProcessGroup callerPid groupId
  | _, .continueProcessGroup callerPid groupId, s => s.continueProcessGroup callerPid groupId
  | _, .exitProcess pid code reason, s => s.exitProcess pid code reason
  | _, .reapExited pid, s => s.reapExited pid
  | _, .activateThread tid, s => s.activateThread tid
  | _, .saveActiveThreadFrame rip rsp, s => s.saveActiveThreadFrame rip rsp
  | _, .markActiveThreadRunnable, s => s.markActiveThreadRunnable
  | _, .blockActiveThreadOnPipe pipeId writeEnd fd buffer size, s =>
    s.blockActiveThreadOnPipe pipeId writeEnd fd buffer size
  | _, .blockActiveThreadOnProcess targetPid, s => s.blockActiveThreadOnProcess targetPid
  | _, .blockActiveThreadOnAnyProcess, s => s.blockActiveThreadOnAnyProcess
  | _, .blockActiveThreadUntil wakeTick, s => s.blockActiveThreadUntil wakeTick
  | _, .wakePipeWaiters pipeId readers writers, s => s.wakePipeWaiters pipeId readers writers
  | _, .wakeProcessWaiters targetPid exitCode, s => s.wakeProcessWaiters targetPid exitCode
  | _, .wakeSleepers nowTick, s => s.wakeSleepers nowTick
  | _, .restoreContext context, s => s.restoreContext context
  | _, .selectNextRunnableThread, s => s.selectNextRunnableThread
  | _, .openFile pid path, s => s.openFile pid path
  | _, .redirectFile pid targetFd path, s => s.redirectFile pid targetFd path
  | _, .redirectFileAppend pid targetFd path, s => s.redirectFileAppend pid targetFd path
  | _, .createPipe, s => s.createPipe
  | _, .attachPipeFd pid targetFd pipeId writeEnd, s => s.attachPipeFd pid targetFd pipeId writeEnd
  | _, .closePipe pipeId, s => s.closePipe pipeId
  | _, .readFile pid fd buffer size, s => s.readFile pid fd buffer size
  | _, .writeFile pid fd buffer size, s => s.writeFile pid fd buffer size
  | _, .seekFile pid fd offset, s => s.seekFile pid fd offset
  | _, .closeFile pid fd, s => s.closeFile pid fd
  | _, .duplicateFile pid sourceFd, s => s.duplicateFile pid sourceFd
  | _, .duplicateFileTo pid sourceFd targetFd, s => s.duplicateFileTo pid sourceFd targetFd
  | _, .inheritStandardFds childPid parentPid, s => s.inheritStandardFds childPid parentPid
  | _, .setCurrentDirectory pid path, s => s.setCurrentDirectory pid path
  | _, .updateUserPreemptionGate, s => s.updateUserPreemptionGate
  | _, .noteCurrentUserTick, s => s.noteCurrentUserTick
  | _, .userTimesliceExpired, s => s.userTimesliceExpired
  | _, .yieldUserThreadFromFrame frame, s => regroup (s.yieldUserThreadFromFrame frame)
  | _, .preemptUserThreadFromFrame frame, s => regroup (s.preemptUserThreadFromFrame frame)
  | _, .blockUserPipeSyscallFromFrame frame writeEnd fd, s =>
    regroup (s.blockUserPipeSyscallFromFrame frame writeEnd fd)
  | _, .blockUserWaitSyscallFromFrame frame targetPid, s =>
    regroup (s.blockUserWaitSyscallFromFrame frame targetPid)
  | _, .blockUserWaitAnySyscallFromFrame frame, s =>
    regroup (s.blockUserWaitAnySyscallFromFrame frame)
  | _, .blockUserSleepSyscallFromFrame frame deltaTicks, s =>
    regroup (s.blockUserSleepSyscallFromFrame frame deltaTicks)
  | _, .exitUserThreadFromFrame frame code, s => regroup (s.exitUserThreadFromFrame frame code)
  | _, .enableUserPreemption, s => s.enableUserPreemption
  | _, .pitNoteTick, s => ((), { s with pitTicks := (s.pitTicks + 1) % 2 ^ 64 })
  | _, .lapicNoteTick, s => ((), { s with lapicTicks := (s.lapicTicks + 1) % 2 ^ 64 })
  | _, .stopLapicTimer, s => ((), { s with lapicActive := false })
  | _, .storeUser address bytes, s => ((), s.storeUser address bytes)
  | _, .environment vfs mem, s => ((), { s with vfs := vfs, mem := mem })

/-- The state after one operation. -/
def step (s : Machine V) (o : Σ β, Op V β) : Machine V := Program.step exec s o

end Machine
end IanOS
