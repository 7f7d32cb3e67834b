import IanOS.Userspace.Operations

/-!
# The system-call dispatcher

`dispatch` of `kernel/src/syscall/syscall.cpp`, as a program over the operations of the manager.
Modelled are the calls that work on processes, threads, descriptors and pipes.  The other calls copy
information out or work on the file system and the terminal; what such a call does to memory and to
the file system, and its result, are given by `External`.

Reading an unmapped user address faults, and the kernel halts; a program here goes on with some byte
instead.
-/

namespace IanOS

open Machine (wordBytes)

/-- The system calls that are modelled, by the names of `hybrid::SyscallNumber`. -/
inductive SyscallNumber
  | yield | sleepTicks | reapProcess | open | read | close | setCurrentDirectory | seek | write
  | spawn | exit | kill | wait | selectNextUserThread | writeFile | redirectProcessFd
  | redirectProcessFdAppend | createPipe | attachPipeFd | closePipe | setUserPreemption | dup | dup2
  | waitAny | setProcessGroup | killProcessGroup | startProcess | setForegroundProcessGroup
  | stopProcessGroup | continueProcessGroup
  /-- A call that neither looks at pipes nor changes the manager's tables. -/
  | other
  /-- No call has this number. -/
  | invalid
  deriving DecidableEq, Repr

def SyscallNumber.decode : ℕ → SyscallNumber
  | 3 => yield
  | 4 => sleepTicks
  | 13 => reapProcess
  | 19 => .open
  | 20 => read
  | 21 => close
  | 38 => setCurrentDirectory
  | 43 => seek
  | 45 => write
  | 46 => spawn
  | 47 => exit
  | 48 => kill
  | 49 => wait
  | 51 => selectNextUserThread
  | 56 => writeFile
  | 60 => redirectProcessFd
  | 62 => redirectProcessFdAppend
  | 63 => createPipe
  | 64 => attachPipeFd
  | 65 => closePipe
  | 71 => setUserPreemption
  | 74 => dup
  | 75 => dup2
  | 77 => waitAny
  | 79 => setProcessGroup
  | 80 => killProcessGroup
  | 81 => startProcess
  | 82 => setForegroundProcessGroup
  | 84 => stopProcessGroup
  | 85 => continueProcessGroup
  | n => if n = 0 ∨ n = 52 ∨ 99 < n then invalid else other

/-- `hybrid::SyscallResult`. -/
structure Result where
  value : ℕ
  error : ℕ
  deriving DecidableEq, Repr

namespace Result

def notFound : Result := ⟨0, kErrorNotFound⟩

def invalidPointer : Result := ⟨0, kErrorInvalidPointer⟩

def wouldBlock : Result := ⟨0, kErrorWouldBlock⟩

/-- The result of a call that succeeds or does not. -/
def ofBool (ok : Bool) : Result := if ok then ⟨1, kErrorNone⟩ else notFound

/-- The result of a call for which 0 is failure. -/
def ofCount (n : ℕ) : Result := if n = 0 then notFound else ⟨n, kErrorNone⟩

end Result

/-- What the parts of the kernel outside the model contribute to a call. -/
structure External (V : Type) where
  /-- The result of a call that is not modelled, and the file system and the memory it leaves. -/
  result : Result
  vfs : V
  mem : ℕ → UInt8
  /-- What `terminal::read_input` stores. -/
  input : List UInt8
  /-- What `terminal::write` returns. -/
  written : ℕ
  /-- What `Spawn` makes of its command line: the image of the program it names, if there is one. -/
  image : Option ProcessImage
  /-- `set_arguments` accepts the arguments of `Spawn`. -/
  argumentsAccepted : Bool

namespace Machine

variable {V : Type} (s : Machine V)

/-- `c_string_readable`, and the text it accepts. -/
def cString (text maxLen : ℕ) : Option Path :=
  if text = 0 ∨ maxLen = 0 ∨ 4096 < maxLen then none
  else
    let bytes := Bytes.load s.userByte text maxLen
    if 0 ∈ bytes then some (bytes.takeWhile (· ≠ 0)) else none

/-- `copy_current_directory`. -/
def copyCurrentDirectory (pid : ℕ) : Option Path :=
  match s.findLive pid with
  | none => none
  | some j =>
    if (s.process j).currentDirectory.head? = some 0x2f then some (s.process j).currentDirectory
    else none

end Machine

/-- `user_buffer_readable` and `user_buffer_writable`. -/
def bufferAccepted (data length : ℕ) : Prop := data ≠ 0 ∧ length ≠ 0 ∧ length ≤ 4096
  deriving Decidable

/-- `static_cast<uint32_t>`. -/
def narrow (n : ℕ) : ℕ := n % 2 ^ 32

/-- A piece of the kernel that returns an `α`. -/
abbrev Code (V α : Type) := Program (Op V) (Machine V) α

namespace Syscall

open Program (get op)
open Result (notFound invalidPointer wouldBlock ofBool ofCount)

variable {V : Type}

/-! ## What the calls share -/

/-- With the current process, which there must be. -/
def forCaller (call : ℕ → Code V Result) : Code V Result := do
  let s ← get
  if s.currentPid = 0 then pure notFound else call s.currentPid

/-- With a path from user memory. -/
def withPath (text maxLen : ℕ) (call : Path → Code V Result) : Code V Result := do
  let s ← get
  match s.cString text maxLen with
  | none => pure invalidPointer
  | some path => call path

/-- On a child of the current process. -/
def onChild (pid : ℕ) (call : Code V Result) : Code V Result := do
  let s ← get
  if s.currentPid = 0 ∨ ¬ s.processHas pid (fun p => p.parentPid = s.currentPid) then pure notFound
  else call

/-- The code and the reason for the signals of `Kill` and `KillProcessGroup`. -/
def signal (number : ℕ) : Option (ℕ × ProcessTerminationReason) :=
  if number = 9 then some (128 + 9, .sigKill)
  else if number = 15 ∨ number = 0 then some (128 + 15, .sigTerm)
  else none

/-! ## Files and pipes -/

def «open» (path length : ℕ) : Code V Result :=
  withPath path length fun path => forCaller fun pid => do
    let fd ← op (.openFile pid path)
    pure (ofCount fd)

/-- The part of `Read` that reads from a descriptor. -/
def readFd (pid fd buffer size : ℕ) : Code V Result := do
  let bytes ← op (.readFile pid fd buffer size)
  let s ← get
  if bytes ≠ 0 then pure ⟨bytes, kErrorNone⟩
  else if s.pipeReadWouldBlock pid fd then pure wouldBlock
  else if s.isPipeFd pid fd then pure ⟨0, kErrorNone⟩
  else pure notFound

def read (fd buffer size : ℕ) (ext : External V) : Code V Result := do
  let s ← get
  if ¬ bufferAccepted buffer size then pure invalidPointer
  else if fd = kStdinFd then
    if s.currentPid ≠ 0 ∧ s.hasOpenFile s.currentPid kStdinFd then
      readFd s.currentPid kStdinFd buffer size
    else do
      let _ ← op (.storeUser buffer ext.input)
      pure (ofCount ext.input.length)
  else forCaller fun pid => readFd pid (narrow fd) buffer size

def close (fd : ℕ) : Code V Result :=
  forCaller fun pid => do
    let ok ← op (.closeFile pid (narrow fd))
    pure (ofBool ok)

def dup (fd : ℕ) : Code V Result :=
  forCaller fun pid => do
    let new ← op (.duplicateFile pid (narrow fd))
    pure (ofCount new)

def dup2 (source target : ℕ) : Code V Result :=
  forCaller fun pid => do
    let ok ← op (.duplicateFileTo pid (narrow source) (narrow target))
    pure (if ok then ⟨target, kErrorNone⟩ else notFound)

def seek (fd offset : ℕ) : Code V Result :=
  forCaller fun pid => do
    let ok ← op (.seekFile pid (narrow fd) offset)
    pure (ofBool ok)

def writeFile (fd buffer size : ℕ) : Code V Result :=
  if ¬ bufferAccepted buffer size then pure invalidPointer
  else forCaller fun pid => do
    let bytes ← op (.writeFile pid (narrow fd) buffer size)
    let s ← get
    if bytes ≠ 0 then pure ⟨bytes, kErrorNone⟩
    else if s.pipeWriteWouldBlock pid (narrow fd) then pure wouldBlock
    else pure notFound

/-- `Write` of text to the terminal, or to a standard descriptor, with the bytes that are passed to
`terminal::write`. -/
def writeText (fd buffer size : ℕ) (ext : External V) : Code V (Result × List UInt8) := do
  let s ← get
  if ¬ bufferAccepted buffer size then pure (invalidPointer, [])
  else if (fd = kStdoutFd ∨ fd = kStderrFd) ∧ s.currentPid ≠ 0 then do
    let bytes ← op (.writeFile s.currentPid (narrow fd) buffer size)
    let s' ← get
    if bytes ≠ 0 then pure (⟨bytes, kErrorNone⟩, [])
    else if s'.pipeWriteWouldBlock s.currentPid (narrow fd) then pure (wouldBlock, [])
    else if s'.isPipeFd s.currentPid (narrow fd) then pure (notFound, [])
    else pure (⟨ext.written, kErrorNone⟩, Bytes.load s'.userByte buffer size)
  else pure (⟨ext.written, kErrorNone⟩, Bytes.load s.userByte buffer size)

def write (arg0 arg1 arg2 : ℕ) (ext : External V) : Code V (Result × List UInt8) :=
  if (arg0 = kStdoutFd ∨ arg0 = kStderrFd) ∧ arg2 ≠ 0 then writeText arg0 arg1 arg2 ext
  else if arg2 = 0 then writeText arg0 arg0 arg1 ext
  else pure (notFound, [])

def setCurrentDirectory (path length : ℕ) : Code V Result :=
  withPath path length fun path => forCaller fun pid => do
    let ok ← op (.setCurrentDirectory pid path)
    pure (ofBool ok)

def redirectProcessFd (pid fd path length : ℕ) : Code V Result :=
  withPath path length fun path => onChild pid do
    let ok ← op (.redirectFile pid (narrow fd) path)
    pure (ofBool ok)

def redirectProcessFdAppend (pid fd path length : ℕ) : Code V Result :=
  withPath path length fun path => onChild pid do
    let ok ← op (.redirectFileAppend pid (narrow fd) path)
    pure (ofBool ok)

def createPipe : Code V Result :=
  forCaller fun _ => do
    let pipeId ← op .createPipe
    pure (ofCount pipeId)

def attachPipeFd (pid fd pipeId endpoint : ℕ) : Code V Result :=
  onChild pid do
    let ok ← op (.attachPipeFd pid (narrow fd) (narrow pipeId) (decide (endpoint = 1)))
    pure (ofBool ok)

def closePipe (pipeId : ℕ) : Code V Result :=
  forCaller fun _ => do
    let ok ← op (.closePipe (narrow pipeId))
    pure (ofBool ok)

/-! ## Processes -/

/-- What `Spawn` gives a child of the current process. -/
def inherit (pid parentPid : ℕ) : Code V Unit := do
  let _ ← op (.setParent pid parentPid)
  let s ← get
  match s.copyCurrentDirectory parentPid with
  | none => pure ()
  | some path => do
    let _ ← op (.setCurrentDirectory pid path)
    pure ()
  let _ ← op (.inheritStandardFds pid parentPid)
  pure ()

/-- A process that was created becomes runnable, and preemption follows. -/
def start (pid : ℕ) : Code V Bool := do
  let ok ← op (.markRunnable pid)
  if ok then op .updateUserPreemptionGate else pure false

def spawn (text length outPid flags : ℕ) (ext : External V) : Code V Result := do
  let s ← get
  if (s.cString text length).isNone ∨ 128 < length then pure invalidPointer
  else
    match ext.image with
    | none => pure notFound
    | some image => do
      let created ← op (.createProcess image)
      match created with
      | none => pure notFound
      | some pid => do
        let s ← get
        if s.currentPid ≠ 0 then inherit pid s.currentPid else pure ()
        if ¬ ext.argumentsAccepted then pure notFound
        else do
          -- the lowest flag asks for a process that is not started yet
          let started ← if flags % 2 = 0 then start pid else pure true
          if ¬ started then pure notFound
          else do
            if outPid ≠ 0 then op (.storeUser outPid (wordBytes pid)) else pure ()
            pure ⟨pid, kErrorNone⟩

def startProcess (pid : ℕ) : Code V Result :=
  onChild pid do
    let ok ← start pid
    pure (ofBool ok)

def exit (code : ℕ) : Code V Result :=
  forCaller fun pid => do
    let ok ← op (.exitProcess pid code .exited)
    pure (ofBool ok)

def kill (pid number : ℕ) : Code V Result := do
  let s ← get
  let caller := s.currentPid
  let parent := (s.findProcess caller).elim 0 fun c => (s.process c).parentPid
  if caller = 0 ∨ (s.findProcess pid).isNone ∨ pid = caller then pure notFound
  else if ¬ s.processHas pid (fun p =>
      p.parentPid = caller ∨ parent ≠ 0 ∧ p.parentPid = parent) then pure notFound
  else
    match signal number with
    | none => pure notFound
    | some (code, reason) => do
      let ok ← op (.exitProcess pid code reason)
      pure (ofBool ok)

def setProcessGroup (pid groupId : ℕ) : Code V Result :=
  forCaller fun caller =>
    if pid = 0 ∨ groupId = 0 then pure notFound
    else do
      let ok ← op (.setProcessGroup caller pid groupId)
      pure (ofBool ok)

def killProcessGroup (groupId number : ℕ) : Code V Result :=
  forCaller fun caller =>
    if groupId = 0 then pure notFound
    else
      match signal number with
      | none => pure notFound
      | some (code, reason) => do
        let killed ← op (.killProcessGroup caller groupId code reason)
        pure (ofCount killed)

def setForegroundProcessGroup (groupId : ℕ) : Code V Result :=
  forCaller fun caller => do
    let ok ← op (.setForegroundProcessGroup caller groupId)
    pure (ofBool ok)

def stopProcessGroup (groupId : ℕ) : Code V Result :=
  forCaller fun caller =>
    if groupId = 0 then pure notFound
    else do
      let stopped ← op (.stopProcessGroup caller groupId)
      pure (ofCount stopped)

def continueProcessGroup (groupId : ℕ) : Code V Result :=
  forCaller fun caller =>
    if groupId = 0 then pure notFound
    else do
      let continued ← op (.continueProcessGroup caller groupId)
      if continued = 0 then pure notFound
      else do
        let ok ← op .updateUserPreemptionGate
        pure (if ok then ⟨continued, kErrorNone⟩ else notFound)

def reapProcess (pid : ℕ) : Code V Result := do
  let ok ← op (.reapExited pid)
  pure ⟨if ok then 1 else 0, kErrorNone⟩

def wait (pid exitCode : ℕ) : Code V Result :=
  if ¬ bufferAccepted exitCode 8 then pure invalidPointer
  else forCaller fun caller => do
    let s ← get
    match s.waitProcess caller pid with
    | none => if s.processWaitWouldBlock caller pid then pure wouldBlock else pure notFound
    | some code => do
      op (.storeUser exitCode (wordBytes code))
      pure ⟨1, kErrorNone⟩

def waitAny (out : ℕ) : Code V Result :=
  if ¬ bufferAccepted out 16 then pure invalidPointer
  else forCaller fun caller => do
    let s ← get
    match s.waitAnyProcess caller with
    | none => if s.processWaitAnyWouldBlock caller then pure wouldBlock else pure notFound
    | some (pid, code) => do
      op (.storeUser out (wordBytes pid ++ wordBytes code))
      pure ⟨1, kErrorNone⟩

/-! ## Scheduling -/

def setUserPreemption (enabled : ℕ) : Code V Result :=
  forCaller fun _ =>
    if enabled ≠ 0 then do
      let ok ← op .enableUserPreemption
      pure (ofBool ok)
    else do
      let ok ← op .updateUserPreemptionGate
      let s ← get
      pure (if ¬ ok then notFound else ⟨if s.userPreemption then 1 else 0, kErrorNone⟩)

/-- `hybrid::LaunchContextInfo`, which is packed. -/
def launchContextBytes (context : UserLaunchContext) : List UInt8 :=
  wordBytes context.tid ++ wordBytes context.pid ++
    wordBytes context.rip.toNat ++ wordBytes context.rsp.toNat ++
    wordBytes context.cr3 ++ (wordBytes context.cs.toNat).take 2 ++
    (wordBytes context.ss.toNat).take 2 ++ List.replicate 4 0 ++
    wordBytes context.rflags.toNat

def selectNextUserThread (out : ℕ) : Code V Result :=
  if out = 0 then pure invalidPointer
  else do
    let next ← op .selectNextRunnableThread
    match next with
    | none => pure notFound
    | some context => do
      op (.storeUser out (launchContextBytes context))
      pure ⟨context.tid, kErrorNone⟩

end Syscall

open Syscall in
/-- `hk::syscall::dispatch`. -/
def dispatch {V : Type} (number arg0 arg1 arg2 arg3 : ℕ) (ext : External V) : Code V Result :=
  match SyscallNumber.decode number with
  | .yield | .sleepTicks => pure ⟨0, kErrorNone⟩
  | .reapProcess => reapProcess arg0
  | .open => «open» arg0 arg1
  | .read => read arg0 arg1 arg2 ext
  | .close => close arg0
  | .setCurrentDirectory => setCurrentDirectory arg0 arg1
  | .seek => seek arg0 arg1
  | .write => do return (← write arg0 arg1 arg2 ext).1
  | .spawn => spawn arg0 arg1 arg2 arg3 ext
  | .exit => exit arg0
  | .kill => kill arg0 arg1
  | .wait => wait arg0 arg1
  | .selectNextUserThread => selectNextUserThread arg0
  | .writeFile => writeFile arg0 arg1 arg2
  | .redirectProcessFd => redirectProcessFd arg0 arg1 arg2 arg3
  | .redirectProcessFdAppend => redirectProcessFdAppend arg0 arg1 arg2 arg3
  | .createPipe => createPipe
  | .attachPipeFd => attachPipeFd arg0 arg1 arg2 arg3
  | .closePipe => closePipe arg0
  | .setUserPreemption => setUserPreemption arg0
  | .dup => dup arg0
  | .dup2 => dup2 arg0 arg1
  | .waitAny => waitAny arg0
  | .setProcessGroup => setProcessGroup arg0 arg1
  | .killProcessGroup => killProcessGroup arg0 arg1
  | .startProcess => startProcess arg0
  | .setForegroundProcessGroup => setForegroundProcessGroup arg0
  | .stopProcessGroup => stopProcessGroup arg0
  | .continueProcessGroup => continueProcessGroup arg0
  | .other => do
    let _ ← Program.op (.environment ext.vfs ext.mem)
    pure ext.result
  | .invalid => pure ⟨0, kErrorInvalidSyscall⟩

end IanOS
