import IanOS.Fs.Path
import IanOS.Interrupts.Stubs
import IanOS.Lib.Bytes
import IanOS.Lib.Table
import IanOS.Mm.Page

/-!
# State of the userspace manager

The data of `kernel/include/hk/userspace/userspace.hpp` together with what its functions read and
write elsewhere: the file system, the address spaces, physical memory, the page-table register and
the timers.  A pointer into one of the manager's tables is the number of the slot.

Identifiers of processes and threads are natural numbers: their 64-bit counters go up by one per
creation and are taken not to wrap.  Identifiers of pipes and descriptor numbers have 32 bits and
do wrap.  Counters that are only reported (`diagnostics_` and the statistics in the records) are
left out.

The field `log` is not part of the kernel.  It records, in order, what the functions did to pipes,
blocked calls and processes, so that properties of whole runs can be stated.
-/

namespace IanOS

inductive ProcessState
  | empty | created | runnable | stopped | exited
  deriving DecidableEq, Repr

inductive UserThreadState
  | empty | created | runnable | running | blocked | exited
  deriving DecidableEq, Repr

inductive UserBlockReason
  | none | pipeRead | pipeWrite | processWait | sleep
  deriving DecidableEq, Repr

inductive FileDescriptorKind
  | empty | vfs | pipeRead | pipeWrite
  deriving DecidableEq, Repr

inductive ProcessTerminationReason
  | none | exited | sigTerm | sigKill
  deriving DecidableEq, Repr

def kMaxUserProcesses : ℕ := 16
def kMaxUserThreads : ℕ := 32
def kMaxProcessFileDescriptors : ℕ := 8
def kMaxPipes : ℕ := 8
def kPipeCapacity : ℕ := 1024
def kUserTimesliceQuantum : ℕ := 4

def kStdinFd : ℕ := 0
def kStdoutFd : ℕ := 1
def kStderrFd : ℕ := 2

/-- `hybrid::kSyscallError*`. -/
def kErrorNone : ℕ := 0
def kErrorInvalidSyscall : ℕ := 1
def kErrorInvalidPointer : ℕ := 2
def kErrorNotFound : ℕ := 3
def kErrorWouldBlock : ℕ := 4

structure FileDescriptor where
  fd : ℕ := 0
  vfsHandle : ℕ := 0
  pipeId : ℕ := 0
  offset : ℕ := 0
  kind : FileDescriptorKind := .empty
  isOpen : Bool := false
  path : Path := []
  deriving DecidableEq, Repr

/-- A pipe; the bytes stored are those of `data` from `readOffset` up to `size`. -/
structure Pipe where
  id : ℕ := 0
  isOpen : Bool := false
  size : ℕ := 0
  readOffset : ℕ := 0
  data : ℕ → UInt8 := fun _ => 0

structure Process where
  pid : ℕ := 0
  parentPid : ℕ := 0
  state : ProcessState := .empty
  entry : Word64 := 0
  addressSpaceRoot : ℕ := 0
  userStackTop : Word64 := 0
  mainThreadId : ℕ := 0
  exitCode : ℕ := 0
  terminationReason : ProcessTerminationReason := .none
  nextFd : ℕ := 0
  fileDescriptors : List FileDescriptor := List.replicate kMaxProcessFileDescriptors {}
  currentDirectory : Path := []
  ownsAddressSpace : Bool := false
  processGroupId : ℕ := 0

def Registers.zero : Registers :=
  ⟨0, 0, 0, 0, 0, 0, 0, 0, 0, 0, 0, 0, 0, 0, 0⟩

structure UserThread where
  tid : ℕ := 0
  pid : ℕ := 0
  state : UserThreadState := .empty
  blockReason : UserBlockReason := .none
  waitPipeId : ℕ := 0
  waitProcessId : ℕ := 0
  waitWakeTick : ℕ := 0
  waitFd : ℕ := 0
  waitBuffer : ℕ := 0
  waitSize : ℕ := 0
  entry : Word64 := 0
  userStackPointer : Word64 := 0
  addressSpaceRoot : ℕ := 0
  gpr : Registers := Registers.zero
  rflags : Word64 := 0

structure UserLaunchContext where
  tid : ℕ
  pid : ℕ
  rip : Word64
  rsp : Word64
  cr3 : ℕ
  cs : Word64
  ss : Word64
  rflags : Word64

structure UserExecutionContext where
  tid : ℕ
  pid : ℕ
  cr3 : ℕ
  valid : Bool
  deriving DecidableEq, Repr

/-- What the log records.  Pipes are named by their slot. -/
inductive Event
  /-- `create_pipe` opened a pipe in this slot. -/
  | created (slot : ℕ)
  /-- Bytes went into a pipe, and the count the writer is told. -/
  | accepted (slot : ℕ) (bytes : List UInt8) (result : ℕ)
  /-- Bytes went from a pipe to a reader, and the count the reader is told. -/
  | delivered (slot : ℕ) (bytes : List UInt8) (result : ℕ)
  /-- A blocked call of a thread was completed with this value and error. -/
  | completed (tid value error : ℕ)
  /-- `exit_process` marked a process as exited. -/
  | exited (pid : ℕ)
  deriving DecidableEq, Repr

/-- What the manager asks of the file system, whose state is `V`. -/
class FileSystem (V : Type) where
  /-- `open`; handle 0 is failure. -/
  openPath : V → Path → ℕ × V
  close : V → ℕ → V
  readHandle : V → ℕ → ℕ → List UInt8 × V
  writeHandle : V → ℕ → List UInt8 → ℕ × V
  seekHandle : V → ℕ → ℕ → Bool × V
  retainHandle : V → ℕ → Bool × V
  handleOffset : V → ℕ → ℕ
  /-- The size `redirect_file_append` finds for a path, 0 if there is no node. -/
  endOffset : V → Path → ℕ
  isDirectory : V → Path → Bool
  /-- `resolve_process_path`: from the current directory and a path to an absolute path. -/
  resolve : Path → Path → Option Path

/-- The manager and what it works on. -/
structure Machine (V : Type) where
  processes : Table Process
  threads : Table UserThread
  pipes : Table Pipe
  nextPid : ℕ
  nextTid : ℕ
  activePid : ℕ
  activeTid : ℕ
  lastUserPickIndex : ℕ
  currentSliceTicks : ℕ
  foregroundProcessGroupId : ℕ
  /-- The `static` counter of `create_pipe`. -/
  nextPipeId : ℕ
  vfs : V
  /-- `translate` of each address space; address 0 stands for an unmapped page. -/
  spaces : ℕ → ℕ → ℕ
  /-- Physical memory. -/
  mem : ℕ → UInt8
  cr3 : ℕ
  pitTicks : ℕ
  lapicTicks : ℕ
  userPreemption : Bool
  lapicActive : Bool
  /-- Whether the local interrupt controller's timer can be configured. -/
  lapicConfigures : Bool
  log : List Event

/-- Before the kernel starts everything is zero. -/
instance {V : Type} [Inhabited V] : Inhabited (Machine V) where
  default :=
    { processes := ⟨fun _ => {}, 0⟩, threads := ⟨fun _ => {}, 0⟩, pipes := ⟨fun _ => {}, 0⟩
      nextPid := 0, nextTid := 0, activePid := 0, activeTid := 0, lastUserPickIndex := 0
      currentSliceTicks := 0, foregroundProcessGroupId := 0, nextPipeId := 0, vfs := default
      spaces := fun _ _ => 0, mem := fun _ => 0, cr3 := 0, pitTicks := 0, lapicTicks := 0
      userPreemption := false, lapicActive := false, lapicConfigures := false, log := [] }

/-- Neither an unused slot nor a process that has exited. -/
def Process.Live (p : Process) : Prop := p.state ≠ .empty ∧ p.state ≠ .exited
  deriving Decidable

/-- An open descriptor of this kind on a pipe. -/
def FileDescriptor.IsPipeEnd (kind : FileDescriptorKind) (pipeId : ℕ) (fd : FileDescriptor) :
    Prop :=
  fd.isOpen ∧ fd.pipeId = pipeId ∧ fd.kind = kind

instance (kind : FileDescriptorKind) (pipeId : ℕ) (fd : FileDescriptor) :
    Decidable (fd.IsPipeEnd kind pipeId) :=
  inferInstanceAs (Decidable (_ ∧ _))

/-- An open descriptor on either end of a pipe. -/
def FileDescriptor.OnPipe (fd : FileDescriptor) : Prop :=
  fd.isOpen ∧ (fd.kind = .pipeRead ∨ fd.kind = .pipeWrite)
  deriving Decidable

/-- An open descriptor with this number. -/
def FileDescriptor.Is (number : ℕ) (fd : FileDescriptor) : Prop := fd.isOpen ∧ fd.fd = number
  deriving Decidable

namespace Machine

variable {V : Type} (s : Machine V)

/-! ## Looking up -/

def process (i : ℕ) : Process := s.processes.slot i

def thread (i : ℕ) : UserThread := s.threads.slot i

def pipe (k : ℕ) : Pipe := s.pipes.slot k

def findProcess (pid : ℕ) : Option ℕ :=
  s.processes.find fun p => p.pid = pid ∧ p.state ≠ .empty

def findThread (tid : ℕ) : Option ℕ :=
  s.threads.find fun t => t.tid = tid ∧ t.state ≠ .empty

/-- The scan of the functions that skip exited processes as well. -/
def findLive (pid : ℕ) : Option ℕ := s.processes.find fun p => p.pid = pid ∧ p.Live

def findPipe (pipeId : ℕ) : Option ℕ :=
  if pipeId = 0 then none else s.pipes.find fun p => p.isOpen ∧ p.id = pipeId

def currentTid : ℕ :=
  if s.activeTid = 0 then 0
  else if (s.threads.find fun t =>
      t.tid = s.activeTid ∧ t.state ≠ .empty ∧ t.state ≠ .exited).isSome then s.activeTid
  else 0

def currentPid : ℕ :=
  -- without a current thread the active process is used, if it is alive
  let fallback :=
    if s.activePid = 0 then 0
    else if (s.findLive s.activePid).isSome then s.activePid
    else 0
  if s.currentTid ≠ 0 then
    match s.threads.find fun t => t.tid = s.currentTid with
    | some i => if (s.findLive (s.thread i).pid).isSome then (s.thread i).pid else 0
    | none => fallback
  else fallback

def currentThread : Option ℕ :=
  if s.currentTid = 0 then none else s.findThread s.currentTid

/-- `find_process` returns a process, and it satisfies `P`. -/
def processHas (pid : ℕ) (P : Process → Prop) : Prop :=
  ∃ j, s.findProcess pid = some j ∧ P (s.process j)

instance (pid : ℕ) (P : Process → Prop) [DecidablePred P] : Decidable (s.processHas pid P) :=
  match h : s.findProcess pid with
  | none => .isFalse fun ⟨_, hj, _⟩ => by simp [h] at hj
  | some j =>
    if hP : P (s.process j) then .isTrue ⟨j, h, hP⟩
    else .isFalse fun ⟨_, hj, hs⟩ => by
      obtain rfl : j = _ := Option.some.inj (h.symm.trans hj)
      exact hP hs

def processRunnable (pid : ℕ) : Prop := s.processHas pid fun p => p.state = .runnable
  deriving Decidable

def processLive (pid : ℕ) : Prop := s.processHas pid Process.Live
  deriving Decidable

/-- The scan shared by `pipe_has_live_writer` and `pipe_has_live_reader`. -/
def pipeHasLiveEnd (kind : FileDescriptorKind) (pipeId : ℕ) : Prop :=
  pipeId ≠ 0 ∧ ∃ j < s.processes.count, (s.process j).Live ∧
    ∃ fd ∈ (s.process j).fileDescriptors, fd.IsPipeEnd kind pipeId

instance (kind : FileDescriptorKind) (pipeId : ℕ) : Decidable (s.pipeHasLiveEnd kind pipeId) :=
  inferInstanceAs (Decidable (_ ∧ _))

def pipeHasLiveWriter (pipeId : ℕ) : Prop := s.pipeHasLiveEnd .pipeWrite pipeId
  deriving Decidable

def pipeHasLiveReader (pipeId : ℕ) : Prop := s.pipeHasLiveEnd .pipeRead pipeId
  deriving Decidable

/-! ## Memory and time -/

/-- `hk::mm::translate`. -/
def translate (root virt : ℕ) : ℕ := if root = 0 then 0 else s.spaces root virt

/-- The byte the kernel sees at an address of the address space in use. -/
def userByte (address : ℕ) : UInt8 := s.mem (s.translate s.cr3 address)

/-- Write through the address space in use. -/
def storeUser (address : ℕ) (bytes : List UInt8) : Machine V :=
  { s with
    mem := (List.range bytes.length).foldl
      (fun m i => Function.update m (s.translate s.cr3 (address + i)) (bytes.getD i 0)) s.mem }

/-- The bytes of a 64-bit word, lowest first. -/
def wordBytes (n : ℕ) : List UInt8 := (List.range 8).map fun i => UInt8.ofNat (n / 256 ^ i)

/-- `hk::timer::ticks`. -/
def ticks : ℕ := (s.pitTicks + s.lapicTicks) % 2 ^ 64

/-! ## Writing one record -/

def setProcess (i : ℕ) (f : Process → Process) : Machine V :=
  { s with processes := s.processes.modify i f }

def setThread (i : ℕ) (f : UserThread → UserThread) : Machine V :=
  { s with threads := s.threads.modify i f }

def setPipe (k : ℕ) (f : Pipe → Pipe) : Machine V := { s with pipes := s.pipes.modify k f }

/-- Change the thread that `find_thread` returns, if it returns one. -/
def onThread (tid : ℕ) (f : UserThread → UserThread) : Machine V :=
  match s.findThread tid with
  | none => s
  | some i => s.setThread i f

def record (e : Event) : Machine V := { s with log := s.log ++ [e] }

end Machine
end IanOS
