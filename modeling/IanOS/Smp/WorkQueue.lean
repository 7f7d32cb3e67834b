import IanOS.Lib.Ring
import IanOS.Lib.Run
import IanOS.Lib.WordStack

/-!
# The work queue of a processor

`enqueue_ap_work` and `handle_ipi` of `kernel/src/smp/smp.cpp`, for one processor that puts commands
into the queue and the processor that takes them out.  Both run step by step: a step is one access
to the memory they share, and a run is any sequence of steps of the two.  An inter-processor
interrupt may be lost, be late, or come without need.

The state also has a history, which nothing in the code can see: the commands that were accepted,
those that were executed, and what the calls of `enqueue_ap_work` have returned.
-/

namespace IanOS.Smp

open Function

variable {m n : ℕ}

def kApWorkQueueSize : ℕ := 8
def kApWorkCounted : BitVec 32 := 1
def kApWorkInvalidatePage : BitVec 32 := 2

/-- How often `enqueue_ap_work` looks for the command to be done. -/
def kApWorkPolls : ℕ := 2000000

structure Work where
  command : BitVec 32
  argument : Word64
  deriving DecidableEq, Repr

/-- The entries for one processor of the arrays in `smp.cpp`. -/
structure Queue where
  tail : BitVec 32
  done : BitVec 32
  commands : ℕ → BitVec 32
  args : ℕ → Word64
  workCounter : BitVec 32
  shootdownCounter : BitVec 32

/-- The slot a counter stands for. -/
def slot (counter : BitVec 32) : ℕ := counter.toNat % kApWorkQueueSize

/-- Where a call of `enqueue_ap_work` is. -/
inductive Stage
  | readTail
  | writeCommand
  | writeArgument
  | writeTail
  | sendIpi
  | poll (i : ℕ)
  deriving DecidableEq, Repr

/-- A call of `enqueue_ap_work`, with its variables. -/
structure Call where
  work : Work
  before : BitVec 32
  tail : BitVec 32
  stage : Stage
  deriving DecidableEq, Repr

/-- Where `handle_ipi` is, with the variables it needs from there on. -/
inductive Handler
  | idle
  | testDone
  | testTail (done : BitVec 32)
  | index
  | readCommand (index : ℕ)
  | readArgument (index : ℕ) (command : BitVec 32)
  | execute (index : ℕ) (work : Work)
  | clearCommand (index : ℕ)
  | clearArgument (index : ℕ)
  | loadDone
  | storeDone (done : BitVec 32)
  deriving DecidableEq, Repr

/-- A call that is over: what it returned, and its command with its number among those accepted. -/
structure Return where
  value : Bool
  work : Work
  item : Option ℕ
  deriving DecidableEq, Repr

structure State where
  queue : Queue
  call : Option Call := none
  handler : Handler := .idle
  accepted : List Work := []
  executed : List Work := []
  returns : List Return := []

inductive Action
  /-- `enqueue_ap_work` is called, and reads `ap_work_done`. -/
  | enqueue (work : Work)
  /-- The next step of the call.  `sent` is what `send_fixed_ipi` returns, if it is called. -/
  | producer (sent : Bool)
  /-- The target is interrupted. -/
  | interrupt
  /-- The next step of `handle_ipi`. -/
  | target
  deriving DecidableEq, Repr

/-- The queue after `initialize`. -/
def State.start : State where
  queue := ⟨0, 0, fun _ => 0, fun _ => 0, 0, 0⟩

namespace State

variable (s : State)

def finish (c : Call) (value : Bool) (item : Option ℕ) : State :=
  { s with call := none, returns := s.returns ++ [⟨value, c.work, item⟩] }

/-- The number of the last command accepted. -/
def lastItem : Option ℕ := some (s.accepted.length - 1)

def enqueue (work : Work) : State :=
  match s.call with
  | some _ => s
  | none => { s with call := some ⟨work, s.queue.done, 0, .readTail⟩ }

def producer (sent : Bool) : State :=
  match s.call with
  | none => s
  | some c =>
    match c.stage with
    | .readTail =>
      if kApWorkQueueSize ≤ (s.queue.tail - c.before).toNat then s.finish c false none
      else { s with call := some { c with tail := s.queue.tail, stage := .writeCommand } }
    | .writeCommand =>
      { s with
        queue := { s.queue with
          commands := update s.queue.commands (slot c.tail) c.work.command }
        call := some { c with stage := .writeArgument } }
    | .writeArgument =>
      { s with
        queue := { s.queue with args := update s.queue.args (slot c.tail) c.work.argument }
        call := some { c with stage := .writeTail } }
    | .writeTail =>
      { s with
        queue := { s.queue with tail := c.tail + 1 }
        call := some { c with stage := .sendIpi }
        accepted := s.accepted ++ [c.work] }
    | .sendIpi =>
      if sent then { s with call := some { c with stage := .poll 0 } }
      else s.finish c false s.lastItem
    | .poll i =>
      if s.queue.done ≠ c.before then s.finish c true s.lastItem
      else if i + 1 < kApWorkPolls then { s with call := some { c with stage := .poll (i + 1) } }
      else s.finish c false s.lastItem

def interrupt : State :=
  match s.handler with
  | .idle => { s with handler := .testDone }
  | _ => s

/-- What a command does. -/
def execute (work : Work) : State :=
  let q :=
    if work.command = kApWorkCounted then { s.queue with workCounter := s.queue.workCounter + 1 }
    else if work.command = kApWorkInvalidatePage ∧ work.argument ≠ 0 then
      { s.queue with shootdownCounter := s.queue.shootdownCounter + 1 }
    else s.queue
  { s with queue := q, executed := s.executed ++ [work] }

def target : State :=
  match s.handler with
  | .idle => s
  | .testDone => { s with handler := .testTail s.queue.done }
  | .testTail done => { s with handler := if done ≠ s.queue.tail then .index else .idle }
  | .index => { s with handler := .readCommand (slot s.queue.done) }
  | .readCommand index => { s with handler := .readArgument index (s.queue.commands index) }
  | .readArgument index command =>
    { s with handler := .execute index ⟨command, s.queue.args index⟩ }
  | .execute index work => { s.execute work with handler := .clearCommand index }
  | .clearCommand index =>
    { s with
      queue := { s.queue with commands := update s.queue.commands index 0 }
      handler := .clearArgument index }
  | .clearArgument index =>
    { s with
      queue := { s.queue with args := update s.queue.args index 0 }
      handler := .loadDone }
  | .loadDone => { s with handler := .storeDone s.queue.done }
  | .storeDone done =>
    { s with queue := { s.queue with done := done + 1 }, handler := .testDone }

def step : State → Action → State
  | s, .enqueue work => s.enqueue work
  | s, .producer sent => s.producer sent
  | s, .interrupt => s.interrupt
  | s, .target => s.target

end State

/-! ## Counters that wrap -/

/-- Numbers that are at most the size of the queue apart have different counters. -/
lemma ofNat_inj (hmn : m ≤ n) (hn : n ≤ m + kApWorkQueueSize)
    (h : BitVec.ofNat 32 m = BitVec.ofNat 32 n) : m = n := by
  have hmod := congrArg BitVec.toNat h
  rw [BitVec.toNat_ofNat, BitVec.toNat_ofNat] at hmod
  simp only [kApWorkQueueSize] at hn
  omega

lemma toNat_ofNat_sub (hmn : m ≤ n) (hn : n ≤ m + kApWorkQueueSize) :
    (BitVec.ofNat 32 n - BitVec.ofNat 32 m).toNat = n - m := by
  simp only [kApWorkQueueSize] at hn
  rw [BitVec.toNat_sub, BitVec.toNat_ofNat, BitVec.toNat_ofNat]
  omega

lemma slot_ofNat (n : ℕ) : slot (BitVec.ofNat 32 n) = n % kApWorkQueueSize := by
  rw [slot, BitVec.toNat_ofNat, kApWorkQueueSize]
  omega

lemma ofNat_succ (n : ℕ) : BitVec.ofNat 32 n + 1 = BitVec.ofNat 32 (n + 1) := by
  rw [BitVec.ofNat_add]
  rfl

end IanOS.Smp
