import IanOS.Userspace.Threads

/-!
# Pipes

The pipe functions of `kernel/src/userspace/userspace.cpp`: creating a pipe, waking the threads
that wait on it, and destroying it when nothing refers to it any more.

`wake_pipe_waiters` runs rounds over the thread table.  A completed read makes room and a completed
write brings data, so each of them lets the other kind of waiter be completed in later rounds.
-/

namespace IanOS

namespace Pipe

/-- The bytes stored. -/
def contents (p : Pipe) : List UInt8 := Bytes.load p.data p.readOffset (p.size - p.readOffset)

/-- Take `n` bytes out and move the rest to the front. -/
def consume (p : Pipe) (n : ℕ) : Pipe :=
  let p := { p with readOffset := p.readOffset + n }
  if p.readOffset ≠ 0 then
    let remaining := p.size - p.readOffset
    let data :=
      if remaining ≠ 0 then Bytes.store p.data 0 (Bytes.load p.data p.readOffset remaining)
      else p.data
    { p with data := data, size := remaining, readOffset := 0 }
  else p

/-- Store bytes behind the ones already there. -/
def append (p : Pipe) (bytes : List UInt8) : Pipe :=
  { p with data := Bytes.store p.data p.size bytes, size := p.size + bytes.length }

end Pipe

namespace Machine

variable {V : Type} (s : Machine V)

/-- Move `n` bytes from a pipe to a reader who finds them with `put`. -/
def deliver (k n : ℕ) (put : List UInt8 → Machine V → Machine V) : Machine V :=
  let bytes := Bytes.load (s.pipe k).data (s.pipe k).readOffset n
  ((put bytes s).setPipe k fun p => p.consume n).record (.delivered k bytes n)

/-- Move bytes from a writer into a pipe. -/
def accept (k : ℕ) (bytes : List UInt8) : Machine V :=
  (s.setPipe k fun p => p.append bytes).record (.accepted k bytes bytes.length)

/-! ## Waking -/

/-- The bytes left in the page of a physical address. -/
def pageRemaining (phys : ℕ) : ℕ := kPageSize - phys % kPageSize

/-- Copy bytes to a physical address. -/
def copyTo (phys : ℕ) (bytes : List UInt8) (s : Machine V) : Machine V :=
  { s with mem := Bytes.store s.mem phys bytes }

/-- The read of a blocked thread: it gets what the pipe holds, up to the size it asked for and the
end of the page of its buffer, or the end of the stream when there is no writer. -/
def completePipeRead (pipeId : ℕ) (pipe : Option ℕ) (i : ℕ) : Option (Machine V) :=
  let thread := s.thread i
  let endOfStream :=
    if s.pipeHasLiveWriter pipeId then none else some (s.completeCall i 0 kErrorNone)
  match pipe with
  | none => endOfStream
  | some k =>
    if thread.waitBuffer ≠ 0 ∧ thread.waitSize ≠ 0 ∧
        (s.pipe k).readOffset < (s.pipe k).size then
      let destPhys := s.translate thread.addressSpaceRoot thread.waitBuffer
      let toCopy :=
        min (min thread.waitSize ((s.pipe k).size - (s.pipe k).readOffset)) (pageRemaining destPhys)
      if destPhys = 0 ∨ toCopy = 0 then none
      else some ((s.deliver k toCopy (copyTo destPhys)).completeCall i toCopy kErrorNone)
    else endOfStream

/-- The write of a blocked thread: it fails when there is no reader, and otherwise stores what fits,
up to the size it asked for and the end of the page of its buffer. -/
def completePipeWrite (pipeId : ℕ) (pipe : Option ℕ) (i : ℕ) : Option (Machine V) :=
  let thread := s.thread i
  if ¬ s.pipeHasLiveReader pipeId then some (s.completeCall i 0 kErrorNotFound)
  else
    match pipe with
    | none => none
    | some k =>
      if thread.waitBuffer ≠ 0 ∧ thread.waitSize ≠ 0 ∧ (s.pipe k).size < kPipeCapacity then
        let sourcePhys := s.translate thread.addressSpaceRoot thread.waitBuffer
        let toCopy :=
          min (min thread.waitSize (kPipeCapacity - (s.pipe k).size)) (pageRemaining sourcePhys)
        if sourcePhys = 0 ∨ toCopy = 0 then none
        else some
          ((s.accept k (Bytes.load s.mem sourcePhys toCopy)).completeCall i toCopy kErrorNone)
      else none

/-- A thread that waits on the pipe for this reason and may be completed now. -/
def WaitsOn (pipeId : ℕ) (reason : UserBlockReason) (i : ℕ) : Prop :=
  (s.thread i).state = .blocked ∧ (s.thread i).waitPipeId = pipeId ∧
    (s.thread i).blockReason = reason ∧ s.processRunnable (s.thread i).pid

instance (pipeId : ℕ) (reason : UserBlockReason) (i : ℕ) :
    Decidable (s.WaitsOn pipeId reason i) :=
  inferInstanceAs (Decidable (_ ∧ _))

/-- A round of `wake_pipe_waiters` in progress. -/
structure WakeRound (V : Type) where
  machine : Machine V
  completedRead : Bool := false
  completedWrite : Bool := false
  woken : ℕ := 0

/-- The body of the inner loop, for one thread. -/
def wakePipeWaiter (pipeId : ℕ) (pipe : Option ℕ) (allowReaders allowWriters : Bool)
    (r : WakeRound V) (i : ℕ) : WakeRound V :=
  if allowReaders ∧ r.machine.WaitsOn pipeId .pipeRead i then
    match r.machine.completePipeRead pipeId pipe i with
    | none => r
    | some s => { r with machine := s, completedRead := true, woken := r.woken + 1 }
  else if allowWriters ∧ r.machine.WaitsOn pipeId .pipeWrite i then
    match r.machine.completePipeWrite pipeId pipe i with
    | none => r
    | some s => { r with machine := s, completedWrite := true, woken := r.woken + 1 }
  else r

/-- One round over the thread table. -/
def wakePipeRound (pipeId : ℕ) (pipe : Option ℕ) (allowReaders allowWriters : Bool) :
    WakeRound V :=
  (List.range s.threads.count).foldl (wakePipeWaiter pipeId pipe allowReaders allowWriters)
    { machine := s }

/-- The outer loop: rounds until one of them completes nothing. -/
def wakePipeRounds (pipeId : ℕ) (pipe : Option ℕ) :
    ℕ → Bool → Bool → ℕ → Machine V → ℕ × Machine V
  | 0, _, _, woken, s => (woken, s)
  | rounds + 1, allowReaders, allowWriters, woken, s =>
    let r := s.wakePipeRound pipeId pipe allowReaders allowWriters
    if r.woken = 0 then (woken, r.machine)
    else
      wakePipeRounds pipeId pipe rounds (allowReaders || r.completedWrite)
        (allowWriters || r.completedRead) (woken + r.woken) r.machine

def wakePipeWaiters (pipeId : ℕ) (readers writers : Bool) : ℕ × Machine V :=
  if pipeId = 0 then (0, s)
  else
    wakePipeRounds pipeId (s.findPipe pipeId) (s.threads.count * 2 + 1) readers writers 0 s

/-! ## Creating and destroying -/

/-- The identifier of the next pipe; the counter skips 0 when it wraps. -/
def givenPipeId : ℕ := if s.nextPipeId = 0 then 1 else s.nextPipeId

def createPipe : ℕ × Machine V :=
  match s.pipes.find fun p => ¬ p.isOpen with
  | none => (0, s)
  | some k =>
    (s.givenPipeId, ({ s with nextPipeId := (s.givenPipeId + 1) % 2 ^ 32 }.setPipe k fun _ =>
        { id := s.givenPipeId, isOpen := true }).record (.created k))

def cleanupPipeIfUnreferenced (pipeId : ℕ) : Bool × Machine V :=
  match s.findPipe pipeId with
  | none => (false, s)
  | some k =>
    if s.pipeHasLiveReader pipeId ∨ s.pipeHasLiveWriter pipeId then
      -- both ends were looked up before the first wake
      let s₁ :=
        if s.pipeHasLiveReader pipeId then s else (s.wakePipeWaiters pipeId false true).2
      let s₂ :=
        if s.pipeHasLiveWriter pipeId then s₁ else (s₁.wakePipeWaiters pipeId true false).2
      (true, s₂)
    else (true, (s.wakePipeWaiters pipeId true true).2.setPipe k fun _ => {})

def closePipe (pipeId : ℕ) : Bool × Machine V := s.cleanupPipeIfUnreferenced pipeId

end Machine
end IanOS
