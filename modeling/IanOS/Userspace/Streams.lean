import IanOS.Lib.Fifo
import IanOS.Userspace.Runs

/-!
# Pipes are lossless streams

The log of a run determines for each slot of the pipe table which bytes were accepted from writers
and which were delivered to readers since the pipe in the slot was created.  An open pipe together
with this history is a queue with its history (`Represents`), and every transition of the manager is
a step of that queue or leaves it alone.
-/

namespace IanOS

open Bytes List

namespace Pipe

variable {p : Pipe} {n : ℕ} {bytes : List UInt8}

/-- The rest is what was behind the bytes taken out. -/
lemma contents_consume_eq : (p.consume n).contents =
    load p.data (p.readOffset + n) (p.size - (p.readOffset + n)) := by
  rw [consume]
  dsimp only
  split
  · show load _ 0 (p.size - (p.readOffset + n) - 0) = _
    rw [Nat.sub_zero]
    split
    · dsimp only
      exact load_store (length_load _ _ _)
    · next hzero => rw [not_not.1 hzero, load_zero, load_zero]
  · rfl

/-- The bytes taken out are the first of those stored. -/
lemma contents_consume (h : p.readOffset + n ≤ p.size) :
    p.contents = load p.data p.readOffset n ++ (p.consume n).contents := by
  have hsplit : p.size - p.readOffset = n + (p.size - (p.readOffset + n)) := by omega
  rw [contents_consume_eq, contents, hsplit, load_add]

/-- New bytes are stored behind the others. -/
lemma contents_append (h : p.readOffset ≤ p.size) :
    (p.append bytes).contents = p.contents ++ bytes := by
  have hsplit : p.size + bytes.length - p.readOffset = (p.size - p.readOffset) + bytes.length := by
    omega
  have hend : p.readOffset + (p.size - p.readOffset) = p.size := by omega
  show load (store p.data p.size bytes) p.readOffset (p.size + bytes.length - p.readOffset) = _
  rw [hsplit, load_add, load_store_below _ hend.le, hend, load_store rfl, contents]

/-- The pipe's counters: nothing has been read beyond the front, and no more is stored than fits. -/
structure Bounded (p : Pipe) : Prop where
  front : p.readOffset = 0
  fits : p.size ≤ kPipeCapacity

lemma Bounded.consume (h : p.Bounded) (n : ℕ) : (p.consume n).Bounded := by
  have hfits := h.fits
  rw [Pipe.consume]
  split
  · exact ⟨rfl, by dsimp only; omega⟩
  · next hzero => exact ⟨not_not.1 hzero, hfits⟩

lemma Bounded.append (h : p.Bounded) (hfits : p.size + bytes.length ≤ kPipeCapacity) :
    (p.append bytes).Bounded :=
  ⟨h.front, hfits⟩

end Pipe

/-! ## The history of a slot -/

namespace Event

/-- The bytes accepted from writers since the pipe in a slot was created. -/
def accept (k : ℕ) (bytes : List UInt8) : Event → List UInt8
  | .created slot => if slot = k then [] else bytes
  | .accepted slot new _ => if slot = k then bytes ++ new else bytes
  | _ => bytes

/-- The bytes delivered to readers since the pipe in a slot was created. -/
def deliver (k : ℕ) (bytes : List UInt8) : Event → List UInt8
  | .created slot => if slot = k then [] else bytes
  | .delivered slot new _ => if slot = k then bytes ++ new else bytes
  | _ => bytes

/-- The number of bytes is the one the caller is told. -/
def Counted : Event → Prop
  | .accepted _ bytes result => result = bytes.length
  | .delivered _ bytes result => result = bytes.length
  | _ => True

end Event

def acceptedBytes (k : ℕ) (events : List Event) : List UInt8 := events.foldl (Event.accept k) []

def deliveredBytes (k : ℕ) (events : List Event) : List UInt8 := events.foldl (Event.deliver k) []

variable {k : ℕ} {events : List Event} {e : Event}

@[simp] lemma acceptedBytes_concat :
    acceptedBytes k (events ++ [e]) = Event.accept k (acceptedBytes k events) e := by
  simp [acceptedBytes]

@[simp] lemma deliveredBytes_concat :
    deliveredBytes k (events ++ [e]) = Event.deliver k (deliveredBytes k events) e := by
  simp [deliveredBytes]

/-- The pipe in a slot is a queue with the history of the slot. -/
structure Represents (k : ℕ) (events : List Event) (p : Pipe) (q : Fifo UInt8) : Prop where
  sent : q.sent = acceptedBytes k events
  received : q.received = deliveredBytes k events
  queue : q.queue = p.contents

lemma Represents.concat {p : Pipe} {q : Fifo UInt8} (h : Represents k events p q)
    (hother : ∀ bytes, e.accept k bytes = bytes ∧ e.deliver k bytes = bytes) :
    Represents k (events ++ [e]) p q where
  sent := by rw [acceptedBytes_concat, (hother _).1, h.sent]
  received := by rw [deliveredBytes_concat, (hother _).2, h.received]
  queue := h.queue

namespace Machine

variable {V : Type} {s s' : Machine V} {start : List Event} {pipe : Option ℕ}

/-- Every open pipe is a queue with the history of its slot in the events since `start`. -/
structure Streams (start : List Event) (s : Machine V) (events : List Event) : Prop where
  log : s.log = start ++ events
  counted : ∀ e ∈ events, e.Counted
  pipe : ∀ k, (s.pipe k).isOpen → (s.pipe k).Bounded ∧ ∃ q, Represents k events (s.pipe k) q

namespace Streams

section

variable (h : Streams start s events)
include h

lemma of_eq (hpipes : s'.pipes = s.pipes) (hlog : s'.log = s.log) : Streams start s' events where
  log := hlog.trans h.log
  counted := h.counted
  pipe k hopen := by
    rw [Machine.pipe, hpipes] at hopen ⊢
    exact h.pipe k hopen

/-- One more event, after which every open pipe is still a queue with its history. -/
lemma extend (hlog : s'.log = s.log ++ [e]) (hcounted : e.Counted)
    (hpipe : ∀ l, (s'.pipe l).isOpen →
      (s'.pipe l).Bounded ∧ ∃ q, Represents l (events ++ [e]) (s'.pipe l) q) :
    Streams start s' (events ++ [e]) where
  log := by rw [hlog, h.log, append_assoc]
  counted e' he' := by
    obtain he' | he' := mem_append.1 he'
    · exact h.counted e' he'
    · rwa [mem_singleton.1 he']
  pipe := hpipe

lemma concat (hpipes : s'.pipes = s.pipes) (hlog : s'.log = s.log ++ [e]) (hcounted : e.Counted)
    (hother : ∀ k bytes, e.accept k bytes = bytes ∧ e.deliver k bytes = bytes) :
    Streams start s' (events ++ [e]) := by
  apply h.extend hlog hcounted
  intro l hopen
  rw [Machine.pipe, hpipes] at hopen ⊢
  obtain ⟨hbound, q, hq⟩ := h.pipe l hopen
  exact ⟨hbound, q, hq.concat (hother l)⟩

lemma deliver {n : ℕ} {put : List UInt8 → Machine V → Machine V}
    (hput : OnlyMemory put) (hopen : (s.pipe k).isOpen)
    (hn : (s.pipe k).readOffset + n ≤ (s.pipe k).size) :
    Streams start (s.deliver k n put) (events ++
      [.delivered k (load (s.pipe k).data (s.pipe k).readOffset n) n]) := by
  obtain ⟨mem, hmem⟩ := deliver_eq hput
  rw [hmem]
  refine h.extend rfl (length_load _ _ _).symm fun l hl => ?_
  rw [pipe_record, pipe_setPipe] at hl ⊢
  split
  · next hlk =>
    subst hlk
    obtain ⟨hbound, q, hq⟩ := h.pipe l hopen
    -- the queue gives its first elements
    have hqueue := hq.queue.trans (Pipe.contents_consume hn)
    refine ⟨hbound.consume n, q.receive _ _ hqueue, ?_, ?_, rfl⟩
    · rw [acceptedBytes_concat]
      exact hq.sent
    · rw [deliveredBytes_concat, ← hq.received]
      simp [Event.deliver, Fifo.receive]
  · next hlk =>
    rw [if_neg hlk] at hl
    obtain ⟨hbound, q, hq⟩ := h.pipe l hl
    refine ⟨hbound, q, hq.concat fun bytes => ⟨rfl, ?_⟩⟩
    simp [Event.deliver, Ne.symm hlk]

lemma accept {bytes : List UInt8} (hopen : (s.pipe k).isOpen)
    (hfits : (s.pipe k).size + bytes.length ≤ kPipeCapacity) :
    Streams start (s.accept k bytes) (events ++ [.accepted k bytes bytes.length]) := by
  rw [Machine.accept]
  refine h.extend rfl rfl fun l hl => ?_
  rw [pipe_record, pipe_setPipe] at hl ⊢
  split
  · next hlk =>
    subst hlk
    obtain ⟨hbound, q, hq⟩ := h.pipe l hopen
    have hfront : (s.pipe l).readOffset ≤ (s.pipe l).size := by
      rw [hbound.front]
      exact Nat.zero_le _
    -- the queue gets new elements
    refine ⟨hbound.append hfits, q.send bytes, ?_, ?_, ?_⟩
    · rw [acceptedBytes_concat, ← hq.sent]
      simp [Event.accept, Fifo.send]
    · rw [deliveredBytes_concat]
      exact hq.received
    · rw [Pipe.contents_append hfront, ← hq.queue]
      rfl
  · next hlk =>
    rw [if_neg hlk] at hl
    obtain ⟨hbound, q, hq⟩ := h.pipe l hl
    refine ⟨hbound, q, hq.concat fun bytes => ⟨?_, rfl⟩⟩
    simp [Event.accept, Ne.symm hlk]

lemma openPipe (id next : ℕ) : Streams start (({ s with nextPipeId := next }.setPipe k fun _ =>
      { id := id, isOpen := true }).record (.created k)) (events ++ [.created k]) := by
  refine h.extend rfl trivial fun l hl => ?_
  rw [pipe_record, pipe_setPipe] at hl ⊢
  split
  · next hlk =>
    subst hlk
    refine ⟨⟨rfl, Nat.zero_le _⟩, Fifo.empty, ?_, ?_, rfl⟩
    · simp [Event.accept, Fifo.empty]
    · simp [Event.deliver, Fifo.empty]
  · next hlk =>
    rw [if_neg hlk] at hl
    obtain ⟨hbound, q, hq⟩ := h.pipe l hl
    refine ⟨hbound, q, hq.concat fun bytes => ?_⟩
    simp [Event.accept, Event.deliver, Ne.symm hlk]

lemma clearPipe : Streams start (s.setPipe k fun _ => {}) events where
  log := h.log
  counted := h.counted
  pipe l hl := by
    rw [pipe_setPipe] at hl ⊢
    split at hl
    · cases hl
    · next hlk =>
      rw [if_neg hlk]
      exact h.pipe l hl

lemma initializeManager : Streams start s.initializeManager events where
  log := h.log
  counted := h.counted
  pipe _ hl := by cases hl

lemma wakeup (hw : Wakeup s s') : ∃ events, Streams start s' events := by
  cases hw with
  | memory => exact ⟨_, h.of_eq rfl rfl⟩
  | complete => exact ⟨_, h.concat rfl rfl trivial fun _ _ => ⟨rfl, rfl⟩⟩
  | deliver hput hopen hn => exact ⟨_, h.deliver hput hopen hn⟩
  | accept hopen hfits => exact ⟨_, h.accept hopen hfits⟩

lemma effect (he : Effect s s') : ∃ events, Streams start s' events := by
  cases he with
  | revise hr =>
    cases hr with
    | idle hidle => exact ⟨_, h.of_eq (by rw [hidle]) (by rw [hidle])⟩
    | describe => exact ⟨_, h.of_eq rfl rfl⟩
  | wakeup hw => exact h.wakeup hw
  | openPipe => exact ⟨_, h.openPipe _ _⟩
  | clearPipe => exact ⟨_, h.clearPipe⟩
  | mapSpace | «continue» | forgetActive | reapProcess => exact ⟨_, h.of_eq rfl rfl⟩
  | enterProcess henter =>
    obtain ⟨-, -, -, -, -, hframe⟩ := enterProcess_eq_some henter
    exact ⟨_, h.of_eq (by rw [hframe]) (by rw [hframe])⟩
  | enterThread =>
    obtain hsame | ⟨_, _, -, -, -, -, -, hframe⟩ := createMainThread_cases (s := s) rfl
    · exact ⟨_, hsame ▸ h⟩
    · rw [hframe]
      exact ⟨_, h.of_eq rfl rfl⟩
  | start =>
    refine ⟨_, h.of_eq ?_ ?_⟩
    · rw [startThread, pipes_onThread, claimActive]
      split <;> rfl
    · rw [startThread, log_onThread, claimActive]
      split <;> rfl
  | stop => exact ⟨_, h.of_eq (pipes_onThread _) (log_onThread _)⟩
  | @markExited j code reason =>
    refine ⟨_, h.concat (e := .exited (s.process j).pid) ?_ ?_ trivial fun _ _ => ⟨rfl, rfl⟩⟩
    · rw [Machine.markExited, pipes_onThread]
      rfl
    · rw [Machine.markExited, log_onThread]
      rfl
  | reapThread =>
    obtain ⟨_, _, hframe, -⟩ := reapThread_eq s _ _
    exact ⟨_, h.of_eq (by rw [hframe]) (by rw [hframe])⟩

lemma «switch» (hs : Switch s s') : ∃ events, Streams start s' events :=
  ⟨_, h.of_eq (by rw [hs.frame]) (by rw [hs.frame])⟩

lemma course (hc : Course s s') : ∃ events, Streams start s' events := by
  induction hc with
  | refl => exact ⟨_, h⟩
  | tail _ hlast ih =>
    obtain ⟨_, hmid⟩ := ih
    obtain he | hs | rfl := hlast
    · exact hmid.effect he
    · exact hmid.switch hs
    · exact ⟨_, hmid.initializeManager⟩

/-- Every open pipe is a queue with its history in every run. -/
theorem run [FileSystem V] (hinv : Inv s)
    (ops : List (Σ β, Op V β)) : ∃ events, Streams start (ops.foldl step s) events := by
  induction ops generalizing s events with
  | nil => exact ⟨_, h⟩
  | cons o ops ih =>
    have hcourse : Course s (s.step o) := course_step hinv o.2
    obtain ⟨_, hnext⟩ := h.course hcourse
    exact ih hnext (hinv.course hcourse)

end

end Streams

/-! ## What the callers are told -/

/-- A call with the result and the state `r` moved nothing, or the first thing it did was to move as
many bytes through a pipe as it returns. -/
def Returns (s : Machine V) (r : ℕ × Machine V) (size : ℕ) (pipe : Option ℕ)
    (event : ℕ → ℕ → Event) : Prop :=
  r = (0, s) ∨ ∃ k ∈ pipe, ∃ events, r.1 ≤ size ∧ r.2.log = s.log ++ event k r.1 :: events

/-- A blocked call ended without bytes, or moved as many bytes through a pipe as its saved registers
say. -/
def Completes (s s' : Machine V) (i : ℕ) (pipe : Option ℕ) (event : ℕ → ℕ → Event)
    (moved : ℕ → ℕ → Prop) : Prop :=
  (∃ error, s' = s.completeCall i 0 error) ∨ ∃ k ∈ pipe, ∃ n ≤ (s.thread i).waitSize,
    s'.thread i = (s.thread i).complete n kErrorNone ∧
      s'.log = s.log ++ [event k n, .completed (s.thread i).tid n kErrorNone] ∧ moved k n

/-- The first bytes in a pipe. -/
def front (s : Machine V) (k n : ℕ) : List UInt8 :=
  load (s.pipe k).data (s.pipe k).readOffset n

variable {pid fd buffer size i j pipeId : ℕ} {d : FileDescriptor}

lemma writeFile_returns [FileSystem V] (hj : s.findOwner pid = some j)
    (hd : lookupFd fd (s.fds j) = some d) (hkind : d.kind = .pipeWrite) :
    s.Returns (s.writeFile pid fd buffer size) size (s.findPipe d.pipeId) fun k n =>
      .accepted k (load s.userByte buffer n) n := by
  rw [writeFile, hj]
  dsimp only
  split_ifs with hargs
  · exact .inl rfl
  rw [hd]
  dsimp only
  rw [hkind]
  dsimp only
  split_ifs with hreader
  · split
    · exact .inl rfl
    · next k hk =>
      split_ifs with hfull
      · exact .inl rfl
      obtain ⟨events, hlog⟩ := (wakePipeWaiters_wakeups (s := s.accept k (load s.userByte
        buffer (min size (kPipeCapacity - (s.pipe k).size)))) d.pipeId true false).log
      refine .inr ⟨k, hk, events, Nat.min_le_left _ _, hlog.trans ?_⟩
      rw [Machine.accept, record, setPipe, append_assoc, length_load]
      rfl
  · exact .inl rfl

lemma readFile_returns [FileSystem V] (hj : s.findOwner pid = some j)
    (hd : lookupFd fd (s.fds j) = some d) (hkind : d.kind = .pipeRead) :
    s.Returns (s.readFile pid fd buffer size) size (s.findPipe d.pipeId) fun k n =>
      .delivered k (s.front k n) n := by
  rw [readFile, hj]
  dsimp only
  split_ifs with hargs
  · exact .inl rfl
  rw [hd]
  dsimp only
  rw [hkind]
  dsimp only
  split
  · exact .inl rfl
  next k hk =>
    split_ifs with hempty
    · exact .inl rfl
    obtain ⟨events, hlog⟩ := (wakePipeWaiters_wakeups (s := s.deliver k
      (min size ((s.pipe k).size - (s.pipe k).readOffset)) fun bytes s =>
        s.storeUser buffer bytes) d.pipeId false true).log
    refine .inr ⟨k, hk, events, Nat.min_le_left _ _, hlog.trans ?_⟩
    obtain ⟨mem, hmem⟩ := deliver_eq (onlyMemory_storeUser buffer)
    rw [hmem, record, setPipe, append_assoc]
    rfl

lemma completePipeWrite_completes (h : s.completePipeWrite pipeId pipe i = some s') :
    s.Completes s' i pipe
      (fun k n => .accepted k (load s.mem (s.waitPhys (s.thread i)) n) n)
      fun _ _ => True := by
  obtain ⟨-, hfail⟩ | ⟨-, k, n, hk, -, hsize, -, hdone⟩ := completePipeWrite_eq_some h
  · exact .inl ⟨_, hfail⟩
  subst hdone
  refine .inr ⟨k, hk, n, hsize, ?_, ?_, trivial⟩
  · rw [thread_completeCall, if_pos rfl]
    rfl
  · rw [completeCall, record, setThread, Machine.accept, record, setPipe, length_load, append_assoc]
    rfl

/-- The bytes are in the reader's buffer. -/
lemma completePipeRead_completes (h : s.completePipeRead pipeId pipe i = some s') :
    s.Completes s' i pipe (fun k n => .delivered k (s.front k n) n)
      fun k n => load s'.mem (s.waitPhys (s.thread i)) n = s.front k n := by
  obtain ⟨-, hfail⟩ | ⟨k, n, hk, -, hsize, -, hdone⟩ := completePipeRead_eq_some h
  · exact .inl ⟨_, hfail⟩
  subst hdone
  refine .inr ⟨k, hk, n, hsize, ?_, ?_, load_store (length_load _ _ _)⟩
  · rw [thread_completeCall, if_pos rfl]
    rfl
  · rw [completeCall, record, setThread, Machine.deliver, record, setPipe, append_assoc]
    rfl

/-- What the calls on pipes tell their callers is what the log says. -/
structure Reported [FileSystem V] (s : Machine V) : Prop where
  write : ∀ pid fd buffer size j d, s.findOwner pid = some j →
    lookupFd fd (s.fds j) = some d → d.kind = .pipeWrite →
    s.Returns (s.writeFile pid fd buffer size) size (s.findPipe d.pipeId) fun k n =>
      .accepted k (load s.userByte buffer n) n
  read : ∀ pid fd buffer size j d, s.findOwner pid = some j →
    lookupFd fd (s.fds j) = some d → d.kind = .pipeRead →
    s.Returns (s.readFile pid fd buffer size) size (s.findPipe d.pipeId) fun k n =>
      .delivered k (s.front k n) n
  blockedWrite : ∀ pipeId pipe i s', s.completePipeWrite pipeId pipe i = some s' →
    s.Completes s' i pipe
      (fun k n => .accepted k (load s.mem (s.waitPhys (s.thread i)) n) n) fun _ _ => True
  blockedRead : ∀ pipeId pipe i s', s.completePipeRead pipeId pipe i = some s' →
    s.Completes s' i pipe (fun k n => .delivered k (s.front k n) n)
      fun k n => load s'.mem (s.waitPhys (s.thread i)) n = s.front k n

lemma reported [FileSystem V] (s : Machine V) : Reported s where
  write _ _ _ _ _ _ := writeFile_returns
  read _ _ _ _ _ _ := readFile_returns
  blockedWrite _ _ _ _ := completePipeWrite_completes
  blockedRead _ _ _ _ := completePipeRead_completes

end Machine
end IanOS
