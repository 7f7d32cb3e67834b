import IanOS.Lib.Ring

/-!
# Terminal input

The input side of `kernel/src/terminal.cpp`.  In raw mode a byte goes into a ring buffer; in
canonical mode it goes into a line buffer, and the line into a second ring buffer when it is
finished.  A ring buffer that is full gives up its oldest byte, which is counted.

A byte of the line buffer behind the line is never read, so that the buffer is modelled as the line.
The lock, which makes each function one step, and the output functions are left out.
-/

namespace IanOS.Terminal

open List Nat

def kInputBufferSize : ℕ := 256
def kLineBufferSize : ℕ := 128

inductive TerminalInputMode
  | raw
  | canonical
  deriving DecidableEq, Repr

/-- A ring buffer: `count` bytes from `tail` on, the next one goes to `head`. -/
structure InputQueue where
  buffer : ℕ → UInt8
  head : ℕ
  tail : ℕ
  count : ℕ
  tail_lt : tail < kInputBufferSize
  head_eq : head = (tail + count) % kInputBufferSize
  count_le : count ≤ kInputBufferSize

/-- The counters of `Stats` that the input functions change. -/
structure Stats where
  rawInputBytes : BitVec 64
  canonicalInputBytes : BitVec 64
  canonicalLineCommits : BitVec 64
  droppedInputBytes : BitVec 64
  inputHighWatermark : ℕ
  deriving DecidableEq, Repr

structure State where
  raw : InputQueue
  cooked : InputQueue
  line : List UInt8
  mode : TerminalInputMode
  stats : Stats

/-! ## Ring buffers -/

namespace InputQueue

variable (q : InputQueue)

def clear : InputQueue := ⟨fun _ => 0, 0, 0, 0, zero_lt_succ _, rfl, zero_le _⟩

def Full : Prop := q.count = kInputBufferSize
  deriving Decidable

/-- The bytes in the buffer, the oldest first. -/
def contents : List UInt8 :=
  (range q.count).map fun i => q.buffer ((q.tail + i) % kInputBufferSize)

lemma next_index (tail i : ℕ) :
    ((tail + 1) % kInputBufferSize + i) % kInputBufferSize =
    (tail + (i + 1)) % kInputBufferSize := by
  rw [mod_add_mod, add_right_comm, add_assoc]

/-- The oldest byte is given up, if there is one. -/
def drop : InputQueue where
  buffer := q.buffer
  head := q.head
  tail := if q.count = 0 then q.tail else (q.tail + 1) % kInputBufferSize
  count := q.count - 1
  tail_lt := by
    split_ifs
    · exact q.tail_lt
    · exact mod_lt _ (zero_lt_succ _)
  head_eq := by
    split_ifs with hempty
    · rw [q.head_eq, hempty]
    · rw [next_index, q.head_eq, Nat.sub_add_cancel (Nat.pos_of_ne_zero hempty)]
  count_le := (Nat.sub_le _ _).trans q.count_le

/-- A byte is stored behind the others. -/
def store (c : UInt8) (h : q.count < kInputBufferSize) : InputQueue where
  buffer := Function.update q.buffer q.head c
  head := (q.head + 1) % kInputBufferSize
  tail := q.tail
  count := q.count + 1
  tail_lt := q.tail_lt
  head_eq := by rw [q.head_eq, mod_add_mod, add_assoc]
  count_le := h

/-- The first part of `push_queue`. -/
def makeRoom : InputQueue := if q.Full then q.drop else q

lemma makeRoom_lt : q.makeRoom.count < kInputBufferSize := by
  have hle := q.count_le
  rw [makeRoom]
  split_ifs with hfull
  · exact lt_of_lt_of_le (sub_one_lt (hfull ▸ succ_ne_zero _)) hle
  · rw [Full] at hfull
    omega

def push (c : UInt8) : InputQueue := q.makeRoom.store c q.makeRoom_lt

def pop : Option (UInt8 × InputQueue) :=
  if q.count = 0 then none else some (q.buffer q.tail, q.drop)

end InputQueue

/-! ## The functions of `terminal.cpp` -/

namespace State

variable (s : State)

def clearInput : State := { s with raw := .clear, cooked := .clear, line := [] }

def updateHighWatermark : State :=
  let active := if s.raw.count > s.cooked.count then s.raw.count else s.cooked.count
  if active > s.stats.inputHighWatermark then
    { s with stats := { s.stats with inputHighWatermark := active } }
  else s

/-- `push_queue` into one of the two buffers counts a byte that is given up. -/
def countDrop (q : InputQueue) : State :=
  if q.Full
    then { s with stats := { s.stats with droppedInputBytes := s.stats.droppedInputBytes + 1 } }
  else s

def pushRaw (c : UInt8) : State :=
  let s := ({ s.countDrop s.raw with raw := s.raw.push c } : State).updateHighWatermark
  { s with stats := { s.stats with rawInputBytes := s.stats.rawInputBytes + 1 } }

def pushCooked (c : UInt8) : State :=
  let s := ({ s.countDrop s.cooked with cooked := s.cooked.push c } : State).updateHighWatermark
  { s with stats := { s.stats with canonicalInputBytes := s.stats.canonicalInputBytes + 1 } }

/-- Backspace and delete. -/
def IsErase (c : UInt8) : Prop := c = 0x08 ∨ c = 0x7f
  deriving Decidable

/-- Carriage return stands for newline. -/
def newlineOf (c : UInt8) : UInt8 := if c = 0x0d then 0x0a else c

def canonicalInput (c : UInt8) : State :=
  if c = 0 then s
  else
    let c := newlineOf c
    if IsErase c then { s with line := s.line.dropLast }
    else if c = 0x0a then
      let s := (s.line.foldl pushCooked s).pushCooked 0x0a
      { s with
        stats := { s.stats with canonicalLineCommits := s.stats.canonicalLineCommits + 1 }
        line := [] }
    else if 1 ≤ c ∧ c < 32 then s.pushCooked c
    else if s.line.length + 1 < kLineBufferSize then { s with line := s.line ++ [c] }
    else s

/-- One byte, in either mode. -/
def input (c : UInt8) : State :=
  match s.mode with
  | .raw => s.pushRaw c
  | .canonical => s.canonicalInput c

def pushInput (c : UInt8) : State := if c = 0 then s else s.input c

/-- The loop of `inject_input`, with the number of bytes taken. -/
def injectLoop : List UInt8 → ℕ × State → ℕ × State
  | [], r => r
  | c :: data, r => if c = 0 then r else injectLoop data (r.1 + 1, r.2.input c)

def injectInput (data : List UInt8) : ℕ × State :=
  if data.length = 0 ∨ data.length > 4096 then (0, s) else injectLoop data (0, s)

/-- The loop of `read_input` over one of the buffers: at most `length` bytes. -/
def takeLoop : ℕ → InputQueue → List UInt8 × InputQueue
  | 0, q => ([], q)
  | length + 1, q =>
    match q.pop with
    | none => ([], q)
    | some (c, q) => (c :: (takeLoop length q).1, (takeLoop length q).2)

def readInput (length : ℕ) : List UInt8 × State :=
  if length = 0 ∨ length > 4096 then ([], s)
  else
    match s.mode with
    | .raw => ((takeLoop length s.raw).1, { s with raw := (takeLoop length s.raw).2 })
    | .canonical =>
      ((takeLoop length s.cooked).1, { s with cooked := (takeLoop length s.cooked).2 })

def readKey (length : ℕ) : List UInt8 × State :=
  if length = 0 then ([], s)
  else ((takeLoop length s.raw).1, { s with raw := (takeLoop length s.raw).2 })

def setInputMode (next : TerminalInputMode) : State := ({ s with mode := next } : State).clearInput

end State

/-! ## What the ring buffers do -/

namespace InputQueue

variable (q : InputQueue)

@[simp] lemma length_contents : q.contents.length = q.count := by
  rw [contents, length_map, length_range]

lemma contents_drop : q.drop.contents = q.contents.tail := by
  rw [contents, contents, drop]
  dsimp only
  cases hcount : q.count with
  | zero => rfl
  | succ n =>
    rw [if_neg (succ_ne_zero n), range_succ_eq_map, map_cons, tail_cons, map_map,
      Nat.add_sub_cancel]
    refine map_congr_left fun i _ => ?_
    rw [next_index]
    rfl

lemma contents_store (c : UInt8) (h : q.count < kInputBufferSize) :
    (q.store c h).contents = q.contents ++ [c] := by
  rw [contents, contents, store]
  dsimp only
  rw [range_succ, map_append, map_singleton, ← q.head_eq, Function.update_self]
  congr 1
  refine map_congr_left fun i hi => Function.update_of_ne ?_ _ _
  -- the cells of the bytes in the buffer are not the next one
  rw [q.head_eq]
  have hlt := mem_range.1 hi
  exact Ring.mod_ne_mod (by omega) (by omega)

/-- A byte goes behind the others; if the buffer is full, the oldest one is lost. -/
lemma contents_push (c : UInt8) :
    (q.push c).contents = (if q.Full then q.contents.tail else q.contents) ++ [c] := by
  rw [push, contents_store, makeRoom]
  split_ifs
  · rw [contents_drop]
  · rfl

lemma pop_eq : q.pop = none ∧ q.contents = [] ∨
    ∃ c, q.pop = some (c, q.drop) ∧ q.contents = c :: q.drop.contents := by
  rw [pop]
  split_ifs with hempty
  · exact .inl ⟨rfl, eq_nil_of_length_eq_zero (q.length_contents.trans hempty)⟩
  refine .inr ⟨_, rfl, ?_⟩
  obtain ⟨n, hn⟩ := exists_eq_succ_of_ne_zero hempty
  rw [contents_drop, contents, hn, range_succ_eq_map, map_cons, tail_cons,
    add_zero, mod_eq_of_lt q.tail_lt]

end InputQueue
end IanOS.Terminal
