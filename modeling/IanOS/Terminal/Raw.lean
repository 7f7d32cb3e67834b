import IanOS.Terminal.Canonical

/-!
# Raw mode

In raw mode a byte goes into the ring buffer as it comes.  Bytes leave the buffer in the order in
which they came: each is read, or given up when the buffer is full.
-/

namespace IanOS.Terminal

/-- The operations on the ring buffer of raw mode. -/
abbrev RawOp := { op : Op // ∀ length, op ≠ .readKey length }

/-- A session, and the bytes that have left the buffer, in order, marked if they were given up. -/
structure RawSession extends Session where
  left : List (UInt8 × Bool) := []

/-- These bytes, all marked or all not. -/
def marked (given : Bool) (bytes : List UInt8) : List (UInt8 × Bool) := bytes.map (·, given)

@[simp] lemma map_fst_marked (given : Bool) (bytes : List UInt8) :
    (marked given bytes).map Prod.fst = bytes := by
  simp [marked, Function.comp_def]

/-- The bytes that are not marked. -/
def kept (bytes : List (UInt8 × Bool)) : List UInt8 := (bytes.filter fun b => !b.2).map Prod.fst

@[simp] lemma kept_append (l l' : List (UInt8 × Bool)) : kept (l ++ l') = kept l ++ kept l' := by
  simp [kept]

@[simp] lemma kept_marked (given : Bool) (bytes : List UInt8) :
    kept (marked given bytes) = if given then [] else bytes := by
  cases given <;> simp [kept, marked, List.filter_map, Function.comp_def]

@[simp] lemma countP_marked (given : Bool) (bytes : List UInt8) :
    (marked given bytes).countP (·.2) = if given then bytes.length else 0 := by
  cases given <;> simp [marked, List.countP_map, Function.comp_def]

namespace RawSession

/-- A byte is put in; if the buffer is full, the oldest byte in it is given up. -/
def byte (s : RawSession) (c : UInt8) : RawSession where
  toSession := s.put c
  left := s.left ++ marked true (lostAtPush s.terminal.raw)

def step (s : RawSession) (op : RawOp) : RawSession where
  toSession := s.toSession.step op
  left := ((taken op).foldl byte s).left ++
    match op.1 with
    | .read length => marked false (s.terminal.readInput length).1
    | _ => []

/-- A session in raw mode begins, with an empty buffer. -/
def start (t : State) : RawSession where
  terminal := t.setInputMode .raw

/-- Every byte typed so far. -/
def history (s : RawSession) : List (UInt8 × Bool) :=
  s.left ++ marked false s.terminal.raw.contents

variable {s : RawSession} {dropped₀ : BitVec 64}

structure Sound (dropped₀ : BitVec 64) (s : RawSession) : Prop where
  mode : s.terminal.mode = .raw
  typed : s.typed = s.left.map Prod.fst ++ s.terminal.raw.contents
  delivered : s.delivered = kept s.left
  dropped : s.terminal.stats.droppedInputBytes = dropped₀ + .ofNat 64 (s.left.countP (·.2))

lemma pushRaw_frame (t : State) (c : UInt8) : (t.pushRaw c).raw = t.raw.push c ∧
    (t.pushRaw c).mode = t.mode ∧ (t.pushRaw c).stats.droppedInputBytes =
      t.stats.droppedInputBytes + .ofNat 64 (lostAtPush t.raw).length := by
  rw [State.pushRaw, State.updateHighWatermark, State.countDrop, length_lostAtPush]
  split_ifs <;> exact ⟨rfl, rfl, by simp⟩

lemma Sound.byte (h : s.Sound dropped₀) (c : UInt8) : (s.byte c).Sound dropped₀ := by
  have hinput : s.terminal.input c = s.terminal.pushRaw c := by rw [State.input, h.mode]
  obtain ⟨hraw, hmode, hdrop⟩ := pushRaw_frame s.terminal c
  refine ⟨?_, ?_, ?_, ?_⟩ <;> simp only [RawSession.byte, Session.put, hinput]
  · exact hmode.trans h.mode
  · rw [h.typed, hraw, List.append_assoc, contents_push_eq]
    simp
  · simp [h.delivered]
  · rw [hdrop, h.dropped, BitVec.add_assoc, ← BitVec.ofNat_add]
    simp

lemma toSession_foldl (s : RawSession) (bytes : List UInt8) :
    (bytes.foldl byte s).toSession = bytes.foldl .put s.toSession :=
  (List.foldl_hom toSession fun _ _ => rfl).symm

lemma Sound.step (h : s.Sound dropped₀) (op : RawOp) : (s.step op).Sound dropped₀ := by
  have hbytes : ((taken op).foldl RawSession.byte s).Sound dropped₀ :=
    List.foldlRecOn _ _ h fun s hs c _ => hs.byte c
  have hsession := toSession_foldl s (taken op)
  obtain ⟨op, hop⟩ := op
  cases op with
  | push c =>
    rw [← step_typing _ (.inl ⟨c, rfl⟩)] at hsession
    rw [RawSession.step, ← hsession]
    simpa using hbytes
  | inject data =>
    rw [← step_typing _ (.inr ⟨data, rfl⟩)] at hsession
    rw [RawSession.step, ← hsession]
    simpa using hbytes
  | read length =>
    have hread : s.terminal.raw.contents = (s.terminal.readInput length).1 ++
        (s.terminal.readInput length).2.raw.contents ∧
        (s.terminal.readInput length).2.mode = .raw ∧
        (s.terminal.readInput length).2.stats = s.terminal.stats := by
      rw [State.readInput]
      split_ifs
      · exact ⟨rfl, h.mode, rfl⟩
      · simp only [h.mode, and_true]
        exact takeLoop_eq length s.terminal.raw
    obtain ⟨hcont, hmode, hstats⟩ := hread
    refine ⟨hmode, ?_, ?_, ?_⟩ <;> simp only [RawSession.step, Session.step, taken, List.foldl_nil]
    · simp [h.typed, hcont]
    · simp [h.delivered]
    · simp [hstats, h.dropped]
  | readKey length => exact absurd rfl (hop length)

/-- In every session in raw mode that begins with an empty buffer: what is read and what is still in
the buffer are the bytes typed, in order, without those that were the oldest in a full buffer when a
byte was put in, and these are counted. -/
theorem raw_queue_history (t : State) (ops : List RawOp) :
    let s := ops.foldl step (start t)
    s.typed = s.history.map Prod.fst ∧
      s.delivered ++ s.terminal.raw.contents = kept s.history ∧
      s.terminal.stats.droppedInputBytes =
        t.stats.droppedInputBytes + .ofNat 64 (s.history.countP (·.2)) := by
  have hstart : (start t).Sound t.stats.droppedInputBytes :=
    ⟨rfl, rfl, rfl, (BitVec.add_zero _).symm⟩
  obtain ⟨-, htyped, hdelivered, hdropped⟩ :=
    List.foldlRecOn ops step hstart fun s hs op _ => hs.step op
  simp [history, htyped, hdelivered, hdropped]

end RawSession
end IanOS.Terminal
