import IanOS.Lib.Ring

/-!
# The kernel log

The ring buffer of `kernel/src/log.cpp`.  When it is full, the oldest byte is overwritten.  The
lock, the serial port, the console and the count of all bytes, which is only reported, are left out.
-/

namespace IanOS

open List

def kKernelLogCapacity : ℕ := 8192

structure KernelLog where
  kernelLog : ℕ → UInt8 := fun _ => 0
  kernelLogHead : ℕ := 0
  kernelLogSizeBytes : ℕ := 0

namespace KernelLog

variable (s : KernelLog)

def appendKernelLogChar (c : UInt8) : KernelLog where
  kernelLog := Function.update s.kernelLog s.kernelLogHead c
  kernelLogHead := (s.kernelLogHead + 1) % kKernelLogCapacity
  kernelLogSizeBytes :=
    if s.kernelLogSizeBytes < kKernelLogCapacity then s.kernelLogSizeBytes + 1
    else s.kernelLogSizeBytes

/-- What is put into the buffer. -/
def copyKernelLog (capacity offset : ℕ) : List UInt8 :=
  if capacity = 0 ∨ kKernelLogCapacity < capacity then []
  else if offset < s.kernelLogSizeBytes then
    let available := s.kernelLogSizeBytes - offset
    let toCopy := if available < capacity then available else capacity
    let start := (s.kernelLogHead + kKernelLogCapacity - s.kernelLogSizeBytes + offset) %
      kKernelLogCapacity
    (range toCopy).map fun i => s.kernelLog ((start + i) % kKernelLogCapacity)
  else []

/-- A reader that goes on behind what it has read. -/
def readChunks : List ℕ → ℕ → List UInt8
  | [], _ => []
  | capacity :: rest, offset =>
    let chunk := s.copyKernelLog capacity offset
    chunk ++ readChunks rest (offset + chunk.length)

/-! ## The window -/

/-- The bytes appended last, as many as there is room for. -/
def window (bytes : List UInt8) : List UInt8 := bytes.drop (bytes.length - kKernelLogCapacity)

/-- These bytes have been appended. -/
structure Records (bytes : List UInt8) : Prop where
  size : s.kernelLogSizeBytes = min bytes.length kKernelLogCapacity
  head : s.kernelLogHead = bytes.length % kKernelLogCapacity
  holds : Ring.Holds kKernelLogCapacity s.kernelLog (bytes.length - kKernelLogCapacity) bytes

variable {s} {bytes : List UInt8}

lemma Records.append (h : s.Records bytes) (c : UInt8) :
    (s.appendKernelLogChar c).Records (bytes ++ [c]) := by
  have hlen : (bytes ++ [c]).length = bytes.length + 1 := length_append
  refine ⟨?_, ?_, ?_⟩
  · rw [appendKernelLogChar, h.size]
    dsimp only
    split_ifs <;> omega
  · rw [appendKernelLogChar, h.head, hlen, Nat.mod_add_mod]
  -- the byte whose cell is written is not in the window any more
  refine ((h.holds.mono (by omega)).next_cell ?_ fun k hk => ?_).extend ?_
  · omega
  · exact Function.update_of_ne (h.head ▸ hk) _ _
  · rw [← h.head]
    exact Function.update_self _ _ _

lemma records_foldl (bytes : List UInt8) : (bytes.foldl appendKernelLogChar {}).Records bytes := by
  induction bytes using reverseRecOn with
  | nil => exact ⟨rfl, rfl, .nil _⟩
  | append_singleton bytes c ih =>
    rw [foldl_append]
    exact ih.append c

lemma length_window (bytes : List UInt8) :
    (window bytes).length = min bytes.length kKernelLogCapacity := by
  rw [window, length_drop]
  omega

lemma Records.copyKernelLog (h : s.Records bytes) {capacity : ℕ} (hpos : capacity ≠ 0)
    (hle : capacity ≤ kKernelLogCapacity) (offset : ℕ) :
    s.copyKernelLog capacity offset = ((window bytes).drop offset).take capacity := by
  have hsize := h.size
  have hlen := length_window bytes
  rw [KernelLog.copyKernelLog, if_neg (by omega)]
  split_ifs with hoff
  · have hcount : (((window bytes).drop offset).take capacity).length =
        if s.kernelLogSizeBytes - offset < capacity then s.kernelLogSizeBytes - offset
        else capacity := by
      rw [length_take, length_drop]
      split_ifs <;> omega
    dsimp only
    rw [← hcount]
    refine ext_getElem (by simp) fun i _ hi => ?_
    have hin : i < capacity ∧ offset + i < (window bytes).length := by simp at hi; omega
    have hcell := h.holds (bytes.length - kKernelLogCapacity + (offset + i)) (by omega) (by omega)
    have hindex : ((s.kernelLogHead + kKernelLogCapacity - s.kernelLogSizeBytes + offset) %
        kKernelLogCapacity + i) % kKernelLogCapacity =
        (bytes.length - kKernelLogCapacity + (offset + i)) % kKernelLogCapacity := by
      rw [h.head, hsize, kKernelLogCapacity]
      omega
    rw [getElem_map, getElem_range, hindex, ← Option.some_inj, ← hcell, getElem_take,
      ← getElem?_eq_getElem, window, drop_drop, getElem?_drop, Nat.add_assoc]
  · rw [drop_of_length_le (by omega), take_nil]

/-- What is read next follows what has been read. -/
lemma take_append_drop_take {α : Type*} (l : List α) (m n : ℕ) :
    l.take m ++ (l.drop (l.take m).length).take n = l.take (m + n) := by
  rw [take_add, length_take]
  rcases Nat.le_total m l.length with hle | hle
  · rw [Nat.min_eq_left hle]
  · rw [Nat.min_eq_right hle, drop_length, drop_of_length_le hle]

/-- A size of a buffer that `copy_kernel_log` accepts. -/
abbrev Capacity := { capacity : ℕ // 1 ≤ capacity ∧ capacity ≤ kKernelLogCapacity }

lemma Records.readChunks (h : s.Records bytes) (capacities : List Capacity) (offset : ℕ) :
    s.readChunks (capacities.map (↑)) offset =
      ((window bytes).drop offset).take (capacities.map (↑)).sum := by
  induction capacities generalizing offset with
  | nil => exact take_zero.symm
  | cons capacity rest ih =>
    have hpos : capacity.1 ≠ 0 := Nat.one_le_iff_ne_zero.1 capacity.2.1
    rw [map_cons, KernelLog.readChunks, sum_cons, ← take_append_drop_take,
      h.copyKernelLog hpos capacity.2.2, ih, drop_drop]

/-- After any appends, a read returns the bytes of the window from its offset on, as many as asked
for, and reads one behind the other return the window. -/
theorem copy_kernel_log_window (bytes : List UInt8) :
    (∀ (capacity : Capacity) (offset : ℕ),
      (bytes.foldl appendKernelLogChar {}).copyKernelLog capacity offset =
        ((window bytes).drop offset).take capacity) ∧
    ∀ capacities : List Capacity,
      (bytes.foldl appendKernelLogChar {}).readChunks (capacities.map (↑)) 0 =
        (window bytes).take (capacities.map (↑)).sum := by
  have h := records_foldl bytes
  constructor
  · intro capacity offset
    exact h.copyKernelLog (Nat.one_le_iff_ne_zero.1 capacity.2.1) capacity.2.2 offset
  · intro capacities
    rw [h.readChunks, drop_zero]

end KernelLog
end IanOS
