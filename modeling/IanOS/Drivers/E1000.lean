import IanOS.Lib.Run
import IanOS.Mm.Page

/-!
# The transmit ring of the network adapter

`submit_transmit` (`drivers/e1000.cpp`) fills the descriptor at its index, moves the tail register
past it and polls the descriptor's done bit, which the device sets once it has sent the frame.  Only
when the bit is seen does the index move too.  Driver and device stay in step as long as the device
sends every frame while the driver polls (`in_step_iff`); one that is late leaves the index behind
the tail for good.
-/

namespace IanOS.E1000

open Function

def kTxDescCount : ℕ := 8

def kMinEthernetFrame : ℕ := 60

def kMaxEthernetFrame : ℕ := 1518

/-- A transmit descriptor, with the page it points to. -/
structure TxDescriptor where
  length : ℕ := 0
  done : Bool := true
  buffer : List UInt8 := List.replicate kPageSize 0

/-- The driver's index, the device's registers and the ring they share, as `program_rings` leaves
them: with all descriptors and buffers allocated.  Added are the frames handed to the device and
those it has sent; counters are left out. -/
structure Adapter where
  ringsProgrammed : Bool := true
  txNextIndex : ℕ := 0
  tdh : ℕ := 0
  tdt : ℕ := 0
  ring : ℕ → TxDescriptor := fun _ => {}
  submitted : List (List UInt8) := []
  sent : List (List UInt8) := []

def ValidLength (frame : List UInt8) : Prop :=
  kMinEthernetFrame ≤ frame.length ∧ frame.length ≤ kMaxEthernetFrame
  deriving Decidable

/-- The device works between calls, or a call is made and the device works while it polls. -/
inductive Event
  | device (steps : ℕ)
  | transmit (frame : Option (List UInt8)) (progress : ℕ → ℕ)

/-- The device gets to work while the driver polls for a frame. -/
def Event.InTime : Event → Prop
  | device _ => True
  | transmit frame progress => (∃ f ∈ frame, ValidLength f) → ∃ n < 100000, progress n ≠ 0

namespace Adapter

/-- The device sends the frame at the head and sets its done bit, unless the head is at the tail. -/
def deviceStep (a : Adapter) : Adapter :=
  if a.tdh = a.tdt then a
  else
    let d := a.ring a.tdh
    { a with
      tdh := (a.tdh + 1) % kTxDescCount
      ring := update a.ring a.tdh { d with done := true }
      sent := a.sent ++ [d.buffer.take d.length] }

/-- The descriptor is filled and the tail register written. -/
def enqueue (a : Adapter) (index : ℕ) (frame : List UInt8) : Adapter :=
  { a with
    ring := update a.ring index
      ⟨frame.length, false, frame ++ List.replicate (kPageSize - frame.length) 0⟩
    tdt := (index + 1) % kTxDescCount
    submitted := a.submitted ++ [frame] }

/-- The polling loop; before the poll that leaves `n` more the device makes `progress n` steps. -/
def poll (progress : ℕ → ℕ) (index : ℕ) : ℕ → Adapter → Bool × Adapter
  | 0, a => (false, a)
  | n + 1, a =>
    let a := deviceStep^[progress n] a
    if (a.ring index).done then (true, { a with txNextIndex := (index + 1) % kTxDescCount })
    else poll progress index n a

def submitTransmit (a : Adapter) (progress : ℕ → ℕ) : Option (List UInt8) → Bool × Adapter
  | none => (false, a)
  | some frame =>
    if !a.ringsProgrammed || ¬ValidLength frame then (false, a)
    else
      let index := a.txNextIndex % kTxDescCount
      if !(a.ring index).done then (false, a)
      else poll progress index 100000 (a.enqueue index frame)

def step (a : Adapter) : Event → Adapter
  | .device steps => deviceStep^[steps] a
  | .transmit frame progress => (a.submitTransmit progress frame).2

/-- The index is the tail; once the device has caught up every frame has been sent, in order and
once; and then a further frame goes through if it is sent in time. -/
structure InStep (a : Adapter) : Prop where
  index : a.txNextIndex = a.tdt
  sent : (deviceStep^[kTxDescCount] a).sent = a.submitted
  further : ∀ frame progress, ValidLength frame → (∃ n < 100000, progress n ≠ 0) →
    ((deviceStep^[kTxDescCount] a).submitTransmit progress (some frame)).1 = true

/-- Nothing is outstanding. -/
structure Quiet (a : Adapter) : Prop where
  programmed : a.ringsProgrammed = true
  lt : a.tdt < kTxDescCount
  head : a.tdh = a.tdt
  index : a.txNextIndex = a.tdt
  done : ∀ i, (a.ring i).done = true
  sent : a.sent = a.submitted

lemma quiet_init : Quiet {} := ⟨rfl, by decide, rfl, rfl, fun _ => rfl, rfl⟩

variable {a : Adapter} {e : Event} {frame : List UInt8} {progress : ℕ → ℕ} {index n : ℕ}

lemma deviceStep_iterate (h : a.tdh = a.tdt) (n : ℕ) : deviceStep^[n] a = a :=
  iterate_fixed (show a.deviceStep = a from if_pos h) n

/-- A device that does nothing lets the polls run out. -/
lemma poll_of_idle (hdone : (a.ring index).done = false) (hidle : ∀ i < n, progress i = 0) :
    poll progress index n a = (false, a) := by
  induction n with
  | zero => rfl
  | succ n ih => simp [poll, hidle n, hdone, ih fun i hi => hidle i (Nat.lt_succ_of_lt hi)]

/-- One step is all it takes when one frame is outstanding. -/
lemma poll_in_time (hdone : (a.ring a.tdh).done = false) (hne : a.tdh ≠ a.tdt)
    (hnext : (a.tdh + 1) % kTxDescCount = a.tdt) (h : ∃ i < n, progress i ≠ 0) :
    poll progress a.tdh n a = (true, { a.deviceStep with txNextIndex := a.tdt }) := by
  induction n with
  | zero => simp at h
  | succ n ih =>
    cases hn : progress n with
    | zero =>
      obtain ⟨i, hi, hmoves⟩ := h
      have hlt : i ≠ n := fun hin => hmoves (hin ▸ hn)
      simp [poll, hn, hdone, ih ⟨i, by omega, hmoves⟩]
    | succ m =>
      have hstep : a.deviceStep.tdh = a.deviceStep.tdt := by simp [deviceStep, hne, hnext]
      rw [poll, hn, iterate_succ_apply, deviceStep_iterate hstep]
      simp [deviceStep, hne, hnext]

namespace Quiet

variable (h : Quiet a)
include h

lemma next_ne : a.tdt ≠ (a.tdt + 1) % kTxDescCount := by
  have hlt := h.lt
  rw [kTxDescCount] at *
  omega

lemma submitTransmit_eq (hframe : ValidLength frame) :
    a.submitTransmit progress (some frame) = poll progress a.tdt 100000
      (a.enqueue a.tdt frame) := by
  simp [submitTransmit, h.programmed, hframe, h.index, Nat.mod_eq_of_lt h.lt, h.done]

lemma submitTransmit_of_inTime (hframe : ValidLength frame) (htime : ∃ i < 100000, progress i ≠ 0) :
    (a.submitTransmit progress (some frame)).1 = true ∧
      Quiet (a.submitTransmit progress (some frame)).2 := by
  have hne := h.next_ne
  have hhead : (a.enqueue a.tdt frame).tdh = a.tdt := h.head
  have hpoll := poll_in_time (a := a.enqueue a.tdt frame) (by simp [enqueue, h.head])
    (by rwa [hhead]) (by rw [hhead]; rfl) htime
  rw [hhead] at hpoll
  rw [h.submitTransmit_eq hframe, hpoll]
  refine ⟨rfl, ?_, ?_, ?_, ?_, fun i => ?_, ?_⟩
  all_goals simp only [deviceStep, enqueue, h.head, if_neg hne]
  · exact h.programmed
  · exact Nat.mod_lt _ (by decide)
  · by_cases hi : i = a.tdt
    · simp [hi]
    · simp [hi, h.done]
  · simp [h.sent]

lemma inStep : InStep a where
  index := h.index
  sent := by rw [deviceStep_iterate h.head, h.sent]
  further frame progress hframe htime := by
    rw [deviceStep_iterate h.head]
    exact (h.submitTransmit_of_inTime hframe htime).1

lemma step (he : e.InTime) : Quiet (a.step e) := by
  cases e with
  | device steps => rwa [Adapter.step, deviceStep_iterate h.head]
  | transmit frame progress =>
    cases frame with
    | none => exact h
    | some frame =>
      by_cases hframe : ValidLength frame
      · exact (h.submitTransmit_of_inTime hframe (he ⟨frame, rfl, hframe⟩)).2
      · simpa [Adapter.step, submitTransmit, hframe] using h

/-- After a late frame the tail has moved and the index has not. -/
lemma not_inStep_of_late (he : ¬e.InTime) : ¬InStep (a.step e) := by
  cases e with
  | device steps => exact absurd trivial he
  | transmit frame progress =>
    obtain ⟨⟨f, rfl, hvalid⟩, hlate⟩ := Classical.not_imp.1 he
    intro hstep
    have hindex := hstep.index
    rw [Adapter.step, h.submitTransmit_eq hvalid,
      poll_of_idle (by simp [enqueue]) (by simpa using hlate)] at hindex
    exact h.next_ne (h.index.symm.trans hindex)

lemma inStep_run_iff (events : List Event) :
    Run.Allowed Adapter.step (fun a e => InStep (a.step e)) a events ↔ ∀ e ∈ events, e.InTime := by
  induction events generalizing a with
  | nil => simp [Run.Allowed]
  | cons e events ih =>
    rw [List.forall_mem_cons]
    by_cases he : e.InTime
    · exact and_congr (iff_of_true (h.step he).inStep he) (ih (h.step he))
    · exact iff_of_false (fun hall => h.not_inStep_of_late he hall.1) fun hall => he hall.1

end Quiet

/-- Driver and device are in step after every event of a run exactly if the device gets to work
during each call that hands it a frame. -/
theorem in_step_iff (events : List Event) :
    Run.Allowed step (fun a e => InStep (a.step e)) {} events ↔ ∀ e ∈ events, e.InTime :=
  quiet_init.inStep_run_iff events

/-- The device leaves the first frame until the polls have run out. -/
theorem late_frame_out_of_step :
    ¬InStep (step {} (.transmit (some (List.replicate 60 0)) fun _ => 0)) := by
  refine quiet_init.not_inStep_of_late fun h => ?_
  obtain ⟨n, -, hn⟩ := h ⟨_, rfl, by decide⟩
  exact hn rfl

end Adapter
end IanOS.E1000
