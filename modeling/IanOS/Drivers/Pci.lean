import Mathlib.Tactic

/-!
# The command register of a PCI device

`set_command_bits` (`pci/pci.cpp`) reads the dword that holds the command and the status register,
sets bits of the lower half and writes all of it back.  A set status bit that a written one clears
is lost.
-/

namespace IanOS.Pci

/-- The dword at offset 4: some bits can be written, some of the status half are cleared by writing
a one, and the others stay as they are. -/
structure CommandStatus where
  dword : BitVec 32
  writable : BitVec 32
  clears : BitVec 32
  disjoint : writable &&& clears = 0
  clears_high : clears &&& 0xffff = 0

namespace CommandStatus

/-- What the device makes of a write. -/
def write (r : CommandStatus) (value : BitVec 32) : CommandStatus :=
  { r with dword := (r.dword &&& ~~~(r.writable ||| (value &&& r.clears))) |||
    (value &&& r.writable) }

def commandFor (r : CommandStatus) : BitVec 16 := r.dword.setWidth 16

/-- The dword afterwards, and whether the bits were read back. -/
def setCommandBits (r : CommandStatus) (bits : BitVec 16) : CommandStatus × Bool :=
  let next := r.commandFor ||| bits
  let raw := (r.dword &&& 0xffff0000) ||| next.setWidth 32
  let after := r.write raw
  (after, after.commandFor &&& bits == bits)

/-- Nothing changes but that requested bits become set, as far as the device lets them, and the
caller learns whether they all are. -/
def Confined (r : CommandStatus) (bits : BitVec 16) : Prop :=
  (r.setCommandBits bits).1.dword = r.dword ||| (bits.setWidth 32 &&& r.writable) ∧
    ((r.setCommandBits bits).2 = true ↔ (r.setCommandBits bits).1.commandFor &&& bits = bits)

lemma raw_eq (d : BitVec 32) (bits : BitVec 16) :
    (d &&& 0xffff0000) ||| (d.setWidth 16 ||| bits).setWidth 32 = d ||| bits.setWidth 32 := by
  have hmask : ∀ i < 32, (0xffff0000 : BitVec 32).getLsbD i = decide (16 ≤ i) := by decide
  ext i hi
  have hi' := hmask i hi
  simp at hi' ⊢
  grind

/-- Every bit that is written is one that was read or one that is requested. -/
lemma setCommandBits_dword (r : CommandStatus) (bits : BitVec 16) :
    (r.setCommandBits bits).1.dword =
      (r.dword ||| (bits.setWidth 32 &&& r.writable)) &&& ~~~(r.dword &&& r.clears) := by
  have hmask : ∀ i < 32, (0xffff : BitVec 32).getLsbD i = decide (i < 16) := by decide
  rw [setCommandBits, commandFor, raw_eq]
  ext i hi
  have hlow := hmask i hi
  have hdisjoint := congrArg (·.getLsbD i) r.disjoint
  have hhigh := congrArg (·.getLsbD i) r.clears_high
  simp [write, hi] at hlow hdisjoint hhigh ⊢
  grind

/-- The update is confined exactly if no status bit that a one clears is set. -/
theorem setCommandBits_confined_iff (r : CommandStatus) (bits : BitVec 16) :
    r.Confined bits ↔ r.dword &&& r.clears = 0 := by
  have hread : (r.setCommandBits bits).2 = true ↔
      (r.setCommandBits bits).1.commandFor &&& bits = bits := by simp [setCommandBits]
  rw [Confined, and_iff_left hread, setCommandBits_dword]
  constructor
  · intro h
    ext i hi
    have hbit := congrArg (·.getLsbD i) h
    simp [hi] at hbit ⊢
    grind
  · intro h
    rw [h, BitVec.ofNat_eq_ofNat, BitVec.not_zero, BitVec.and_allOnes]

/-- A device has reported a master abort, in status bit 13, when memory accesses are enabled. -/
theorem setCommandBits_clears_status :
    ¬Confined ⟨0x20000000, 0x7, 0xf9000000, by decide, by decide⟩ 0x2 :=
  fun h => absurd h.1 (by decide)

end CommandStatus
end IanOS.Pci
