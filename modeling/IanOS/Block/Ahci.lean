import IanOS.Mm.PmmSpec
import IanOS.Lib.WordStack
import Mathlib.Data.Stream.Init

/-!
# The AHCI driver

`AhciDriver::read_sector` of `kernel/src/drivers/ahci.cpp` and what it calls.  The controller is a
stream of answers: each read of one of its registers takes the next one, so that it may do anything
at any time.  What is written to its registers and to the pages it works with is not part of the
model, because nothing here reads it back.

Each read takes a page for the sector, and three more to describe the command.  None is given back.
-/

namespace IanOS.Ahci

def kCmdFr : BitVec 32 := 1 <<< 14
def kCmdCr : BitVec 32 := 1 <<< 15
def kAtaBusyDrq : BitVec 32 := 0x88

/-- What has been found out about the controller, as far as `read_sector` asks for it. -/
structure Controller where
  identifySuccess : Bool
  firstActivePort : BitVec 32

/-- The page allocator, and the answers the controller has still to give. -/
structure State where
  pmm : PhysicalMemoryManager
  answers : Stream' (BitVec 32)

namespace State

def readHba32 (s : State) : BitVec 32 × State :=
  (s.answers.head, { s with answers := s.answers.tail })

def waitClear (mask : BitVec 32) : ℕ → State → Bool × State
  | 0, s => (false, s)
  | limit + 1, s =>
    let r := s.readHba32
    if r.1 &&& mask = 0 then (true, r.2) else waitClear mask limit r.2

def stopPort (s : State) : Bool × State :=
  waitClear (kCmdCr ||| kCmdFr) 100000 s.readHba32.2

def allocatePage (s : State) : ℕ × State :=
  (s.pmm.allocatePage.2, { s with pmm := s.pmm.allocatePage.1 })

/-- The pages of the command are taken before anything is checked. -/
def setupSlot0 (transferPage : ℕ) (byteCount : BitVec 32) (s : State) : Bool × State :=
  let commandList := s.allocatePage
  let fis := commandList.2.allocatePage
  let commandTable := fis.2.allocatePage
  (decide (¬(commandList.1 = 0 ∨ fis.1 = 0 ∨ commandTable.1 = 0 ∨ transferPage = 0 ∨
    byteCount = 0)),
    commandTable.2)

/-- The loop of `wait_command_complete`. -/
def waitComplete : ℕ → State → Bool × State
  | 0, s => (false, s)
  | limit + 1, s =>
    let ci := s.readHba32
    let is := ci.2.readHba32
    if is.1 &&& (1 <<< 30 : BitVec 32) ≠ 0 then (false, is.2)
    else if ci.1 &&& 1 = 0 then (true, is.2)
    else waitComplete limit is.2

def waitCommandComplete (s : State) : Bool × State :=
  let r := waitComplete 2000000 s
  (r.1, r.2.readHba32.2)

def issueCommand (buffer : ℕ) (bytes : BitVec 32) (s : State) : Bool × State :=
  let stopped := s.stopPort
  if ¬stopped.1 then (false, stopped.2.readHba32.2)
  else
    let slot := setupSlot0 buffer bytes stopped.2
    if ¬slot.1 then (false, slot.2)
    else
      let ready := waitClear kAtaBusyDrq 100000 slot.2
      if ¬ready.1 then (false, ready.2.readHba32.2) else ready.2.waitCommandComplete

end State

/-- `read_sector` into a buffer that is not null.  The number of the sector goes to the command
table only. -/
def readSector (c : Controller) (_lba : Word64) (s : State) : Bool × State :=
  if ¬c.identifySuccess ∨ 32 ≤ c.firstActivePort then (false, s)
  else
    let sector := s.allocatePage
    sector.2.issueCommand sector.1 512

/-! ## The pages that are taken -/

namespace State

variable {s : State}

@[simp] lemma pmm_readHba32 (s : State) : s.readHba32.2.pmm = s.pmm := rfl

@[simp] lemma pmm_waitClear (mask : BitVec 32) (limit : ℕ) (s : State) :
    (waitClear mask limit s).2.pmm = s.pmm := by
  induction limit generalizing s with
  | zero => rfl
  | succ limit ih =>
    rw [waitClear]
    split_ifs
    · exact pmm_readHba32 s
    · rw [ih, pmm_readHba32]

@[simp] lemma pmm_stopPort (s : State) : s.stopPort.2.pmm = s.pmm := by simp [stopPort]

@[simp] lemma pmm_waitComplete (limit : ℕ) (s : State) : (waitComplete limit s).2.pmm = s.pmm := by
  induction limit generalizing s with
  | zero => rfl
  | succ limit ih =>
    rw [waitComplete]
    split_ifs
    · simp
    · simp
    · rw [ih]
      simp

@[simp] lemma pmm_waitCommandComplete (s : State) : s.waitCommandComplete.2.pmm = s.pmm := by
  simp [waitCommandComplete]

/-- No page comes back. -/
lemma freeSet_allocatePage (s : State) : s.allocatePage.2.pmm.freeSet ⊆ s.pmm.freeSet := by
  obtain ⟨page, -, -, hfree⟩ | ⟨-, hfree⟩ := s.pmm.allocatePage_taken
  · rw [allocatePage, hfree]
    exact Finset.erase_subset _ _
  · rw [allocatePage, hfree]

lemma inv_allocatePage (h : s.pmm.Inv) : s.allocatePage.2.pmm.Inv := by
  obtain ⟨_, _, _, _, hinv⟩ | ⟨_, _, _, hinv⟩ := PhysicalMemoryManager.allocatePage_cases h
  · exact hinv
  · exact hinv

lemma freeSet_setupSlot0 (transferPage : ℕ) (byteCount : BitVec 32) (s : State) :
    (setupSlot0 transferPage byteCount s).2.pmm.freeSet ⊆ s.pmm.freeSet :=
  ((freeSet_allocatePage _).trans (freeSet_allocatePage _)).trans (freeSet_allocatePage s)

lemma freeSet_issueCommand (buffer : ℕ) (bytes : BitVec 32) (s : State) :
    (s.issueCommand buffer bytes).2.pmm.freeSet ⊆ s.pmm.freeSet := by
  have hslot := freeSet_setupSlot0 buffer bytes s.stopPort.2
  rw [pmm_stopPort] at hslot
  rw [issueCommand]
  dsimp only
  split_ifs
  · simpa using hslot
  · simpa using hslot
  · exact hslot
  · simp

lemma inv_issueCommand (buffer : ℕ) (bytes : BitVec 32) (h : s.pmm.Inv) :
    (s.issueCommand buffer bytes).2.pmm.Inv := by
  have hstop : s.stopPort.2.pmm.Inv := by rwa [pmm_stopPort]
  have hslot : (setupSlot0 buffer bytes s.stopPort.2).2.pmm.Inv :=
    inv_allocatePage (inv_allocatePage (inv_allocatePage hstop))
  rw [issueCommand]
  dsimp only
  split_ifs
  · simpa using hslot
  · simpa using hslot
  · exact hslot
  · simpa using h

end State

variable {c : Controller} {lba : Word64} {s : State}

lemma freeSet_readSector (c : Controller) (lba : Word64) (s : State) :
    (readSector c lba s).2.pmm.freeSet ⊆ s.pmm.freeSet := by
  rw [readSector]
  split_ifs
  · exact Finset.Subset.refl _
  · exact (State.freeSet_issueCommand _ _ _).trans (State.freeSet_allocatePage s)

lemma inv_readSector (c : Controller) (lba : Word64) (h : s.pmm.Inv) :
    (readSector c lba s).2.pmm.Inv := by
  rw [readSector]
  split_ifs
  · exact h
  · exact State.inv_issueCommand _ _ (State.inv_allocatePage h)

/-- A read keeps the set of free pages only if it gives up at once or finds it empty. -/
lemma freeSet_readSector_eq_iff (h : s.pmm.Inv) :
    (readSector c lba s).2.pmm.freeSet = s.pmm.freeSet ↔
      c.identifySuccess = false ∨ 32 ≤ c.firstActivePort ∨ s.pmm.freeSet = ∅ := by
  have hsub := freeSet_readSector c lba s
  by_cases hearly : ¬c.identifySuccess ∨ 32 ≤ c.firstActivePort
  · refine iff_of_true ?_ ?_
    · rw [readSector, if_pos hearly]
    · rcases hearly with hidentify | hport
      · exact .inl (by simpa using hidentify)
      · exact .inr (.inl hport)
  obtain ⟨hidentify, hport⟩ := not_or.1 hearly
  rw [or_iff_right (by simpa using hidentify), or_iff_right hport]
  constructor
  · intro hsame
    obtain ⟨page, hpage, -, herase, -⟩ | ⟨hempty, -⟩ := PhysicalMemoryManager.allocatePage_cases h
    · have hafter := State.freeSet_issueCommand s.allocatePage.1 512 s.allocatePage.2
      rw [readSector, if_neg hearly] at hsame
      rw [hsame] at hafter
      have hgone : page ∈ s.allocatePage.2.pmm.freeSet := hafter hpage
      rw [State.allocatePage, herase] at hgone
      exact absurd hgone (Finset.notMem_erase page _)
    · exact hempty
  · intro hempty
    rw [hempty] at hsub ⊢
    exact Finset.subset_empty.1 hsub

end IanOS.Ahci
