import IanOS.Block.Ahci
import IanOS.Block.Device
import IanOS.Lib.Run
import IanOS.Mm.AddressSpaceTeardown

/-!
# The pages disk reads take

A read that reaches the driver takes pages from the allocator and gives none back.  So a read leaves
the set of free pages as it was exactly if it does not get that far, or if there are no free pages
left.
-/

namespace IanOS.Block

open Ahci BlockDevice TagCache Paging.State

variable {disk : Word64 → Sector} {c : Ahci.Controller} {b : BlockDevice} {s : Ahci.State}
  {lba start : Word64} {out : Bool} {n i : ℕ}

/-- A read of a sector that takes no page: it is rejected, or the sector is in the cache, or the
driver rejects it, or there is no page. -/
def Spares (c : Ahci.Controller) (lba : Word64) (out : Bool) (b : BlockDevice) (s : Ahci.State) :
    Prop :=
  b.stats.initialized = false ∨ b.stats.sectorCount ≠ 0 ∧ b.stats.sectorCount ≤ lba ∨ out = false ∨
    (lookup b.cache lba).isSome ∨ c.identifySuccess = false ∨ 32 ≤ c.firstActivePort ∨
    s.pmm.freeSet = ∅

/-- The loop of `read_sectors` takes no page, in any round it comes to. -/
def SparesEach (disk : Word64 → Sector) (c : Ahci.Controller) (start : Word64) :
    ℕ → ℕ → BlockDevice → Ahci.State → Prop
  | 0, _, _, _ => True
  | n + 1, i, b, s =>
    Spares c (start + BitVec.ofNat 64 i) true b s ∧
      let r := b.readSector disk (readSector c) (start + BitVec.ofNat 64 i) true s
      (r.1.isSome → SparesEach disk c start n (i + 1) r.2.1 r.2.2)

/-! ## One sector -/

/-- The read comes to the driver. -/
def Reaches (lba : Word64) (out : Bool) (b : BlockDevice) : Prop :=
  b.stats.initialized = true ∧ ¬(b.stats.sectorCount ≠ 0 ∧ b.stats.sectorCount ≤ lba) ∧ out = true ∧
    lookup b.cache lba = none
  deriving Decidable

lemma spares_iff : Spares c lba out b s ↔ ¬Reaches lba out b ∨
    (c.identifySuccess = false ∨ 32 ≤ c.firstActivePort ∨ s.pmm.freeSet = ∅) := by
  have hlook : (lookup b.cache lba).isSome = true ↔
      ¬lookup b.cache lba = none := Option.isSome_iff_ne_none
  rw [Spares, Reaches, ← Bool.not_eq_true, ← Bool.not_eq_true out]
  tauto

lemma readSector_state (disk : Word64 → Sector) (c : Ahci.Controller) (lba : Word64) (out : Bool)
    (b : BlockDevice) (s : Ahci.State) :
    (b.readSector disk (readSector c) lba out s).2.2 =
      if Reaches lba out b then (readSector c lba s).2 else s := by
  rw [BlockDevice.readSector]
  by_cases hinit : b.stats.initialized = true
  · rw [if_neg (not_not.2 hinit)]
    by_cases hrange : b.stats.sectorCount ≠ 0 ∧ b.stats.sectorCount ≤ lba
    · rw [if_pos hrange, if_neg fun h => h.2.1 hrange]
    rw [if_neg hrange]
    by_cases hout : out = true
    · rw [if_neg (not_not.2 hout)]
      dsimp only
      cases hlook : lookup b.cache lba with
      | some data => rw [if_neg fun h => by simp [Reaches, hlook] at h]
      | none =>
        rw [if_pos ⟨hinit, hrange, hout, hlook⟩, readMissing]
        generalize readSector c lba s = r
        by_cases hok : r.1 = true
        · rw [if_neg (not_not.2 hok)]
        · rw [if_pos hok]
    · rw [if_pos hout, if_neg fun h => hout h.2.2.1]
  · rw [if_pos hinit, if_neg fun h => hinit h.1]

lemma freeSet_readSector (disk : Word64 → Sector) (c : Ahci.Controller) (lba : Word64) (out : Bool)
    (b : BlockDevice) (s : Ahci.State) :
    (b.readSector disk (readSector c) lba out s).2.2.pmm.freeSet ⊆ s.pmm.freeSet := by
  rw [readSector_state]
  split_ifs
  · exact Ahci.freeSet_readSector c lba s
  · exact Finset.Subset.refl _

lemma inv_readSector (disk : Word64 → Sector) (c : Ahci.Controller) (lba : Word64) (out : Bool)
    (b : BlockDevice) (hinv : s.pmm.Inv) :
    (b.readSector disk (readSector c) lba out s).2.2.pmm.Inv := by
  rw [readSector_state]
  split_ifs
  · exact Ahci.inv_readSector c lba hinv
  · exact hinv

lemma freeSet_readSector_eq_iff (disk : Word64 → Sector) (hinv : s.pmm.Inv) :
    (b.readSector disk (readSector c) lba out s).2.2.pmm.freeSet = s.pmm.freeSet ↔
      Spares c lba out b s := by
  rw [readSector_state, spares_iff]
  split_ifs with hreach
  · rw [Ahci.freeSet_readSector_eq_iff hinv, or_iff_right (not_not.2 hreach)]
  · exact iff_of_true rfl (.inl hreach)

/-! ## Several sectors -/

lemma readEach_pages (disk : Word64 → Sector) (c : Ahci.Controller) (start : Word64)
    (hinv : s.pmm.Inv) :
    let r := readEach disk (readSector c) start n i b s
    r.2.2.2.pmm.Inv ∧ r.2.2.2.pmm.freeSet ⊆ s.pmm.freeSet ∧
      (r.2.2.2.pmm.freeSet = s.pmm.freeSet ↔ SparesEach disk c start n i b s) := by
  induction n generalizing i b s with
  | zero => exact ⟨hinv, Finset.Subset.refl _, iff_of_true rfl trivial⟩
  | succ n ih =>
    have hfirst := freeSet_readSector disk c (start + BitVec.ofNat 64 i) true b s
    have hinv' := inv_readSector disk c (start + BitVec.ofNat 64 i) true b hinv
    have hiff : _ ↔ Spares c (start + BitVec.ofNat 64 i) true b s :=
      freeSet_readSector_eq_iff disk hinv
    rw [readEach, SparesEach, ← hiff]
    generalize b.readSector disk (readSector c)
      (start + BitVec.ofNat 64 i) true s = r at hfirst hinv' ⊢
    obtain ⟨_ | data, b', s'⟩ := r
    · exact ⟨hinv', hfirst, by simp⟩
    obtain ⟨hinv'', hrest, hrestIff⟩ := ih hinv'
    refine ⟨hinv'', hrest.trans hfirst, ?_⟩
    dsimp only
    rw [← hrestIff]
    -- the set only shrinks, so if it is the same at the end it was the same in between
    constructor
    · intro hsame
      have hmid : s'.pmm.freeSet = s.pmm.freeSet :=
        Finset.Subset.antisymm hfirst (by rw [← hsame]; exact hrest)
      exact ⟨hmid, fun _ => by rw [hsame, hmid]⟩
    · rintro ⟨hmid, hend⟩
      rw [hend rfl, hmid]

/-- A call that takes no page: it is rejected, or each read of a sector it makes takes none. -/
def SparesCall (disk : Word64 → Sector) (c : Ahci.Controller) :
    BlockDevice × Ahci.State → BlockCall → Prop
  | (b, s), .readSector lba out => Spares c lba out b s
  | (b, s), .readSectors start n out =>
    b.stats.initialized = false ∨ out = false ∨ n = 0 ∨ 64 < n ∨ b.Refuses start n ∨
      SparesEach disk c start n.toNat 0 (b.countRequest n) s

lemma readSectors_pages (disk : Word64 → Sector) (c : Ahci.Controller) (start : Word64)
    (sectorCount : BitVec 32) (out : Bool) (b : BlockDevice) (hinv : s.pmm.Inv) :
    let r := b.readSectors disk (readSector c) start sectorCount out s
    r.2.2.2.pmm.Inv ∧ (r.2.2.2.pmm.freeSet = s.pmm.freeSet ↔
      SparesCall disk c (b, s) (.readSectors start sectorCount out)) := by
  rw [readSectors, SparesCall]
  by_cases hinit : b.stats.initialized = true
  · rw [if_neg (not_not.2 hinit), or_iff_right (by simpa using hinit)]
    by_cases hout : out = true
    · rw [if_neg (not_not.2 hout), or_iff_right (by simpa using hout)]
      by_cases hzero : sectorCount = 0
      · rw [if_pos hzero]
        exact ⟨hinv, iff_of_true rfl (.inl hzero)⟩
      rw [if_neg hzero, or_iff_right hzero]
      by_cases hlarge : 64 < sectorCount
      · rw [if_pos hlarge]
        exact ⟨hinv, iff_of_true rfl (.inl hlarge)⟩
      rw [or_iff_right hlarge]
      split_ifs with hrange
      · exact ⟨hinv, iff_of_true rfl (.inl hrange)⟩
      · rw [or_iff_right hrange]
        obtain ⟨hinv', -, hiff⟩ := readEach_pages disk c start hinv
        exact ⟨hinv', hiff⟩
    · rw [if_pos hout]
      exact ⟨hinv, iff_of_true rfl (.inl (by simpa using hout))⟩
  · rw [if_pos hinit]
    exact ⟨hinv, iff_of_true rfl (.inl (by simpa using hinit))⟩

/-! ## Runs -/

lemma step_pages (disk : Word64 → Sector) (c : Ahci.Controller) (p : BlockDevice × Ahci.State)
    (call : BlockCall) (hinv : p.2.pmm.Inv) :
    (BlockCall.step disk (readSector c) p call).2.pmm.Inv ∧
      ((BlockCall.step disk (readSector c) p call).2.pmm.freeSet = p.2.pmm.freeSet ↔
        SparesCall disk c p call) := by
  obtain ⟨b, s⟩ := p
  cases call with
  | readSector => exact ⟨inv_readSector disk c _ _ b hinv, freeSet_readSector_eq_iff disk hinv⟩
  | readSectors => exact readSectors_pages disk c _ _ _ b hinv

/-- In a run of reads, each leaves the set of free pages as it was if and only if each takes no
page: it is rejected, the sector is in the cache, the driver is not ready, or there is no free page.
-/
theorem disk_reads_spare_pages_iff (disk : Word64 → Sector) (c : Ahci.Controller)
    (p : BlockDevice × Ahci.State) (calls : List BlockCall) (hinv : p.2.pmm.Inv) :
    Run.Allowed (BlockCall.step disk (readSector c))
        (fun p call => (BlockCall.step disk (readSector c) p call).2.pmm.freeSet =
          p.2.pmm.freeSet) p calls ↔
      Run.Allowed (BlockCall.step disk (readSector c)) (SparesCall disk c) p calls := by
  induction calls generalizing p with
  | nil => exact Iff.rfl
  | cons call calls ih =>
    obtain ⟨hinv', hiff⟩ := step_pages disk c p call hinv
    exact and_congr hiff (ih _ hinv')

/-- A device that holds sector 5. -/
def cachedDevice : BlockDevice :=
  { initializeAhci true 0 with cache := fun i => ⟨decide (i.val = 0), 5, .zero⟩ }

/-- Reading the sector that is in the cache takes no page. -/
theorem disk_reads_spare_pages_cached :
    let s : Ahci.State := ⟨smallMachine.pmm, Stream'.const 0⟩
    let r := cachedDevice.readSector (fun _ => .zero) (readSector ⟨true, 0⟩) 5 true s
    r.1 = some .zero ∧ r.2.2.pmm.freeSet = s.pmm.freeSet := by
  have hcached : (lookup cachedDevice.cache 5).isSome = true := by decide +kernel
  have hkept (s : Ahci.State) (hinv : s.pmm.Inv) :
      (cachedDevice.readSector (fun _ => .zero) (readSector ⟨true, 0⟩) 5 true s).2.2.pmm.freeSet =
        s.pmm.freeSet :=
    ((disk_reads_spare_pages_iff (fun _ => .zero) ⟨true, 0⟩ (cachedDevice, s) [.readSector 5 true]
      hinv).2 ⟨.inr (.inr (.inr (.inl hcached))), trivial⟩).1
  have hdata : (cachedDevice.readSector (fun _ => .zero) (readSector ⟨true, 0⟩) 5 true
      ⟨smallMachine.pmm, Stream'.const 0⟩).1 = some .zero := by decide +kernel
  have hinv := inv_smallMachine
  generalize smallMachine = m at hinv hdata ⊢
  exact ⟨hdata, hkept _ hinv⟩

/-- Each of the first two reads takes four of eight pages, and the third fails. -/
theorem disk_read_takes_pages :
    let step := BlockCall.step (fun _ => .zero) (readSector ⟨true, 0⟩)
    let p : BlockDevice × Ahci.State :=
      (initializeAhci true 0, ⟨eightPages.pmm, Stream'.const 0⟩)
    let p1 := step p (.readSector 0 true)
    let p2 := step p1 (.readSector 1 true)
    0x100 ∈ p.2.pmm.freeSet ∧ 0x100 ∉ p1.2.pmm.freeSet ∧ p2.2.pmm.freePages = 0 ∧
      (p1.1.readSector (fun _ => .zero) (readSector ⟨true, 0⟩) 1 true p1.2).1 = some .zero ∧
      (p2.1.readSector (fun _ => .zero) (readSector ⟨true, 0⟩) 2 true p2.2).1 = none := by
  simp only [PhysicalMemoryManager.mem_freeSet]
  decide +kernel

end IanOS.Block
