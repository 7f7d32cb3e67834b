import IanOS.Mm.PmmSpec
import Mathlib.Data.Set.Card

/-!
# How the allocator reads the boot memory map

`initialize` first releases the pages of every usable region, rounding inwards, and then reserves
the pages of the kernel, the modules and the boot tables, rounding outwards.  The first part of
this file computes the resulting free set for *any* boot information block
(`mem_freeSet_initializeFromBoot`) and shows that the allocator's invariant holds from then on.

The second part compares that set with what the map is meant to say (`ShouldBeFree`).  The two
agree except at the very top of the 64-bit address space: `align_up` adds 4095 before it masks, so
an address in the last page rounds *up to zero*.  A usable region that starts there then appears to
cover all of memory, and a reserved range that ends there reserves nothing.
-/

namespace IanOS

open PhysicalMemoryManager Word List Nat
namespace PhysicalMemoryManager

variable {m : PhysicalMemoryManager}

/-! ## The release loops -/

/-- First and one-past-last page of the part of a region the allocator manages. -/
def regionFirst (r : MemoryRegion) : ℕ := pageAlignUp r.base / kPageSize

@[inherit_doc regionFirst]
def regionLast (r : MemoryRegion) : ℕ :=
  min (pageAlignDown ((r.base + r.length) % modulus) / kPageSize) kPmmBitmapPages

/-- The pages one region contributes. -/
def releasedPages (r : MemoryRegion) : Finset ℕ :=
  if releasable r then (Finset.Ico (regionFirst r) (regionLast r)).filter (0x100 ≤ ·) else ∅

/-- One iteration of the loop over the memory map, for any region whatsoever. -/
lemma initializeRegion_spec (h : Counted m) (r : MemoryRegion) :
    Counted (m.initializeRegion r) ∧
      (m.initializeRegion r).freeSet = m.freeSet ∪ releasedPages r ∧
      (m.initializeRegion r).scanHint = m.scanHint := by
  have hlast : (if kPmmBitmapPages < pageAlignDown ((r.base + r.length) % modulus) / kPageSize
      then kPmmBitmapPages
      else pageAlignDown ((r.base + r.length) % modulus) / kPageSize) = regionLast r := by
    unfold regionLast
    split <;> omega
  have hle : regionLast r ≤ kPmmBitmapPages := min_le_right _ _
  unfold initializeRegion releasedPages
  dsimp only
  rw [hlast, ← regionFirst]
  -- The statistics of the first two lines do not enter; name the state they leave behind.
  set a := if m.stats.highestPhysical < (r.base + r.length) % modulus then
    { m with stats := { m.stats with highestPhysical := (r.base + r.length) % modulus } }
    else m with ha
  have hset : a.freeSet = m.freeSet := by rw [ha]; split <;> rfl
  have hhint : a.scanHint = m.scanHint := by rw [ha]; split <;> rfl
  have hca : Counted a := by
    rw [ha]
    split
    · exact h.congr rfl rfl rfl
    · exact h
  set b := if a.totalPages < regionLast r then { a with totalPages := regionLast r } else a with hb
  have hcb : Counted b := by
    rw [hb]
    split
    · next hlt =>
      refine ⟨hca.free_eq, fun p hp => ?_, hle⟩
      have hp' := hca.free_range p hp
      exact ⟨hp'.1, lt_trans hp'.2 hlt⟩
    · exact hca
  have hsetb : b.freeSet = m.freeSet := by rw [← hset, hb]; split <;> rfl
  have hhintb : b.scanHint = m.scanHint := by rw [← hhint, hb]; split <;> rfl
  have htotal : regionLast r ≤ b.totalPages := by
    rw [hb]
    split
    · exact le_rfl
    · exact not_lt.mp ‹_›
  cases hr : releasable r with
  | false =>
    refine ⟨hcb.congr rfl rfl rfl, ?_, hhintb⟩
    rwa [if_neg Bool.false_ne_true, if_neg Bool.false_ne_true, Finset.union_empty]
  | true =>
    set c : PhysicalMemoryManager := { b with stats :=
      { b.stats with usableBytes := (b.stats.usableBytes + r.length) % modulus } } with hc
    have hcc : Counted c := hcb.congr rfl rfl rfl
    have hl : ∀ p ∈ range' (regionFirst r) (regionLast r - regionFirst r), p < c.totalPages := by
      intro p hp
      obtain ⟨hp1, hp2⟩ := mem_range'_1.mp hp
      exact lt_of_lt_of_le (show p < regionLast r by omega) htotal
    have hfold := SetsFree.foldl_releasePage hcc hl
    refine ⟨hfold.counted, ?_, hfold.hint_eq.trans hhintb⟩
    have hmem : (range' (regionFirst r) (regionLast r - regionFirst r)).toFinset =
        Finset.Ico (regionFirst r) (regionLast r) := by
      rw [toFinset_range']
      ext p
      rw [Finset.mem_Ico, Finset.mem_Ico]
      omega
    have hset' := hfold.set_eq
    rw [hmem, show c.freeSet = m.freeSet from hsetb] at hset'
    simpa using hset'

/-- The whole loop over the memory map. -/
lemma foldl_initializeRegion (h : Counted m) (regions : List MemoryRegion) :
    Counted (regions.foldl initializeRegion m) ∧
      (∀ p, p ∈ (regions.foldl initializeRegion m).freeSet ↔
        p ∈ m.freeSet ∨ ∃ r ∈ regions, p ∈ releasedPages r) ∧
      (regions.foldl initializeRegion m).scanHint = m.scanHint := by
  induction regions generalizing m with
  | nil => exact ⟨h, by simp, rfl⟩
  | cons r regions ih =>
    obtain ⟨hc, hset, hhint⟩ := initializeRegion_spec h r
    obtain ⟨hc', hset', hhint'⟩ := ih hc
    refine ⟨hc', ?_, hhint'.trans hhint⟩
    intro p
    rw [foldl_cons, hset' p, hset, Finset.mem_union, or_assoc]
    simp

lemma freeSet_blank : blank.freeSet = ∅ := by
  rw [Finset.eq_empty_iff_forall_notMem]
  intro p hp
  have hclear := (Bitmap.mem_clearBelow.mp hp).2
  exact Bool.false_ne_true (hclear.symm.trans (Bitmap.test_full p))

lemma counted_blank : Counted blank where
  free_eq := by rw [freeSet_blank]; rfl
  free_range := by rw [freeSet_blank]; simp
  total_le := zero_le _

/-! ## The reservations -/

/-- The arguments of the calls of `mark_range_used`, in the source's order. -/
def reservations (boot : BootInfo) : List (ℕ × ℕ) :=
  [(0, 0x100000), (boot.kernelPhysicalBase, kernelLength boot),
    (boot.userInitBase, boot.userInitSize),
    (boot.bootModules, (boot.modules.length * sizeofBootModule) % modulus)] ++
  boot.modules.map (fun module => (module.base, module.size)) ++
  [(boot.address, sizeofBootInfo),
    (boot.memoryMap, (boot.regions.length * boot.memoryMapDescriptorSize) % modulus),
    (boot.framebuffer.base, framebufferLength boot.framebuffer)] ++
  (if boot.rsdp ≠ 0 then [(pageAlignDown boot.rsdp, kPageSize)] else [])

/-- The pages one reservation removes. -/
def reservedPages (x : ℕ × ℕ) : Finset ℕ :=
  Finset.Ico (pageAlignDown x.1 / kPageSize) (pageAlignUp ((x.1 + x.2) % modulus) / kPageSize)

/-- `initialize` before it publishes its statistics. -/
def afterReservations (boot : BootInfo) : PhysicalMemoryManager :=
  (reservations boot).foldl (fun m x => m.markRangeUsed x.1 x.2)
    (boot.regions.foldl initializeRegion blank)

lemma initializeFromBoot_eq (boot : BootInfo) :
    initializeFromBoot boot = updatePeakUsed { afterReservations boot with
      stats := { (afterReservations boot).stats with
        totalPages := (afterReservations boot).totalPages
        freePages := (afterReservations boot).freePages
        usedPages :=
          (afterReservations boot).totalPages - (afterReservations boot).freePages } } := by
  unfold initializeFromBoot afterReservations reservations
  by_cases hrsdp : boot.rsdp ≠ 0
  · simp only [foldl_append, foldl_cons, foldl_nil, foldl_map, if_pos hrsdp]
  · simp only [foldl_append, foldl_cons, foldl_nil, foldl_map, if_neg hrsdp]

lemma foldl_markRangeUsed (h : Counted m) (l : List (ℕ × ℕ)) :
    Counted (l.foldl (fun m x => m.markRangeUsed x.1 x.2) m) ∧
      (∀ p, p ∈ (l.foldl (fun m x => m.markRangeUsed x.1 x.2) m).freeSet ↔
        p ∈ m.freeSet ∧ ∀ x ∈ l, p ∉ reservedPages x) ∧
      (l.foldl (fun m x => m.markRangeUsed x.1 x.2) m).scanHint = m.scanHint := by
  induction l generalizing m with
  | nil => exact ⟨h, by simp, rfl⟩
  | cons x l ih =>
    have hstep := SetsFree.markRangeUsed h x.1 x.2
    obtain ⟨hc, hset, hhint⟩ := ih hstep.counted
    refine ⟨hc, ?_, hhint.trans hstep.hint_eq⟩
    intro p
    rw [foldl_cons, hset p, hstep.set_eq, Finset.mem_sdiff, forall_mem_cons, and_assoc]
    rfl

lemma afterReservations_spec (boot : BootInfo) :
    Counted (afterReservations boot) ∧
      (∀ p, p ∈ (afterReservations boot).freeSet ↔
        (∃ r ∈ boot.regions, p ∈ releasedPages r) ∧
          ∀ x ∈ reservations boot, p ∉ reservedPages x) ∧
      (afterReservations boot).scanHint = 0x100 := by
  obtain ⟨hc, hset, hhint⟩ := foldl_initializeRegion counted_blank boot.regions
  obtain ⟨hc', hset', hhint'⟩ := foldl_markRangeUsed hc (reservations boot)
  refine ⟨hc', ?_, hhint'.trans hhint⟩
  intro p
  rw [afterReservations, hset' p, hset p, freeSet_blank]
  simp

/-- The allocator's invariant holds after `initialize`, whatever the boot information says. -/
theorem inv_initializeFromBoot (boot : BootInfo) : Inv (initializeFromBoot boot) := by
  obtain ⟨hc, -, hhint⟩ := afterReservations_spec boot
  rw [initializeFromBoot_eq]
  exact Inv.of_updatePeakUsed (hc.congr rfl rfl rfl) (le_of_eq hhint.symm) rfl rfl rfl

theorem mem_freeSet_initializeFromBoot (boot : BootInfo) (p : ℕ) :
    p ∈ (initializeFromBoot boot).freeSet ↔
      (∃ r ∈ boot.regions, p ∈ releasedPages r) ∧ ∀ x ∈ reservations boot, p ∉ reservedPages x := by
  rw [initializeFromBoot_eq, freeSet_updatePeakUsed]
  exact (afterReservations_spec boot).2.1 p

end PhysicalMemoryManager

/-! ## What the map is meant to say -/

/-- A range of physical addresses. -/
structure PhysicalRange where
  base : ℕ
  length : ℕ
  deriving DecidableEq, Repr

namespace PhysicalRange

/-- The range has a byte in page `p`. -/
def Meets (x : PhysicalRange) (p : ℕ) : Prop :=
  ∃ a, x.base ≤ a ∧ a < x.base + x.length ∧ a / kPageSize = p

/-- The range ends inside the address space, and is not an empty range in the middle of a page. -/
structure WellFormed (x : PhysicalRange) : Prop where
  noWrap : x.base + x.length < modulus
  nonempty_or_aligned : x.length ≠ 0 ∨ x.base % kPageSize = 0

end PhysicalRange

/-- Page `p` lies wholly inside the region. -/
def MemoryRegion.Contains (r : MemoryRegion) (p : ℕ) : Prop :=
  r.base ≤ p * kPageSize ∧ (p + 1) * kPageSize ≤ r.base + r.length

namespace BootInfo

variable {v p : ℕ} {r : MemoryRegion}

/-- The ranges that must stay reserved; the page of the RSDP is treated apart. -/
def reserved (boot : BootInfo) : List PhysicalRange :=
  [⟨boot.kernelPhysicalBase, boot.kernelPhysicalEnd - boot.kernelPhysicalBase⟩,
    ⟨boot.userInitBase, boot.userInitSize⟩,
    ⟨boot.bootModules, boot.modules.length * sizeofBootModule⟩] ++
  boot.modules.map (fun module => ⟨module.base, module.size⟩) ++
  [⟨boot.address, sizeofBootInfo⟩,
    ⟨boot.memoryMap, boot.regions.length * boot.memoryMapDescriptorSize⟩,
    ⟨boot.framebuffer.base, boot.framebuffer.pixelsPerScanline * boot.framebuffer.height *
      boot.framebuffer.bytesPerPixel⟩]

/-- Regions and reserved ranges do not wrap, and the addresses are 64-bit. -/
structure NonWrapping (boot : BootInfo) : Prop where
  regions : ∀ r ∈ boot.regions, r.base + r.length < modulus
  reserved : ∀ x ∈ boot.reserved, x.WellFormed
  kernel : boot.kernelPhysicalBase ≤ boot.kernelPhysicalEnd
  rsdp : boot.rsdp < modulus

/-- Page `p` lies wholly inside one region that is given to the allocator. -/
def InUsable (boot : BootInfo) (p : ℕ) : Prop :=
  ∃ r ∈ boot.regions, releasable r = true ∧ r.Contains p

/-- The pages the boot memory map declares free. -/
def ShouldBeFree (boot : BootInfo) (p : ℕ) : Prop :=
  0x100 ≤ p ∧ p < kPmmBitmapPages ∧ boot.InUsable p ∧ (∀ x ∈ boot.reserved, ¬ x.Meets p) ∧
    p ≠ boot.rsdp / kPageSize

/-- After `initialize` exactly these pages are free, and the counter says how many. -/
def MapRespected (boot : BootInfo) : Prop :=
  (∀ p, p ∈ (initializeFromBoot boot).freeSet ↔ boot.ShouldBeFree p) ∧
    (initializeFromBoot boot).freePages = {p | boot.ShouldBeFree p}.ncard

/-! ## Rounding at the two ends -/

/-- Start of the last page of the address space; addresses above it round up to zero. -/
def topPage : ℕ := modulus - kPageSize

lemma pageAlignUp_div_low (hv : v ≤ topPage) :
    pageAlignUp v / kPageSize = (v + (kPageSize - 1)) / kPageSize := by
  refine pageAlignUp_div ?_
  simp only [topPage, kPageSize, modulus] at *
  omega

/-- Past the start of the last page the sum in `align_up` wraps, and the result is zero. -/
lemma pageAlignUp_eq_zero (hlo : topPage < v) (hv : v < modulus) : pageAlignUp v = 0 := by
  have hmod : (v + kPageSize - 1) % modulus < kPageSize := by
    unfold topPage kPageSize modulus at hlo
    unfold modulus at hv
    unfold kPageSize modulus
    omega
  have hdown := alignDown_two_pow (k := 12) (mod_lt (v + kPageSize - 1) modulus_pos) (by norm_num)
  unfold pageAlignUp alignUp
  rw [show kPageSize = 2 ^ 12 by rfl] at hmod ⊢
  rw [show kPageSize = 2 ^ 12 by rfl] at hdown
  rw [hdown, div_eq_of_lt hmod, zero_mul]

/-! ## Regions and ranges, page by page -/

lemma mem_releasedPages_low (hr : releasable r = true)
    (hwrap : r.base + r.length < modulus) (hlow : r.base ≤ topPage) (p : ℕ) :
    p ∈ releasedPages r ↔ 0x100 ≤ p ∧ p < kPmmBitmapPages ∧ r.Contains p := by
  unfold releasedPages regionFirst regionLast MemoryRegion.Contains
  rw [if_pos hr, mod_eq_of_lt hwrap, pageAlignUp_div_low hlow, pageAlignDown_div hwrap]
  simp only [Finset.mem_filter, Finset.mem_Ico, kPageSize, kPmmBitmapPages]
  omega

/-- A region that starts in the last page is taken for all of memory. -/
lemma mem_releasedPages_high (hr : releasable r = true)
    (hwrap : r.base + r.length < modulus) (hhigh : topPage < r.base) (p : ℕ) :
    p ∈ releasedPages r ↔ 0x100 ≤ p ∧ p < kPmmBitmapPages := by
  unfold releasedPages regionFirst regionLast
  rw [if_pos hr, mod_eq_of_lt hwrap, pageAlignUp_eq_zero hhigh (by omega), pageAlignDown_div hwrap]
  simp only [topPage, modulus, kPageSize] at hhigh
  simp only [Finset.mem_filter, Finset.mem_Ico, kPageSize, kPmmBitmapPages]
  omega

lemma not_contains_of_high (hhigh : topPage < r.base) (hp : p < kPmmBitmapPages) :
    ¬ r.Contains p := by
  rintro ⟨hbase, -⟩
  simp only [topPage, modulus, kPageSize, kPmmBitmapPages] at hhigh hp hbase
  omega

lemma meets_iff {x : PhysicalRange} (hx : x.length ≠ 0) :
    x.Meets p ↔ x.base < (p + 1) * kPageSize ∧ p * kPageSize < x.base + x.length := by
  constructor
  · rintro ⟨a, hlo, hhi, rfl⟩
    simp only [kPageSize] at *
    omega
  rintro ⟨hlo, hhi⟩
  -- The first byte of the range that is not before the page.
  refine ⟨max x.base (p * kPageSize), le_max_left _ _, ?_, ?_⟩
  · rcases le_total x.base (p * kPageSize) with h | h
    · rwa [max_eq_right h]
    · rw [max_eq_left h]
      omega
  · rcases le_total x.base (p * kPageSize) with h | h
    · rw [max_eq_right h]
      exact Nat.mul_div_cancel _ (by norm_num [kPageSize])
    · rw [max_eq_left h]
      simp only [kPageSize] at *
      omega

lemma mem_reservedPages_low {x : PhysicalRange} (hx : x.WellFormed)
    (hlow : x.base + x.length ≤ topPage) (p : ℕ) :
    p ∈ reservedPages (x.base, x.length) ↔ x.Meets p := by
  have hwrap := hx.noWrap
  unfold reservedPages
  rw [mod_eq_of_lt hwrap, pageAlignDown_div (show x.base < modulus by omega),
    pageAlignUp_div_low hlow, Finset.mem_Ico]
  by_cases hempty : x.length = 0
  · have halign := hx.nonempty_or_aligned.resolve_left (not_not.mpr hempty)
    refine iff_of_false ?_ (fun ⟨a, hlo, hhi, _⟩ => by omega)
    simp only [kPageSize] at halign ⊢
    omega
  · rw [meets_iff hempty]
    simp only [kPageSize]
    omega

lemma not_mem_reservedPages_high {x : PhysicalRange} (hx : x.WellFormed)
    (hhigh : topPage < x.base + x.length) (p : ℕ) :
    p ∉ reservedPages (x.base, x.length) := by
  unfold reservedPages
  rw [mod_eq_of_lt hx.noWrap, pageAlignUp_eq_zero hhigh hx.noWrap]
  simp

/-! ## The comparison -/

variable {boot : BootInfo}

section

variable (h : boot.NonWrapping)
include h

lemma kernelLength_eq : kernelLength boot = boot.kernelPhysicalEnd - boot.kernelPhysicalBase := by
  have hwrap := (h.reserved ⟨boot.kernelPhysicalBase,
    boot.kernelPhysicalEnd - boot.kernelPhysicalBase⟩ (by simp [BootInfo.reserved])).noWrap
  have hle := h.kernel
  simp only at hwrap
  exact sub_eq (by omega) hle

/-- When nothing wraps, the calls of `mark_range_used` are the low megabyte, the reserved ranges
and the page of the RSDP. -/
lemma reservations_eq :
    reservations boot =
      (0, 0x100000) :: boot.reserved.map (fun y => (y.base, y.length)) ++
        (if boot.rsdp ≠ 0 then [(pageAlignDown boot.rsdp, kPageSize)] else []) := by
  have hwrap : ∀ y ∈ boot.reserved, y.length < modulus := fun y hy => by
    have := (h.reserved y hy).noWrap
    omega
  have htable := hwrap ⟨boot.bootModules, boot.modules.length * sizeofBootModule⟩
    (by simp [BootInfo.reserved])
  have hmap := hwrap ⟨boot.memoryMap, boot.regions.length * boot.memoryMapDescriptorSize⟩
    (by simp [BootInfo.reserved])
  have hfb := hwrap ⟨boot.framebuffer.base, boot.framebuffer.pixelsPerScanline *
    boot.framebuffer.height * boot.framebuffer.bytesPerPixel⟩ (by simp [BootInfo.reserved])
  unfold reservations BootInfo.reserved framebufferLength
  rw [kernelLength_eq h, mod_eq_of_lt htable, mod_eq_of_lt hmap, mod_eq_of_lt hfb]
  simp [Function.comp_def]

lemma mem_reservations (x : ℕ × ℕ) :
    x ∈ reservations boot ↔
      x = (0, 0x100000) ∨ (∃ y ∈ boot.reserved, (y.base, y.length) = x) ∨
        (boot.rsdp ≠ 0 ∧ x = (pageAlignDown boot.rsdp, kPageSize)) := by
  rw [reservations_eq h, cons_append, mem_cons, mem_append, mem_map]
  by_cases hrsdp : boot.rsdp = 0
  · simp [hrsdp]
  · simp [hrsdp]

/-- The page of the RSDP is reserved, unless it is the last one, which no bitmap covers. -/
lemma mem_reservedPages_rsdp (hp : p < kPmmBitmapPages) :
    p ∈ reservedPages (pageAlignDown boot.rsdp, kPageSize) ↔ p = boot.rsdp / kPageSize := by
  have hdown := pageAlignDown_eq h.rsdp
  have hlt := h.rsdp
  by_cases hlast : pageAlignDown boot.rsdp + kPageSize < modulus
  · have hwf : PhysicalRange.WellFormed ⟨pageAlignDown boot.rsdp, kPageSize⟩ :=
      ⟨hlast, .inl (by norm_num [kPageSize])⟩
    have hlow : pageAlignDown boot.rsdp + kPageSize ≤ topPage := by
      rw [hdown] at hlast ⊢
      simp only [topPage, kPageSize, modulus] at hlast ⊢
      omega
    rw [mem_reservedPages_low hwf hlow, meets_iff (by norm_num [kPageSize]), hdown]
    simp only [kPageSize]
    omega
  · refine iff_of_false ?_ ?_
    · have hend : (pageAlignDown boot.rsdp + kPageSize) % modulus = 0 := by
        rw [hdown] at hlast ⊢
        simp only [kPageSize, modulus] at hlast hlt ⊢
        omega
      have hzero : pageAlignUp 0 / kPageSize = 0 := pageAlignUp_div_low (zero_le _)
      unfold reservedPages
      rw [hend, hzero]
      simp
    · rw [hdown] at hlast
      simp only [kPageSize, modulus, kPmmBitmapPages] at hlast hlt hp ⊢
      omega

end

/-- Some region given to the allocator starts in the last page of the address space. -/
def TopRegion (boot : BootInfo) : Prop :=
  ∃ r ∈ boot.regions, releasable r = true ∧ topPage < r.base

/-- Page `p` meets no reserved range that ends at or before the last page. -/
def ClearOfLow (boot : BootInfo) (p : ℕ) : Prop :=
  ∀ x ∈ boot.reserved, x.base + x.length ≤ topPage → ¬ x.Meets p

/-- Page `p` meets no reserved range that ends in the last page. -/
def ClearOfHigh (boot : BootInfo) (p : ℕ) : Prop :=
  ∀ x ∈ boot.reserved, topPage < x.base + x.length → ¬ x.Meets p

lemma released_iff (h : boot.NonWrapping) (p : ℕ) :
    (∃ r ∈ boot.regions, p ∈ releasedPages r) ↔
      0x100 ≤ p ∧ p < kPmmBitmapPages ∧ (boot.InUsable p ∨ boot.TopRegion) := by
  constructor
  · rintro ⟨r, hr, hp⟩
    have hrel : releasable r = true := by
      by_contra hno
      simp [releasedPages, hno] at hp
    rcases lt_or_ge topPage r.base with hhigh | hlow
    · obtain ⟨h1, h2⟩ := (mem_releasedPages_high hrel (h.regions r hr) hhigh p).mp hp
      exact ⟨h1, h2, .inr ⟨r, hr, hrel, hhigh⟩⟩
    · obtain ⟨h1, h2, h3⟩ := (mem_releasedPages_low hrel (h.regions r hr) hlow p).mp hp
      exact ⟨h1, h2, .inl ⟨r, hr, hrel, h3⟩⟩
  · rintro ⟨h1, h2, ⟨r, hr, hrel, hin⟩ | ⟨r, hr, hrel, hhigh⟩⟩
    · have hlow : r.base ≤ topPage := by
        by_contra hhigh
        exact not_contains_of_high (not_le.mp hhigh) h2 hin
      exact ⟨r, hr, (mem_releasedPages_low hrel (h.regions r hr) hlow p).mpr ⟨h1, h2, hin⟩⟩
    · exact ⟨r, hr, (mem_releasedPages_high hrel (h.regions r hr) hhigh p).mpr ⟨h1, h2⟩⟩

lemma unreserved_iff (h : boot.NonWrapping) (hlo : 0x100 ≤ p) (hhi : p < kPmmBitmapPages) :
    (∀ x ∈ reservations boot, p ∉ reservedPages x) ↔ boot.ClearOfLow p ∧
    p ≠ boot.rsdp / kPageSize := by
  constructor
  · intro hall
    refine ⟨fun y hy hlow hmeets => ?_, fun hp => ?_⟩
    · exact hall _ ((mem_reservations h _).mpr (.inr (.inl ⟨y, hy, rfl⟩)))
        ((mem_reservedPages_low (h.reserved y hy) hlow p).mpr hmeets)
    have hrsdp : boot.rsdp ≠ 0 := by
      rintro h0
      simp only [kPageSize] at hp
      omega
    exact hall _ ((mem_reservations h _).mpr (.inr (.inr ⟨hrsdp, rfl⟩)))
      ((mem_reservedPages_rsdp h hhi).mpr hp)
  · rintro ⟨hclear, hrsdp⟩ x hx hp
    rcases (mem_reservations h x).mp hx with rfl | ⟨y, hy, rfl⟩ | ⟨-, rfl⟩
    · have hwf : PhysicalRange.WellFormed ⟨0, 0x100000⟩ := ⟨by decide, .inl (by norm_num)⟩
      have hmeets := (mem_reservedPages_low hwf (by decide) p).mp hp
      rw [meets_iff (by norm_num)] at hmeets
      simp only [kPageSize] at hmeets
      omega
    · rcases lt_or_ge topPage (y.base + y.length) with hhigh | hlow
      · exact not_mem_reservedPages_high (h.reserved y hy) hhigh p hp
      · exact hclear y hy hlow ((mem_reservedPages_low (h.reserved y hy) hlow p).mp hp)
    · exact hrsdp ((mem_reservedPages_rsdp h hhi).mp hp)

lemma mem_freeSet_iff (h : boot.NonWrapping) (p : ℕ) :
    p ∈ (initializeFromBoot boot).freeSet ↔
      0x100 ≤ p ∧ p < kPmmBitmapPages ∧ (boot.InUsable p ∨ boot.TopRegion) ∧
        boot.ClearOfLow p ∧ p ≠ boot.rsdp / kPageSize := by
  rw [mem_freeSet_initializeFromBoot, released_iff h]
  constructor
  · rintro ⟨⟨h1, h2, h3⟩, h4⟩
    exact ⟨h1, h2, h3, (unreserved_iff h h1 h2).mp h4⟩
  · rintro ⟨h1, h2, h3, h4⟩
    exact ⟨⟨h1, h2, h3⟩, (unreserved_iff h h1 h2).mpr h4⟩

lemma shouldBeFree_iff (p : ℕ) :
    boot.ShouldBeFree p ↔ 0x100 ≤ p ∧ p < kPmmBitmapPages ∧ boot.InUsable p ∧
      (boot.ClearOfLow p ∧ p ≠ boot.rsdp / kPageSize) ∧ boot.ClearOfHigh p := by
  constructor
  · rintro ⟨h1, h2, h3, h4, h5⟩
    exact ⟨h1, h2, h3, ⟨fun x hx _ => h4 x hx, h5⟩, fun x hx _ => h4 x hx⟩
  rintro ⟨h1, h2, h3, ⟨h4, h5⟩, h6⟩
  refine ⟨h1, h2, h3, fun x hx => ?_, h5⟩
  rcases lt_or_ge topPage (x.base + x.length) with hhigh | hlow
  · exact h6 x hx hhigh
  · exact h4 x hx hlow

/-- The top of the address space does no harm: on the pages that no other reservation covers, a
usable region in the last page claims nothing that is not usable anyway, and a reserved range
that ends there meets no usable page. -/
def TopHarmless (boot : BootInfo) : Prop :=
  ∀ p, 0x100 ≤ p → p < kPmmBitmapPages → boot.ClearOfLow p → p ≠ boot.rsdp / kPageSize →
    (boot.TopRegion → boot.InUsable p) ∧ (boot.InUsable p → boot.ClearOfHigh p)

/-- **The boot map is read as it is meant, exactly when its top end does no harm.** -/
theorem mapRespected_iff_topHarmless (h : boot.NonWrapping) :
    boot.MapRespected ↔ boot.TopHarmless := by
  constructor
  · rintro ⟨hset, -⟩ p hlo hhi hclear hrsdp
    have hp := (mem_freeSet_iff h p).symm.trans ((hset p).trans (shouldBeFree_iff p))
    refine ⟨fun htop => ?_, fun huse => ?_⟩
    · exact (hp.mp ⟨hlo, hhi, .inr htop, hclear, hrsdp⟩).2.2.1
    · exact (hp.mp ⟨hlo, hhi, .inl huse, hclear, hrsdp⟩).2.2.2.2
  intro htop
  have hset : ∀ p, p ∈ (initializeFromBoot boot).freeSet ↔ boot.ShouldBeFree p := by
    intro p
    rw [mem_freeSet_iff h, shouldBeFree_iff]
    constructor
    · rintro ⟨h1, h2, h3, h4, h5⟩
      obtain ⟨hregion, hhigh⟩ := htop p h1 h2 h4 h5
      have huse : boot.InUsable p := h3.elim id hregion
      exact ⟨h1, h2, huse, ⟨h4, h5⟩, hhigh huse⟩
    · rintro ⟨h1, h2, h3, ⟨h4, h5⟩, -⟩
      exact ⟨h1, h2, .inl h3, h4, h5⟩
  refine ⟨hset, ?_⟩
  have hcoe : {p | boot.ShouldBeFree p} = ((initializeFromBoot boot).freeSet : Set ℕ) := by
    ext p
    exact (hset p).symm
  rw [hcoe, Set.ncard_coe_finset]
  exact (inv_initializeFromBoot boot).free_eq

/-- A machine with a single region and nothing loaded; the boot block lies in the low megabyte. -/
def oneRegion (r : MemoryRegion) : BootInfo where
  address := 0
  rsdp := 0
  framebuffer := ⟨0, 0, 0, 0⟩
  memoryMap := 0
  regions := [r]
  memoryMapDescriptorSize := 24
  kernelPhysicalBase := 0
  kernelPhysicalEnd := 0
  userInitBase := 0
  userInitSize := 0
  bootModules := 0
  modules := []

/-- All the reserved ranges of `oneRegion` begin at zero and lie in the low megabyte. -/
lemma oneRegion_reserved :
    ∀ x ∈ (oneRegion r).reserved, x.base = 0 ∧ x.base + x.length ≤ 0x100000 := by
  have heq : (oneRegion r).reserved = [⟨0, 0⟩, ⟨0, 0⟩, ⟨0, 0⟩, ⟨0, 156⟩, ⟨0, 24⟩, ⟨0, 0⟩] := rfl
  rw [heq]
  decide

lemma nonWrapping_oneRegion (hr : r.base + r.length < modulus) : (oneRegion r).NonWrapping where
  regions := by simpa [oneRegion] using hr
  reserved := by
    intro x hx
    obtain ⟨hbase, hlow⟩ := oneRegion_reserved x hx
    exact ⟨lt_of_le_of_lt hlow (by decide), .inr (by rw [hbase]; rfl)⟩
  kernel := le_rfl
  rsdp := modulus_pos

/-- An ordinary map, one usable region from 1 MiB to 16 MiB, is read as it is meant. -/
theorem mapRespected_ordinary :
    (oneRegion ⟨0x100000, 0xf00000, .usable⟩).NonWrapping ∧
      (oneRegion ⟨0x100000, 0xf00000, .usable⟩).MapRespected := by
  have hwf := nonWrapping_oneRegion (r := ⟨0x100000, 0xf00000, .usable⟩) (by decide)
  refine ⟨hwf, (mapRespected_iff_topHarmless hwf).mpr ?_⟩
  intro p _ _ _ _
  refine ⟨?_, fun _ x hx hhigh => ?_⟩
  · rintro ⟨r, hr, -, hhigh⟩
    obtain rfl : r = ⟨0x100000, 0xf00000, .usable⟩ := by simpa [oneRegion] using hr
    exact absurd hhigh (by decide)
  · have hlow := (oneRegion_reserved x hx).2
    have htop : (0x100000 : ℕ) < topPage := by decide
    omega

/-- A map whose only region is a 16-byte usable one in the last page of the address space: its
regions do not overlap and nothing wraps, yet page `0x100` and all those above it become free. -/
theorem mapRespected_fails_at_top :
    (oneRegion ⟨2 ^ 64 - 2048, 16, .usable⟩).NonWrapping ∧
      (oneRegion ⟨2 ^ 64 - 2048, 16, .usable⟩).regions.Pairwise
        (fun r s => r.base + r.length ≤ s.base ∨ s.base + s.length ≤ r.base) ∧
      ¬ (oneRegion ⟨2 ^ 64 - 2048, 16, .usable⟩).MapRespected := by
  have hwf := nonWrapping_oneRegion (r := ⟨2 ^ 64 - 2048, 16, .usable⟩) (by decide)
  refine ⟨hwf, pairwise_singleton _ _, ?_⟩
  rintro ⟨hset, -⟩
  have hfree :
      (0x100 : ℕ) ∈ (initializeFromBoot (oneRegion ⟨2 ^ 64 - 2048, 16, .usable⟩)).freeSet := by
    refine (mem_freeSet_iff hwf 0x100).mpr ⟨le_rfl, by decide, .inr ?_, ?_, by decide⟩
    · exact ⟨_, mem_singleton_self _, rfl, by decide⟩
    rintro x hx - ⟨a, -, hlt, hpage⟩
    have hlow := (oneRegion_reserved x hx).2
    simp only [kPageSize] at hpage
    omega
  obtain ⟨-, -, ⟨r, hr, -, hin⟩, -⟩ := (hset 0x100).mp hfree
  obtain rfl : r = ⟨2 ^ 64 - 2048, 16, .usable⟩ := by simpa [oneRegion] using hr
  exact absurd hin (not_contains_of_high (by decide) (by decide))

end BootInfo
end IanOS
