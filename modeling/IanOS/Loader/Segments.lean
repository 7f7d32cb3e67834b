import IanOS.Loader.ElfReads
import IanOS.Loader.Pages

/-!
# The pages of a segment

A page of a segment gets a cleared frame, to which the part of the file that belongs there is
copied. So each byte of the pages of a segment is the byte of the file, if the segment has one for
its address, and zero otherwise.  What has been shown of a page remains true while more pages are
added, because the address space only grows.
-/

namespace IanOS.Loader

open Paging Elf Building Nat
open BitVec (getLsbD_or le_def lt_def toNat_add toNat_ofNat toNat_sub_of_le)
open Paging.State

variable {s s' : State} {b b' : Building} {base size root virt phys a : Word64} {g : Segment}
  {image : Word64 → UInt8} {start : PhysicalMemoryManager} {owned : List OwnedPage} {i k : ℕ}
  {first last dst src count : Word64} {V : Word64 → Prop}

/-! ## Rounding to pages -/

lemma toNat_alignDown (v : Word64) : (alignDown v).toNat = v.toNat / kPageSize * kPageSize := by
  have hlt := v.isLt
  rw [alignDown, pageAlignDown_eq hlt, toNat_ofNat]
  simp only [kPageSize]
  omega

lemma toNat_alignUp {v : Word64} (hv : v.toNat ≤ 2 ^ 47) :
    (alignUp v).toNat = (v.toNat + 4095) / kPageSize * kPageSize := by
  have hle : v.toNat + 2 ^ 12 ≤ Word.modulus := by
    simp only [Word.modulus]
    omega
  have hup : pageAlignUp v.toNat = (v.toNat + 2 ^ 12 - 1) / 2 ^ 12 * 2 ^ 12 :=
    Word.alignUp_two_pow (k := 12) hle (by norm_num)
  rw [alignUp, toNat_ofNat]
  simp only [kPageSize]
  omega

lemma lt_pagesBetween (hfirst : first.toNat % kPageSize = 0) (hlast : last.toNat % kPageSize = 0) :
    i < pagesBetween first last ↔ first.toNat + i * kPageSize < last.toNat := by
  rw [pagesBetween]
  split_ifs with hlt
  · rw [toNat_sub_of_le (BitVec.le_def.2 hlt.le)]
    simp only [kPageSize] at hfirst hlast ⊢
    omega
  · rw [lt_def] at hlt
    omega

lemma toNat_pageAbove (h : first.toNat + i * kPageSize < last.toNat) :
    (pageAbove first i).toNat = first.toNat + i * kPageSize := by
  rw [pageAbove, toNat_add, toNat_ofNat]
  omega

/-! ## Writing to a frame -/

section

variable (halign : phys.toNat % kPageSize = 0)
include halign

lemma onlyFrame_clear : OnlyFrame phys b (b.clear phys) where
  rest := rfl
  pmm := rfl
  same page hpage j := by
    refine (entry_clearPage (mul_mod_left page kPageSize) halign).trans (if_neg fun heq => ?_)
    rw [← heq, mul_div_page] at hpage
    exact hpage rfl

/-- A copy into the frame. -/
lemma onlyFrame_memcpy (hdst : phys.toNat ≤ dst.toNat)
    (hend : dst.toNat + count.toNat ≤ phys.toNat + kPageSize) :
    OnlyFrame phys b (b.memcpy dst src count) where
  rest := rfl
  pmm := rfl
  same page hpage j := by
    rw [entry, entry, memcpy]
    dsimp only
    rw [WordBytes.store, if_neg]
    simp only [kPageSize] at halign hend hpage ⊢
    omega

lemma byteAt_clear (hk : k < kPageSize) (hroom : phys.toNat < 2 ^ 52) :
    byteAt (b.clear phys).memory (phys + BitVec.ofNat 64 k) = 0 := by
  have hnat : (phys + BitVec.ofNat 64 k).toNat = phys.toNat + k := by
    rw [toNat_add, toNat_ofNat]
    simp only [kPageSize] at hk
    omega
  have hzero : (b.memory.clearPage phys.toNat).words ((phys.toNat + k) / 8 * 8) = 0 := by
    refine if_pos ?_
    simp only [kPageSize] at halign hk ⊢
    omega
  rw [byteAt, hnat, WordBytes.load, clear, hzero, WordBytes.byteOf]
  simp

end

lemma byteAt_memcpy : byteAt (b.memcpy dst src count).memory a =
    if dst.toNat ≤ a.toNat ∧ a.toNat < dst.toNat + count.toNat then
      byteAt b.memory (src + BitVec.ofNat 64 (a.toNat - dst.toNat)) else byteAt b.memory a := by
  rw [byteAt, memcpy]
  rw [WordBytes.load_store]
  rfl

/-! ## The bytes of a segment -/

namespace Segment

/-- The byte at an address of the pages of a segment. -/
def byteOf (g : Segment) (image : Word64 → UInt8) (base va : Word64) : UInt8 :=
  if g.vaddr.toNat ≤ va.toNat ∧ va.toNat < g.vaddr.toNat + g.filesz.toNat then
    image (base + (g.offset + (va - g.vaddr))) else 0

/-- The addresses of the pages of a segment. -/
def HasPage (g : Segment) (v : Word64) : Prop :=
  ∃ i < pagesBetween g.start g.stop, v = pageAbove g.start i

/-- A segment whose contents fit into its memory, which lies in the lower half. -/
structure Low (g : Segment) : Prop where
  filesz : g.filesz.toNat ≤ g.memsz.toNat
  lower : g.vaddr.toNat + g.memsz.toNat ≤ 2 ^ 47

/-- A segment that is accepted and lies in the lower half. -/
structure Fits (g : Segment) (size : Word64) : Prop extends g.Low where
  inFile : g.offset.toNat + g.filesz.toNat ≤ size.toNat

/-- The address of a page of the segment. -/
structure IsPage (g : Segment) (virt : Word64) : Prop where
  aligned : virt.toNat % kPageSize = 0
  above : g.vaddr.toNat < virt.toNat + kPageSize
  below : virt.toNat + kPageSize ≤ 2 ^ 47

lemma toNat_stop (h : g.Low) :
    g.stop.toNat = (g.vaddr.toNat + g.memsz.toNat + 4095) / kPageSize * kPageSize := by
  have hlower := h.lower
  have hsum : (g.vaddr + g.memsz).toNat = g.vaddr.toNat + g.memsz.toNat := by
    rw [toNat_add]
    omega
  rw [stop, toNat_alignUp (by omega), hsum]

lemma lt_pages_iff (h : g.Low) : i < pagesBetween g.start g.stop ↔
    g.start.toNat + i * kPageSize < g.stop.toNat := by
  refine lt_pagesBetween ?_ ?_
  · rw [start, toNat_alignDown, mul_mod_left]
  · rw [toNat_stop h, mul_mod_left]

lemma isPage_pageAbove (h : g.Low) (hi : i < pagesBetween g.start g.stop) :
    g.IsPage (pageAbove g.start i) := by
  have hlower := h.lower
  rw [lt_pages_iff h] at hi
  have hnat := toNat_pageAbove hi
  rw [start, toNat_alignDown] at hi hnat
  rw [toNat_stop h] at hi
  refine ⟨?_, ?_, ?_⟩ <;> rw [start, hnat] <;> simp only [kPageSize] at hi ⊢ <;> omega

lemma IsPage.lowerHalf (h : g.IsPage virt) : LowerHalf virt := by
  have hbelow := h.below
  refine lowerHalf_of_lt ?_
  simp only [kPageSize] at hbelow
  omega

/-- Where the part of the file that belongs on a page begins and ends. -/
lemma toNat_part (h : g.Low) (hpage : g.IsPage virt) :
    (if g.vaddr < virt then virt else g.vaddr).toNat = max g.vaddr.toNat virt.toNat ∧
    (if virt + pageSize < g.vaddr + g.filesz then virt + pageSize else g.vaddr + g.filesz).toNat =
      min (virt.toNat + kPageSize) (g.vaddr.toNat + g.filesz.toNat) := by
  have hlower := h.lower
  have hfilesz := h.filesz
  have hbelow := hpage.below
  have hnext : (virt + pageSize).toNat = virt.toNat + kPageSize := by
    rw [toNat_add, show pageSize.toNat = kPageSize by decide]
    omega
  have hfile : (g.vaddr + g.filesz).toNat = g.vaddr.toNat + g.filesz.toNat := by
    rw [toNat_add]
    omega
  constructor
  · split_ifs with hlt <;> rw [lt_def] at hlt <;> omega
  · split_ifs with hlt <;> rw [lt_def] at hlt <;> omega

lemma copyPart_spec (base : Word64) (b : Building) (h : g.Low) (hpage : g.IsPage virt)
    (halign : phys.toNat % kPageSize = 0) (hsmall : phys.toNat < 2 ^ 52) :
    OnlyFrame phys b (g.copyPart base virt phys b) ∧ ∀ k < kPageSize,
      byteAt (g.copyPart base virt phys b).memory (phys + BitVec.ofNat 64 k) =
        if g.vaddr.toNat ≤ virt.toNat + k ∧ virt.toNat + k < g.vaddr.toNat + g.filesz.toNat then
          byteAt b.memory (base + (g.offset + (virt + BitVec.ofNat 64 k - g.vaddr)))
        else byteAt b.memory (phys + BitVec.ofNat 64 k) := by
  obtain ⟨hfirst, hlast⟩ := toNat_part h hpage
  have hbelow := hpage.below
  rw [copyPart]
  generalize (if g.vaddr < virt then virt else g.vaddr) = c at hfirst ⊢
  generalize (if virt + pageSize < g.vaddr + g.filesz then virt + pageSize
    else g.vaddr + g.filesz) = d at hlast ⊢
  split_ifs with hcopy
  · rw [lt_def] at hcopy
    have hc : (c - virt).toNat = c.toNat - virt.toNat :=
      toNat_sub_of_le (BitVec.le_def.2 (by omega))
    have hd : (d - c).toNat = d.toNat - c.toNat :=
      toNat_sub_of_le (BitVec.le_def.2 (by omega))
    have hdst : (phys + (c - virt)).toNat = phys.toNat + (c.toNat - virt.toNat) := by
      rw [toNat_add]
      omega
    refine ⟨onlyFrame_memcpy halign (by omega) (by omega), fun k hk => ?_⟩
    have hnat : (phys + BitVec.ofNat 64 k).toNat = phys.toNat + k := by
      rw [toNat_add, toNat_ofNat]
      omega
    rw [byteAt_memcpy, hnat, hdst]
    split
    · rw [if_pos (by omega)]
      have hsum : virt + BitVec.ofNat 64 k =
          c + BitVec.ofNat 64 (phys.toNat + k - (phys.toNat + (c.toNat - virt.toNat))) := by
        apply BitVec.eq_of_toNat_eq
        rw [toNat_add, toNat_add, toNat_ofNat, toNat_ofNat]
        omega
      rw [hsum]
      simp only [BitVec.sub_eq_add_neg]
      ac_rfl
    · rw [if_neg (by omega)]
  · rw [lt_def] at hcopy
    refine ⟨.refl phys b, fun k hk => (if_neg ?_).symm⟩
    omega

end Segment

/-! ## Images -/

variable {memory : State}

/-- Pages that were in use at the start are neither free nor tables. -/
lemma Sound.untouched (h : Sound start root owned s) {page : ℕ} (hpage : page ∉ start.freeSet) :
    page ∉ s.pmm.freeSet ∧ ¬TablePage s (table root) page := by
  rw [h.accounted.pages] at hpage
  tauto

/-- What is not on the list of free pages stays while the address space grows. -/
lemma UsedKept.grows (h : UsedKept memory s) (hs : Sound memory.pmm root owned s)
    (hg : Grows (table root) s s') : UsedKept memory s' := by
  intro page hpage
  obtain ⟨hfree, htable⟩ := hs.untouched hpage
  exact (h page hpage).trans (hg.frames _ hfree htable)

/-- The address space of an image that is being loaded. -/
structure Loading (memory : State) (root : Word64) (b : Building) : Prop where
  built : Built memory.pmm root b.owned b.memory
  kept : UsedKept memory b.memory

/-- A page of a segment is mapped as its header asks, to a frame with the bytes of the segment. -/
def ShowsPage (image : Word64 → UInt8) (base root : Word64) (g : Segment) (virt : Word64)
    (b : Building) : Prop :=
  ∃ phys, ⟨virt, phys⟩ ∈ b.owned ∧
    IsUserPage b.memory root ⟨virt, phys⟩ (Segment.pageFlags ((pFlags g.ph).value image)) ∧
    IsFrame b.memory root phys ∧
    ∀ k < kPageSize, byteAt b.memory (phys + BitVec.ofNat 64 k) =
      g.byteOf image base (virt + BitVec.ofNat 64 k)

/-- All pages of a segment are there. -/
def ShowsSegment (image : Word64 → UInt8) (base root : Word64) (g : Segment) (b : Building) :
    Prop :=
  ∀ i < pagesBetween g.start g.stop, ShowsPage image base root g (pageAbove g.start i) b

/-- The bytes of a frame stay while the address space grows. -/
lemma IsFrame.byteAt (h : IsFrame s root phys) (hg : Grows (table root) s s') (hk : k < kPageSize) :
    byteAt s' (phys + BitVec.ofNat 64 k) = byteAt s (phys + BitVec.ofNat 64 k) := by
  have hnat : (phys + BitVec.ofNat 64 k).toNat / kPageSize = phys.toNat / kPageSize := by
    have halign := h.aligned
    rw [toNat_add, toNat_ofNat]
    simp only [kPageSize] at halign hk ⊢
    omega
  apply byteAt_of_samePage
  rw [hnat]
  exact hg.frames _ h.used h.noTable

lemma ShowsPage.extended (h : ShowsPage image base root g virt b) (hext : b.Extends root V b') :
    ShowsPage image base root g virt b' := by
  obtain ⟨phys, howned, hpage, hframe, hbytes⟩ := h
  refine ⟨phys, hext.owned _ howned, hpage.grows hext.grows, hframe.grows hext.grows,
    fun k hk => ?_⟩
  rw [hframe.byteAt hext.grows hk, hbytes k hk]

lemma user_pageFlags (w : Word64) : User (Segment.pageFlags w) := by
  rw [user_iff, Segment.pageFlags]
  simp [PageUser]

/-! ## Loading -/

namespace Loading

section

variable (h : Loading memory root b)
include h

/-- A page that has been added to an image that is being loaded. -/
lemma adds {flags : Word64} {filled : State}
    (hadds : b.Adds root virt flags filled b') (hv : LowerHalf virt) (huser : User flags) :
    Loading memory root b' ∧ b.Extends root (· = virt) b' := by
  have hext := h.built.extended hadds hv
  exact ⟨⟨h.built.adds hadds hv huser, h.kept.grows h.built.sound hext.grows⟩, hext⟩

lemma kept_of_onlyFrame (hpage : b.memory.pmm.allocatePage.2 ≠ 0)
    (honly : OnlyFrame b.frame b.taken b') : UsedKept memory b'.memory := by
  intro page hused
  have hfills := fills_of_onlyFrame hpage honly
  refine (h.kept page hused).trans (hfills.same _ fun heq => ?_)
  exact (h.built.sound.untouched hused).1 (heq ▸ (fresh_allocatePage hpage).free)

/-- The frame of a page of a segment is made ready; it has the bytes of the segment if these lie in
the image. -/
lemma prepare (hused : ImageUsed memory base size)
    (hpage : b.memory.pmm.allocatePage.2 ≠ 0) (hlow : g.Low) (hvirt : g.IsPage virt) :
    OnlyFrame b.frame b.taken (g.copyPart base virt b.frame (b.taken.clear b.frame)) ∧
      (g.Fits size → ∀ k < kPageSize,
        byteAt (g.copyPart base virt b.frame (b.taken.clear b.frame)).memory
          (b.frame + BitVec.ofNat 64 k) =
            g.byteOf (byteAt memory) base (virt + BitVec.ofNat 64 k)) := by
  have hg := fresh_allocatePage hpage
  have halign : b.frame.toNat % kPageSize = 0 := by
    rw [frame, hg.toNat_ofNat]
    exact hg.aligned
  have hsmall : b.frame.toNat < 2 ^ 52 := by
    rw [frame, hg.toNat_ofNat]
    exact hg.small
  have hclear : OnlyFrame b.frame b.taken (b.taken.clear b.frame) := onlyFrame_clear halign
  obtain ⟨hcopy, hbytes⟩ :=
    Segment.copyPart_spec base (b.taken.clear b.frame) hlow hvirt halign hsmall
  refine ⟨hclear.trans hcopy, fun hfits k hk => ?_⟩
  have hbelow := hvirt.below
  have hva : (virt + BitVec.ofNat 64 k).toNat = virt.toNat + k := by
    rw [toNat_add, toNat_ofNat]
    omega
  rw [hbytes k hk, Segment.byteOf, hva]
  split_ifs with hin
  · refine (h.kept_of_onlyFrame hpage hclear).image hused _ ?_
    -- the byte of the file lies in the image
    have hinFile := hfits.inFile
    rw [BitVec.add_comm base, BitVec.add_sub_cancel, toNat_add,
      toNat_sub_of_le (BitVec.le_def.2 (by omega))]
    omega
  · exact byteAt_clear halign hk hsmall

lemma loadPage (hused : ImageUsed memory base size) (hlow : g.Low) (hvirt : g.IsPage virt)
    (hflags : ∀ s, UsedKept memory s →
      (pFlags g.ph).value (byteAt s) = (pFlags g.ph).value (byteAt memory))
    (hok : (g.loadPage base root virt b).1 = true) :
    Loading memory root (g.loadPage base root virt b).2 ∧
      b.Extends root (· = virt) (g.loadPage base root virt b).2 ∧
      (g.Fits size →
        ShowsPage (byteAt memory) base root g virt (g.loadPage base root virt b).2) := by
  rw [Segment.loadPage] at hok ⊢
  split_ifs at hok ⊢ with hadd
  · have hpages := adds_of_addPage (fun hpage => (h.prepare hused hpage hlow hvirt).1) hadd
    generalize b.addPage root virt _ _ = r at hpages ⊢
    obtain ⟨honly, hbytes⟩ := h.prepare hused hpages.fills.page hlow hvirt
    have hvalue : (pFlags g.ph).value (byteAt
        (g.copyPart base virt b.frame (b.taken.clear b.frame)).memory) =
          (pFlags g.ph).value (byteAt memory) :=
      hflags _ (h.kept_of_onlyFrame hpages.fills.page honly)
    rw [Scan.value_bind, hvalue] at hpages
    have huser := user_pageFlags ((pFlags g.ph).value (byteAt memory))
    obtain ⟨hloading, hext⟩ := h.adds hpages hvirt.lowerHalf huser
    have howned : ⟨virt, b.frame⟩ ∈ r.2.owned := by simp [hpages.owned]
    have hshows (hfits : g.Fits size) : ShowsPage (byteAt memory) base root g virt r.2 := by
      refine ⟨b.frame, howned, h.built.isUserPage hpages hvirt.lowerHalf huser,
        hloading.built.sound.frames _ howned, fun k hk => ?_⟩
      have hframe : IsFrame (g.copyPart base virt b.frame (b.taken.clear b.frame)).memory root
          b.frame := isFrame_of_fills hpages.fills h.built.sound.tables
      rw [hpages.memory, hframe.byteAt (grows_mapPage
        (hpages.fills.tables h.built.sound.tables) hvirt.lowerHalf) hk, hbytes hfits k hk]
    exact ⟨⟨hloading.built, hloading.kept⟩, ⟨hext.grows, hext.owned, hext.added⟩, hshows⟩
  · exact absurd hok hadd

lemma loadPages (hused : ImageUsed memory base size) (hlow : g.Low)
    (hflags : ∀ s, UsedKept memory s →
      (pFlags g.ph).value (byteAt s) = (pFlags g.ph).value (byteAt memory))
    (hok : (g.loadPages base root b).1 = true) :
    Loading memory root (g.loadPages base root b).2 ∧
      b.Extends root g.HasPage (g.loadPages base root b).2 ∧
      (g.Fits size → ShowsSegment (byteAt memory) base root g (g.loadPages base root b).2) := by
  have hloop := Attempt.passed (P := fun i b' => Loading memory root b' ∧
      b.Extends root g.HasPage b' ∧
      (g.Fits size → ∀ j < i, ShowsPage (byteAt memory) base root g (pageAbove g.start j) b'))
    ⟨h, .refl root b, fun _ j hj => absurd hj (not_lt_zero j)⟩ ?_ hok
  · rwa [zero_add] at hloop
  rintro i b' - hi ⟨hloading, hext, hshown⟩ hround
  rw [zero_add] at hi
  obtain ⟨hloading', hext', hpage⟩ :=
    hloading.loadPage hused hlow (Segment.isPage_pageAbove hlow hi) hflags hround
  refine ⟨hloading', hext.trans (hext'.mono fun v hv => ⟨i, hi, hv⟩), fun hfits j hj => ?_⟩
  rcases Nat.lt_succ_iff_lt_or_eq.1 hj with hlt | rfl
  · exact (hshown hfits j hlt).extended hext'
  · exact hpage hfits

end

end Loading

/-- The segment a program header describes. -/
def segmentAt (image : Word64 → UInt8) (ph : Word64) : Segment :=
  ⟨ph, (pOffset ph).value image, (pVaddr ph).value image, (pFilesz ph).value image,
    (pMemsz ph).value image⟩

/-- A segment that is to be loaded lies in the lower half. -/
def SegmentBelow (image : Word64 → UInt8) (ph : Word64) : Prop :=
  (pType ph).value image = kElfLoad →
    ((pVaddr ph).value image).toNat + ((pMemsz ph).value image).toNat ≤ 2 ^ 47
  deriving Decidable

/-- The ends of a segment that is to be loaded do not wrap, and it lies in the lower half. -/
def SegmentLower (image : Word64 → UInt8) (ph : Word64) : Prop :=
  (pType ph).value image = kElfLoad →
    ((pOffset ph).value image).toNat + ((pFilesz ph).value image).toNat < 2 ^ 64 ∧
    ((pVaddr ph).value image).toNat + ((pMemsz ph).value image).toNat ≤ 2 ^ 47
  deriving Decidable

lemma ShowsSegment.extended (h : ShowsSegment image base root g b) (hext : b.Extends root V b') :
    ShowsSegment image base root g b' :=
  fun i hi => (h i hi).extended hext

/-- The address belongs to a page of a segment that is to be loaded, described by the header. -/
def HeaderPage (image : Word64 → UInt8) (ph v : Word64) : Prop :=
  (pType ph).value image = kElfLoad ∧ (segmentAt image ph).HasPage v

namespace Loading

variable {phoff : Word64} {n : ℕ}

/-- What is read of the image has not changed. -/
lemma value_eq {α : Type} {m : Scan α} (h : ImageKept memory s base size)
    (hm : ∀ mem, Scan.Within (InImage base size) m mem) :
    m.value (byteAt s) = m.value (byteAt memory) :=
  h.value (hm _)

lemma loadSegment {ph : Word64} (h : Loading memory root b) (hused : ImageUsed memory base size)
    (hheader : ImageUsed memory ph sizeofPhdr) (hbelow : SegmentBelow (byteAt memory) ph)
    (hok : (b.loadSegment base size root ph).1 = true) :
    Loading memory root (b.loadSegment base size root ph).2 ∧
      b.Extends root (HeaderPage (byteAt memory) ph) (b.loadSegment base size root ph).2 ∧
      (SegmentNoWrap (byteAt memory) ph → (pType ph).value (byteAt memory) = kElfLoad →
        (segmentAt (byteAt memory) ph).Fits size ∧
        ShowsSegment (byteAt memory) base root (segmentAt (byteAt memory) ph)
          (b.loadSegment base size root ph).2) := by
  have hphdr (mem : Word64 → UInt8) := within_header_at mem ph
  have hkept := h.kept.image hheader
  have htype := value_eq hkept fun mem => (hphdr mem).1
  have hoff := value_eq hkept fun mem => (hphdr mem).2.2.1
  have hvaddr := value_eq hkept fun mem => (hphdr mem).2.2.2.1
  have hfilesz := value_eq hkept fun mem => (hphdr mem).2.2.2.2.2.1
  have hmemsz := value_eq hkept fun mem => (hphdr mem).2.2.2.2.2.2
  rw [Building.loadSegment] at hok ⊢
  simp only [Building.scan, htype, hoff, hvaddr, hfilesz, hmemsz] at hok ⊢
  split_ifs at hok ⊢ with hload hsizes hcheck
  · exact ⟨⟨h.built, h.kept⟩, ⟨.refl _ _, fun _ ho => ho, fun _ ho => .inl ho⟩,
      fun _ heq => absurd heq hload⟩
  have hlow : (segmentAt (byteAt memory) ph).Low := by
    rw [lt_def, not_lt] at hsizes
    exact ⟨hsizes, hbelow (not_not.1 hload)⟩
  have hpages := Loading.loadPages ?_ hused hlow
    (fun s hkept => value_eq (hkept.image hheader) fun mem => (hphdr mem).2.1) hok
  · obtain ⟨hloading, hext, hshown⟩ := hpages
    have hadded := hext.mono (fun v hv => (⟨not_not.1 hload, hv⟩ : HeaderPage (byteAt memory) ph v))
    refine ⟨hloading, ⟨hadded.grows, hadded.owned, hadded.added⟩, fun hno htype => ?_⟩
    have hfits : (segmentAt (byteAt memory) ph).Fits size := ⟨hlow, segment_end (hno htype) hcheck⟩
    exact ⟨hfits, hshown hfits⟩
  · exact ⟨h.built, h.kept⟩

/-- The loop over the program headers. -/
lemma loadSegments (h : Loading memory root b) (hused : ImageUsed memory base size)
    (hheaders : ∀ i < n, ImageUsed memory (phdr base phoff i) sizeofPhdr)
    (hbelow : ∀ i < n, SegmentBelow (byteAt memory) (phdr base phoff i))
    (hok : (b.loadSegments base size root phoff n).1 = true) :
    Loading memory root (b.loadSegments base size root phoff n).2 ∧
      b.Extends root (fun v => ∃ i < n, HeaderPage (byteAt memory) (phdr base phoff i) v)
        (b.loadSegments base size root phoff n).2 ∧
      ∀ i < n, SegmentNoWrap (byteAt memory) (phdr base phoff i) →
        (pType (phdr base phoff i)).value (byteAt memory) = kElfLoad →
        (segmentAt (byteAt memory) (phdr base phoff i)).Fits size ∧
        ShowsSegment (byteAt memory) base root (segmentAt (byteAt memory) (phdr base phoff i))
          (b.loadSegments base size root phoff n).2 := by
  have hloop := Attempt.passed (P := fun m b' => Loading memory root b' ∧
      b.Extends root (fun v => ∃ i < n, HeaderPage (byteAt memory) (phdr base phoff i) v) b' ∧
      ∀ i < m, SegmentNoWrap (byteAt memory) (phdr base phoff i) →
        (pType (phdr base phoff i)).value (byteAt memory) = kElfLoad →
        (segmentAt (byteAt memory) (phdr base phoff i)).Fits size ∧
        ShowsSegment (byteAt memory) base root (segmentAt (byteAt memory) (phdr base phoff i)) b')
    ⟨h, .refl root b, fun i hi => absurd hi (not_lt_zero i)⟩ ?_ hok
  · rwa [zero_add] at hloop
  rintro m b' - hm ⟨hloading, hext, hshown⟩ hround
  rw [zero_add] at hm
  obtain ⟨hloading', hext', hseg⟩ :=
    hloading.loadSegment hused (hheaders m hm) (hbelow m hm) hround
  refine ⟨hloading', hext.trans (hext'.mono fun v hv => ⟨m, hm, hv⟩), fun i hi hno hload => ?_⟩
  rcases Nat.lt_succ_iff_lt_or_eq.1 hi with hlt | rfl
  · obtain ⟨hfits, hshows⟩ := hshown i hlt hno hload
    exact ⟨hfits, hshows.extended hext'⟩
  · exact hseg hno hload

end Loading

end IanOS.Loader
