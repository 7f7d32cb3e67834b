import IanOS.Loader.ProcessImage

/-!
# The kernel's view of memory in a process

While the address space of a process is loaded, the kernel reads and writes frames at their physical
addresses.  This works for a frame that the identity window or the framebuffer covers, unless the
process has a page of its own at that address: `map_kernel_identity_window` passes over it, and the
kernel finds the page of the process instead of the frame.
-/

namespace IanOS.Loader

open Paging Elf PhysicalMemoryManager
open Paging.State
open LinkTree (walk)

variable {s before memory : State} {root v w active base size entry requiredLimit : Word64}
  {start : PhysicalMemoryManager} {owned : List OwnedPage} {M : Word64 → Prop}
    {fb : FramebufferInfo}
  {page : ℕ} {b : Building}

/-- The address of a page in the lower half. -/
structure LowPage (v : Word64) : Prop where
  aligned : v.toNat % kPageSize = 0
  below : v.toNat < 2 ^ 47

lemma LowPage.eq_of_path (hv : LowPage v) (hw : LowPage w) (h : path v = path w) : v = w := by
  have hvaligned := hv.aligned
  have hwaligned := hw.aligned
  have hvbelow := hv.below
  have hwbelow := hw.below
  rw [path_eq_iff, pageNumber, pageNumber] at h
  apply BitVec.eq_of_toNat_eq
  simp only [kPageSize] at h hvaligned hwaligned
  omega

/-- The memory at a physical address is mapped at this address, for the kernel only, and can be
written. -/
structure IdentityMapped (s : State) (root v : Word64) : Prop where
  translate : s.translate root v = v
  supervisor : ¬s.UserAccessible root v
  entries : ∀ e ∈ s.entries root v, Present e ∧ Writable e

/-- What is mapped at a page after the user pages and the kernel's. -/
lemma identityMapped_iff (hbuilt : Built start root owned before)
    (hruntime : Runtime start root owned before M s) (hroot : root ≠ 0)
    (hM : ∀ w, M w → LowPage w) (howned : ∀ o ∈ owned, LowPage o.virt) (hv : LowPage v) :
    IdentityMapped s root v ↔ (∀ o ∈ owned, o.virt ≠ v) ∧ M v := by
  have hlower : LowerHalf v := lowerHalf_of_lt hv.below
  -- a page that is there before the kernel's is one of the process
  have honly (hpres : Present (leafOf before root v)) : ∃ o ∈ owned, o.virt = v := by
    obtain ⟨o, ho, hpath⟩ := hbuilt.only v hlower hpres
    exact ⟨o, ho, (howned o ho).eq_of_path hv hpath⟩
  constructor
  · intro h
    have hno : ∀ o ∈ owned, o.virt ≠ v := by
      rintro o ho rfl
      obtain ⟨flags, hpage⟩ := hbuilt.pages o ho
      exact h.supervisor (hpage.grows hruntime.grows).userAccessible
    refine ⟨hno, ?_⟩
    rcases hruntime.leaves v hlower with hsame | ⟨-, w, flags, hw, hpath, -⟩
    · have hleaf : Present (leafOf s root v) := (h.entries _ (by simp [State.entries, leafOf])).1
      rw [hsame] at hleaf
      obtain ⟨o, ho, heq⟩ := honly hleaf
      exact absurd heq (hno o ho)
    · rwa [← (hM w hw).eq_of_path hv hpath]
  rintro ⟨hno, hMv⟩
  rcases hruntime.leaves v hlower with hsame | ⟨-, w, flags, hw, hpath, hwrite, huser, hleaf⟩
  · have hpres := (hruntime.mapped v hMv).2
    rw [hsame] at hpres
    obtain ⟨o, ho, heq⟩ := honly hpres
    exact absurd heq (hno o ho)
  obtain rfl : w = v := (hM w hw).eq_of_path hv hpath
  have hbelow := hv.below
  have halign : w &&& 0xfff = 0 := and_fff_eq_zero.2 hv.aligned
  have hwalk : walk s.link (table root) (path w) = some w.toNat := by
    rw [show path w = [pml4Index w, pdptIndex w, pdIndex w] ++ [ptIndex w] from rfl, walk_concat,
      ← leafOf, hleaf, if_pos (present_leafEntry _ _), table_leaf halign (by omega)]
  refine ⟨?_, fun h => huser ?_, ?_⟩
  · have htrans := translate_of_walk (o := 0) hroot halign (by decide) hwalk
    rwa [BitVec.ofNat_eq_ofNat, BitVec.add_zero] at htrans
  · have hall := h (leafOf s root w) (by simp [State.entries, leafOf])
    rw [hleaf, user_leafEntry] at hall
    exact hall.2
  rw [forall_mem_entries]
  intro q j hq
  have hpres := present_of_walk hwalk hq
  refine ⟨hpres, ?_⟩
  by_cases hlen : q.length ≤ 2
  · exact hruntime.upper w hlower q j hq hlen hpres
  rcases concat_isPrefix_path_iff.1 hq with ⟨rfl, -⟩ | ⟨rfl, -⟩ | ⟨rfl, -⟩ | ⟨rfl, rfl⟩
  · simp at hlen
  · simp at hlen
  · simp at hlen
  · rwa [← leafOf, hleaf, writable_leafEntry]

/-! ## The pages of the two ranges, and of the process -/

lemma Runtime.lowPage (h : Runtime start root owned before
      (fun v => InWindow requiredLimit v ∨ InFramebuffer fb v) s) (hfb : FramebufferLow fb)
    (hw : InWindow requiredLimit w ∨ InFramebuffer fb w) : LowPage w := by
  rcases hw with ⟨i, hi, rfl⟩ | ⟨-, i, hi, rfl⟩
  · have hle : i + 1 ≤ 2 ^ 29 := h.sound.window_le fun j hj =>
      (h.mapped _ (.inl ⟨j, by omega, rfl⟩)).2
    have hnat := toNat_windowPage (i := i) (by omega)
    refine ⟨by rw [hnat, Nat.mul_mod_left], ?_⟩
    rw [hnat]
    simp only [kPageSize]
    omega
  · obtain ⟨hnat, hbelow⟩ := toNat_framebufferPage hfb hi
    refine ⟨?_, hbelow⟩
    rw [hnat, ← Nat.add_mul, Nat.mul_mod_left]

lemma IsStackPage.lowPage (h : IsStackPage v) : LowPage v := by
  obtain ⟨i, hi, rfl⟩ := h
  have hnat := toNat_stackPage hi
  refine ⟨?_, ?_⟩ <;> rw [hnat] <;> simp only [kPageSize] <;> omega

/-- The address of a frame. -/
def frameAddress (page : ℕ) : Word64 := BitVec.ofNat 64 (page * kPageSize)

lemma toNat_frameAddress (h : page < kPmmBitmapPages) :
    (frameAddress page).toNat = page * kPageSize := by
  simp only [kPmmBitmapPages] at h
  rw [frameAddress, BitVec.toNat_ofNat]
  simp only [kPageSize]
  omega

lemma lowPage_frameAddress (h : page < kPmmBitmapPages) : LowPage (frameAddress page) := by
  have hnat := toNat_frameAddress h
  simp only [kPmmBitmapPages] at h
  refine ⟨by rw [hnat, Nat.mul_mod_left], ?_⟩
  rw [hnat]
  simp only [kPageSize]
  omega

lemma not_isStackPage_frameAddress (h : page < kPmmBitmapPages) :
    ¬IsStackPage (frameAddress page) := by
  rintro ⟨i, hi, heq⟩
  have hnat := congrArg BitVec.toNat heq
  rw [toNat_frameAddress h, toNat_stackPage hi] at hnat
  simp only [kPmmBitmapPages, kDefaultUserStackPages, kPageSize] at h hi hnat
  omega

lemma finished_of_buildProcess (hinv : memory.pmm.Inv) (hfb : FramebufferLow fb)
    (hok : (buildProcess fb active entry memory).1 = some root) :
    root ≠ 0 ∧ ∃ before, Built memory.pmm root
      (buildProcess fb active entry memory).2.owned before ∧
      Runtime memory.pmm root (buildProcess fb active entry memory).2.owned before
        (fun v => InWindow (entry + pageSize) v ∨ InFramebuffer fb v)
        (buildProcess fb active entry memory).2.memory ∧
      ∀ o ∈ (buildProcess fb active entry memory).2.owned, IsStackPage o.virt := by
  rw [buildProcess] at hok ⊢
  dsimp only at hok ⊢
  split_ifs at hok ⊢ with hentry hroot hstack hruntime
  obtain rfl := Option.some.inj hok
  have hbuilt := built_createAddressSpace hinv hroot
  generalize memory.createAddressSpace active = c at hroot hstack hruntime hbuilt ⊢
  obtain ⟨hstacked, hext⟩ := Built.mapStack hbuilt (fun phys b _ => OnlyFrame.refl phys b) hstack
  generalize Building.mapStack _ c.1 _ = r at *
  refine ⟨hroot, r.2.memory, hstacked, hstacked.mapRuntime hfb hruntime, fun o ho => ?_⟩
  exact (hext.added o ho).resolve_left List.not_mem_nil

/-! ## The two functions -/

/-- All frames that an allocator can hand out are in the kernel's view. -/
def IdentityView (pmm : PhysicalMemoryManager) (s : State) (root : Word64) : Prop :=
  ∀ page ∈ pmm.freeSet, IdentityMapped s root (frameAddress page)

lemma Finished.owned_iff (h : Finished fb memory base size root before b)
    (hpage : page < kPmmBitmapPages) :
    (∀ o ∈ b.owned, o.virt ≠ frameAddress page) ↔
      ¬ImagePage (byteAt memory) base (frameAddress page) := by
  constructor
  · rintro hno ⟨i, hi, htype, k, hk, heq⟩
    obtain ⟨phys, ho, -⟩ := (h.segments i hi htype).2 k hk
    exact hno _ ho heq.symm
  · intro hno o ho heq
    rcases h.pages o ho with himage | hstack
    · exact hno (heq ▸ himage)
    · exact not_isStackPage_frameAddress hpage (heq ▸ hstack)

lemma Finished.lowPage {o : OwnedPage} (h : Finished fb memory base size root before b)
    (ho : o ∈ b.owned) : LowPage o.virt := by
  rcases h.pages o ho with ⟨i, hi, htype, k, hk, heq⟩ | hstack
  · have hpage := Segment.isPage_pageAbove (h.segments i hi htype).1.toLow hk
    rw [heq]
    refine ⟨hpage.aligned, ?_⟩
    have hbelow := hpage.below
    simp only [kPageSize] at hbelow
    omega
  · exact hstack.lowPage

/-- The frames the kernel sees in a process from an image. -/
lemma Finished.identityMapped_iff (page : ℕ) (h : Finished fb memory base size root before b)
    (hroot : root ≠ 0) (hfb : FramebufferLow fb) (hpage : page < kPmmBitmapPages) :
    IdentityMapped b.memory root (frameAddress page) ↔
      ¬ImagePage (byteAt memory) base (frameAddress page) ∧
        (InWindow (base + size) (frameAddress page) ∨ InFramebuffer fb (frameAddress page)) := by
  rw [Loader.identityMapped_iff h.built h.runtime hroot (fun w hw => h.runtime.lowPage hfb hw)
    (fun o ho => h.lowPage ho) (lowPage_frameAddress hpage), h.owned_iff hpage]

/-- Both functions, when they succeed, for whatever the allocator can hand out while the address
space is loaded.  The kernel sees these frames at their own addresses if and only if each of them
lies in the identity window or the framebuffer, and none lies at the address of a page of the image.
-/
theorem identity_view_iff (fb : FramebufferInfo) (active : Word64) (memory : State)
    (pmm : PhysicalMemoryManager) (hinv : memory.pmm.Inv) (hfb : FramebufferLow fb) :
    (∀ entry root : Word64, (buildProcess fb active entry memory).1 = some root →
      (IdentityView pmm (buildProcess fb active entry memory).2.memory root ↔
        ∀ page ∈ pmm.freeSet, InWindow (entry + pageSize) (frameAddress page) ∨
          InFramebuffer fb (frameAddress page))) ∧
    ∀ base size root entry : Word64, ImageUsed memory base size → HeadersUsed memory base →
      SegmentsLower (byteAt memory) base →
      (buildProcessFromElf fb active base size memory).1 = some (root, entry) →
      (IdentityView pmm (buildProcessFromElf fb active base size memory).2.memory root ↔
        ∀ page ∈ pmm.freeSet, ¬ImagePage (byteAt memory) base (frameAddress page) ∧
          (InWindow (base + size) (frameAddress page) ∨ InFramebuffer fb (frameAddress page))) := by
  refine ⟨fun entry root hok => ?_, fun base size root entry hused hheaders hlower hok => ?_⟩
  · obtain ⟨hroot, before, hbuilt, hruntime, hstack⟩ := finished_of_buildProcess hinv hfb hok
    refine forall₂_congr fun page hpage => ?_
    replace hpage := lt_of_mem_freeSet hpage
    rw [identityMapped_iff hbuilt hruntime hroot (fun w hw => hruntime.lowPage hfb hw)
      (fun o ho => (hstack o ho).lowPage) (lowPage_frameAddress hpage)]
    refine and_iff_right fun o ho heq => ?_
    exact not_isStackPage_frameAddress hpage (heq ▸ hstack o ho)
  · obtain ⟨hroot, before, h⟩ := finished_of_some hinv hused hheaders hlower hfb hok
    exact forall₂_congr fun page hpage =>
      h.identityMapped_iff page hroot hfb (lt_of_mem_freeSet hpage)

lemma inWindow_frameAddress (hpage : page < kPmmBitmapPages)
    (hsize : pagesBetween 0 (identityLimit requiredLimit) ≤ 2 ^ 29) :
    InWindow requiredLimit (frameAddress page) ↔
      page < pagesBetween 0 (identityLimit requiredLimit) := by
  constructor
  · rintro ⟨i, hi, heq⟩
    have hnat := congrArg BitVec.toNat heq
    rw [toNat_frameAddress hpage, toNat_windowPage (by omega)] at hnat
    simp only [kPageSize] at hnat
    omega
  · intro hlt
    refine ⟨page, hlt, BitVec.eq_of_toNat_eq ?_⟩
    rw [toNat_frameAddress hpage, toNat_windowPage (by omega)]

lemma pages_loadable : pagesBetween 0 (identityLimit (0x1000 + 128)) = 0x10000 := by decide +kernel

/-- While only the memory below the image can be handed out, the kernel sees it. -/
theorem identity_view_low :
    IdentityView { gigabyte with bitmap := clearBytes 0x20 0x80 }
      (buildProcessFromElf ⟨0, 0, 0, 0⟩ 0 0x1000 128 loadable).2.memory 0x100000 := by
  refine ((identity_view_iff ⟨0, 0, 0, 0⟩ 0 loadable _ inv_gigabyte (by decide)).2 0x1000
    128 0x100000
    0x400000 imageUsed_loadable headersUsed_loadable segmentsLower_loadable build_loadable).2 ?_
  intro page hpage
  have hrange : 0x100 ≤ page ∧ page < 0x400 := by
    rwa [freeSet, clearBelow_clearBytes (by decide), Finset.mem_Ico] at hpage
  have hlt : page < kPmmBitmapPages := by
    rw [kPmmBitmapPages]
    omega
  refine ⟨?_, .inl ((inWindow_frameAddress hlt ?_).2 ?_)⟩
  · rintro ⟨i, hi, -, k, hk, heq⟩
    have hone : ((ePhnum 0x1000).value (byteAt loadable)).toNat = 1 := by decide +kernel
    rw [hone, Nat.lt_one_iff] at hi
    have hpages :
        let g :=
          segmentAt (byteAt loadable) (phdr 0x1000 ((ePhoff 0x1000).value (byteAt loadable)) 0)
        pagesBetween g.start g.stop = 1 ∧ pageAbove g.start 0 = 0x400000 := by decide +kernel
    rw [hi, hpages.1, Nat.lt_one_iff] at hk
    rw [hi, hk, hpages.2] at heq
    have hnat := congrArg BitVec.toNat heq
    rw [toNat_frameAddress hlt] at hnat
    simp only [kPageSize, BitVec.reduceToNat] at hnat
    omega
  · rw [pages_loadable]
    omega
  · rw [pages_loadable]
    omega

/-- The image has a page at 4 megabytes, which hides the frame there, and the frames above 256
megabytes are not mapped at all. -/
theorem identity_view_hidden :
    (buildProcessFromElf ⟨0, 0, 0, 0⟩ 0 0x1000 128 loadable).1 = some (0x100000, 0x400000) ∧
    0x400 ∈ loadable.pmm.freeSet ∧ 0x20000 ∈ loadable.pmm.freeSet ∧
    ¬IdentityMapped (buildProcessFromElf ⟨0, 0, 0, 0⟩ 0 0x1000 128 loadable).2.memory 0x100000
      0x400000 ∧
    ¬IdentityMapped (buildProcessFromElf ⟨0, 0, 0, 0⟩ 0 0x1000 128 loadable).2.memory 0x100000
      0x20000000 := by
  have hfb : FramebufferLow ⟨0, 0, 0, 0⟩ := by decide
  obtain ⟨hroot, before, h⟩ := finished_of_some inv_gigabyte imageUsed_loadable headersUsed_loadable
    segmentsLower_loadable hfb build_loadable
  have hfree (page : ℕ) : page ∈ loadable.pmm.freeSet ↔ 0x100 ≤ page ∧ page < 0x40000 := by
    rw [loadable, freeSet_gigabyte, Finset.mem_Ico]
  refine ⟨build_loadable, (hfree _).2 (by omega), (hfree _).2 (by omega), ?_, ?_⟩
  · intro hmapped
    refine ((h.identityMapped_iff 0x400 hroot hfb (by decide)).1 hmapped).1 ?_
    exact ⟨0, by decide +kernel, by decide +kernel, 0, by decide +kernel, by decide +kernel⟩
  intro hmapped
  rcases ((h.identityMapped_iff 0x20000 hroot hfb (by decide)).1 hmapped).2 with
    hwindow | ⟨hsome, -⟩
  · rw [inWindow_frameAddress (by decide) (by rw [pages_loadable]; omega),
      pages_loadable] at hwindow
    omega
  · exact hsome (.inl rfl)

end IanOS.Loader
