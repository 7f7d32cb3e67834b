import IanOS.Loader.ImageReads

/-!
# The address space of a process from an image

What `create_process_from_elf` has built when it succeeds: the pages of the segments with the bytes
of the file, the stack, and the kernel's pages at the addresses that are left.
-/

namespace IanOS.Loader

open Paging Elf BitVec Building Segment
open Paging.State
open LinkTree (walk)

variable {s : State} {base size root active entry phoff v va : Word64} {memory : State}
  {fb : FramebufferInfo} {phnum i k : ℕ} {o : OwnedPage} {image : Word64 → UInt8} {g : Segment}
  {b : Building}

/-- The segments of the image do not wrap and lie in the lower half. -/
def SegmentsLower (image : Word64 → UInt8) (base : Word64) : Prop :=
  ∀ i < ((ePhnum base).value image).toNat,
    SegmentLower image (phdr base ((ePhoff base).value image) i)

instance : Decidable (SegmentsLower image base) := inferInstanceAs (Decidable (∀ _ < _, _))

/-- The address belongs to a page of a segment of the image. -/
def ImagePage (image : Word64 → UInt8) (base v : Word64) : Prop :=
  ∃ i < ((ePhnum base).value image).toNat,
    HeaderPage image (phdr base ((ePhoff base).value image) i) v

/-! ## The steps of the function -/

/-- The segments of the image fit in it, and the building shows them. -/
def ShowsSegments (image : Word64 → UInt8) (base size root : Word64) (b : Building) : Prop :=
  ∀ i < ((ePhnum base).value image).toNat,
    let ph := phdr base ((ePhoff base).value image) i
    (pType ph).value image = kElfLoad →
      (segmentAt image ph).Fits size ∧ ShowsSegment image base root (segmentAt image ph) b

/-- What the function has built when the stack is in place. -/
structure Staged (memory : State) (base size root : Word64) (b : Building) : Prop where
  built : Built memory.pmm root b.owned b.memory
  pages : ∀ o ∈ b.owned, ImagePage (byteAt memory) base o.virt ∨ IsStackPage o.virt
  segments : ShowsSegments (byteAt memory) base size root b

/-- Without a framebuffer the window is all there is to map. -/
lemma mapKernelRuntimeRanges_of_window {limit : Word64} (hfb : fb.base = 0)
    (hwin : (mapKernelIdentityWindow root limit memory).1 = true) :
    (mapKernelRuntimeRanges fb root limit memory).1 = true := by
  rw [mapKernelRuntimeRanges]
  rw [if_neg (not_not.2 hwin), hfb]
  exact congrArg Prod.fst (if_pos (.inl rfl))

section

variable {e : Word64 × Building}
  (hopen : (openImage active base size memory).1 = some (root, phoff, phnum))
  (hload : ((openImage active base size memory).2.loadSegments base size root phoff phnum).1 = true)
  (he : ((openImage active base size memory).2.loadSegments base size root phoff phnum).2.scan
    (eEntry base) = e)
  (hstack : (e.2.mapStack root clear).1 = true)
include hopen hload he hstack

/-- The steps before the kernel's pages, for an image in the lower half. -/
lemma staged_of_stack (hinv : memory.pmm.Inv) (hused : ImageUsed memory base size)
    (hheaders : HeadersUsed memory base) (hlower : SegmentsLower (byteAt memory) base) :
    root ≠ 0 ∧ Staged memory base size root (e.2.mapStack root clear).2 := by
  subst he
  obtain ⟨hvalid, hroot, hne, hmemory, howned, hphoff, hphnum⟩ := of_openImage hopen
  obtain ⟨hsize, -⟩ := validElf64_eq_true.1 hvalid
  have hheader (mem : Word64 → UInt8) := within_header mem base hsize
  have hkept := usedKept_createAddressSpace memory active
  rw [Loading.value_eq (hkept.image hused) fun mem => (hheader mem).2.2.2.2.1] at hphoff
  rw [Loading.value_eq (hkept.image hused) fun mem => (hheader mem).2.2.2.2.2] at hphnum
  have hbuilt := built_createAddressSpace hinv hne
  rw [← hroot, ← hmemory, ← howned] at hbuilt
  rw [← hmemory] at hkept
  rw [← hroot] at hne
  rw [HeadersUsed, ← hphoff, ← hphnum] at hheaders
  rw [SegmentsLower, ← hphoff, ← hphnum] at hlower
  generalize (openImage active base size memory).2 = b at hbuilt hkept howned hload hstack ⊢
  obtain ⟨hloading, hext, hshown⟩ :=
    Loading.loadSegments ⟨hbuilt, hkept⟩ hused hheaders
      (fun i hi hload => (hlower i hi hload).2) hload
  generalize b.loadSegments base size root phoff phnum = r at *
  obtain ⟨hbuilt', hext'⟩ := Built.mapStack (b := (r.2.scan (eEntry base)).2) hloading.built
    (fun phys b halign => onlyFrame_clear halign) hstack
  refine ⟨hne, hbuilt', fun o ho => ?_, fun i hi htype => ?_⟩
  · rw [ImagePage, ← hphoff, ← hphnum]
    rcases hext'.added o ho with hold | hnew
    · rcases hext.added o hold with hnone | himage
      · rw [howned] at hnone
        exact absurd hnone List.not_mem_nil
      · exact .inl himage
    · exact .inr hnew
  · rw [← hphoff] at htype ⊢
    rw [← hphnum] at hi
    obtain ⟨hfits, hshows⟩ := hshown i hi (fun hload => (hlower i hi hload).1) htype
    exact ⟨hfits, hshows.extended ⟨hext'.grows, hext'.owned, hext'.added⟩⟩

variable (hfb : fb.base = 0)
  (hentry : ¬(e.2.loadedPages = 0 ∨ e.1 < e.2.firstVaddr ∨ e.2.lastVaddr ≤ e.1))
include hfb hentry

/-- If the segments, the stack and the window are in place and there is no framebuffer, then the
process is built. -/
lemma build_of_window
    (hwin : (mapKernelIdentityWindow root (base + size)
      (e.2.mapStack root clear).2.memory).1 = true) :
    buildProcessFromElf fb active base size memory =
      (some (root, e.1), ((e.2.mapStack root clear).2.mapRuntime fb root (base + size)).2) := by
  subst he
  rw [buildProcessFromElf]
  simp only [hopen]
  rw [if_neg (not_not.2 hload), if_neg hentry, if_neg (not_not.2 hstack)]
  generalize mapStack _ root _ = t at hwin ⊢
  have hruntime : (t.2.mapRuntime fb root (base + size)).1 = true :=
    mapKernelRuntimeRanges_of_window hfb hwin
  rw [if_pos hruntime]

/-- If the segments and the stack are in place, there is no framebuffer, and there are three free
pages for each page of the window, then the process is built. -/
lemma build_of_room (hinv : memory.pmm.Inv) (hused : ImageUsed memory base size)
    (hheaders : HeadersUsed memory base) (hlower : SegmentsLower (byteAt memory) base)
    (hsize : pagesBetween 0 (identityLimit (base + size)) ≤ 2 ^ 29)
    (hfree : 3 * pagesBetween 0 (identityLimit (base + size)) ≤
      (e.2.mapStack root clear).2.memory.pmm.freePages) :
    (buildProcessFromElf fb active base size memory).1 = some (root, e.1) := by
  obtain ⟨hroot, hstaged⟩ := staged_of_stack hopen hload he hstack hinv hused hheaders hlower
  rw [hstaged.built.sound.accounted.inv.free_eq] at hfree
  rw [build_of_window hopen hload he hstack hfb hentry
    (hstaged.built.window_room hinv hroot hsize hfree)]

end

/-- What the function has built when it succeeds. -/
structure Finished (fb : FramebufferInfo) (memory : State) (base size root : Word64)
    (before : State) (final : Building) : Prop where
  built : Built memory.pmm root final.owned before
  runtime : Runtime memory.pmm root final.owned before
    (fun v => InWindow (base + size) v ∨ InFramebuffer fb v) final.memory
  pages : ∀ o ∈ final.owned, ImagePage (byteAt memory) base o.virt ∨ IsStackPage o.virt
  segments : ShowsSegments (byteAt memory) base size root final

/-- Every process from an image in the lower half is built in this way. -/
lemma finished_of_some (hinv : memory.pmm.Inv) (hused : ImageUsed memory base size)
    (hheaders : HeadersUsed memory base) (hlower : SegmentsLower (byteAt memory) base)
    (hfb : FramebufferLow fb)
    (hok : (buildProcessFromElf fb active base size memory).1 = some (root, entry)) :
    root ≠ 0 ∧ ∃ before, Finished fb memory base size root before
      (buildProcessFromElf fb active base size memory).2 := by
  rw [buildProcessFromElf] at hok ⊢
  cases hopen : (openImage active base size memory).1 with
  | none =>
    simp only [hopen] at hok
    cases hok
  | some o =>
    obtain ⟨root', phoff, phnum⟩ := o
    simp only [hopen] at hok ⊢
    split_ifs at hok ⊢ with hload hloaded hstack hruntime
    obtain ⟨rfl, -⟩ : root' = root ∧ _ = entry := by
      simpa only [Option.some.injEq, Prod.mk.injEq] using hok
    obtain ⟨hne, hstaged⟩ := staged_of_stack hopen hload rfl hstack hinv hused hheaders hlower
    generalize mapStack _ root' _ = t at *
    have hfinal := hstaged.built.mapRuntime hfb hruntime
    refine ⟨hne, t.2.memory, hstaged.built, hfinal, hstaged.pages, fun i hi htype => ?_⟩
    obtain ⟨hfits, hshows⟩ := hstaged.segments i hi htype
    exact ⟨hfits, hshows.extended (V := fun _ => False)
      ⟨hfinal.grows, fun _ ho => ho, fun _ ho => .inl ho⟩⟩

/-! ## What the process sees -/

lemma writable_pageFlags (w : Word64) : Writable (Segment.pageFlags w) ↔ w &&& kElfWrite ≠ 0 := by
  rw [writable_iff, Segment.pageFlags]
  by_cases hwrite : w &&& kElfWrite = 0
  · rw [if_neg (not_not.2 hwrite)]
    split_ifs <;> simp [PageUser, PageNoExecute, hwrite]
  · rw [if_pos hwrite]
    simpa [PageWrite] using hwrite

lemma noExecute_pageFlags (w : Word64) :
    NoExecute (Segment.pageFlags w) ↔ w &&& kElfExecute = 0 := by
  rw [noExecute_iff, Segment.pageFlags]
  by_cases hexecute : w &&& kElfExecute = 0
  · simp [PageNoExecute, hexecute]
  · split_ifs <;> simpa [PageUser, PageWrite] using hexecute

/-- What holds at each address of the pages of a segment. -/
lemma ShowsSegment.at_address (va : Word64) (h : ShowsSegment image base root g b)
    (hfits : g.Fits size) (hroot : root ≠ 0) (hlo : g.start.toNat ≤ va.toNat)
    (hhi : va.toNat < g.stop.toNat) :
    byteAt b.memory (b.memory.translate root va) = g.byteOf image base va ∧
      b.memory.UserAccessible root va ∧
      (b.memory.UserWritable root va ↔ (pFlags g.ph).value image &&& kElfWrite ≠ 0) ∧
      ((∃ e ∈ b.memory.entries root va, NoExecute e) ↔
        (pFlags g.ph).value image &&& kElfExecute = 0) := by
  have hstart : g.start.toNat % kPageSize = 0 := by
    rw [start, toNat_alignDown, Nat.mul_mod_left]
  -- the page of the address, and the offset on it
  have hpage :
      g.start.toNat + (va.toNat - g.start.toNat) / kPageSize * kPageSize < g.stop.toNat := by
    simp only [kPageSize]
    omega
  obtain ⟨phys, -, huser, hframe, hbytes⟩ := h _ ((lt_pages_iff hfits.toLow).2 hpage)
  have hnat := toNat_pageAbove hpage
  generalize pageAbove g.start ((va.toNat - g.start.toNat) / kPageSize) = virt at huser hbytes hnat
  have hk : va.toNat % kPageSize < kPageSize := Nat.mod_lt _ (by decide)
  have hoff : (BitVec.ofNat 64 (va.toNat % kPageSize)).toNat = va.toNat % kPageSize := by
    rw [BitVec.toNat_ofNat, Nat.mod_eq_of_lt (lt_of_le_of_lt (Nat.mod_le _ _) va.isLt)]
  have hva : va = virt + BitVec.ofNat 64 (va.toNat % kPageSize) := by
    apply BitVec.eq_of_toNat_eq
    rw [BitVec.toNat_add, hoff, hnat]
    simp only [kPageSize] at hstart ⊢
    omega
  have hpath : path va = path virt := by
    rw [path_eq_iff, pageNumber, pageNumber, hnat]
    simp only [kPageSize] at hstart ⊢
    omega
  refine ⟨?_, ?_, ?_, ?_⟩
  · have htrans := translate_of_walk hroot huser.aligned (by rwa [hoff]) (huser.walk_eq hframe)
    rw [← hva] at htrans
    rw [htrans, hbytes _ hk, ← hva]
  · rw [userAccessible_congr hpath]
    exact huser.userAccessible
  · rw [userWritable_congr hpath, huser.userWritable_iff, writable_pageFlags]
  · rw [entries_congr hpath, huser.noExecute_iff, noExecute_pageFlags]

lemma Segment.byteOf_add (h : g.Fits size) (hk : k < g.memsz.toNat) :
    g.byteOf image base (g.vaddr + BitVec.ofNat 64 k) =
      if k < g.filesz.toNat then image (base + (g.offset + BitVec.ofNat 64 k)) else 0 := by
  have hlower := h.lower
  have hnat : (g.vaddr + BitVec.ofNat 64 k).toNat = g.vaddr.toNat + k := by
    rw [BitVec.toNat_add, BitVec.toNat_ofNat]
    omega
  rw [byteOf, hnat, BitVec.add_comm g.vaddr, BitVec.add_sub_cancel]
  exact if_congr (by omega) rfl rfl

/-- The address lies in a segment of the image that is to be loaded. -/
def InSegment (image : Word64 → UInt8) (base va : Word64) : Prop :=
  ∃ i < ((ePhnum base).value image).toNat,
    let ph := phdr base ((ePhoff base).value image) i
    (pType ph).value image = kElfLoad ∧ (segmentAt image ph).vaddr.toNat ≤ va.toNat ∧
      va.toNat < (segmentAt image ph).vaddr.toNat + (segmentAt image ph).memsz.toNat

instance {image : Word64 → UInt8} {base va : Word64} : Decidable (InSegment image base va) :=
  inferInstanceAs (Decidable (∃ i < _, _))

/-- The image with its segment behind the headers, on a machine with one gigabyte. -/
def loadable : State := { goodImage with pmm := gigabyte }

lemma imageUsed_loadable : ImageUsed loadable 0x1000 128 := by
  intro a ha
  have hpage : a.toNat / kPageSize = 1 := by
    rw [toNat_sub] at ha
    simp only [kPageSize, reduceToNat] at ha ⊢
    omega
  rw [loadable, freeSet_gigabyte, Finset.mem_Ico]
  omega

lemma headersUsed_loadable : HeadersUsed loadable 0x1000 :=
  headersUsed_of_noWrap imageUsed_loadable (by decide +kernel) (by decide +kernel)

lemma segmentsLower_loadable : SegmentsLower (byteAt loadable) 0x1000 := by decide +kernel

/-- There is enough memory for the window, so the process is built. -/
lemma build_loadable : (buildProcessFromElf ⟨0, 0, 0, 0⟩ 0 0x1000 128 loadable).1 =
    some (0x100000, 0x400000) := by
  have hopen : (openImage 0 0x1000 128 loadable).1 = some (0x100000, 64, 1) := by decide +kernel
  have hpages : pagesBetween 0 (identityLimit (0x1000 + 128)) = 65536 := by decide +kernel
  have hentry : (((openImage 0 0x1000 128 loadable).2.loadSegments 0x1000 128 0x100000 64 1).2.scan
      (eEntry 0x1000)).1 = 0x400000 := by decide +kernel
  rw [build_of_room hopen (by decide +kernel) rfl (by decide +kernel) rfl (by decide +kernel)
    inv_gigabyte imageUsed_loadable headersUsed_loadable segmentsLower_loadable (by rw [hpages]; omega)
    (by rw [hpages]; decide +kernel), hentry]

end IanOS.Loader
