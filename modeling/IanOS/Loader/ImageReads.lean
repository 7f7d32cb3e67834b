import IanOS.Loader.Room

/-!
# What the user loader reads of an image

The loader reads the file header, the program headers, and the parts of the segments it copies to
the pages of the process.  The end of the table of program headers and the end of each segment in
the file are checked once against the size of the image, by sums that wrap.

The condition under which everything it reads lies inside the image is `UserInside`.  An image that
is rejected by a check of its file header, or for which there is no address space, meets it.
Otherwise the end of the table must not wrap, and for each header that the loop reaches and accepts,
the part of the file that is copied to each page must end inside the image.  A page counts only if
it gets a frame: when memory runs out, or the table of owned pages is full, the loader gives up
before it has read the rest.

The condition is about the bytes of the image as each round of the loop finds them.  The loader does
not change them if the image is not on the allocator's list of free pages and its segments lie in
the lower half, where the tables of the new address space are its own.  Then they can be read off
the image as it was (`userInside_input`).
-/

namespace IanOS.Loader

open Paging Elf Building
open BitVec (lt_def toNat_add)
open Scan (Within)

variable {b : Building} {P : Extent → Prop} {base size root phoff virt phys active : Word64}
  {n i phnum : ℕ} {memory : State} {g : Segment} {image image' : Word64 → UInt8}

/-- Everything that has been read satisfies `P`. -/
def Building.Read (P : Extent → Prop) (b : Building) : Prop := ∀ e ∈ b.reads, P e

lemma read_scan {α : Type} {m : Scan α} :
    (b.scan m).2.Read P ↔ b.Read P ∧ Within P m (byteAt b.memory) :=
  List.forall_mem_append

lemma read_memcpy {dst src count : Word64} :
    (b.memcpy dst src count).Read P ↔ b.Read P ∧ P ⟨src, count.toNat⟩ := by
  rw [Building.Read, Building.memcpy, List.forall_mem_append, List.forall_mem_singleton,
    Building.Read]

/-- Of the steps of `addPage` only those between taking the frame and mapping it read. -/
lemma reads_addPage (b : Building) (root virt : Word64) (prepare : Word64 → Building → Building)
    (flags : Scan Word64) : (b.addPage root virt prepare flags).2.reads =
      if b.memory.pmm.allocatePage.2 = 0 then b.reads
      else ((prepare b.frame b.taken).scan flags).2.reads := by
  split_ifs with hpage
  · rw [Building.addPage, if_pos hpage]
  · rw [Building.addPage_of_page hpage]
    dsimp only
    split_ifs
    · rw [Building.trackPage]
      split_ifs <;> rfl
    · rfl

lemma Building.Read.mapStack (h : b.Read P) (root : Word64) (prepare : Word64 → Building → Building)
    (hprepare : ∀ phys b, b.Read P → (prepare phys b).Read P) :
    (b.mapStack root prepare).2.Read P := by
  refine Attempt.invariant h fun _ b _ _ hread => ?_
  rw [Building.Read, reads_addPage]
  split_ifs
  · exact hread
  · exact read_scan.2 ⟨hprepare _ _ hread, Scan.within_pure _⟩

/-! ## Segments -/

namespace Segment

/-- Where the part of the file that is copied to the page at `virt` begins, as an address of the
segment. -/
def copyStart (g : Segment) (virt : Word64) : Word64 := if g.vaddr < virt then virt else g.vaddr

/-- Where the part of the file that is copied to the page at `virt` ends. -/
def copyEnd (g : Segment) (virt : Word64) : Word64 :=
  if virt + pageSize < g.vaddr + g.filesz then virt + pageSize else g.vaddr + g.filesz

/-- The part of the file that is copied to the page at `virt`, if there is one, ends inside the
image. It is counted from where the code begins to read, by a sum that wraps. -/
def PartInside (g : Segment) (size virt : Word64) : Prop :=
  g.copyStart virt < g.copyEnd virt → (g.offset + (g.copyStart virt - g.vaddr)).toNat +
    (g.copyEnd virt - g.copyStart virt).toNat ≤ size.toNat

/-- The loop over the pages of the segment, begun in the state `b`, gets a frame for page `k`. -/
def GetsFrame (g : Segment) (base root : Word64) (b : Building) (k : ℕ) : Prop :=
  let r := attempt (fun i => g.loadPage base root (pageAbove g.start i)) k 0 b
  r.1 = true ∧ r.2.memory.pmm.allocatePage.2 ≠ 0

/-- What the loop over the pages of the segment copies lies inside the image. -/
def CopiedInside (g : Segment) (base size root : Word64) (b : Building) : Prop :=
  ∀ k < pagesBetween g.start g.stop, g.GetsFrame base root b k →
    g.PartInside size (pageAbove g.start k)

/-- The part of the file that is copied to the page at `virt`, if there is one, satisfies `P`. -/
def Part (g : Segment) (P : Extent → Prop) (base virt : Word64) : Prop :=
  g.copyStart virt < g.copyEnd virt → P ⟨base + g.offset + (g.copyStart virt - g.vaddr),
    (g.copyEnd virt - g.copyStart virt).toNat⟩

lemma part_inImage : g.Part (InImage base size) base virt ↔ g.PartInside size virt := by
  refine imp_congr_right fun hcopy => ?_
  have hpos : 0 < (g.copyEnd virt - g.copyStart virt).toNat := by bv_omega
  rw [BitVec.add_assoc, inImage_iff hpos]

lemma read_copyPart : (g.copyPart base virt phys b).Read P ↔ b.Read P ∧ g.Part P base virt := by
  show (if g.copyStart virt < g.copyEnd virt then
    b.memcpy (phys + (g.copyStart virt - virt)) (base + g.offset + (g.copyStart virt - g.vaddr))
      (g.copyEnd virt - g.copyStart virt) else b).Read _ ↔ _
  rw [Part]
  split_ifs with hcopy
  · rw [read_memcpy]
    exact and_congr_right fun _ => (imp_iff_right hcopy).symm
  · exact (and_iff_left fun h => absurd h hcopy).symm

/-- The part that is copied lies in the image if the segment does. -/
lemma partInside_of_inFile (h : g.offset.toNat + g.filesz.toNat ≤ size.toNat) :
    g.PartInside size virt := by
  intro hcopy
  -- the part begins not before the segment, and ends not after its contents
  have hle : g.vaddr.toNat ≤ (g.copyStart virt).toNat := by
    rw [copyStart]
    split_ifs with hlt
    · rw [lt_def] at hlt
      omega
    · exact le_rfl
  have hge : (g.copyEnd virt).toNat ≤ (g.vaddr + g.filesz).toNat := by
    rw [copyEnd]
    split_ifs with hlt
    · rw [lt_def] at hlt
      omega
    · exact le_rfl
  rw [lt_def] at hcopy
  rw [toNat_add] at hge
  rw [toNat_add, BitVec.toNat_sub_of_le (BitVec.le_def.2 hle),
    BitVec.toNat_sub_of_le (BitVec.le_def.2 hcopy.le)]
  omega

/-- What a round of the loop over the pages reads: if it gets a frame, then the part of the file for
the page and the flags. -/
lemma read_loadPage : (g.loadPage base root virt b).2.Read P ↔ b.Read P ∧
    (b.memory.pmm.allocatePage.2 ≠ 0 → g.Part P base virt ∧ P ⟨g.ph + 4, 4⟩) := by
  have hreads : (g.loadPage base root virt b).2.reads =
      (b.addPage root virt (fun phys b => g.copyPart base virt phys (b.clear phys))
        (return pageFlags (← pFlags g.ph))).2.reads := by
    rw [loadPage]
    split_ifs <;> rfl
  rw [Building.Read, hreads, reads_addPage]
  split_ifs with hpage
  · simp [hpage, Building.Read]
  · refine read_scan.trans ?_
    rw [read_copyPart, Scan.within_bind, pFlags, Scan.within_field,
      and_iff_left (Scan.within_pure _),
      and_assoc]
    exact and_congr_right fun _ => (imp_iff_right hpage).symm

/-- The loop over the pages reads inside the image if and only if what it copies lies there. -/
lemma read_loadPages (hflags : InImage base size ⟨g.ph + 4, 4⟩) (h : b.Read (InImage base size)) :
    (g.loadPages base root b).2.Read (InImage base size) ↔ g.CopiedInside base size root b := by
  constructor
  · intro hread k hk hframe
    have hround := Attempt.reached_of_last (fun _ _ h => (read_loadPage.1 h).1) hread hk hframe.1
    rw [Nat.zero_add] at hround
    exact part_inImage.1 ((read_loadPage.1 hround).2 hframe.2).1
  · refine fun hcopied => Attempt.reached h fun k hk hreached hread => ?_
    rw [Nat.zero_add]
    exact read_loadPage.2
      ⟨hread, fun hpage => ⟨part_inImage.2 (hcopied k hk ⟨hreached, hpage⟩), hflags⟩⟩

end Segment

/-! ## The loop over the program headers -/

/-- The segment of a header is to be loaded and passes the checks of the loop. -/
def Checked (image : Word64 → UInt8) (size ph : Word64) : Prop :=
  (pType ph).value image = kElfLoad ∧ ¬(pMemsz ph).value image < (pFilesz ph).value image ∧
    ¬size < (pOffset ph).value image + (pFilesz ph).value image

/-- The state in which the pages of a segment are loaded, when its header has been read. -/
def Building.enter (b : Building) (g : Segment) : Building :=
  (((((b.scan (pType g.ph)).2.scan (pMemsz g.ph)).2.scan (pFilesz g.ph)).2.scan
    (pOffset g.ph)).2.scan
    (pVaddr g.ph)).2.cover g.start g.stop

/-- What a round of the loop over the headers has read, the type of the header has been read of it
first. -/
lemma read_of_loadSegment {ph : Word64} (h : (b.loadSegment base size root ph).2.Read P) :
    b.Read P ∧ Within P (pType ph) (byteAt b.memory) := by
  rw [Building.loadSegment] at h
  dsimp only at h
  split_ifs at h with hload hsizes hcheck
  · exact read_scan.1 h
  · exact read_scan.1 (read_scan.1 (read_scan.1 h).1).1
  · exact read_scan.1 (read_scan.1 (read_scan.1 (read_scan.1 h).1).1).1
  · have hpages := Attempt.of_last (fun _ _ h => (Segment.read_loadPage.1 h).1) h
    exact read_scan.1 (read_scan.1 (read_scan.1 (read_scan.1 (read_scan.1 hpages).1).1).1).1

/-- A round reads inside the image, if the header lies there, if and only if what it copies does. -/
lemma read_loadSegment (hend : (headerOffset phoff i).toNat + 48 ≤ size.toNat)
    (h : b.Read (InImage base size)) :
    let g := segmentAt (byteAt b.memory) (phdr base phoff i)
    (b.loadSegment base size root (phdr base phoff i)).2.Read (InImage base size) ↔
      (Checked (byteAt b.memory) size (phdr base phoff i) →
        g.CopiedInside base size root (b.enter g)) := by
  intro g
  obtain ⟨htype, hflags, hoff, hvaddr, -, hfilesz, hmemsz⟩ :=
    within_phdr (byteAt b.memory) base hend
  have hfields := read_scan.2 ⟨read_scan.2 ⟨read_scan.2 ⟨h, htype⟩, hmemsz⟩, hfilesz⟩
  rw [Building.loadSegment]
  dsimp only
  split_ifs with hload hsizes hcheck
  · exact iff_of_true (read_scan.2 ⟨h, htype⟩) fun hc => absurd hc.1 hload
  · exact iff_of_true hfields fun hc => absurd hsizes hc.2.1
  · exact iff_of_true (read_scan.2 ⟨hfields, hoff⟩) fun hc => absurd hcheck hc.2.2
  · rw [imp_iff_right ⟨not_not.1 hload, hsizes, hcheck⟩]
    exact Segment.read_loadPages (Scan.within_field.1 hflags)
      (read_scan.2 ⟨read_scan.2 ⟨hfields, hoff⟩, hvaddr⟩)

/-! ## The whole function -/

/-- An image that gets as far as the loop over its segments. -/
lemma of_openImage (hopen : (openImage active base size memory).1 = some (root, phoff, phnum)) :
    (validElf64 base size).value (byteAt memory) = true ∧
      root = (memory.createAddressSpace active).1 ∧ (memory.createAddressSpace active).1 ≠ 0 ∧
      (openImage active base size memory).2.memory = (memory.createAddressSpace active).2 ∧
      (openImage active base size memory).2.owned = [] ∧
      phoff = (ePhoff base).value (byteAt (memory.createAddressSpace active).2) ∧
      phnum = ((ePhnum base).value (byteAt (memory.createAddressSpace active).2)).toNat := by
  rw [openImage] at hopen ⊢
  generalize memory.createAddressSpace active = c at hopen ⊢
  dsimp only at hopen ⊢
  split_ifs at hopen ⊢ with hbase hvalid hentry hroot
  obtain ⟨rfl, rfl, rfl⟩ : c.1 = root ∧ _ = phoff ∧ _ = phnum := by
    simpa only [Option.some.injEq, Prod.mk.injEq] using hopen
  exact ⟨hvalid, rfl, hroot, rfl, rfl, rfl, rfl⟩

/-- The beginning of the function reads the file header only. -/
lemma read_openImage (active base size : Word64) (memory : State) :
    (openImage active base size memory).2.Read (InImage base size) := by
  have hstart : Building.Read (InImage base size) { memory } := by simp [Building.Read]
  rw [openImage]
  split_ifs with hbase
  · exact hstart
  have hvalid := read_scan.2 ⟨hstart, within_validElf64⟩
  generalize memory.createAddressSpace active = c
  by_cases hheader : (Building.scan { memory } (validElf64 base size)).1 = true
  · obtain ⟨hsize, -⟩ := validElf64_eq_true.1 hheader
    have hfields (s : State) := within_header (byteAt s) base hsize
    have hentry := read_scan.2 ⟨hvalid, (hfields _).2.2.2.1⟩
    have hphoff : ((Building.scan _ (ePhoff base)).2).Read (InImage base size) :=
      (read_scan
        (b := { ((Building.scan { memory } (validElf64 base size)).2.scan (eEntry base)).2 with
        memory := c.2 })).2 ⟨hentry, (hfields _).2.2.2.2.1⟩
    dsimp only
    split_ifs
    · exact hentry
    · exact hentry
    · exact read_scan.2 ⟨hphoff, (hfields _).2.2.2.2.2⟩
  · rw [if_pos hheader]
    exact hvalid

/-- The file header has not changed when the loop begins. -/
lemma openImage_fields (hused : ImageUsed memory base size)
    (hopen : (openImage active base size memory).1 = some (root, phoff, phnum)) :
    phoff = (ePhoff base).value (byteAt memory) ∧
      phnum = ((ePhnum base).value (byteAt memory)).toNat := by
  obtain ⟨hvalid, -, -, -, -, hphoff, hphnum⟩ := of_openImage hopen
  obtain ⟨hsize, -⟩ := validElf64_eq_true.1 hvalid
  obtain ⟨-, -, -, -, hoff, hnum⟩ := within_header (byteAt memory) base hsize
  have hkept := (usedKept_createAddressSpace memory active).image hused
  exact ⟨hphoff.trans (hkept.value hoff), hphnum.trans (congrArg BitVec.toNat (hkept.value hnum))⟩

/-- What the function has read is what the loop over the headers has read, and the entry point. -/
lemma read_buildProcessFromElf (fb : FramebufferInfo)
    (hopen : (openImage active base size memory).1 = some (root, phoff, phnum)) :
    (buildProcessFromElf fb active base size memory).2.Read (InImage base size) ↔
      ((openImage active base size memory).2.loadSegments base size root phoff phnum).2.Read
        (InImage base size) := by
  obtain ⟨hsize, -⟩ := validElf64_eq_true.1 (of_openImage hopen).1
  rw [buildProcessFromElf]
  simp only [hopen]
  generalize (openImage active base size memory).2.loadSegments base size root phoff phnum = r
  have hentry :
      (r.2.scan (eEntry base)).2.Read (InImage base size) ↔ r.2.Read (InImage base size) := by
    rw [read_scan]
    exact and_iff_left (within_header _ base hsize).2.2.2.1
  have hstack : ((r.2.scan (eEntry base)).2.mapStack root clear).2.Read
      (InImage base size) ↔ r.2.Read (InImage base size) := by
    refine ⟨fun h => hentry.1 (Attempt.of_last (fun _ b h => ?_) h),
      fun h => (hentry.2 h).mapStack root _ fun _ _ hread => hread⟩
    rw [Building.Read, reads_addPage] at h
    split_ifs at h
    · exact h
    · exact (read_scan.1 h).1
  split_ifs
  · exact hentry
  · exact hstack
  · exact hstack
  · exact hstack
  · exact Iff.rfl

/-- The condition for the user loader; see the head of the file.  The bytes of the image, when the
loop over the program headers is in the state `b`, are `image b`. -/
def UserInside (image : Building → Word64 → UInt8) (active base size : Word64) (memory : State) :
    Prop :=
  ∀ o ∈ (openImage active base size memory).1, TableNoWrap (byteAt memory) base ∧ ∀ i < o.2.2,
    let r := (openImage active base size memory).2.loadSegments base size o.1 o.2.1 i
    let ph := phdr base o.2.1 i
    let g := segmentAt (image r.2) ph
    r.1 = true → Checked (image r.2) size ph → g.CopiedInside base size o.1 (r.2.enter g)

/-- The condition is exact if each header is taken as its round finds it. -/
lemma exact_buildProcessFromElf (fb : FramebufferInfo) (active : Word64)
    (hused : ImageUsed memory base size) :
    Exact base size (buildProcessFromElf fb active base size memory).2.reads
      (UserInside (fun b => byteAt b.memory) active base size memory) := by
  have hopened := read_openImage active base size memory
  constructor
  · intro hcond
    cases hopen : (openImage active base size memory).1 with
    | none =>
      rw [buildProcessFromElf]
      simp only [hopen]
      exact hopened
    | some o =>
      obtain ⟨root, phoff, phnum⟩ := o
      obtain ⟨hno, hsegs⟩ := hcond _ hopen
      obtain ⟨rfl, rfl⟩ := openImage_fields hused hopen
      obtain ⟨-, hcheck, -⟩ := validElf64_eq_true.1 (of_openImage hopen).1
      refine (read_buildProcessFromElf fb hopen).2
        (Attempt.reached hopened fun i hi hok hread => ?_)
      have hend := headerOffset_end (table_end hno hcheck) hi
      rw [Nat.zero_add]
      exact (read_loadSegment (by omega) hread).2 (hsegs i hi hok)
  · rintro hsize hread ⟨root, phoff, phnum⟩ hopen
    obtain ⟨rfl, rfl⟩ := openImage_fields hused hopen
    obtain ⟨-, hcheck, -⟩ := validElf64_eq_true.1 (of_openImage hopen).1
    have hloop := (read_buildProcessFromElf fb hopen).1 hread
    have hround (i : ℕ) (hi : i < ((ePhnum base).value (byteAt memory)).toNat)
        (hok : ((openImage active base size memory).2.loadSegments base size root _ i).1 = true) :=
      Attempt.reached_of_last (fun _ _ h => (read_of_loadSegment h).1) hloop hi hok
    simp only [Nat.zero_add] at hround
    have hno : TableNoWrap (byteAt memory) base := tableNoWrap_of_inImage hsize fun hphnum =>
      Scan.within_field.2 (Scan.within_field.1 (read_of_loadSegment (hround 0 hphnum rfl)).2)
    refine ⟨hno, fun i hi hok => ?_⟩
    have hend := headerOffset_end (table_end hno hcheck) hi
    refine (read_loadSegment (Nat.le_of_add_right_le (k := 8) hend) ?_).1 (hround i hi hok)
    exact (read_of_loadSegment (hround i hi hok)).1

/-! ## Images that are left alone -/

/-- The headers of the image are not on the allocator's list of free pages either.  They are part of
the image, unless the end of the table wraps. -/
def HeadersUsed (memory : State) (base : Word64) : Prop :=
  ∀ i < ((ePhnum base).value (byteAt memory)).toNat,
    ImageUsed memory (phdr base ((ePhoff base).value (byteAt memory)) i) sizeofPhdr

lemma headersUsed_of_noWrap (hused : ImageUsed memory base size)
    (hvalid : (validElf64 base size).value (byteAt memory) = true)
    (hno : TableNoWrap (byteAt memory) base) : HeadersUsed memory base := by
  obtain ⟨-, hcheck, -⟩ := validElf64_eq_true.1 hvalid
  intro i hi a ha
  have hinside : InImage base size ⟨phdr base ((ePhoff base).value (byteAt memory)) i + 0, 56⟩ :=
    inImage_phdr (headerOffset_end (table_end hno hcheck) hi) (by decide)
  have hbyte := hinside _ ha
  rw [Extent.address, BitVec.ofNat_toNat, BitVec.setWidth_eq] at hbyte
  refine hused a ?_
  rwa [BitVec.ofNat_eq_ofNat, BitVec.add_zero, BitVec.add_comm, BitVec.sub_add_cancel] at hbyte

/-- The segments of the image lie in the lower half. -/
def SegmentsBelow (image : Word64 → UInt8) (base : Word64) : Prop :=
  ∀ i < ((ePhnum base).value image).toNat,
    SegmentBelow image (phdr base ((ePhoff base).value image) i)

instance : Decidable (SegmentsBelow image base) := inferInstanceAs (Decidable (∀ _ < _, _))

/-- What the loop uses of a header depends on the bytes of the header only. -/
lemma checked_congr (size : Word64) {s : State} {ph : Word64}
    (h : ImageKept memory s ph sizeofPhdr) :
    (Checked (byteAt s) size ph ↔ Checked (byteAt memory) size ph) ∧
      segmentAt (byteAt s) ph = segmentAt (byteAt memory) ph := by
  obtain ⟨htype, -, hoff, hvaddr, -, hfilesz, hmemsz⟩ := within_header_at (byteAt memory) ph
  rw [Checked, Checked, segmentAt, segmentAt, h.value htype, h.value hoff, h.value hvaddr,
    h.value hfilesz, h.value hmemsz]
  exact ⟨Iff.rfl, rfl⟩

/-- If the segments lie in the lower half, then the condition can be read off the image as it was.
-/
lemma userInside_input (hinv : memory.pmm.Inv) (hused : ImageUsed memory base size)
    (hbelow : SegmentsBelow (byteAt memory) base) (active : Word64) :
    UserInside (fun b => byteAt b.memory) active base size memory ↔
      UserInside (fun _ => byteAt memory) active base size memory := by
  refine forall₂_congr fun o hopen => and_congr_right fun hno => ?_
  obtain ⟨root, phoff, phnum⟩ := o
  obtain ⟨rfl, rfl⟩ := openImage_fields hused hopen
  obtain ⟨hvalid, hroot, hne, hmemory, howned, -, -⟩ := of_openImage hopen
  have hheaders := headersUsed_of_noWrap hused hvalid hno
  have hbuilt := built_createAddressSpace hinv hne
  have hkept := usedKept_createAddressSpace memory active
  rw [← hroot, ← hmemory, ← howned] at hbuilt
  rw [← hmemory] at hkept
  refine forall₂_congr fun i hi => imp_congr_ctx Iff.rfl fun hok => ?_
  -- the rounds before this one have left everything alone that was in use
  obtain ⟨hloading, -, -⟩ := Loading.loadSegments ⟨hbuilt, hkept⟩ hused
    (fun j hj => hheaders j (hj.trans hi)) (fun j hj => hbelow j (hj.trans hi)) hok
  obtain ⟨hchecked, hsegment⟩ := checked_congr size (hloading.kept.image (hheaders i hi))
  dsimp only
  rw [hchecked, hsegment]

/-- If no sum that is checked wraps, then the condition holds. -/
lemma userInside_of_noWrap (hused : ImageUsed memory base size)
    (hno : TableNoWrap (byteAt memory) base)
    (hsegs : ∀ i < ((ePhnum base).value (byteAt memory)).toNat,
      SegmentNoWrap (byteAt memory) (phdr base ((ePhoff base).value (byteAt memory)) i))
        (active : Word64) :
    UserInside (fun _ => byteAt memory) active base size memory := by
  rintro ⟨root, phoff, phnum⟩ hopen
  obtain ⟨rfl, rfl⟩ := openImage_fields hused hopen
  refine ⟨hno, fun i hi _ hcheck k _ _ => ?_⟩
  exact Segment.partInside_of_inFile (segment_end (hsegs i hi hcheck.1) hcheck.2.2)

/-- Memory of one gigabyte with an image at `0x1000`: its file header, and one program header of a
segment to be loaded at `0x400000`. -/
def imageMemory (phoff offset : Word64) : State where
  pmm := gigabyte
  words := fun a =>
    if a = 0x1000 then 0x102464c457f
    else if a = 0x1010 then 0x3e0000
    else if a = 0x1018 then 0x400000
    else if a = 0x1020 then phoff
    else if a = 0x1030 then 0x38000000000000
    else if a = 0x1038 then 1
    else if a = 0x1040 then 0x500000001
    else if a = 0x1048 then offset
    else if a = 0x1050 then 0x400000
    else if a = 0x1060 then 8
    else if a = 0x1068 then 16
    else if a = 0x1078 then 0xc3
    else 0

/-- An image whose segment lies behind its headers. -/
def goodImage : State := imageMemory 64 120

lemma imageUsed_imageMemory (phoff offset : Word64) :
    ImageUsed (imageMemory phoff offset) 0x1000 128 := by
  intro a ha
  have hpage : a.toNat / kPageSize = 1 := by
    rw [BitVec.toNat_sub] at ha
    simp only [kPageSize, BitVec.reduceToNat] at ha ⊢
    omega
  rw [hpage, imageMemory, freeSet_gigabyte]
  simp

/-- The kernel in the image is loaded elsewhere. -/
lemma kernelApart_goodImage :
    BootLoader.KernelApart (byteAt goodImage) 0x1000 128 fun _ => true := by
  intro i hi _
  have hphnum : ((ePhnum 0x1000).value (byteAt goodImage)).toNat = 1 := by decide +kernel
  obtain rfl : i = 0 := by omega
  have hph : phdr 0x1000 ((ePhoff 0x1000).value (byteAt goodImage)) 0 = 0x1040 := by decide +kernel
  have haddress : (BootLoader.loadAddress 0x1040).value (byteAt goodImage) = 0x400000 := by
    decide +kernel
  have hmemsz : (pMemsz 0x1040).value (byteAt goodImage) = 16 := by decide +kernel
  rw [hph]
  refine fun _ => ⟨by decide +kernel, fun a ha => ?_⟩
  rw [haddress, hmemsz] at ha
  bv_omega

end IanOS.Loader
