import IanOS.Loader.BootLoader
import IanOS.Loader.Building

/-!
# What is read of an image

Three functions look at an ELF image.  The user loader and `validate_user_elf` check 64-bit sums of
its fields against its size: the end of the table of program headers, and the end of each segment in
the file.  The sums wrap.  `load_kernel` makes neither check.

This module finds, for `validate_user_elf` and `load_kernel`, the condition under which everything
that is read lies inside the image, whether the image is accepted or not.  An image that is rejected
by a check of the file header meets it, because until then nothing but the file header has been
read. Otherwise:

* `validate_user_elf` reads inside if and only if the end of the table does not wrap;
* `load_kernel` reads inside if and only if each program header that its loop reaches lies inside as
  far as it is read, and so do the contents of each segment that the firmware grants pages for.

That the condition is necessary is shown for images of at most half of the address space.  A larger
one may be read on both sides of address zero, and then a sum that wraps does no harm.
-/

namespace IanOS

open Scan
open BitVec (lt_def)
namespace Elf

variable {mem : Word64 → UInt8} {base size off phoff ph : Word64} {P : Extent → Prop} {n i k : ℕ}

/-- The bytes of the image at `base` of this size. -/
def InImage (base size : Word64) (e : Extent) : Prop := e.Inside base size.toNat

instance : DecidablePred (InImage base size) := fun e =>
  inferInstanceAs (Decidable (e.Inside base size.toNat))

lemma inImage_offset (h : off.toNat + n ≤ size.toNat) : InImage base size ⟨base + off, n⟩ :=
  Extent.inside_offset size.isLt.le h

/-- A run of bytes is inside only if it ends inside: the byte behind the image is not. -/
lemma inImage_iff (hn : 0 < n) :
    InImage base size ⟨base + off, n⟩ ↔ off.toNat + n ≤ size.toNat := by
  refine ⟨fun h => ?_, inImage_offset⟩
  have hbyte (k : ℕ) (hk : k < n) : (off.toNat + k) % 2 ^ 64 < size.toNat := by
    have hin := h k hk
    rwa [Extent.toNat_address_sub, BitVec.add_comm base, BitVec.add_sub_cancel] at hin
  have hfirst := hbyte 0 hn
  by_contra hend
  have hbehind := hbyte (size.toNat - off.toNat) (by omega)
  omega

/-- The reads of an image lie inside it if the condition holds, whatever the size; and only if it
holds, unless the image takes more than half of the address space. -/
def Exact (base size : Word64) (reads : List Extent) (condition : Prop) : Prop :=
  (condition → ∀ e ∈ reads, e.Inside base size.toNat) ∧
    (size.toNat ≤ 2 ^ 63 → (∀ e ∈ reads, e.Inside base size.toNat) → condition)

/-! ## The file header -/

lemma inImage_header (hsize : ¬size < sizeofEhdr) (h : off.toNat + n ≤ 64) :
    InImage base size ⟨base + off, n⟩ := by
  have hle : 64 ≤ size.toNat := by
    rwa [lt_def, not_lt] at hsize
  exact inImage_offset (by omega)

lemma within_fieldsAre {l : List (Scan Word64 × Word64)} (h : ∀ p ∈ l, Within P p.1 mem) :
    Within P (fieldsAre l) mem := by
  induction l with
  | nil => simp [fieldsAre]
  | cons p l ih =>
    obtain ⟨hfirst, hrest⟩ := List.forall_mem_cons.1 h
    rw [fieldsAre]
    simp only [within_bind, within_ite, within_pure]
    exact ⟨hfirst, fun _ => trivial, fun _ => ih hrest⟩

/-- What the three functions read of the file header lies in it. -/
lemma within_header (mem : Word64 → UInt8) (base : Word64) (hsize : ¬size < sizeofEhdr) :
    Within (InImage base size) (fieldsAre (magic base)) mem ∧
    Within (InImage base size) (fieldsAre [(eIdent base 4, 2), (eIdent base 5, 1)]) mem ∧
    Within (InImage base size) (fieldsAre [(eMachine base, 62), (ePhentsize base, 56)]) mem ∧
    Within (InImage base size) (eEntry base) mem ∧ Within (InImage base size) (ePhoff base) mem ∧
    Within (InImage base size) (ePhnum base) mem := by
  have hfield (off : Word64) (n : ℕ) (h : off.toNat + n ≤ 64) :
      Within (InImage base size) (field (base + off) n) mem :=
    within_field.2 (inImage_header hsize h)
  refine ⟨within_fieldsAre ?_, within_fieldsAre ?_, within_fieldsAre ?_, hfield 24 8 (by decide),
    hfield 32 8 (by decide), hfield 56 2 (by decide)⟩
  · simp only [magic, List.forall_mem_cons]
    exact ⟨hfield 0 1 (by decide), hfield 1 1 (by decide), hfield 2 1 (by decide),
      hfield 3 1 (by decide), by simp⟩
  · simp only [List.forall_mem_cons]
    exact ⟨hfield 4 1 (by decide), hfield 5 1 (by decide), by simp⟩
  · simp only [List.forall_mem_cons]
    exact ⟨hfield 18 2 (by decide), hfield 54 2 (by decide), by simp⟩

lemma within_tableExceeds (hsize : ¬size < sizeofEhdr) :
    Within (InImage base size) (tableExceeds base size) mem := by
  obtain ⟨-, -, -, -, hphoff, hphnum⟩ := within_header mem base hsize
  rw [tableExceeds]
  simp only [within_bind, within_pure]
  exact ⟨hphoff, hphnum, trivial⟩

/-- The check of the file header reads nothing outside an image of any size. -/
lemma within_validElf64 : Within (InImage base size) (validElf64 base size) mem := by
  rw [validElf64]
  simp only [within_bind, within_ite, within_pure]
  refine ⟨fun _ => trivial, fun hsize => ?_⟩
  obtain ⟨hmagic, hclass, hmach, -, -, -⟩ := within_header mem base hsize
  exact ⟨hmagic, fun _ => trivial, fun _ => ⟨hclass, fun _ => trivial, fun _ => ⟨hmach,
    fun _ => trivial, fun _ => ⟨within_tableExceeds hsize, fun _ => trivial, fun _ => trivial⟩⟩⟩⟩

/-- What an accepted file header has passed. -/
lemma validElf64_eq_true : (validElf64 base size).value mem = true ↔
    ¬size < sizeofEhdr ∧ (tableExceeds base size).value mem = false ∧
      (fieldsAre (magic base)).value mem = true ∧
      (fieldsAre [(eIdent base 4, 2), (eIdent base 5, 1)]).value mem = true ∧
      (fieldsAre [(eMachine base, 62), (ePhentsize base, 56)]).value mem = true := by
  simp only [validElf64, value_bind, value_ite, value_pure]
  split_ifs with hsize hmagic hclass hmach hexceeds <;> simp_all

/-! ## The table of program headers -/

lemma phnum_lt (mem : Word64 → UInt8) (base : Word64) :
    ((ePhnum base).value mem).toNat < 2 ^ 16 := by
  have hlt := readLe_lt mem (base + 56) 2
  rw [ePhnum, value_field, BitVec.toNat_ofNat]
  omega

/-- The end of the table of program headers does not wrap. -/
def TableNoWrap (mem : Word64 → UInt8) (base : Word64) : Prop :=
  ((ePhoff base).value mem).toNat + ((ePhnum base).value mem).toNat * 56 < 2 ^ 64
  deriving Decidable

/-- Without wrapping, the check of the end of the table means what it says. -/
lemma table_end (hno : TableNoWrap mem base) (hcheck : (tableExceeds base size).value mem = false) :
    ((ePhoff base).value mem).toNat + ((ePhnum base).value mem).toNat * 56 ≤ size.toNat := by
  simp only [tableExceeds, value_bind, value_pure, decide_eq_false_iff_not] at hcheck
  rw [lt_def, BitVec.toNat_add, BitVec.toNat_mul, show sizeofPhdr.toNat = 56 by decide] at hcheck
  rw [TableNoWrap] at hno
  omega

/-- Where program header `i` begins in the file, as the code computes it. -/
def headerOffset (phoff : Word64) (i : ℕ) : Word64 := phoff + BitVec.ofNat 64 i * sizeofPhdr

lemma phdr_add (base phoff off : Word64) (i : ℕ) :
    phdr base phoff i + off = base + (headerOffset phoff i + off) := by
  rw [phdr, headerOffset, BitVec.add_assoc, BitVec.add_assoc, BitVec.add_assoc]

lemma toNat_headerOffset (h : phoff.toNat + i * 56 < 2 ^ 64) :
    (headerOffset phoff i).toNat = phoff.toNat + i * 56 := by
  rw [headerOffset, BitVec.toNat_add, BitVec.toNat_mul, BitVec.toNat_ofNat,
    show sizeofPhdr.toNat = 56 by decide]
  omega

/-- The headers of a table that ends inside the image end inside it. -/
lemma headerOffset_end (htable : phoff.toNat + n * 56 ≤ size.toNat) (hi : i < n) :
    (headerOffset phoff i).toNat + 56 ≤ size.toNat := by
  rw [toNat_headerOffset (by omega)]
  omega

/-- A part of a header that lies inside the image as far as byte `k`. -/
lemma inImage_phdr (hend : (headerOffset phoff i).toNat + k ≤ size.toNat) (h : off.toNat + n ≤ k) :
    InImage base size ⟨phdr base phoff i + off, n⟩ := by
  rw [phdr_add]
  apply inImage_offset
  rw [BitVec.toNat_add]
  omega

/-- What is read of a program header lies in its first 48 bytes. -/
lemma within_phdr (mem : Word64 → UInt8) (base : Word64)
    (hend : (headerOffset phoff i).toNat + 48 ≤ size.toNat) :
    Within (InImage base size) (pType (phdr base phoff i)) mem ∧
    Within (InImage base size) (pFlags (phdr base phoff i)) mem ∧
    Within (InImage base size) (pOffset (phdr base phoff i)) mem ∧
    Within (InImage base size) (pVaddr (phdr base phoff i)) mem ∧
    Within (InImage base size) (pPaddr (phdr base phoff i)) mem ∧
    Within (InImage base size) (pFilesz (phdr base phoff i)) mem ∧
    Within (InImage base size) (pMemsz (phdr base phoff i)) mem := by
  have hfield (off : Word64) (k : ℕ) (h : off.toNat + k ≤ 48) :
      Within (InImage base size) (field (phdr base phoff i + off) k) mem :=
    within_field.2 (inImage_phdr hend h)
  have htype := hfield 0 4 (by decide)
  rw [BitVec.ofNat_eq_ofNat, BitVec.add_zero] at htype
  exact ⟨htype, hfield 4 4 (by decide), hfield 8 8 (by decide), hfield 16 8 (by decide),
    hfield 24 8 (by decide), hfield 32 8 (by decide), hfield 40 8 (by decide)⟩

/-- What is read of a program header lies in its 56 bytes. -/
lemma within_header_at (mem : Word64 → UInt8) (ph : Word64) :
    Within (InImage ph sizeofPhdr) (pType ph) mem ∧
    Within (InImage ph sizeofPhdr) (pFlags ph) mem ∧
    Within (InImage ph sizeofPhdr) (pOffset ph) mem ∧
    Within (InImage ph sizeofPhdr) (pVaddr ph) mem ∧
    Within (InImage ph sizeofPhdr) (pPaddr ph) mem ∧
    Within (InImage ph sizeofPhdr) (pFilesz ph) mem ∧
    Within (InImage ph sizeofPhdr) (pMemsz ph) mem := by
  have hfirst : phdr ph 0 0 = ph := by simp [phdr]
  have hphdr := within_phdr mem ph (show (headerOffset 0 0).toNat + 48 ≤ sizeofPhdr.toNat by decide)
  rwa [hfirst] at hphdr

/-- The type of a header is read inside the image if and only if the header is inside up to there.
-/
lemma within_pType (mem : Word64 → UInt8) (base : Word64) :
    Within (InImage base size) (pType (phdr base phoff i)) mem ↔
      (headerOffset phoff i).toNat + 4 ≤ size.toNat := by
  have hzero := phdr_add base phoff 0 i
  rw [BitVec.ofNat_eq_ofNat, BitVec.add_zero, BitVec.add_zero] at hzero
  rw [pType, within_field, hzero]
  exact inImage_iff (by norm_num)

/-- A header whose type and `p_memsz` are read inside the image is inside as far as it is read. -/
lemma headerOffset_end_of_within (hsize : size.toNat ≤ 2 ^ 63)
    (htype : (headerOffset phoff i).toNat + 4 ≤ size.toNat)
    (hmemsz : Within (InImage base size) (pMemsz (phdr base phoff i)) mem) :
    (headerOffset phoff i).toNat + 48 ≤ size.toNat := by
  rw [pMemsz, within_field, phdr_add] at hmemsz
  have hend := (inImage_iff (by norm_num)).1 hmemsz
  rw [BitVec.toNat_add, show (40 : Word64).toNat = 40 by decide] at hend
  omega

/-- If the table of an image of at most half of the address space wraps, then its first program
header lies outside. -/
lemma tableNoWrap_of_inImage (hsize : size.toNat ≤ 2 ^ 63)
    (h : 0 < ((ePhnum base).value mem).toNat →
      Within (InImage base size) (pType (phdr base ((ePhoff base).value mem) 0)) mem) :
    TableNoWrap mem base := by
  have hphnum := phnum_lt mem base
  rw [TableNoWrap]
  by_contra hwrap
  have hfirst := (within_pType mem base).1 (h (by omega))
  rw [toNat_headerOffset (by omega)] at hfirst
  omega

/-- The end in the file of a segment that is to be loaded does not wrap. -/
def SegmentNoWrap (mem : Word64 → UInt8) (ph : Word64) : Prop :=
  (pType ph).value mem = kElfLoad →
    ((pOffset ph).value mem).toNat + ((pFilesz ph).value mem).toNat < 2 ^ 64
  deriving Decidable

/-- Without wrapping, the check of the end of a segment means what it says. -/
lemma segment_end {offset filesz : Word64} (hno : offset.toNat + filesz.toNat < 2 ^ 64)
    (hcheck : ¬size < offset + filesz) : offset.toNat + filesz.toNat ≤ size.toNat := by
  rw [lt_def, BitVec.toNat_add] at hcheck
  omega

end Elf

/-! ## The boot loader -/

namespace BootLoader

open Elf

variable {mem : Word64 → UInt8} {elf size phoff : Word64} {n i : ℕ} {hasLoad : Bool}

/-- The loop reads inside an image in which its table ends. -/
lemma within_checkSegments (htable : phoff.toNat + (i + n) * 56 ≤ size.toNat) :
    Within (InImage elf size) (checkSegments elf size phoff n i hasLoad) mem := by
  induction n generalizing i hasLoad with
  | zero => simp [checkSegments]
  | succ n ih =>
    have hend : (headerOffset phoff i).toNat + 48 ≤ size.toNat :=
      Nat.le_of_add_right_le (k := 8) (headerOffset_end htable (by omega))
    obtain ⟨htype, -, hoff, -, -, hfilesz, hmemsz⟩ := within_phdr mem elf hend
    have hrest (hasLoad : Bool) :
        Within (InImage elf size) (checkSegments elf size phoff n (i + 1) hasLoad) mem :=
      ih (by rwa [show i + 1 + n = i + (n + 1) by omega])
    rw [checkSegments]
    simp only [within_bind, within_ite, within_pure]
    exact ⟨htype, fun _ => hrest hasLoad, fun _ => ⟨hfilesz, hmemsz, fun _ => trivial, fun _ =>
      ⟨hoff, fun _ => trivial, fun _ => hrest true⟩⟩⟩

/-- The condition for `validate_user_elf`: if the file header is accepted, then the end of the table
of program headers does not wrap. -/
def ValidatedInside (mem : Word64 → UInt8) (elf size : Word64) : Prop :=
  (validElf64 elf size).value mem = true → (eEntry elf).value mem ≠ 0 → TableNoWrap mem elf
  deriving Decidable

lemma within_validateUserElf (h : ValidatedInside mem elf size) :
    Within (InImage elf size) (validateUserElf elf size) mem := by
  rw [validateUserElf]
  simp only [within_bind, within_ite, within_pure, Bool.not_eq_true', Bool.not_eq_false]
  refine ⟨fun _ => trivial, fun hsize => ?_⟩
  obtain ⟨hmagic, hclass, hmach, hentry, hphoff, hphnum⟩ := within_header mem elf hsize
  refine ⟨hmagic, fun _ => trivial, fun hm => ⟨hclass, fun _ => trivial, fun hc => ⟨hmach,
    fun _ => trivial, fun hi => ⟨hentry, fun _ => trivial, fun he => ⟨within_tableExceeds hsize,
    fun _ => trivial, fun hcheck => ⟨hphoff, hphnum, within_checkSegments ?_⟩⟩⟩⟩⟩⟩
  -- all checks of the file header have been passed
  have hexceeds : (tableExceeds elf size).value mem = false := by simpa using hcheck
  have hno := h (validElf64_eq_true.2 ⟨hsize, hexceeds, hm, hc, hi⟩) he
  rw [Nat.zero_add]
  exact table_end hno hexceeds

/-- If the file header is accepted, then `validate_user_elf` reads the first program header. -/
lemma within_first_validateUserElf {P : Extent → Prop}
    (h : Within P (validateUserElf elf size) mem) (hvalid : (validElf64 elf size).value mem = true)
    (hentry : (eEntry elf).value mem ≠ 0) (hphnum : 0 < ((ePhnum elf).value mem).toNat) :
    Within P (pType (phdr elf ((ePhoff elf).value mem) 0)) mem := by
  obtain ⟨hsize, hcheck, hmagic, hclass, hmach⟩ := validElf64_eq_true.1 hvalid
  obtain ⟨n, hn⟩ := Nat.exists_eq_add_of_lt hphnum
  rw [Nat.zero_add] at hn
  simp only [validateUserElf, within_bind, within_ite, hmagic, hclass, hmach, hcheck, hn,
    checkSegments] at h
  exact ((((((h.2 hsize).2.2 (by simp)).2.2 (by simp)).2.2 (by simp)).2.2 hentry).2.2
    (by simp)).2.2.1

lemma exact_validateUserElf (mem : Word64 → UInt8) (elf size : Word64) :
    Exact elf size ((validateUserElf elf size).reads mem) (ValidatedInside mem elf size) :=
  ⟨within_validateUserElf,
    fun hsize hread hvalid hentry => tableNoWrap_of_inImage hsize fun hphnum =>
    within_first_validateUserElf hread hvalid hentry hphnum⟩

/-! ## The kernel -/

/-- Everything that has been read satisfies `P`. -/
def KernelLoad.Read (P : Extent → Prop) (k : KernelLoad) : Prop := ∀ e ∈ k.reads, P e

namespace KernelLoad

variable {P : Extent → Prop} {k : KernelLoad} {dst count : Word64}

@[simp] lemma mem_scan {α : Type} (k : KernelLoad) (m : Scan α) : (k.scan m).2.mem = k.mem := rfl

@[simp] lemma mem_cover (k : KernelLoad) (phys segmentEnd : Word64) :
    (k.cover phys segmentEnd).mem = k.mem := rfl

@[simp] lemma fst_scan {α : Type} (k : KernelLoad) (m : Scan α) :
    (k.scan m).1 = m.value k.mem := rfl

@[simp] lemma read_scan {α : Type} {m : Scan α} :
    (k.scan m).2.Read P ↔ k.Read P ∧ Within P m k.mem :=
  List.forall_mem_append

@[simp] lemma read_memcpy {src : Word64} :
    (k.memcpy dst src count).Read P ↔ k.Read P ∧ P ⟨src, count.toNat⟩ := by
  rw [Read, memcpy, List.forall_mem_append, List.forall_mem_singleton, Read]

@[simp] lemma read_clear : (k.clear dst count).Read P ↔ k.Read P := Iff.rfl

@[simp] lemma read_cover {phys segmentEnd : Word64} :
    (k.cover phys segmentEnd).Read P ↔ k.Read P := Iff.rfl

end KernelLoad

open KernelLoad

variable {P : Extent → Prop} {k : KernelLoad} {ph : Word64} {granted : Bool} {grants : ℕ → Bool}

/-- What a round of the loop of `load_kernel` reads. -/
lemma read_loadKernelSegment : (loadKernelSegment elf ph granted k).2.Read P ↔
    k.Read P ∧ Within P (pType ph) k.mem ∧ ((pType ph).value k.mem = kElfLoad →
      Within P (loadAddress ph) k.mem ∧ Within P (pMemsz ph) k.mem ∧ (granted = true →
        Within P (pOffset ph) k.mem ∧ Within P (pFilesz ph) k.mem ∧
        P ⟨elf + (pOffset ph).value k.mem, ((pFilesz ph).value k.mem).toNat⟩)) := by
  rw [loadKernelSegment]
  split_ifs with hload hgrant
  · rw [fst_scan] at hload
    simp [hload]
  · rw [fst_scan, ne_eq, not_not] at hload
    simp [hload, hgrant, and_assoc]
  · rw [fst_scan, ne_eq, not_not] at hload
    simp [hload, hgrant, and_assoc]

lemma within_loadAddress (hpaddr : Within P (pPaddr ph) mem) (hvaddr : Within P (pVaddr ph) mem) :
    Within P (loadAddress ph) mem := by
  rw [loadAddress]
  simp only [within_bind, within_ite, within_pure]
  exact ⟨hpaddr, fun _ => trivial, fun _ => hvaddr⟩

/-- What the loop of `load_kernel` reads in round `i` lies inside the image: the type of the program
header and, if the segment is to be loaded, the rest of the header; and if the firmware grants its
pages, its contents. -/
def RoundInside (image : Word64 → UInt8) (elf size phoff : Word64) (granted : Bool) (i : ℕ) :
    Prop :=
  let ph := phdr elf phoff i
  (headerOffset phoff i).toNat + 4 ≤ size.toNat ∧
    ((pType ph).value image = kElfLoad → (headerOffset phoff i).toNat + 48 ≤ size.toNat ∧
      (granted = true → (pFilesz ph).value image = 0 ∨
        ((pOffset ph).value image).toNat + ((pFilesz ph).value image).toNat ≤ size.toNat))
  deriving Decidable

lemma read_of_roundInside (h : k.Read (InImage elf size))
    (hround : RoundInside k.mem elf size phoff granted i) :
    (loadKernelSegment elf (phdr elf phoff i) granted k).2.Read (InImage elf size) := by
  obtain ⟨htype, hrest⟩ := hround
  refine read_loadKernelSegment.2 ⟨h, (within_pType k.mem elf).2 htype, fun hload => ?_⟩
  obtain ⟨hend, hcontents⟩ := hrest hload
  obtain ⟨-, -, hoff, hvaddr, hpaddr, hfilesz, hmemsz⟩ := within_phdr k.mem elf hend
  refine ⟨within_loadAddress hpaddr hvaddr, hmemsz, fun hgrant => ⟨hoff, hfilesz, ?_⟩⟩
  rcases hcontents hgrant with hnone | hsome
  · intro j hj
    simp [hnone] at hj
  · exact inImage_offset hsome

/-- A round that reads nothing outside the image meets the condition. -/
lemma roundInside_of_read (hsize : size.toNat ≤ 2 ^ 63)
    (h : (loadKernelSegment elf (phdr elf phoff i) granted k).2.Read (InImage elf size)) :
    RoundInside k.mem elf size phoff granted i := by
  obtain ⟨-, htype, hrest⟩ := read_loadKernelSegment.1 h
  rw [within_pType] at htype
  refine ⟨htype, fun hload => ?_⟩
  obtain ⟨-, hmemsz, hcontents⟩ := hrest hload
  refine ⟨headerOffset_end_of_within hsize htype hmemsz, fun hgrant => ?_⟩
  rcases Nat.eq_zero_or_pos ((pFilesz (phdr elf phoff i)).value k.mem).toNat with hzero | hpos
  · exact .inl (BitVec.eq_of_toNat_eq hzero)
  · exact .inr ((inImage_iff hpos).1 (hcontents hgrant).2.2)

lemma ok_loadKernelSegment (elf ph : Word64) (granted : Bool) (k : KernelLoad) :
    (loadKernelSegment elf ph granted k).1 = true ↔
      ((pType ph).value k.mem = kElfLoad → granted = true) := by
  rw [loadKernelSegment]
  split_ifs with hload hgrant
  · exact iff_of_true rfl fun heq => absurd heq hload
  · exact iff_of_true rfl fun _ => hgrant
  · exact iff_of_false (by simp) fun h => hgrant (h (not_not.1 hload))

/-- The memory in which round `i` of the loop of `load_kernel` finds its program header. -/
def found (mem : Word64 → UInt8) (elf size : Word64) (grants : ℕ → Bool) (i : ℕ) : Word64 → UInt8 :=
  (loadKernelSegments elf ((ePhoff elf).value mem) grants i (openKernel mem elf size).2).2.mem

/-- The loop gets as far as header `i` if the firmware grants the pages of the segments before it.
The header of round `j` is read in the memory `image j`. -/
def Reached (image : ℕ → Word64 → UInt8) (elf phoff : Word64) (grants : ℕ → Bool) (i : ℕ) : Prop :=
  ∀ j < i, (pType (phdr elf phoff j)).value (image j) = kElfLoad → grants j = true

instance (image : ℕ → Word64 → UInt8) (elf phoff : Word64) (grants : ℕ → Bool) (i : ℕ) :
    Decidable (Reached image elf phoff grants i) := inferInstanceAs (Decidable (∀ _ < _, _))

/-- The condition for `load_kernel`: if the file header is accepted, then each round that is reached
reads inside the image.  The header of round `i` is read in the memory `image i`. -/
def KernelInside (image : ℕ → Word64 → UInt8) (mem : Word64 → UInt8) (elf size : Word64)
    (grants : ℕ → Bool) : Prop :=
  (openKernel mem elf size).1.isSome → ∀ i < ((ePhnum elf).value mem).toNat,
    Reached image elf ((ePhoff elf).value mem) grants i →
      RoundInside (image i) elf size ((ePhoff elf).value mem) (grants i) i

instance (image : ℕ → Word64 → UInt8) (mem : Word64 → UInt8) (elf size : Word64)
    (grants : ℕ → Bool) :
    Decidable (KernelInside image mem elf size grants) :=
  inferInstanceAs (Decidable (_ → ∀ _ < _, _ → _))

/-- The beginning of `load_kernel` reads the file header only, and writes nothing. -/
lemma openKernel_spec (mem : Word64 → UInt8) (elf size : Word64) :
    (openKernel mem elf size).2.Read (InImage elf size) ∧ (openKernel mem elf size).2.mem = mem ∧
      ∀ o ∈ (openKernel mem elf size).1, ¬size < sizeofEhdr ∧
        o = ((ePhoff elf).value mem, ((ePhnum elf).value mem).toNat) := by
  have hstart : (KernelLoad.mk mem [] 0 0).Read (InImage elf size) := by simp [KernelLoad.Read]
  rw [openKernel]
  split_ifs with hsize
  · exact ⟨hstart, rfl, by simp⟩
  obtain ⟨hmagic, -, hmach, -, hphoff, hphnum⟩ := within_header mem elf hsize
  have hfirst := read_scan.2 ⟨hstart, hmagic⟩
  have hsecond := read_scan.2 ⟨hfirst, hmach⟩
  dsimp only
  split_ifs
  · refine ⟨read_scan.2 ⟨read_scan.2 ⟨hsecond, hphoff⟩, hphnum⟩, rfl, fun o ho => ⟨hsize, ?_⟩⟩
    exact (Option.some.inj ho).symm
  · exact ⟨hsecond, rfl, by simp⟩
  · exact ⟨hfirst, rfl, by simp⟩

/-- The loop gets as far as header `i` if each round before it succeeds. -/
lemma reached_found (mem : Word64 → UInt8) (elf size : Word64) (grants : ℕ → Bool) (i : ℕ) :
    (loadKernelSegments elf ((ePhoff elf).value mem) grants i (openKernel mem elf size).2).1 =
    true ↔
      Reached (found mem elf size grants) elf ((ePhoff elf).value mem) grants i := by
  rw [loadKernelSegments, Attempt.fst_eq_true_iff]
  simp only [Nat.zero_add, ok_loadKernelSegment]
  rfl

/-- What `load_kernel` has read is what its loop has read, and the entry point. -/
lemma read_loadKernel_iff (h : (openKernel mem elf size).1.isSome) :
    (loadKernel mem elf size grants).2.Read (InImage elf size) ↔
      (loadKernelSegments elf ((ePhoff elf).value mem) grants ((ePhnum elf).value mem).toNat
        (openKernel mem elf size).2).2.Read (InImage elf size) := by
  obtain ⟨o, ho⟩ := Option.isSome_iff_exists.1 h
  obtain ⟨hsize, rfl⟩ := (openKernel_spec mem elf size).2.2 o ho
  rw [loadKernel]
  simp only [ho]
  generalize loadKernelSegments elf _ grants _ (openKernel mem elf size).2 = r
  have hentry :
      (r.2.scan (eEntry elf)).2.Read (InImage elf size) ↔ r.2.Read (InImage elf size) := by
    rw [read_scan]
    exact and_iff_left (within_header r.2.mem elf hsize).2.2.2.1
  split_ifs
  · exact hentry
  · exact hentry
  · exact Iff.rfl

/-- The condition is exact if each header is taken as its round finds it. -/
lemma exact_loadKernel (mem : Word64 → UInt8) (elf size : Word64) (grants : ℕ → Bool) :
    Exact elf size (loadKernel mem elf size grants).2.reads
      (KernelInside (found mem elf size grants) mem elf size grants) := by
  obtain ⟨hopen, -, -⟩ := openKernel_spec mem elf size
  constructor
  · intro hcond
    by_cases hsome : (openKernel mem elf size).1.isSome
    · refine (read_loadKernel_iff hsome).2 (Attempt.reached hopen fun i hi hreached hread => ?_)
      rw [Nat.zero_add]
      exact read_of_roundInside hread
        (hcond hsome i hi ((reached_found mem elf size grants i).1 hreached))
    · rw [Option.not_isSome_iff_eq_none] at hsome
      rw [loadKernel]
      simp only [hsome]
      exact hopen
  · intro hsize hread hsome i hi hreached
    have hround := Attempt.reached_of_last (fun _ _ h => (read_loadKernelSegment.1 h).1)
      ((read_loadKernel_iff hsome).1 hread) hi ((reached_found mem elf size grants i).2 hreached)
    rw [Nat.zero_add] at hround
    exact roundInside_of_read hsize hround

/-! ## Kernels that do not overwrite their image -/

/-- The firmware grants no pages of the image, and the segments it grants pages for have no more in
the file than in memory.  So the image is not overwritten. -/
def KernelApart (mem : Word64 → UInt8) (elf size : Word64) (grants : ℕ → Bool) : Prop :=
  ∀ i < ((ePhnum elf).value mem).toNat, grants i = true →
    let ph := phdr elf ((ePhoff elf).value mem) i
    (pType ph).value mem = kElfLoad → (pFilesz ph).value mem ≤ (pMemsz ph).value mem ∧
      ∀ a : Word64, a - (loadAddress ph).value mem < (pMemsz ph).value mem →
        ¬(a - elf).toNat < size.toNat

/-- The image has the same bytes in both memories. -/
def SameImage (elf size : Word64) (mem mem' : Word64 → UInt8) : Prop :=
  ∀ a : Word64, (a - elf).toNat < size.toNat → mem' a = mem a

lemma SameImage.value {mem' : Word64 → UInt8} {α : Type} {m : Scan α}
    (h : SameImage elf size mem mem')
    (hm : Within (InImage elf size) m mem) : m.value mem' = m.value mem :=
  (m.value_congr fun e he k hk => h _ (hm e he k hk)).1

/-- What the condition says of a round depends on the image only. -/
lemma roundInside_congr {mem' : Word64 → UInt8} (h : SameImage elf size mem mem') :
    RoundInside mem' elf size phoff granted i ↔ RoundInside mem elf size phoff granted i := by
  rw [RoundInside, RoundInside]
  refine and_congr_right fun htype => ?_
  rw [h.value ((within_pType mem elf).2 htype)]
  refine imp_congr_right fun _ => and_congr_right fun hend => ?_
  obtain ⟨-, -, hoff, -, -, hfilesz, -⟩ := within_phdr mem elf hend
  rw [h.value hoff, h.value hfilesz]

/-- A segment that is copied and cleared elsewhere leaves the image alone. -/
lemma sameImage_loadKernelSegment (h : SameImage elf size mem k.mem)
    (hround : RoundInside mem elf size phoff granted i)
    (hapart : granted = true → let ph := phdr elf phoff i
      (pType ph).value mem = kElfLoad → (pFilesz ph).value mem ≤ (pMemsz ph).value mem ∧
        ∀ a : Word64, a - (loadAddress ph).value mem < (pMemsz ph).value mem →
          ¬(a - elf).toNat < size.toNat) :
    SameImage elf size mem (loadKernelSegment elf (phdr elf phoff i) granted k).2.mem := by
  obtain ⟨htype, hrest⟩ := hround
  rw [loadKernelSegment]
  split_ifs with hload hgrant
  · exact h
  · -- the values the round reads are those of the original image
    have heq : (pType (phdr elf phoff i)).value mem = kElfLoad := by
      rw [← h.value ((within_pType mem elf).2 htype)]
      exact not_not.1 hload
    obtain ⟨-, -, hoff, hvaddr, hpaddr, hfilesz, hmemsz⟩ := within_phdr mem elf (hrest heq).1
    have haddress := within_loadAddress hpaddr hvaddr
    obtain ⟨hle, hother⟩ := hapart hgrant heq
    simp only [KernelLoad.scan, KernelLoad.cover, h.value hfilesz, h.value hmemsz, h.value haddress]
    intro a ha
    have hout : ¬ a - (loadAddress (phdr elf phoff i)).value mem <
        (pMemsz (phdr elf phoff i)).value mem := fun hlt => hother a hlt ha
    simp only [KernelLoad.clear, KernelLoad.memcpy]
    generalize (loadAddress (phdr elf phoff i)).value mem = phys at hout ⊢
    generalize (pMemsz (phdr elf phoff i)).value mem = memsz at hle hout ⊢
    generalize (pFilesz (phdr elf phoff i)).value mem = filesz at hle ⊢
    rw [if_neg, if_neg]
    · exact h a ha
    · bv_omega
    · bv_omega
  · exact h

/-- If the image is not overwritten, then the condition can be read off the image as it was. -/
lemma kernelInside_found (hapart : KernelApart mem elf size grants) :
    KernelInside (found mem elf size grants) mem elf size grants ↔
      KernelInside (fun _ => mem) mem elf size grants := by
  -- as far as the loop gets, in either reading, the image is as it was
  have hsame (h : KernelInside (found mem elf size grants) mem elf size grants ∨
      KernelInside (fun _ => mem) mem elf size grants) (hsome : (openKernel mem elf size).1.isSome)
      (i : ℕ) (hi : i ≤ ((ePhnum elf).value mem).toNat)
      (hreached : Reached (found mem elf size grants) elf ((ePhoff elf).value mem) grants i ∨
        Reached (fun _ => mem) elf ((ePhoff elf).value mem) grants i) :
      SameImage elf size mem (found mem elf size grants i) ∧
        Reached (found mem elf size grants) elf ((ePhoff elf).value mem) grants i ∧
        Reached (fun _ => mem) elf ((ePhoff elf).value mem) grants i := by
    induction i with
    | zero =>
      refine ⟨fun a _ => ?_, fun j hj => absurd hj (Nat.not_lt_zero j),
        fun j hj => absurd hj (Nat.not_lt_zero j)⟩
      exact congrFun (openKernel_spec mem elf size).2.1 a
    | succ i ih =>
      obtain ⟨hkept, hfound, hmem⟩ := ih (by omega) (hreached.imp
        (fun hr j hj => hr j (by omega)) fun hr j hj => hr j (by omega))
      have hround : RoundInside mem elf size ((ePhoff elf).value mem) (grants i) i :=
        h.elim (fun hf => (roundInside_congr hkept).1 (hf hsome i hi hfound))
          fun hm => hm hsome i hi hmem
      have htype := hkept.value ((within_pType mem elf).2 hround.1)
      have hgrant : (pType (phdr elf ((ePhoff elf).value mem) i)).value mem = kElfLoad →
          grants i = true := by
        intro heq
        rcases hreached with hr | hr
        · exact hr i (Nat.lt_succ_self i) (htype.trans heq)
        · exact hr i (Nat.lt_succ_self i) heq
      refine ⟨?_, ?_, ?_⟩
      · rw [found, loadKernelSegments, Attempt.succ_last, if_pos, Nat.zero_add]
        · exact sameImage_loadKernelSegment hkept hround (hapart i hi)
        · exact (reached_found mem elf size grants i).2 hfound
      · intro j hj heq
        rcases Nat.lt_succ_iff_lt_or_eq.1 hj with hlt | rfl
        · exact hfound j hlt heq
        · exact hgrant (htype ▸ heq)
      · intro j hj heq
        rcases Nat.lt_succ_iff_lt_or_eq.1 hj with hlt | rfl
        · exact hmem j hlt heq
        · exact hgrant heq
  constructor
  · intro h hsome i hi hreached
    obtain ⟨hkept, hfound, -⟩ := hsame (.inl h) hsome i hi.le (.inr hreached)
    exact (roundInside_congr hkept).1 (h hsome i hi hfound)
  · intro h hsome i hi hreached
    obtain ⟨hkept, -, hmem⟩ := hsame (.inr h) hsome i hi.le (.inl hreached)
    exact (roundInside_congr hkept).2 (h hsome i hi hmem)

end BootLoader
end IanOS
