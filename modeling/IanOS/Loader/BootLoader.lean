import IanOS.Lib.Attempt
import IanOS.Lib.Word
import IanOS.Loader.Elf

/-!
# The boot loader's treatment of ELF images

`validate_user_elf` and `load_kernel` of `bootloader/src/main.cpp`.  The first only reads the image.
The second also copies it: its state has the memory, what has been read so far, and the range of
addresses of the kernel.  Whether the firmware grants the pages for a segment is not up to the boot
loader; `grants i` is its answer for program header `i`.

The copying loops of the boot loader go from low to high addresses; they are modelled as reading the
source before the destination is written, which is the same unless the two overlap.
-/

namespace IanOS.BootLoader

open Elf

/-! ## User images -/

/-- The loop of `validate_user_elf` over the program headers from `i` on. -/
def checkSegments (elf elfSize phoff : Word64) : ℕ → ℕ → Bool → Scan Bool
  | 0, _, hasLoad => pure hasLoad
  | n + 1, i, hasLoad => do
    let ph := phdr elf phoff i
    if (← pType ph) ≠ kElfLoad then checkSegments elf elfSize phoff n (i + 1) hasLoad
    else
      let filesz ← pFilesz ph
      let memsz ← pMemsz ph
      if memsz < filesz then return false
      let offset ← pOffset ph
      if elfSize < offset + filesz then return false
      checkSegments elf elfSize phoff n (i + 1) true

/-- `validate_user_elf`; true stands for `EFI_SUCCESS`. -/
def validateUserElf (elf elfSize : Word64) : Scan Bool := do
  if elfSize < sizeofEhdr then return false
  if !(← fieldsAre (magic elf)) then return false
  if !(← fieldsAre [(eIdent elf 4, 2), (eIdent elf 5, 1)]) then return false
  if !(← fieldsAre [(eMachine elf, 62), (ePhentsize elf, 56)]) then return false
  if (← eEntry elf) = 0 then return false
  if ← tableExceeds elf elfSize then return false
  let phoff ← ePhoff elf
  let phnum ← ePhnum elf
  checkSegments elf elfSize phoff phnum.toNat 0 false

/-! ## The kernel -/

structure KernelLoad where
  mem : Word64 → UInt8
  reads : List Extent
  kernelBase : Word64
  kernelEnd : Word64

namespace KernelLoad

variable (k : KernelLoad)

def scan {α : Type} (m : Scan α) : α × KernelLoad :=
  (m.value k.mem, { k with reads := k.reads ++ m.reads k.mem })

/-- `memcpy(dst, src, count)`. -/
def memcpy (dst src count : Word64) : KernelLoad :=
  { k with
    mem := fun a => if a - dst < count then k.mem (src + (a - dst)) else k.mem a
    reads := k.reads ++ [⟨src, count.toNat⟩] }

/-- `memset(dst, 0, count)`. -/
def clear (dst count : Word64) : KernelLoad :=
  { k with mem := fun a => if a - dst < count then 0 else k.mem a }

/-- The range of the kernel's addresses is extended to a segment. -/
def cover (phys segmentEnd : Word64) : KernelLoad :=
  { k with
    kernelBase := if phys < k.kernelBase then phys else k.kernelBase
    kernelEnd := if k.kernelEnd < segmentEnd then segmentEnd else k.kernelEnd }

end KernelLoad

def alignUp (value : Word64) : Word64 := BitVec.ofNat 64 (Word.alignUp value.toNat 4096)

/-- `p_paddr ? p_paddr : p_vaddr`. -/
def loadAddress (ph : Word64) : Scan Word64 := do
  let paddr ← pPaddr ph
  if paddr ≠ 0 then return paddr
  pVaddr ph

/-- The body of the loop of `load_kernel`, for the program header at `ph`. -/
def loadKernelSegment (elf ph : Word64) (granted : Bool) (k : KernelLoad) : Bool × KernelLoad :=
  let r := k.scan (pType ph)
  if r.1 ≠ kElfLoad then (true, r.2)
  else
    let a := r.2.scan (loadAddress ph)
    let m := a.2.scan (pMemsz ph)
    if ¬granted then (false, m.2)
    else
      let o := (m.2.cover a.1 (a.1 + alignUp m.1)).scan (pOffset ph)
      let f := o.2.scan (pFilesz ph)
      (true, (f.2.memcpy a.1 (elf + o.1) f.1).clear (a.1 + f.1) (m.1 - f.1))

/-- The loop of `load_kernel` over the first `n` program headers. -/
def loadKernelSegments (elf phoff : Word64) (grants : ℕ → Bool) (n : ℕ) (k : KernelLoad) :
    Bool × KernelLoad :=
  attempt (fun i => loadKernelSegment elf (phdr elf phoff i) (grants i)) n 0 k

/-- The beginning of `load_kernel`, with the values of `e_phoff` and `e_phnum`. -/
def openKernel (mem : Word64 → UInt8) (elf elfSize : Word64) : Option (Word64 × ℕ) × KernelLoad :=
  let k : KernelLoad := ⟨mem, [], 0, 0⟩
  if elfSize < sizeofEhdr then (none, k)
  else
    let r := k.scan (fieldsAre (magic elf))
    if ¬r.1 then (none, r.2)
    else
      let r := r.2.scan (fieldsAre [(eMachine elf, 62), (ePhentsize elf, 56)])
      if ¬r.1 then (none, r.2)
      else
        let o := r.2.scan (ePhoff elf)
        let n := o.2.scan (ePhnum elf)
        (some (o.1, n.1.toNat), { n.2 with kernelBase := -1, kernelEnd := 0 })

/-- `load_kernel`: the entry point, if the image is accepted, and what has been done. -/
def loadKernel (mem : Word64 → UInt8) (elf elfSize : Word64) (grants : ℕ → Bool) :
    Option Word64 × KernelLoad :=
  let o := openKernel mem elf elfSize
  match o.1 with
  | none => (none, o.2)
  | some (phoff, phnum) =>
    let r := loadKernelSegments elf phoff grants phnum o.2
    if ¬r.1 then (none, r.2)
    else
      let r := r.2.scan (eEntry elf)
      if r.2.kernelBase = -1 ∨ r.2.kernelEnd ≤ r.2.kernelBase then (none, r.2)
      else (some r.1, r.2)

end IanOS.BootLoader
