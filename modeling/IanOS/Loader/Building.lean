import IanOS.Lib.Attempt
import IanOS.Lib.WordBytes
import IanOS.Loader.Elf
import IanOS.Mm.AddressSpace

/-!
# Building the address space of a process

What `create_process` and `create_process_from_elf` (`kernel/src/userspace/userspace.cpp`) do before
the process gets its slot: make an address space, fill it with the segments of the image and a
stack, and map the memory the kernel works in while the address space is loaded.

The image lies in the same physical memory as the page tables.  The fields of a program header are
read once in each round of the loop, and those of the file header once before it; the code reads
some of them again, from an image that is not written meanwhile.  The list `reads` is not part of
the kernel.  It records what has been read of the image.
-/

namespace IanOS.Loader

open Paging Elf

def kMaxOwnedUserPages : ℕ := 64
def kDefaultUserStackTop : Word64 := 0x7ffffff000
def kDefaultUserStackPages : ℕ := 4
def kMinimumIdentityLimit : Word64 := 256 * 1024 * 1024

def PageWriteThrough : Word64 := 1 <<< 3
def PageCacheDisable : Word64 := 1 <<< 4
def PageNoExecute : Word64 := 1 <<< 63

def pageSize : Word64 := 4096

/-- `hk::mm::align_down` and `hk::mm::align_up`. -/
def alignDown (value : Word64) : Word64 := BitVec.ofNat 64 (pageAlignDown value.toNat)

@[inherit_doc alignDown]
def alignUp (value : Word64) : Word64 := BitVec.ofNat 64 (pageAlignUp value.toNat)

/-- The number of rounds of `for (virt = start; virt < end; virt += kPageSize)`, where both are
aligned. -/
def pagesBetween (start stop : Word64) : ℕ :=
  if start < stop then (stop - start).toNat / kPageSize else 0

/-- The page `i` pages above an address. -/
def pageAbove (start : Word64) (i : ℕ) : Word64 := start + BitVec.ofNat 64 (i * kPageSize)

structure OwnedPage where
  virt : Word64
  phys : Word64
  deriving DecidableEq, Repr

/-- The variables of the two functions: memory, the tracked pages, and what the loop over the
segments has found. -/
structure Building where
  memory : State
  owned : List OwnedPage := []
  firstVaddr : Word64 := -1
  lastVaddr : Word64 := 0
  loadedPages : ℕ := 0
  reads : List Extent := []

/-- The byte at a physical address. -/
def byteAt (s : State) (a : Word64) : UInt8 := WordBytes.load s.words a.toNat

namespace Building

variable (b : Building)

def scan {α : Type} (m : Scan α) : α × Building :=
  (m.value (byteAt b.memory), { b with reads := b.reads ++ m.reads (byteAt b.memory) })

/-- `memset(phys, 0, kPageSize)`. -/
def clear (phys : Word64) (b : Building) : Building :=
  { b with memory := b.memory.clearPage phys.toNat }

/-- `memcpy(dst, src, count)` from the image. -/
def memcpy (dst src count : Word64) : Building :=
  { b with
    memory := { b.memory with
      words := WordBytes.store b.memory.words dst.toNat count.toNat fun k =>
        byteAt b.memory (src + BitVec.ofNat 64 k) }
    reads := b.reads ++ [⟨src, count.toNat⟩] }

/-- The range of the addresses of the segments is extended to one more. -/
def cover (start stop : Word64) : Building :=
  { b with
    firstVaddr := if start < b.firstVaddr then start else b.firstVaddr
    lastVaddr := if b.lastVaddr < stop then stop else b.lastVaddr }

def trackPage (virt phys : Word64) : Bool × Building :=
  if kMaxOwnedUserPages ≤ b.owned.length then (false, b)
  else (true, { b with owned := b.owned ++ [⟨virt, phys⟩] })

/-- One page for the process: a frame is allocated, prepared, mapped and tracked. -/
def addPage (root virt : Word64) (prepare : Word64 → Building → Building) (flags : Scan Word64) :
    Bool × Building :=
  let r := b.memory.pmm.allocatePage
  let b := { b with memory := { b.memory with pmm := r.1 } }
  if r.2 = 0 then (false, b)
  else
    let phys := BitVec.ofNat 64 r.2
    let f := (prepare phys b).scan flags
    let m := f.2.memory.mapPage root virt phys f.1
    let b := { f.2 with memory := m.2 }
    if ¬m.1.ok then (false, b) else b.trackPage virt phys

/-- The loop over the pages of the stack.  `create_process` does not clear them. -/
def mapStack (root : Word64) (prepare : Word64 → Building → Building) : Bool × Building :=
  attempt (fun i b =>
    b.addPage root (kDefaultUserStackTop - BitVec.ofNat 64 ((i + 1) * kPageSize)) prepare
      (pure (PageWrite ||| PageUser))) kDefaultUserStackPages 0 b

end Building

/-! ## Segments -/

/-- What is read of a program header for a segment that is loaded, and where the header is. -/
structure Segment where
  ph : Word64
  offset : Word64
  vaddr : Word64
  filesz : Word64
  memsz : Word64

namespace Segment

variable (g : Segment)

def start : Word64 := alignDown g.vaddr

def stop : Word64 := alignUp (g.vaddr + g.memsz)

/-- The part of the file that belongs on the page at `virt` is copied to its frame. -/
def copyPart (base virt phys : Word64) (b : Building) : Building :=
  let copyStart := if g.vaddr < virt then virt else g.vaddr
  let fileEnd := g.vaddr + g.filesz
  let copyEnd := if virt + pageSize < fileEnd then virt + pageSize else fileEnd
  if copyStart < copyEnd then
    b.memcpy (phys + (copyStart - virt)) (base + g.offset + (copyStart - g.vaddr))
      (copyEnd - copyStart)
  else b

/-- The flags of the pages of a segment. -/
def pageFlags (pFlags : Word64) : Word64 :=
  PageUser ||| (if pFlags &&& kElfWrite ≠ 0 then PageWrite else 0) |||
    (if pFlags &&& kElfExecute = 0 then PageNoExecute else 0)

/-- The body of the loop over the pages of a segment. -/
def loadPage (base root virt : Word64) (b : Building) : Bool × Building :=
  let r := b.addPage root virt (fun phys b => g.copyPart base virt phys (b.clear phys))
    (return pageFlags (← pFlags g.ph))
  if r.1 then (true, { r.2 with loadedPages := r.2.loadedPages + 1 }) else r

/-- The loop over the pages of a segment. -/
def loadPages (base root : Word64) (b : Building) : Bool × Building :=
  attempt (fun i => g.loadPage base root (pageAbove g.start i)) (pagesBetween g.start g.stop) 0 b

end Segment

namespace Building

variable (b : Building)

/-- The body of the loop over the program headers, for the header at `ph`. -/
def loadSegment (base size root ph : Word64) : Bool × Building :=
  let t := b.scan (pType ph)
  if t.1 ≠ kElfLoad then (true, t.2)
  else
    let m := t.2.scan (pMemsz ph)
    let f := m.2.scan (pFilesz ph)
    if m.1 < f.1 then (false, f.2)
    else
      let o := f.2.scan (pOffset ph)
      if size < o.1 + f.1 then (false, o.2)
      else
        let v := o.2.scan (pVaddr ph)
        let g : Segment := ⟨ph, o.1, v.1, f.1, m.1⟩
        g.loadPages base root (v.2.cover g.start g.stop)

/-- The loop over the first `n` program headers. -/
def loadSegments (base size root phoff : Word64) (n : ℕ) : Bool × Building :=
  attempt (fun i b => b.loadSegment base size root (phdr base phoff i)) n 0 b

end Building

/-! ## The memory the kernel works in -/

/-- The body of the loops that map memory at its own address. -/
def mapUnlessMapped (root virt flags : Word64) (s : State) : Bool × State :=
  if s.translate root virt ≠ 0 then (true, s)
  else
    let m := s.mapPage root virt virt flags
    (m.1.ok, m.2)

/-- Where the identity window ends. -/
def identityLimit (requiredLimit : Word64) : Word64 :=
  alignUp (if requiredLimit < kMinimumIdentityLimit then kMinimumIdentityLimit else requiredLimit)

def mapKernelIdentityWindow (root requiredLimit : Word64) (s : State) : Bool × State :=
  attempt (fun i => mapUnlessMapped root (pageAbove 0 i) PageWrite)
    (pagesBetween 0 (identityLimit requiredLimit)) 0 s

def mapSupervisorRange (root base length flags : Word64) (s : State) : Bool × State :=
  if base = 0 ∨ length = 0 then (true, s)
  else
    attempt (fun i => mapUnlessMapped root (pageAbove (alignDown base) i) flags)
      (pagesBetween (alignDown base) (alignUp (base + length))) 0 s

def mapKernelRuntimeRanges (fb : FramebufferInfo) (root requiredLimit : Word64) (s : State) :
    Bool × State :=
  let r := mapKernelIdentityWindow root requiredLimit s
  if ¬r.1 then r
  else
    mapSupervisorRange root (BitVec.ofNat 64 fb.base)
      (BitVec.ofNat 64 (PhysicalMemoryManager.framebufferLength fb))
      (PageWrite ||| PageCacheDisable ||| PageWriteThrough) r.2

/-- The last step of both functions. -/
def Building.mapRuntime (fb : FramebufferInfo) (root requiredLimit : Word64) (b : Building) :
    Bool × Building :=
  let r := mapKernelRuntimeRanges fb root requiredLimit b.memory
  (r.1, { b with memory := r.2 })

/-! ## The two functions -/

/-- `create_process` up to the allocation of a slot: the root of the address space. -/
def buildProcess (fb : FramebufferInfo) (active entry : Word64) (memory : State) :
    Option Word64 × Building :=
  let b : Building := { memory }
  if entry = 0 then (none, b)
  else
    let c := memory.createAddressSpace active
    let b := { b with memory := c.2 }
    if c.1 = 0 then (none, b)
    else
      let r := b.mapStack c.1 fun _ b => b
      if ¬r.1 then (none, r.2)
      else
        let r := r.2.mapRuntime fb c.1 (entry + pageSize)
        (if r.1 then some c.1 else none, r.2)

/-- The beginning of `create_process_from_elf`: the checks of the file header and the new address
space. The results are its root, `e_phoff` and `e_phnum`. -/
def openImage (active imageBase imageSize : Word64) (memory : State) :
    Option (Word64 × Word64 × ℕ) × Building :=
  let b : Building := { memory }
  if imageBase = 0 then (none, b)
  else
    let v := b.scan (validElf64 imageBase imageSize)
    if ¬v.1 then (none, v.2)
    else
      let e := v.2.scan (eEntry imageBase)
      if e.1 = 0 then (none, e.2)
      else
        let c := memory.createAddressSpace active
        let b := { e.2 with memory := c.2 }
        if c.1 = 0 then (none, b)
        else
          let o := b.scan (ePhoff imageBase)
          let n := o.2.scan (ePhnum imageBase)
          (some (c.1, o.1, n.1.toNat), n.2)

/-- `create_process_from_elf` up to the allocation of a slot: the root of the address space and the
entry point. -/
def buildProcessFromElf (fb : FramebufferInfo) (active imageBase imageSize : Word64)
    (memory : State) : Option (Word64 × Word64) × Building :=
  let o := openImage active imageBase imageSize memory
  match o.1 with
  | none => (none, o.2)
  | some (root, phoff, phnum) =>
    let r := o.2.loadSegments imageBase imageSize root phoff phnum
    if ¬r.1 then (none, r.2)
    else
      let e := r.2.scan (eEntry imageBase)
      if e.2.loadedPages = 0 ∨ e.1 < e.2.firstVaddr ∨ e.2.lastVaddr ≤ e.1 then (none, e.2)
      else
        let r := e.2.mapStack root .clear
        if ¬r.1 then (none, r.2)
        else
          let r := r.2.mapRuntime fb root (imageBase + imageSize)
          (if r.1 then some (root, e.1) else none, r.2)

end IanOS.Loader
