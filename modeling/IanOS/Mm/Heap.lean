import IanOS.Mm.Page

/-!
# The kernel heap

A model of `KernelHeap` (`kernel/src/mm/heap.cpp`).  The heap is a list of blocks, each a 24-byte
header followed by its payload; `next` pointers make it a list, which is what the model keeps.
`allocate` takes the first free block that can hold the request at its alignment, splitting off the
tail when that leaves a useful block, and grows the heap when nothing fits.  `free` finds the block
a pointer lies in and merges it with the free blocks next to it.

Growing the heap asks the page allocator and the page tables for memory; whether that works is a
parameter of the call.  Sums that depend on a request are taken modulo `2 ^ 64`; those over block
bounds alone cannot leave the heap.
-/

namespace IanOS

open Word

/-- `sizeof(Block)`. -/
def sizeofBlock : ℕ := 24

def kHeapInitialPages : ℕ := 16

def kMinSplitPayload : ℕ := 32

/-- A block: its header lies at `addr`, its payload of `size` bytes right after it. -/
structure Block where
  addr : ℕ
  size : ℕ
  free : Bool
  deriving DecidableEq, Repr

namespace Block

/-- Address of the payload. -/
def payload (b : Block) : ℕ := b.addr + sizeofBlock

/-- One past the last byte of the payload. -/
def stop (b : Block) : ℕ := b.payload + b.size

/-- The first address in the payload that has the alignment (`align_ptr`). -/
def aligned (b : Block) (alignment : ℕ) : ℕ := alignUp b.payload alignment

def padding (b : Block) (alignment : ℕ) : ℕ := sub (b.aligned alignment) b.payload

/-- The test of the scan in `allocate`. -/
def fits (b : Block) (size alignment : ℕ) : Bool :=
  b.free && decide ((size + b.padding alignment) % modulus ≤ b.size)

/-- One past the last byte the request uses. -/
def usedEnd (b : Block) (size alignment : ℕ) : ℕ := (b.aligned alignment + size) % modulus

/-- What becomes of the block that is taken: the part in use and, when more than a header and
`kMinSplitPayload` bytes are left, a free block behind it. -/
def carve (b : Block) (size alignment : ℕ) : List Block :=
  let usedEnd := b.usedEnd size alignment
  if (usedEnd + sizeofBlock + kMinSplitPayload) % modulus < b.stop then
    [{ b with size := sub usedEnd b.payload, free := false },
      ⟨usedEnd, sub (sub b.stop usedEnd) sizeofBlock, true⟩]
  else [{ b with free := false }]

/-- The pointer lies in the payload. -/
def holds (b : Block) (raw : ℕ) : Bool := decide (b.payload ≤ raw) && decide (raw < b.stop)

/-- Let a block swallow the one behind it. -/
def absorb (b next : Block) : Block := { b with size := b.size + (sizeofBlock + next.size) }

end Block

structure HeapDiagnostics where
  allocationCalls : ℕ := 0
  callocCalls : ℕ := 0
  freeCalls : ℕ := 0
  failedAllocations : ℕ := 0
  invalidFrees : ℕ := 0
  peakUsedBytes : ℕ := 0
  lastAllocSize : ℕ := 0

/-- The heap as constructed is empty. -/
structure KernelHeap where
  heapStart : ℕ := 0xffff800000000000
  heapEnd : ℕ := 0xffff800000000000
  blocks : List Block := []
  diagnostics : HeapDiagnostics := {}

namespace KernelHeap

def usedBytesLocked (h : KernelHeap) : ℕ :=
  h.blocks.foldl (fun used b => if b.free then used else used + b.size) 0

def updatePeakUsedLocked (h : KernelHeap) : KernelHeap :=
  if h.diagnostics.peakUsedBytes < h.usedBytesLocked then
    { h with diagnostics := { h.diagnostics with peakUsedBytes := h.usedBytesLocked } }
  else h

/-! ## Growing -/

/-- `expand`, when its page loop either maps every page (`ok`) or stops at the first one. -/
def expand (h : KernelHeap) (bytes : ℕ) (ok : Bool) : KernelHeap × Bool :=
  let pages := pageAlignUp bytes / kPageSize
  if pages ≠ 0 && !ok then (h, false)
  else
    let block : Block := ⟨h.heapEnd, sub (pages * kPageSize) sizeofBlock, true⟩
    ({ h with
      blocks := h.blocks ++ [block]
      heapEnd := (h.heapEnd + pages * kPageSize) % modulus }, true)

/-- The source's `initialize`. -/
def initializeHeap (h : KernelHeap) (ok : Bool) : KernelHeap :=
  if h.blocks = [] then (h.expand (kHeapInitialPages * kPageSize) ok).1 else h

/-! ## Allocating -/

/-- The scan of `allocate`: carve the request out of the first block that fits, and return the
new list and the aligned address. -/
def takeFit (size alignment : ℕ) : List Block → Option (List Block × ℕ)
  | [] => none
  | b :: bs =>
    if b.fits size alignment then some (b.carve size alignment ++ bs, b.aligned alignment)
    else (takeFit size alignment bs).map fun r => (b :: r.1, r.2)

/-- What a call of `allocate` leaves behind: the heap, the pointer (zero for null), and how often
it asked for more memory. -/
structure AllocateResult where
  heap : KernelHeap
  pointer : ℕ
  expansions : ℕ

/-- The endless loop of `allocate`, cut off after `fuel` rounds; `outcome i` says whether the
`i`-th attempt of this call to grow the heap succeeds. -/
def allocateLoop (size alignment : ℕ) (outcome : ℕ → Bool) :
    ℕ → ℕ → KernelHeap → Option AllocateResult
  | 0, _, _ => none
  | fuel + 1, expansions, h =>
    match takeFit size alignment h.blocks with
    | some (blocks, pointer) =>
      let h := { h with blocks := blocks }
      let h := { h with diagnostics := { h.diagnostics with lastAllocSize := size } }
      some ⟨h.updatePeakUsedLocked, pointer, expansions⟩
    | none =>
      match h.expand ((size + alignment + sizeofBlock) % modulus) (outcome expansions) with
      | (h, false) =>
        let h := { h with diagnostics :=
          { h.diagnostics with failedAllocations := h.diagnostics.failedAllocations + 1 } }
        some ⟨h, 0, expansions + 1⟩
      | (h, true) => allocateLoop size alignment outcome fuel (expansions + 1) h

/-- The alignment `allocate` works with. -/
def effectiveAlignment (alignment : ℕ) : ℕ := if alignment < 16 then 16 else alignment

def allocate (h : KernelHeap) (size alignment fuel : ℕ) (outcome : ℕ → Bool) :
    Option AllocateResult :=
  if size = 0 then some ⟨h, 0, 0⟩
  else
    let h := { h with diagnostics :=
      { h.diagnostics with allocationCalls := h.diagnostics.allocationCalls + 1 } }
    allocateLoop size (effectiveAlignment alignment) outcome fuel 0 h

/-- Clearing the memory does not concern the block list. -/
def calloc (h : KernelHeap) (count size fuel : ℕ) (outcome : ℕ → Bool) : Option AllocateResult :=
  let h := { h with diagnostics :=
    { h.diagnostics with callocCalls := h.diagnostics.callocCalls + 1 } }
  h.allocate ((count * size) % modulus) 16 fuel outcome

/-! ## Releasing -/

/-- The `while` loop of `free`: merge the free blocks that follow. -/
def coalesceNext : Block → List Block → Block × List Block
  | b, [] => (b, [])
  | b, next :: rest =>
    if next.free && decide (b.stop = next.addr) then coalesceNext (b.absorb next) rest
    else (b, next :: rest)

/-- The second loop of `free`: let the predecessor of the block at `addr` swallow it if it is
free. -/
def coalescePrev (addr : ℕ) : List Block → List Block
  | prev :: block :: rest =>
    if decide (block.addr = addr) && prev.free then
      if prev.stop = block.addr then prev.absorb block :: rest else prev :: block :: rest
    else prev :: coalescePrev addr (block :: rest)
  | blocks => blocks

/-- The search of `free`: mark the block that holds the pointer free and merge what follows;
return its address and the new list. -/
def markFree (raw : ℕ) : List Block → Option (ℕ × List Block)
  | [] => none
  | b :: bs =>
    if b.holds raw then
      let merged := coalesceNext { b with free := true } bs
      some (b.addr, merged.1 :: merged.2)
    else (markFree raw bs).map fun r => (r.1, b :: r.2)

/-- The source's `free`. -/
def free (h : KernelHeap) (raw : ℕ) : KernelHeap :=
  if raw = 0 then h
  else
    match markFree raw h.blocks with
    | some (addr, blocks) =>
      { h with
        blocks := coalescePrev addr blocks
        diagnostics := { h.diagnostics with freeCalls := h.diagnostics.freeCalls + 1 } }
    | none =>
      { h with diagnostics :=
        { h.diagnostics with invalidFrees := h.diagnostics.invalidFrees + 1 } }

end KernelHeap
end IanOS
