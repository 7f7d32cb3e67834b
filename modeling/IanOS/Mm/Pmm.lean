import IanOS.Lib.Bitmap
import IanOS.Lib.RunSearch
import IanOS.Mm.Page

/-!
# The physical page allocator

A model of `PhysicalMemoryManager` (`kernel/src/mm/pmm.cpp`): one bit per 4 KiB page, set while the
page is used, together with a free counter, a hint for the next single-page scan and the counters
the kernel reports.  Pages below `0x100` are never released, and bits past the bitmap read as used.

The functions here are the source's, in its order; what they do to the *set of free pages* is
proved in `IanOS.Mm.PmmSpec`.  The lock around each of them has no effect on one processor and is
left out.
-/

namespace IanOS

open Word

/-- Number of pages the bitmap covers. -/
def kPmmBitmapPages : ℕ := 1024 * 1024

/-! ## What the boot loader hands over -/

inductive MemoryType
  | reserved | usable | bootServices | runtimeServices | acpiReclaim | acpiNvs | mmio | bad
  deriving DecidableEq, Repr

structure MemoryRegion where
  base : ℕ
  length : ℕ
  type : MemoryType
  deriving DecidableEq, Repr

structure BootModule where
  base : ℕ
  size : ℕ
  deriving DecidableEq, Repr

structure FramebufferInfo where
  base : ℕ
  pixelsPerScanline : ℕ
  height : ℕ
  bytesPerPixel : ℕ
  deriving DecidableEq, Repr

/-- The boot information block, as far as the page allocator reads it.  `address` is where the
block itself lies; the memory map and the module table are given both by their address and by
their contents, so that `memory_map_entries` and `boot_module_count` are the two list lengths. -/
structure BootInfo where
  address : ℕ
  rsdp : ℕ
  framebuffer : FramebufferInfo
  memoryMap : ℕ
  regions : List MemoryRegion
  memoryMapDescriptorSize : ℕ
  kernelPhysicalBase : ℕ
  kernelPhysicalEnd : ℕ
  userInitBase : ℕ
  userInitSize : ℕ
  bootModules : ℕ
  modules : List BootModule
  deriving DecidableEq, Repr

/-- `sizeof(hybrid::BootModule)`. -/
def sizeofBootModule : ℕ := 80

/-- `sizeof(hybrid::BootInfo)`. -/
def sizeofBootInfo : ℕ := 156

/-! ## The allocator's state -/

structure MemoryStats where
  totalPages : ℕ := 0
  freePages : ℕ := 0
  usedPages : ℕ := 0
  usableBytes : ℕ := 0
  reservedBytes : ℕ := 0
  highestPhysical : ℕ := 0

structure PhysicalMemoryDiagnostics where
  allocatePageCalls : ℕ := 0
  allocateContiguousCalls : ℕ := 0
  freePageCalls : ℕ := 0
  freeContiguousCalls : ℕ := 0
  failedAllocations : ℕ := 0
  invalidFrees : ℕ := 0
  peakUsedPages : ℕ := 0
  lastAllocatedPage : ℕ := 0

structure PhysicalMemoryManager where
  bitmap : Bitmap
  totalPages : ℕ := 0
  freePages : ℕ := 0
  scanHint : ℕ := 0
  stats : MemoryStats := {}
  diagnostics : PhysicalMemoryDiagnostics := {}

namespace PhysicalMemoryManager

def setUsed (m : PhysicalMemoryManager) (page : ℕ) (used : Bool) : PhysicalMemoryManager :=
  if kPmmBitmapPages ≤ page then m else { m with bitmap := m.bitmap.assign page used }

def isUsed (m : PhysicalMemoryManager) (page : ℕ) : Bool :=
  if kPmmBitmapPages ≤ page then true else m.bitmap.test page

def updatePeakUsed (m : PhysicalMemoryManager) : PhysicalMemoryManager :=
  let used := m.totalPages - m.freePages
  if m.diagnostics.peakUsedPages < used then
    { m with diagnostics := { m.diagnostics with peakUsedPages := used } }
  else m

/-- The two statistics every operation refreshes from the counters. -/
def refreshStats (m : PhysicalMemoryManager) : PhysicalMemoryManager :=
  { m with
    stats := { m.stats with freePages := m.freePages, usedPages := m.totalPages - m.freePages } }

/-! ### Initialisation -/

/-- Body of the loop that releases a region's pages. -/
def releasePage (m : PhysicalMemoryManager) (page : ℕ) : PhysicalMemoryManager :=
  if page < 0x100 then m
  else if m.isUsed page then
    { m.setUsed page false with freePages := m.freePages + 1 }
  else m

/-- Body of the loop of `mark_range_used`. -/
def reservePage (m : PhysicalMemoryManager) (page : ℕ) : PhysicalMemoryManager :=
  if m.isUsed page then m
  else { m.setUsed page true with
    freePages := if 0 < m.freePages then m.freePages - 1 else m.freePages }

def markRangeUsed (m : PhysicalMemoryManager) (base length : ℕ) : PhysicalMemoryManager :=
  let first := pageAlignDown base / kPageSize
  let last := pageAlignUp ((base + length) % modulus) / kPageSize
  let last := if m.totalPages < last then m.totalPages else last
  ((List.range' first (last - first)).foldl reservePage m).refreshStats

/-- Regions of these two types are given to the allocator. -/
def releasable (r : MemoryRegion) : Bool := r.type = .usable || r.type = .bootServices

/-- One iteration of the loop over the memory map. -/
def initializeRegion (m : PhysicalMemoryManager) (r : MemoryRegion) : PhysicalMemoryManager :=
  let finish := (r.base + r.length) % modulus
  let m := if m.stats.highestPhysical < finish then
      { m with stats := { m.stats with highestPhysical := finish } } else m
  let first := pageAlignUp r.base / kPageSize
  let last := pageAlignDown finish / kPageSize
  let last := if kPmmBitmapPages < last then kPmmBitmapPages else last
  let m := if m.totalPages < last then { m with totalPages := last } else m
  if releasable r then
    let m := { m with
      stats := { m.stats with usableBytes := (m.stats.usableBytes + r.length) % modulus } }
    (List.range' first (last - first)).foldl releasePage m
  else
    { m with
      stats := { m.stats with reservedBytes := (m.stats.reservedBytes + r.length) % modulus } }

/-- The state `initialize` starts its loops from: every bit set, every counter zero. -/
def blank : PhysicalMemoryManager where
  bitmap := Bitmap.full
  scanHint := 0x100

/-- Length in bytes of the kernel image, as the unsigned difference the source takes. -/
def kernelLength (boot : BootInfo) : ℕ :=
  sub boot.kernelPhysicalEnd boot.kernelPhysicalBase

def framebufferLength (fb : FramebufferInfo) : ℕ :=
  (fb.pixelsPerScanline * fb.height * fb.bytesPerPixel) % modulus

/-- The source's `initialize`. -/
def initializeFromBoot (boot : BootInfo) : PhysicalMemoryManager :=
  let m := boot.regions.foldl initializeRegion blank
  let m := m.markRangeUsed 0 0x100000
  let m := m.markRangeUsed boot.kernelPhysicalBase (kernelLength boot)
  let m := m.markRangeUsed boot.userInitBase boot.userInitSize
  let m := m.markRangeUsed boot.bootModules
    ((boot.modules.length * sizeofBootModule) % modulus)
  let m := boot.modules.foldl (fun m module => m.markRangeUsed module.base module.size) m
  let m := m.markRangeUsed boot.address sizeofBootInfo
  let m := m.markRangeUsed boot.memoryMap
    ((boot.regions.length * boot.memoryMapDescriptorSize) % modulus)
  let m := m.markRangeUsed boot.framebuffer.base (framebufferLength boot.framebuffer)
  let m := if boot.rsdp ≠ 0 then m.markRangeUsed (pageAlignDown boot.rsdp) kPageSize else m
  let m := { m with
    stats := { m.stats with
      totalPages := m.totalPages
      freePages := m.freePages
      usedPages := m.totalPages - m.freePages } }
  m.updatePeakUsed

/-! ### Allocation and release -/

/-- What both scans of `allocate_page` do with the free page they found. -/
def takePage (m : PhysicalMemoryManager) (page : ℕ) : PhysicalMemoryManager × ℕ :=
  let m := m.setUsed page true
  let m := { m with freePages := m.freePages - 1 }
  let m := m.refreshStats
  let m := { m with
    scanHint := page + 1
    diagnostics := { m.diagnostics with lastAllocatedPage := page } }
  (m.updatePeakUsed, page * kPageSize)

/-- Count a failed request and return the null address. -/
def failAllocation (m : PhysicalMemoryManager) : PhysicalMemoryManager × ℕ :=
  ({ m with diagnostics :=
      { m.diagnostics with failedAllocations := m.diagnostics.failedAllocations + 1 } }, 0)

def allocatePage (m : PhysicalMemoryManager) : PhysicalMemoryManager × ℕ :=
  let m := { m with diagnostics :=
    { m.diagnostics with allocatePageCalls := m.diagnostics.allocatePageCalls + 1 } }
  let free := fun page => !m.isUsed page
  match (List.range' m.scanHint (m.totalPages - m.scanHint)).find? free with
  | some page => m.takePage page
  | none =>
    match (List.range' 0x100 (m.scanHint - 0x100)).find? free with
    | some page => m.takePage page
    | none => m.failAllocation

def allocateContiguous (m : PhysicalMemoryManager) (pageCount : ℕ) :
    PhysicalMemoryManager × ℕ :=
  let m := { m with diagnostics :=
    { m.diagnostics with allocateContiguousCalls := m.diagnostics.allocateContiguousCalls + 1 } }
  if pageCount = 0 then m.failAllocation
  else
    match RunSearch.findRun (fun page => !m.isUsed page) pageCount
      (m.totalPages - 0x100) 0x100 0 0 with
    | some runStart =>
      let m := (List.range' runStart pageCount).foldl (fun m p => m.setUsed p true) m
      let m := { m with freePages := m.freePages - pageCount }
      let m := m.refreshStats
      let m := { m with
        scanHint := runStart + pageCount
        diagnostics := { m.diagnostics with lastAllocatedPage := runStart } }
      (m.updatePeakUsed, runStart * kPageSize)
    | none => m.failAllocation

/-- Body of the loop of `free_contiguous`, with the flag that records whether any page was freed.
The index `page + i` is a 64-bit sum. -/
def freeStep (page : ℕ) (acc : PhysicalMemoryManager × Bool) (i : ℕ) :
    PhysicalMemoryManager × Bool :=
  let index := (page + i) % modulus
  if acc.1.totalPages ≤ index || !acc.1.isUsed index then acc
  else ({ acc.1.setUsed index false with freePages := acc.1.freePages + 1 }, true)

def countInvalidFree (m : PhysicalMemoryManager) : PhysicalMemoryManager :=
  { m with diagnostics := { m.diagnostics with invalidFrees := m.diagnostics.invalidFrees + 1 } }

def freeContiguous (m : PhysicalMemoryManager) (physical pageCount : ℕ) :
    PhysicalMemoryManager :=
  let m := { m with diagnostics :=
    { m.diagnostics with freeContiguousCalls := m.diagnostics.freeContiguousCalls + 1 } }
  let page := physical / kPageSize
  if physical = 0 || physical % kPageSize ≠ 0 || page < 0x100 || pageCount = 0 then
    m.countInvalidFree
  else
    let acc := (List.range pageCount).foldl (freeStep page) (m, false)
    let m := if acc.2 then acc.1 else acc.1.countInvalidFree
    let m := m.refreshStats
    if page < m.scanHint then { m with scanHint := page } else m

def freePage (m : PhysicalMemoryManager) (physical : ℕ) : PhysicalMemoryManager :=
  let m := { m with diagnostics :=
    { m.diagnostics with freePageCalls := m.diagnostics.freePageCalls + 1 } }
  m.freeContiguous physical 1

def freeRunCount (m : PhysicalMemoryManager) (order : ℕ) : ℕ :=
  if order > 20 then 0
  else RunSearch.countRuns (fun page => !m.isUsed page) (2 ^ order) (m.totalPages - 0x100) 0x100 0 0

end PhysicalMemoryManager
end IanOS
