import IanOS.Loader.Room
import IanOS.Userspace.Mounted

/-!
# Creating a process

`create_process` and `create_process_from_elf` as a whole: the address space is built, and then the
process is entered in the tables of the manager.  The loader takes pages from the allocator and
returns none, on no path.  So a call that fails has lost what it took before: it leaves everything
as it was exactly if it fails before the first page is taken.
-/

namespace IanOS

open Paging Loader Elf Building Attempt

/-! ## The two functions -/

/-- The manager, physical memory with the page allocator, and what the loader is told of the
hardware. -/
structure Kernel where
  machine : Machine Mounted
  memory : Paging.State
  /-- `owned_pages` of the process in each slot. -/
  owned : ℕ → List OwnedPage
  framebuffer : FramebufferInfo

namespace Kernel

variable (k : Kernel)

/-- `vmm().active_pml4()`. -/
def activePml4 : Word64 := BitVec.ofNat 64 k.machine.cr3

/-- What the manager is given for an address space that has been built. -/
def imageOf (b : Building) (entry root : Word64) : ProcessImage where
  entry := entry
  root := root.toNat
  userStackTop := kDefaultUserStackTop
  mapping := fun virt => (b.memory.translate root (BitVec.ofNat 64 virt)).toNat

/-- The second part of both functions, from the allocation of a slot on. -/
def enter (b : Building) (entry root : Word64) : Option ℕ × Kernel :=
  let r := k.machine.createProcess (imageOf b entry root)
  let owned :=
    match k.machine.processes.allocate (fun p => p.state = .empty) kMaxUserProcesses with
    | none => k.owned
    | some (j, _) => Function.update k.owned j b.owned
  (r.1, { k with machine := r.2, memory := b.memory, owned := owned })

def createProcess (entry : Word64) : Option ℕ × Kernel :=
  let r := buildProcess k.framebuffer k.activePml4 entry k.memory
  match r.1 with
  | none => (none, { k with memory := r.2.memory })
  | some root => k.enter r.2 entry root

def createProcessFromElf (imageBase imageSize : Word64) : Option ℕ × Kernel :=
  let r := buildProcessFromElf k.framebuffer k.activePml4 imageBase imageSize k.memory
  match r.1 with
  | none => (none, { k with memory := r.2.memory })
  | some (root, entry) => k.enter r.2 entry root

end Kernel

/-! ## Pages are only taken -/

namespace Paging.State

variable {s s' s'' : State}

/-- No page has been given back to the allocator, and it is in order if it was. -/
structure Takes (s s' : State) : Prop where
  free : s'.pmm.freeSet ⊆ s.pmm.freeSet
  inv : s.pmm.Inv → s'.pmm.Inv

lemma Takes.refl (s : State) : Takes s s := ⟨Finset.Subset.refl _, id⟩

lemma Takes.trans (h : Takes s s') (h' : Takes s' s'') : Takes s s'' :=
  ⟨Finset.Subset.trans h'.free h.free, fun hinv => h'.inv (h.inv hinv)⟩

lemma takes_of_pmm (h : s'.pmm = s.pmm) : Takes s s' :=
  ⟨by rw [h], fun hinv => by rwa [h]⟩

lemma takes_allocatePage (h : s'.pmm = s.pmm.allocatePage.1) : Takes s s' :=
  ⟨by rw [h]; exact freeSet_allocatePage, fun hinv => by rw [h]; exact (allocatePage_of_inv hinv).1⟩

lemma takes_ensureTable (s : State) (parent : ℕ) (index : Fin 512) (flags : Word64) :
    Takes s (s.ensureTable parent index flags).2 := by
  obtain ⟨-, -, heq⟩ | ⟨-, -, heq⟩ | ⟨m, -, heq⟩ := s.ensureTable_cases parent index flags
  · rw [heq]
    exact takes_allocatePage rfl
  · rw [heq]
    exact takes_allocatePage rfl
  · rw [heq]
    exact .refl s

lemma takes_mapPage (s : State) (pml4 virt phys flags : Word64) :
    Takes s (s.mapPage pml4 virt phys flags).2 := by
  rw [mapPage]
  split
  · exact .refl s
  split
  · exact .refl s
  have hpdpt := takes_ensureTable s (table pml4) (pml4Index virt) flags
  dsimp only
  generalize s.ensureTable (table pml4) (pml4Index virt) flags = r at hpdpt ⊢
  split
  · exact hpdpt
  next pdpt _ =>
    have hpd := hpdpt.trans (takes_ensureTable r.2 pdpt (pdptIndex virt) flags)
    generalize r.2.ensureTable pdpt (pdptIndex virt) flags = r' at hpd ⊢
    split
    · exact hpd
    next pd _ =>
      have hpt := hpd.trans (takes_ensureTable r'.2 pd (pdIndex virt) flags)
      split
      · exact hpt
      · split
        · exact hpt
        · exact hpt.trans (takes_of_pmm rfl)

lemma pmm_createAddressSpace (s : State) (active : Word64) :
    (s.createAddressSpace active).2.pmm = s.pmm.allocatePage.1 := by
  by_cases hpage : s.pmm.allocatePage.2 = 0
  · rw [createAddressSpace, if_pos hpage]
  · rw [createAddressSpace_of_page hpage]
    exact pmm_copyEntries _ _ _ _

end Paging.State

namespace Loader

open Paging.State

variable {s : State} {b b' : Building} {root virt flags base size : Word64} {n : ℕ}
  {prepare : Word64 → Building → Building} {memory : State} {active : Word64}

/-- A frame is prepared without asking the allocator. -/
def Prepares (prepare : Word64 → Building → Building) : Prop :=
  ∀ phys b, (prepare phys b).memory.pmm = b.memory.pmm

lemma takes_addPage (hprepare : Prepares prepare) (root virt : Word64) (flags : Scan Word64)
    (b : Building) : Takes b.memory (b.addPage root virt prepare flags).2.memory := by
  rw [addPage]
  dsimp only
  split
  · exact takes_allocatePage rfl
  have hprep : Takes b.memory (prepare (BitVec.ofNat 64 b.memory.pmm.allocatePage.2)
      { b with memory := { b.memory with pmm := b.memory.pmm.allocatePage.1 } }).memory :=
    takes_allocatePage (hprepare _ _)
  generalize prepare _ _ = p at hprep ⊢
  have hmap := hprep.trans (takes_mapPage (p.scan flags).2.memory root virt
    (BitVec.ofNat 64 b.memory.pmm.allocatePage.2) (p.scan flags).1)
  split
  · exact hmap
  · rw [trackPage]
    split <;> exact hmap

lemma takes_mapStack (hprepare : Prepares prepare) (root : Word64) (b : Building) :
    Takes b.memory (b.mapStack root prepare).2.memory := by
  exact invariant (Q := fun b' : Building => Takes b.memory b'.memory) (.refl _)
    fun _ b' _ _ h => h.trans (takes_addPage hprepare _ _ _ b')

lemma prepares_copyPart (g : Segment) (base virt : Word64) :
    Prepares fun phys b => g.copyPart base virt phys (b.clear phys) := by
  intro phys b
  show (g.copyPart base virt phys (b.clear phys)).memory.pmm = b.memory.pmm
  rw [Segment.copyPart]
  split_ifs <;> rfl

lemma takes_loadPages (g : Segment) (base root : Word64) (b : Building) :
    Takes b.memory (g.loadPages base root b).2.memory := by
  refine invariant (Q := fun b' : Building => Takes b.memory b'.memory)
    (.refl _) fun i b' _ _ h => ?_
  have hadd := h.trans (takes_addPage (prepares_copyPart g base (pageAbove g.start i)) root
    (pageAbove g.start i) (return Segment.pageFlags (← pFlags g.ph)) b')
  rw [Segment.loadPage]
  split <;> exact hadd

lemma takes_loadSegments (base size root phoff : Word64) (n : ℕ) (b : Building) :
    Takes b.memory (b.loadSegments base size root phoff n).2.memory := by
  refine invariant (Q := fun b' : Building => Takes b.memory b'.memory)
    (.refl _) fun i b' _ _ h => ?_
  refine h.trans ?_
  rw [loadSegment]
  dsimp only
  split
  · exact .refl _
  split
  · exact .refl _
  split
  · exact .refl _
  · refine Takes.trans ?_ (takes_loadPages _ base root _)
    exact takes_of_pmm rfl

lemma takes_mapUnlessMapped (root virt flags : Word64) (s : State) :
    Takes s (mapUnlessMapped root virt flags s).2 := by
  rw [mapUnlessMapped]
  split
  · exact .refl s
  · exact takes_mapPage s root virt virt flags

lemma takes_mapKernelRuntimeRanges (fb : FramebufferInfo) (root requiredLimit : Word64)
    (s : State) :
    Takes s (mapKernelRuntimeRanges fb root requiredLimit s).2 := by
  have hloop (page : ℕ → Word64) (flags : Word64) (n : ℕ) (s : State) :
      Takes s (attempt (fun i => mapUnlessMapped root (page i) flags) n 0 s).2 :=
    invariant (.refl s) fun i s' _ _ h =>
      h.trans (takes_mapUnlessMapped root (page i) flags s')
  have hwin : Takes s (mapKernelIdentityWindow root requiredLimit s).2 := hloop _ _ _ s
  rw [mapKernelRuntimeRanges]
  split
  · exact hwin
  rw [mapSupervisorRange]
  split
  · exact hwin
  · exact hwin.trans (hloop _ _ _ _)

/-- A call that has got its root has taken at least this page. -/
lemma freeSet_ne_of_root (hroot : (memory.createAddressSpace active).1 ≠ 0)
    (h : Takes (memory.createAddressSpace active).2 s) : s.pmm.freeSet ≠ memory.pmm.freeSet := by
  have hpage : memory.pmm.allocatePage.2 ≠ 0 :=
    fun hzero => hroot (createAddressSpace_of_none hzero)
  have hg := fresh_allocatePage hpage
  have htaken := hg.taken
  rw [← pmm_createAddressSpace memory active] at htaken
  intro heq
  exact htaken (h.free (heq.symm.subset hg.free))

lemma takes_buildProcess (fb : FramebufferInfo) {entry : Word64} (hentry : entry ≠ 0)
    (hroot : (memory.createAddressSpace active).1 ≠ 0) :
    Takes (memory.createAddressSpace active).2 (buildProcess fb active entry memory).2.memory := by
  rw [buildProcess, if_neg hentry]
  dsimp only
  rw [if_neg hroot]
  generalize memory.createAddressSpace active = c
  have hstack : Takes c.2 (mapStack { memory := c.2 } c.1 fun _ b => b).2.memory :=
    takes_mapStack (fun _ _ => rfl) c.1 { memory := c.2 }
  split
  · exact hstack
  · exact hstack.trans (takes_mapKernelRuntimeRanges _ _ _ _)

/-- An image that gets past the checks of its header. -/
def Opens (memory : State) (base size : Word64) : Prop :=
  base ≠ 0 ∧ (validElf64 base size).value (byteAt memory) = true ∧
    (eEntry base).value (byteAt memory) ≠ 0

lemma takes_buildProcessFromElf (fb : FramebufferInfo) (hopens : Opens memory base size)
    (hroot : (memory.createAddressSpace active).1 ≠ 0) :
    Takes (memory.createAddressSpace active).2
      (buildProcessFromElf fb active base size memory).2.memory := by
  obtain ⟨hbase, hvalid, hentry⟩ := hopens
  have hopen :
      (openImage active base size memory).2.memory = (memory.createAddressSpace active).2 := by
    rw [openImage, if_neg hbase]
    dsimp only [scan]
    rw [if_neg (not_not.2 hvalid), if_neg hentry, if_neg hroot]
  have hclear : Prepares Building.clear := fun _ _ => rfl
  rw [buildProcessFromElf, ← hopen]
  generalize openImage active base size memory = o
  dsimp only
  split
  · exact .refl _
  next root phoff phnum _ =>
    have hload := takes_loadSegments base size root phoff phnum o.2
    generalize o.2.loadSegments base size root phoff phnum = r at hload ⊢
    split
    · exact hload
    split
    · exact hload
    have hstack : Takes o.2.memory (mapStack (r.2.scan (eEntry base)).2 root .clear).2.memory :=
      hload.trans (takes_mapStack hclear root (r.2.scan (eEntry base)).2)
    split
    · exact hstack
    · exact hstack.trans (takes_mapKernelRuntimeRanges _ _ _ _)

/-- The first page is given out exactly if there is one. -/
lemma root_eq_zero_iff (hinv : memory.pmm.Inv) (active : Word64) :
    (memory.createAddressSpace active).1 = 0 ↔ memory.pmm.freeSet = ∅ := by
  rw [← allocatePage_eq_zero_iff hinv]
  refine ⟨fun hroot => ?_, createAddressSpace_of_none⟩
  by_contra hpage
  have hg := fresh_allocatePage hpage
  rw [createAddressSpace_of_page hpage] at hroot
  exact hpage (by rw [← hg.toNat_ofNat, show BitVec.ofNat 64 _ = 0 from hroot]; rfl)

end Loader

/-! ## When a call fails -/

namespace Kernel

open Paging.State

variable {k k' : Kernel}

/-- The free pages, the tables of the manager and the table of handles are as they were. -/
structure Unchanged (k k' : Kernel) : Prop where
  free : k'.memory.pmm.freeSet = k.memory.pmm.freeSet
  processes : k'.machine.processes = k.machine.processes
  threads : k'.machine.threads = k.machine.threads
  handles : k'.machine.vfs.vfs.handles = k.machine.vfs.vfs.handles

lemma memory_createProcess (k : Kernel) (entry : Word64) : (k.createProcess entry).2.memory =
    (buildProcess k.framebuffer k.activePml4 entry k.memory).2.memory := by
  rw [createProcess]
  split <;> rfl

lemma memory_createProcessFromElf (k : Kernel) (base size : Word64) :
    (k.createProcessFromElf base size).2.memory =
      (buildProcessFromElf k.framebuffer k.activePml4 base size k.memory).2.memory := by
  rw [createProcessFromElf]
  split <;> rfl

/-- A call that stops before the address space, or for lack of its first page. -/
lemma unchanged_of_memory {s : State} (h : s.pmm.freeSet = k.memory.pmm.freeSet) :
    Unchanged k { k with memory := s } := ⟨h, rfl, rfl, rfl⟩

lemma freeSet_createAddressSpace_empty {memory : State} (hinv : memory.pmm.Inv)
    (hempty : memory.pmm.freeSet = ∅) (active : Word64) :
    (memory.createAddressSpace active).2.pmm.freeSet = memory.pmm.freeSet := by
  obtain ⟨-, -, hnone, -⟩ := allocatePage_of_inv hinv
  rw [pmm_createAddressSpace]
  exact hnone ((allocatePage_eq_zero_iff hinv).2 hempty)

lemma unchanged_createProcess {entry : Word64} (hinv : k.memory.pmm.Inv)
    (h : entry = 0 ∨ k.memory.pmm.freeSet = ∅) : Unchanged k (k.createProcess entry).2 := by
  have hstop : (buildProcess k.framebuffer k.activePml4 entry k.memory).1 = none ∧
      (buildProcess k.framebuffer k.activePml4 entry k.memory).2.memory.pmm.freeSet =
        k.memory.pmm.freeSet := by
    rw [buildProcess]
    split
    · exact ⟨rfl, rfl⟩
    next hentry =>
      have hempty := h.resolve_left hentry
      rw [if_pos ((root_eq_zero_iff hinv _).2 hempty)]
      exact ⟨rfl, freeSet_createAddressSpace_empty hinv hempty _⟩
  rw [createProcess]
  simp only [hstop.1]
  exact unchanged_of_memory hstop.2

lemma unchanged_createProcessFromElf {base size : Word64} (hinv : k.memory.pmm.Inv)
    (h : ¬Opens k.memory base size ∨ k.memory.pmm.freeSet = ∅) :
    Unchanged k (k.createProcessFromElf base size).2 := by
  have hstop : (openImage k.activePml4 base size k.memory).1 = none ∧
      (openImage k.activePml4 base size k.memory).2.memory.pmm.freeSet = k.memory.pmm.freeSet := by
    rw [openImage]
    split
    · exact ⟨rfl, rfl⟩
    next hbase =>
      dsimp only [scan]
      split
      · exact ⟨rfl, rfl⟩
      next hvalid =>
        split
        · exact ⟨rfl, rfl⟩
        · next hentry =>
          have hempty := h.resolve_left (not_not.2 ⟨hbase, not_not.1 hvalid, hentry⟩)
          rw [if_pos ((root_eq_zero_iff hinv _).2 hempty)]
          exact ⟨rfl, freeSet_createAddressSpace_empty hinv hempty _⟩
  have hbuild : buildProcessFromElf k.framebuffer k.activePml4 base size k.memory =
      (none, (openImage k.activePml4 base size k.memory).2) := by
    rw [buildProcessFromElf]
    simp only [hstop.1]
  rw [createProcessFromElf]
  simp only [hbuild]
  exact unchanged_of_memory hstop.2

/-- A call that returns null leaves the free pages and the tables as they were if and only if it
stops before it has taken a page: at its first checks, or because there is no page at all. -/
theorem failed_creation_unchanged_iff (k : Kernel) (hinv : k.memory.pmm.Inv) :
    (∀ entry : Word64, (k.createProcess entry).1 = none →
      (Unchanged k (k.createProcess entry).2 ↔ entry = 0 ∨ k.memory.pmm.freeSet = ∅)) ∧
    ∀ base size : Word64, (k.createProcessFromElf base size).1 = none →
      (Unchanged k (k.createProcessFromElf base size).2 ↔
        ¬Opens k.memory base size ∨ k.memory.pmm.freeSet = ∅) := by
  refine ⟨fun entry _ => ⟨fun h => ?_, unchanged_createProcess hinv⟩,
    fun base size _ => ⟨fun h => ?_, unchanged_createProcessFromElf hinv⟩⟩
  · by_contra hlate
    rw [not_or, ← root_eq_zero_iff hinv k.activePml4] at hlate
    refine freeSet_ne_of_root hlate.2 (takes_buildProcess k.framebuffer hlate.1 hlate.2) ?_
    rw [← memory_createProcess, h.free]
  · by_contra hlate
    rw [not_or, not_not, ← root_eq_zero_iff hinv k.activePml4] at hlate
    refine freeSet_ne_of_root hlate.2 (takes_buildProcessFromElf k.framebuffer hlate.1 hlate.2) ?_
    rw [← memory_createProcessFromElf, h.free]

/-- A kernel with an empty manager and this memory. -/
def bare (memory : Paging.State) : Kernel where
  machine := default
  memory := memory
  owned := fun _ => []
  framebuffer := ⟨0, 0, 0, 0⟩

/-- An entry point of zero, and memory that holds no image. -/
theorem failed_creation_unchanged_early :
    let k := bare ⟨gigabyte, fun _ => 0⟩
    Unchanged k (k.createProcess 0).2 ∧ Unchanged k (k.createProcessFromElf 0x1000 128).2 := by
  obtain ⟨hentry, helf⟩ := failed_creation_unchanged_iff (bare ⟨gigabyte, fun _ => 0⟩) inv_gigabyte
  refine ⟨(hentry 0 (by decide +kernel)).2 (.inl rfl),
    (helf 0x1000 128 (by decide +kernel)).2 (.inl ?_)⟩
  rintro ⟨-, hvalid, -⟩
  exact absurd hvalid (by decide +kernel)

/-- With eight free pages the root, the stack and its tables can be made, but not the identity
window. The call returns null, and the eight pages are gone. -/
theorem failed_creation_leaks :
    let k := bare eightPages
    (k.createProcess 0x400000).1 = none ∧ ∀ page, 0x100 ≤ page → page < 0x108 →
      page ∈ k.memory.pmm.freeSet ∧ page ∉ (k.createProcess 0x400000).2.memory.pmm.freeSet := by
  simp only [PhysicalMemoryManager.mem_freeSet]
  decide +kernel

end Kernel

end IanOS
