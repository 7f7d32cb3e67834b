import IanOS.Lifecycle.Reaping

/-!
# The life of a process

A process is created from an image, lives, exits, and is reaped.  If its segments lie in the lower
half, where `destroy_address_space` looks for page tables, then the page allocator has afterwards
the pages it had before, whatever happens to the process in between.  The handles it held are given
up, and its slots can be used again.
-/

namespace IanOS

open Paging Loader PhysicalMemoryManager Machine

/-! ## What happens in between -/

namespace Machine

/-- The operation neither takes a page from the allocator nor gives one back.  A call of
`reap_exited` for a process that has not exited does nothing. -/
def UsesNoPages {V β : Type} (s : Machine V) : Op V β → Prop
  | .createProcess _ => False
  | .reapExited pid => ¬s.processHas pid fun p => p.state = .exited
  | _ => True

end Machine

namespace Kernel

open Paging.State

variable {k k' : Kernel} {base size : Word64} {pid : ℕ}
  {root entry : Word64} {memory : Paging.State} {j : ℕ}

/-- From `k` to `k'` these operations happen.  None of them uses the page allocator or starts the
manager again.  Memory may be written, but not the page tables of a process. -/
structure Elapses (k : Kernel) (ops : List (Σ β, Op Mounted β)) (k' : Kernel) : Prop where
  machine : k'.machine = ops.foldl step k.machine
  allowed : Run.Allowed step
    (fun s o => s.Undisrupted (fun _ _ => True) o.2 ∧ s.UsesNoPages o.2) k.machine ops
  owned : k'.owned = k.owned
  pmm : k'.memory.pmm = k.memory.pmm
  tables : ∀ j, (k.machine.process j).state ≠ .empty → ∀ page,
    TablePage k.memory (k.machine.process j).addressSpaceRoot page →
    SamePage k.memory k'.memory page

/-- The image is in memory that is in use, and its segments and the framebuffer lie in the lower
half. -/
structure InOrder (k : Kernel) (base size : Word64) : Prop where
  inv : k.memory.pmm.Inv
  used : ImageUsed k.memory base size
  headers : HeadersUsed k.memory base
  lower : SegmentsLower (byteAt k.memory) base
  framebuffer : FramebufferLow k.framebuffer

/-- The kernel when a process has been created. -/
structure Created (k : Kernel) (pid : ℕ) (k' : Kernel) : Prop where
  process : ∃ j root, root ≠ 0 ∧ table root = root.toNat ∧ k'.machine.Resident j pid root.toNat ∧
    Sound k.memory.pmm root (k'.owned j) k'.memory
  old : pid < k'.machine.nextPid
  machine : ∃ image, k'.machine = (k.machine.createProcess image).2

lemma root_of_some {fb : FramebufferInfo} {active : Word64}
    (hok : (buildProcessFromElf fb active base size memory).1 = some (root, entry)) :
    root = (memory.createAddressSpace active).1 ∧ root ≠ 0 := by
  rw [buildProcessFromElf] at hok
  cases hopen : (openImage active base size memory).1 with
  | none =>
    simp only [hopen] at hok
    cases hok
  | some o =>
    obtain ⟨root', phoff, phnum⟩ := o
    obtain ⟨-, hroot, hne, -⟩ := of_openImage hopen
    simp only [hopen] at hok
    split_ifs at hok
    obtain ⟨rfl, -⟩ : root' = root ∧ _ = entry := by
      simpa only [Option.some.injEq, Prod.mk.injEq] using hok
    exact ⟨hroot, hroot ▸ hne⟩

lemma created_of_some (h : InOrder k base size)
    (hok : (k.createProcessFromElf base size).1 = some pid) :
    Created k pid (k.createProcessFromElf base size).2 := by
  rw [createProcessFromElf] at hok ⊢
  cases hbuild : (buildProcessFromElf k.framebuffer k.activePml4 base size k.memory).1 with
  | none =>
    simp only [hbuild] at hok
    cases hok
  | some r =>
    obtain ⟨root, entry⟩ := r
    simp only [hbuild] at hok ⊢
    obtain ⟨hne, before, hfinished⟩ :=
      finished_of_some h.inv h.used h.headers h.lower h.framebuffer hbuild
    obtain ⟨hroot, -⟩ := root_of_some hbuild
    have htable : table root = root.toNat := by
      rw [hroot]
      exact table_createAddressSpace (hroot ▸ hne)
    obtain ⟨j, t, halloc, hres, hold⟩ := resident_createProcess hok
    refine ⟨⟨j, root, hne, htable, hres, ?_⟩, hold, _, rfl⟩
    rw [enter]
    simp only [halloc]
    rw [Function.update_self]
    exact hfinished.runtime.sound

/-- In between the process stays where it is, until it is reaped. -/
lemma Elapses.tenure {ops : List (Σ β, Op Mounted β)} {root : ℕ} (h : Elapses k ops k')
    (hinv : k.machine.Inv) (htenure : k.machine.Tenure j pid root) :
    k'.machine.Inv ∧ k'.machine.Tenure j pid root := by
  rw [h.machine]
  refine h.allowed.foldl (P := fun s => s.Inv ∧ s.Tenure j pid root)
    (fun s o hs ho => ⟨hs.1.step o, hs.2.exec hs.1 o.2 ho.1⟩) ⟨hinv, htenure⟩

lemma reapExited_of_resident {root : ℕ} (hres : k.machine.Resident j pid root)
    (hfind : k.machine.findProcess pid = some j) (hexit : (k.machine.process j).state = .exited)
    (hroot : root ≠ 0) : (k.reapExited pid).2.machine = (k.machine.reapExited pid).2 ∧
      (k.reapExited pid).2.memory =
        (((k.owned j).foldl (fun s o => s.freePage o.phys.toNat) k.memory).destroyAddressSpace
          (BitVec.ofNat 64 root)).2 := by
  rw [reapExited]
  simp only [hfind]
  rw [if_neg (not_not.2 hexit), hres.owns, hres.root, if_pos ⟨rfl, hroot⟩]
  exact ⟨rfl, rfl⟩

/-- In every run of the manager: if a process is created from an image in order, anything happens
that does not use the page allocator, and the process has exited, then after it is reaped the free
pages are those from before its creation, each handle has lost the references the process held, its
descriptors are closed, and the slots of the process and of its threads are empty and can be given
out. -/
theorem life_round_trip (s : Machine Mounted) (before ops : List (Σ β, Op Mounted β))
    (k k₂ : Kernel) (base size : Word64) (pid : ℕ)
    (hk : k.machine = before.foldl step s.initializeManager) (horder : InOrder k base size)
    (hcreate : (k.createProcessFromElf base size).1 = some pid)
    (hlife : Elapses (k.createProcessFromElf base size).2 ops k₂)
    (hexited : k₂.machine.processHas pid fun p => p.state = .exited)
    (hdistinct : k₂.machine.vfs.vfs.DistinctHandles) :
    let k₃ := (k₂.reapExited pid).2
    k₃.memory.pmm.freeSet = k.memory.pmm.freeSet ∧
    ∃ j, k₂.machine.findProcess pid = some j ∧
      (∀ id, k₃.machine.vfs.vfs.references id =
        k₂.machine.vfs.vfs.references id - naming id (k₂.machine.fds j)) ∧
      (∀ fd ∈ k₃.machine.fds j, ¬fd.isOpen) ∧ (k₃.machine.process j).state = .empty ∧
      (k₃.machine.processes.allocate (fun p => p.state = .empty) kMaxUserProcesses).isSome ∧
      ∀ i < k₂.machine.threads.count, (k₂.machine.thread i).pid = pid →
        (k₃.machine.thread i).state = .empty ∧
        (k₃.machine.threads.allocate (fun t => t.state = .empty) kMaxUserThreads).isSome := by
  have hinv : k.machine.Inv := by
    rw [hk]
    exact (Machine.Inv.initializeManager s).run before
  obtain ⟨⟨j, root, hroot, htable, hres, hsound⟩, hold, image, hmachine⟩ :=
    created_of_some horder hcreate
  have hinv₁ : (k.createProcessFromElf base size).2.machine.Inv := by
    rw [hmachine]
    exact hinv.step ⟨_, .createProcess image⟩
  obtain ⟨hinv₂, htenure⟩ := hlife.tenure hinv₁ ⟨hold, .inl hres⟩
  obtain ⟨j', hfind, hstate⟩ := hexited
  obtain ⟨rfl, hres₂⟩ := htenure.resident hinv₂ hfind
  have hnat : root.toNat ≠ 0 := fun hzero => hroot (BitVec.eq_of_toNat_eq hzero)
  obtain ⟨hmachine₃, hmemory₃⟩ := reapExited_of_resident hres₂ hfind hstate hnat
  obtain ⟨hreaped, hvfs⟩ := reaped_reapExited hfind hstate
  rw [← hmachine₃] at hreaped hvfs
  refine ⟨?_, j', hfind, fun id => ?_, hreaped.closed, hreaped.slot, ?_, fun i hi hpid => ?_⟩
  · rw [hmemory₃, hlife.owned, BitVec.ofNat_toNat]
    refine hsound.freeSet_released horder.inv hroot htable hlife.pmm fun page hpage => ?_
    rw [htable, ← hres.root] at hpage
    exact hlife.tables j' hres.live page hpage
  · rw [hvfs]
    exact references_releaseHandles hdistinct _ id
  · exact Table.isSome_allocate (hreaped.processCount ▸ hres₂.slot) hreaped.slot
  · have hempty := hreaped.threads i hi hpid
    exact ⟨hempty, Table.isSome_allocate (hreaped.threadCount ▸ hi) hempty⟩

/-! ## A life that leaves nothing behind -/

lemma createProcessFromElf_of_build
    (h : (buildProcessFromElf k.framebuffer k.activePml4 base size k.memory).1 =
      some (root, entry)) :
    k.createProcessFromElf base size =
      k.enter (buildProcessFromElf k.framebuffer k.activePml4 base size k.memory).2 entry root := by
  rw [createProcessFromElf]
  simp only [h]

/-- A kernel with a terminal and this memory. -/
def withTerminal (memory : Paging.State) : Kernel where
  machine := start default terminalOnly default
  memory := memory
  owned := fun _ => []
  framebuffer := ⟨0, 0, 0, 0⟩

/-- The process exits. -/
def exit (k : Kernel) (pid code : ℕ) : Kernel :=
  { k with machine := (k.machine.exitProcess pid code .exited).2 }

lemma elapses_exit (k : Kernel) (pid code : ℕ) :
    Elapses k [⟨_, .exitProcess pid code .exited⟩] (k.exit pid code) :=
  ⟨rfl, ⟨⟨trivial, trivial⟩, trivial⟩, rfl, rfl, fun _ _ page _ => .refl _ page⟩

lemma enter_withTerminal
    (h : (buildProcessFromElf ⟨0, 0, 0, 0⟩ 0 0x1000 128 memory).1 = some (root, entry)) :
    (withTerminal memory).createProcessFromElf 0x1000 128 = (withTerminal memory).enter
      (buildProcessFromElf ⟨0, 0, 0, 0⟩ 0 0x1000 128 memory).2 entry root := by
  exact createProcessFromElf_of_build h

/-- The first process to exit. -/
lemma exit_enter_withTerminal (memory : Paging.State) (b : Building) (entry root : Word64) :
    (((withTerminal memory).enter b entry root).2.exit 1 0).memory = b.memory ∧
      (((withTerminal memory).enter b entry root).2.exit 1 0).owned 0 = b.owned :=
  ⟨rfl, rfl⟩

/-- A process is created on a machine with one gigabyte, exits at once and is reaped.  All pages
above the first megabyte are free again. -/
theorem life_round_trip_loadable :
    let k := withTerminal loadable
    let k₂ := (k.createProcessFromElf 0x1000 128).2.exit 1 0
    (k.createProcessFromElf 0x1000 128).1 = some 1 ∧
      (k₂.reapExited 1).2.memory.pmm.freeSet = Finset.Ico 0x100 0x40000 := by
  intro k k₂
  have henter := enter_withTerminal build_loadable
  have hcreate : (k.createProcessFromElf 0x1000 128).1 = some 1 := by
    rw [henter]
    decide +kernel
  have hk₂ : k₂ = ((withTerminal loadable).enter
      (buildProcessFromElf ⟨0, 0, 0, 0⟩ 0 0x1000 128 loadable).2 0x400000 0x100000).2.exit 1 0 := by
    rw [← henter]
  have hexited : k₂.machine.processHas 1 fun p => p.state = .exited := by
    rw [hk₂]
    decide +kernel
  have hdistinct : k₂.machine.vfs.vfs.DistinctHandles := by
    have hkept := kept_run default terminalOnly default
      [⟨_, .createProcess
        (imageOf (buildProcessFromElf ⟨0, 0, 0, 0⟩ 0 0x1000 128 loadable).2 0x400000
        0x100000)⟩, ⟨_, .exitProcess 1 0 .exited⟩] ⟨trivial, trivial, trivial⟩
    rw [hk₂]
    exact (hkept.counts (by decide +kernel)).numbered.distinct
  have horder : InOrder k 0x1000 128 := ⟨inv_gigabyte, imageUsed_loadable, headersUsed_loadable,
    segmentsLower_loadable, by decide⟩
  obtain ⟨hfree, -⟩ := life_round_trip _ [] _ k k₂ 0x1000 128 1 rfl horder hcreate
    (elapses_exit _ 1 0) hexited hdistinct
  exact ⟨hcreate, hfree.trans freeSet_gigabyte⟩

end Kernel

/-! ## A life that does -/

namespace Loader

open Paging.State

variable {extra : List OwnedPage} {b b' : Building} {root : Word64} {start : PhysicalMemoryManager}

/-- The same memory, and pages tracked before that the other does not have. -/
structure Ahead (extra : List OwnedPage) (b b' : Building) : Prop where
  memory : b'.memory = b.memory
  owned : b.owned = extra ++ b'.owned

lemma Ahead.addPage {virt flags : Word64} (h : Ahead extra b b')
    (hok : (b.addPage root virt .clear (pure flags)).1 = true) :
    (b'.addPage root virt .clear (pure flags)).1 = true ∧
      Ahead extra (b.addPage root virt .clear (pure flags)).2
        (b'.addPage root virt .clear (pure flags)).2 := by
  obtain ⟨hmemory, howned⟩ := h
  have hlen : b'.owned.length ≤ b.owned.length := by
    rw [howned, List.length_append]
    exact Nat.le_add_left _ _
  rw [Building.addPage] at hok ⊢
  rw [Building.addPage, hmemory]
  dsimp only [Building.clear, Building.scan, Building.trackPage] at hok ⊢
  split_ifs at hok ⊢ with hpage hmap hfull hfull'
  · omega
  · refine ⟨rfl, rfl, ?_⟩
    rw [howned, List.append_assoc]

lemma Ahead.mapStack (h : Ahead extra b b')
    (hok : (b.mapStack root .clear).1 = true) :
    (b'.mapStack root .clear).1 = true ∧
      Ahead extra (b.mapStack root .clear).2
        (b'.mapStack root .clear).2 :=
  Attempt.simulated (fun _ _ _ hahead hround => hahead.addPage hround) h hok

/-- The stack is mapped in the lower half, whatever has been tracked before. -/
lemma Built.mapStack_tracked (h : Built start root [] b.memory)
    (hok : (b.mapStack root .clear).1 = true) :
    ∃ owned, (b.mapStack root .clear).2.owned = b.owned ++ owned ∧
      Built start root owned (b.mapStack root .clear).2.memory := by
  have hahead : Ahead b.owned b { memory := b.memory } := ⟨rfl, (List.append_nil _).symm⟩
  obtain ⟨hok', hmemory, howned⟩ := hahead.mapStack hok
  refine ⟨_, howned, ?_⟩
  rw [← hmemory]
  exact (Built.mapStack h (fun phys b halign => onlyFrame_clear halign) hok').1

/-- The image with its segment at the beginning of the upper half. -/
def upperImage : Paging.State :=
  { loadable with
    words := fun a => if a = 0x1018 ∨ a = 0x1050 then 0xffff800000000000 else loadable.words a }

/-- The building when the segment has been loaded. -/
def upperLoaded : Building :=
  (((openImage 0 0x1000 128 upperImage).2.loadSegments 0x1000 128 0x100000 64 1).2.scan
    (Elf.eEntry 0x1000)).2

/-- The building with its stack. -/
def upperStack : Building := (upperLoaded.mapStack 0x100000 .clear).2

/-- The allocator before the root was taken from it. -/
def upperStart : PhysicalMemoryManager := upperLoaded.memory.pmm.freePage 0x100000

lemma open_upperImage : (openImage 0 0x1000 128 upperImage).1 = some (0x100000, 64, 1) := by
  decide +kernel

lemma inv_upperLoaded : upperLoaded.memory.pmm.Inv := by
  obtain ⟨-, -, -, hmemory, -⟩ := of_openImage open_upperImage
  have htakes := takes_loadSegments 0x1000 128 0x100000 64 1 (openImage 0 0x1000 128 upperImage).2
  rw [upperLoaded, Building.memory_scan]
  refine htakes.inv ?_
  rw [hmemory, pmm_createAddressSpace]
  exact (allocatePage_of_inv inv_gigabyte).1

lemma inv_upperStart : upperStart.Inv ∧
    upperStart.freeSet = insert 0x100 upperLoaded.memory.pmm.freeSet :=
  @freePage_managed _ 0x100 inv_upperLoaded (by decide) (by decide +kernel)

/-- In the lower half there is nothing but the root. -/
lemma built_upperLoaded : Built upperStart 0x100000 [] upperLoaded.memory := by
  have htable : table 0x100000 = 0x100 * kPageSize := by decide
  have hbare : Bare upperLoaded.memory (table 0x100000) := by
    refine bare_of_entries ?_
    decide +kernel
  have hused : table 0x100000 / kPageSize ∉ upperLoaded.memory.pmm.freeSet := by
    rw [mem_freeSet]
    decide +kernel
  exact built_of_bare hbare (hbare.tables (table_mod _) hused) (hbare.accounted inv_upperLoaded
    (totalPages_freePage _ _).symm htable inv_upperStart.2)

/-- The stack and the window are made as for any other process. -/
lemma window_upper : ∃ owned, upperStack.owned = upperLoaded.owned ++ owned ∧
    Built upperStart 0x100000 owned upperStack.memory ∧
    (mapKernelIdentityWindow 0x100000 (0x1000 + 128) upperStack.memory).1 = true := by
  have hstack : (upperLoaded.mapStack 0x100000 .clear).1 = true := by
    decide +kernel
  obtain ⟨owned, howned, hbuilt⟩ := built_upperLoaded.mapStack_tracked hstack
  rw [← upperStack] at howned hbuilt
  have hfree : 3 * 65536 ≤ upperStack.memory.pmm.freePages := by decide +kernel
  have hlimit : pagesBetween 0 (identityLimit (0x1000 + 128)) = 65536 := by decide +kernel
  rw [hbuilt.sound.accounted.inv.free_eq] at hfree
  refine ⟨owned, howned, hbuilt, hbuilt.window_room inv_upperStart.1 (by decide) ?_ ?_⟩
  · omega
  · rwa [hlimit]

lemma build_upper : buildProcessFromElf ⟨0, 0, 0, 0⟩ 0 0x1000 128 upperImage =
    (some (0x100000, 0xffff800000000000),
      (upperStack.mapRuntime ⟨0, 0, 0, 0⟩ 0x100000 (0x1000 + 128)).2) := by
  obtain ⟨-, -, -, hwin⟩ := window_upper
  have hentry :
    (((openImage 0 0x1000 128 upperImage).2.loadSegments 0x1000 128 0x100000 64 1).2.scan
      (Elf.eEntry 0x1000)).1 = 0xffff800000000000 := by decide +kernel
  rw [upperStack, upperLoaded] at hwin ⊢
  rw [← hentry]
  have hfb : FramebufferInfo.base ⟨0, 0, 0, 0⟩ = 0 := rfl
  exact build_of_window open_upperImage (by decide +kernel) rfl (by decide +kernel) hfb
    (by decide +kernel) hwin

/-- What is free when a process with other pages tracked has been taken down. -/
lemma Built.mem_freeSet_released {limit : Word64} {owned other : List OwnedPage}
    {fb : FramebufferInfo} (h : Built start root owned b.memory) (howned : b.owned = other ++ owned)
    (hstart : start.Inv) (hroot : root ≠ 0) (htable : table root = root.toNat)
    (hfb : FramebufferLow fb) (hok : (mapKernelRuntimeRanges fb root limit b.memory).1 = true)
    (hother : ∀ o ∈ other, o.phys.toNat % kPageSize = 0 ∧ 0x100 ≤ o.phys.toNat / kPageSize ∧
      o.phys.toNat / kPageSize < start.totalPages) (page : ℕ) :
    page ∈ (((b.mapRuntime fb root limit).2.owned.foldl (fun s o => s.freePage o.phys.toNat)
      (b.mapRuntime fb root limit).2.memory).destroyAddressSpace root).2.pmm.freeSet ↔
        page ∈ start.freeSet ∨ page ∈ ownedPages other := by
  have hsound := (h.mapRuntime hfb hok).sound
  have hsame : (b.mapRuntime fb root limit).2.owned = other ++ owned := howned
  rw [hsame]
  refine hsound.mem_freeSet_released hstart hroot htable rfl (fun _ _ => .refl _ _)
    (fun o ho => ?_) page
  obtain ⟨halign, hlow, hhigh⟩ := hother o ho
  exact ⟨halign, hlow, hsound.accounted.total ▸ hhigh⟩

/-- What a reap of the process makes free. -/
lemma mem_freeSet_upper (page : ℕ) :
    page ∈ (((upperStack.mapRuntime ⟨0, 0, 0, 0⟩ 0x100000 (0x1000 + 128)).2.owned.foldl
      (fun s o => s.freePage o.phys.toNat)
      (upperStack.mapRuntime ⟨0, 0, 0, 0⟩ 0x100000 (0x1000 + 128)).2.memory).destroyAddressSpace
        0x100000).2.pmm.freeSet ↔ page ∈ upperStart.freeSet ∨ page = 0x101 := by
  obtain ⟨owned, howned, hbuilt, hwin⟩ := window_upper
  have hframe : upperLoaded.owned = [⟨0xffff800000000000, 0x101000⟩] := by decide +kernel
  have htotal : upperStart.totalPages = 0x40000 := by decide +kernel
  rw [hframe] at howned
  rw [hbuilt.mem_freeSet_released howned inv_upperStart.1 (by decide) (by decide) (by decide)
    (mapKernelRuntimeRanges_of_window rfl hwin)]
  · exact or_congr_right Finset.mem_singleton
  · intro o ho
    rw [List.mem_singleton.1 ho, htotal]
    decide

end Loader

/-- A process with a segment in the upper half is created, exits and is reaped.  The page with the
first of the page tables of that half was free before; it is not given back. -/
theorem Kernel.life_leaks_upper :
    let k := withTerminal upperImage
    let k₂ := (k.createProcessFromElf 0x1000 128).2.exit 1 0
    (k.createProcessFromElf 0x1000 128).1 = some 1 ∧
      (k₂.machine.processHas 1 fun p => p.state = .exited) ∧
      0x102 ∈ k.memory.pmm.freeSet ∧ 0x102 ∉ (k₂.reapExited 1).2.memory.pmm.freeSet := by
  intro k k₂
  have hbuild : (buildProcessFromElf ⟨0, 0, 0, 0⟩ 0 0x1000 128 upperImage).1 =
      some (0x100000, 0xffff800000000000) := by
    rw [build_upper]
  have henter := enter_withTerminal hbuild
  rw [build_upper] at henter
  have hk₂ : k₂ = ((withTerminal upperImage).enter (upperStack.mapRuntime ⟨0, 0, 0, 0⟩ 0x100000
      (0x1000 + 128)).2 0xffff800000000000 0x100000).2.exit 1 0 := by
    rw [← henter]
  have hres : k₂.machine.Resident 0 1 0x100000 := by
    rw [hk₂]
    refine ⟨?_, ?_, ?_, ?_, ?_⟩ <;> decide +kernel
  have hfind : k₂.machine.findProcess 1 = some 0 := by
    rw [hk₂]
    decide +kernel
  have hexited : (k₂.machine.process 0).state = .exited := by
    rw [hk₂]
    decide +kernel
  refine ⟨?_, ⟨0, hfind, hexited⟩, ?_, ?_⟩
  · rw [henter]
    decide +kernel
  · exact freeSet_gigabyte ▸ (by decide : 0x102 ∈ Finset.Ico 0x100 0x40000)
  obtain ⟨hmemory, howned⟩ := exit_enter_withTerminal upperImage (upperStack.mapRuntime ⟨0, 0, 0, 0⟩
    0x100000 (0x1000 + 128)).2 0xffff800000000000 0x100000
  have hroot : BitVec.ofNat 64 0x100000 = (0x100000 : Word64) := rfl
  rw [(reapExited_of_resident hres hfind hexited (by decide)).2, hk₂, hmemory, howned, hroot,
    mem_freeSet_upper, mem_freeSet]
  decide +kernel

end IanOS
