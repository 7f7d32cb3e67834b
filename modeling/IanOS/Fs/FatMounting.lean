import IanOS.Fs.Changes
import IanOS.Fs.FatLoading
import IanOS.Mm.BootMap

/-!
# Mounting any disk

What mounting does to the kernel, whatever is on the disk: it appends nodes, each a directory or a
file that was loaded from its chain, it writes only pages it took from the allocator, and it asks
for a bounded number of sectors.

The bound comes from the table of paths.  Every record that makes the kernel follow a chain uses up
one of its 256 places, and following one chain takes at most `chainReads` sectors; so the sectors
asked for, together with what the free places may still cost, never grow by more than the sectors of
the directory being read (`Mounts.reads`).
-/

namespace IanOS.FatMount

open List Nat

variable {disk : Disk} {g : Fat16Geometry}
  {node : Node} {entry sector : ℕ → UInt8} {base size first : ℕ} {bytes : List UInt8}
  {r : Option ℕ} {visit : (ℕ → UInt8) → FatMount → FatMount}

/-- The sectors that following one chain asks for at most. -/
def chainReads (g : Fat16Geometry) : ℕ := kMaxChainClusters * (g.sectorsPerCluster + 1)

/-- The sectors asked for so far and those the free places for paths may still cost. -/
def reserve (g : Fat16Geometry) (s : FatMount) : ℕ :=
  s.sectorReads + (kMaxMountedFatNodes - s.mountedFatPathCount) * chainReads g

/-- A record of a directory of this disk. -/
def Record (disk : Disk) (entry : ℕ → UInt8) : Prop :=
  ∃ lba k, disk.Readable lba ∧ k < 16 ∧ entry = entryAt (disk.contents lba) k

/-- The node is a file whose bytes are those of the chain its record starts; the table gives that
chain exactly if no cluster beyond it was passed. -/
structure Backed (disk : Disk) (g : Fat16Geometry) (s : FatMount) (node : Node)
    (entry : ℕ → UInt8) (base : ℕ) (bytes : List UInt8) : Prop where
  record : Record disk entry
  base_eq : node.base = .address base
  size_eq : node.size = entrySize entry
  holds : Holds s base bytes
  chain : ChainFile disk g (entryCluster entry) (entrySize entry) bytes
  fat_iff : FatFile disk g (entryCluster entry) (entrySize entry) bytes ↔
    InFat disk g (entryCluster entry) (entrySize entry)

/-- What a part of the mount does that asks for `n` sectors of directories and tables itself. -/
structure Mounts (disk : Disk) (g : Fat16Geometry) (n : ℕ) (s s' : FatMount) : Prop where
  spends : Spends s s'
  nodes : ∃ added, s'.vfs.nodes = s.vfs.nodes ++ added ∧ ∀ node ∈ added,
    node.type = .directory ∨ ∃ entry base bytes, Backed disk g s' node entry base bytes
  reads : s'.reserve g ≤ s.reserve g + n

variable {n n' : ℕ} {s s' s'' : FatMount}

lemma Backed.of_spends (h : Backed disk g s node entry base bytes) (h' : Spends s s') :
    Backed disk g s' node entry base bytes :=
  { h with holds := h.holds.of_spends h' }

lemma Mounts.mono (h : Mounts disk g n s s') (hle : n ≤ n') : Mounts disk g n' s s' :=
  ⟨h.spends, h.nodes, h.reads.trans (Nat.add_le_add_left hle _)⟩

lemma Mounts.trans (h : Mounts disk g n s s') (h' : Mounts disk g n' s' s'') :
    Mounts disk g (n + n') s s'' where
  spends := h.spends.trans h'.spends
  nodes := by
    obtain ⟨added, hnodes, hadded⟩ := h.nodes
    obtain ⟨added', hnodes', hadded'⟩ := h'.nodes
    refine ⟨added ++ added', by rw [hnodes', hnodes, append_assoc], ?_⟩
    intro node hnode
    rcases mem_append.1 hnode with hnode | hnode
    · rcases hadded node hnode with hdir | ⟨entry, base, bytes, hfile⟩
      · exact .inl hdir
      · exact .inr ⟨entry, base, bytes, hfile.of_spends h'.spends⟩
    · exact hadded' node hnode
  reads := by
    have := h.reads
    have := h'.reads
    omega

/-- Steps that ask for nothing themselves, before and after. -/
lemma Mounts.after (h : Mounts disk g n s' s'') (h' : Mounts disk g 0 s s') :
    Mounts disk g n s s'' :=
  (h'.trans h).mono (zero_add n).le

lemma Mounts.before (h : Mounts disk g n s s') (h' : Mounts disk g 0 s' s'') :
    Mounts disk g n s s'' :=
  h.trans h'

/-- A step that leaves the file system alone. -/
lemma Mounts.of_spends (h : Spends s s') (hvfs : s'.vfs = s.vfs)
    (hreads : s'.reserve g ≤ s.reserve g + n) : Mounts disk g n s s' :=
  ⟨h, ⟨[], by simp [hvfs]⟩, hreads⟩

lemma Mounts.refl (s : FatMount) : Mounts disk g n s s :=
  .of_spends (.of_eq rfl rfl) rfl (le_add_right _ _)

lemma Mounts.read (s : FatMount) :
    Mounts disk g 1 s { s with sectorReads := s.sectorReads + 1 } := by
  refine .of_spends (.of_eq rfl rfl) rfl ?_
  simp only [reserve]
  omega

lemma Mounts.addNode
    (h : node.type = .directory ∨ ∃ entry base bytes, Backed disk g s node entry base bytes) :
    Mounts disk g 0 s { s with vfs := (s.vfs.addNode node).2 } where
  spends := .of_eq rfl rfl
  nodes := by
    rcases s.vfs.addNode_cases node with ⟨-, hadd⟩ | hadd
    · refine ⟨[node], by rw [hadd], ?_⟩
      intro m hm
      rw [mem_singleton.1 hm]
      rcases h with hdir | ⟨entry, base, bytes, hfile⟩
      · exact .inl hdir
      · exact .inr ⟨entry, base, bytes, hfile.of_spends (.of_eq rfl rfl)⟩
    · exact ⟨[], by simp [hadd]⟩
  reads := le_add_right _ _

lemma Mounts.registerDirectory (path : Path) (s : FatMount) :
    Mounts disk g 0 s (registerDirectory path s) :=
  .addNode (.inl rfl)

lemma Mounts.registerDiskFile {path : Path} (hrec : Record disk entry)
    (hsize : size = entrySize entry) (hholds : Holds s base bytes)
    (hchain : ChainFile disk g (entryCluster entry) (entrySize entry) bytes)
    (hiff : FatFile disk g (entryCluster entry) (entrySize entry) bytes ↔
      InFat disk g (entryCluster entry) (entrySize entry)) :
    Mounts disk g 0 s { s with vfs := (s.vfs.registerDiskFile path base size).2 } := by
  unfold Vfs.registerDiskFile
  split
  · exact .refl s
  · exact .addNode (.inr ⟨entry, base, bytes, hrec, rfl, hsize, hholds, hchain, hiff⟩)

/-! ## Records -/

/-- A place in the table of paths pays for following one chain. -/
lemma reserve_takePlace (g : Fat16Geometry) (h : s.mountedFatPathCount < kMaxMountedFatNodes) :
    reserve g { s with mountedFatPathCount := s.mountedFatPathCount + 1 } + chainReads g =
      reserve g s := by
  have hplace : kMaxMountedFatNodes - s.mountedFatPathCount =
      kMaxMountedFatNodes - (s.mountedFatPathCount + 1) + 1 := by omega
  simp only [reserve, hplace, succ_mul]
  omega

lemma Mounts.takePlace (h : s.mountedFatPathCount < kMaxMountedFatNodes)
    (hm : Mounts disk g (chainReads g)
      { s with mountedFatPathCount := s.mountedFatPathCount + 1 } s') : Mounts disk g n s s' where
  spends := ⟨hm.spends.free, hm.spends.memory⟩
  nodes := hm.nodes
  reads := by
    have := hm.reads
    have := reserve_takePlace g h
    omega

/-- Reserving a path and then doing something that follows at most one chain. -/
lemma Mounts.reserveMountedPath {parent name : Path} {r : Option Path}
    (h : reserveMountedPath parent name s = (r, s'))
    (hm : ∀ path, r = some path → Mounts disk g (chainReads g) s' s'')
    (hnone : r = none → s'' = s') : Mounts disk g n s s'' := by
  unfold FatMount.reserveMountedPath at h
  split at h
  · obtain ⟨rfl, rfl⟩ := h
    rw [hnone rfl]
    exact .refl s
  · next hfree =>
    simp only [Prod.mk.injEq] at h
    obtain ⟨hr, rfl⟩ := h
    refine Mounts.takePlace (Nat.lt_of_not_le hfree) ?_
    cases r with
    | none =>
      rw [hnone rfl]
      exact .refl _
    | some path => exact hm path rfl

lemma readLe16_lt (bytes : ℕ → UInt8) (offset : ℕ) : readLe16 bytes offset < 2 ^ 16 := by
  have := (bytes offset).toNat_lt
  have := (bytes (offset + 1)).toNat_lt
  simp only [readLe16]
  omega

lemma readLe32_lt (bytes : ℕ → UInt8) (offset : ℕ) : readLe32 bytes offset < 2 ^ 32 := by
  have := (bytes offset).toNat_lt
  have := (bytes (offset + 1)).toNat_lt
  have := (bytes (offset + 2)).toNat_lt
  have := (bytes (offset + 3)).toNat_lt
  simp only [readLe32]
  omega

/-- What was loaded is a file of the table exactly if its walk stayed in the table. -/
lemma LoadSpec.file (h : LoadSpec disk g first size s s' r) (hr : r = some base) :
    ∃ bytes, Holds s' base bytes ∧ ChainFile disk g first size bytes ∧
      (FatFile disk g first size bytes ↔ InFat disk g first size) := by
  obtain ⟨cs, hcovers, hmissing, hholds⟩ := h.loaded base hr
  exact ⟨_, hholds, ⟨cs, hcovers, rfl⟩, FatFile.inFat, hcovers.fatFile hmissing⟩

lemma LoadSpec.mounts (h : LoadSpec disk g first size s s' r) :
    Mounts disk g (chainReads g) s s' := by
  refine .of_spends h.spends h.vfs ?_
  have := h.reads
  simp only [reserve, chainReads, h.paths]
  omega

/-- One record, if what is done with directories is as it should be. -/
lemma Mounts.mountFatEntry {descend : Path → ℕ → FatMount → FatMount}
    (hdescend : ∀ path c s, Mounts disk g (chainReads g) s (descend path c s)) (parent : Path)
    (hentry : Record disk entry) (s : FatMount) :
    Mounts disk g 0 s (mountFatEntry disk g descend parent entry s) := by
  unfold FatMount.mountFatEntry
  split
  · exact .refl s
  split
  · exact .refl s
  split
  · next s₁ hpath => exact Mounts.reserveMountedPath hpath (by simp) (by simp)
  next path s₁ hpath =>
    refine Mounts.reserveMountedPath hpath (fun _ _ => ?_) (by simp)
    split
    · exact (hdescend _ _ _).after (.registerDirectory path s₁)
    have hload := loadFatFile_spec disk g (entryCluster entry) s₁ (readLe32_lt entry 28)
    split
    · next s₂ hr =>
      rw [entrySize] at hr
      rw [hr] at hload
      exact hload.mounts
    · next base s₂ hr =>
      rw [entrySize] at hr
      rw [hr] at hload
      obtain ⟨bytes, hholds, hchain, hiff⟩ := hload.file rfl
      exact hload.mounts.before (.registerDiskFile hentry rfl hholds hchain hiff)

/-! ## Directories -/

lemma Mounts.mountEntries (ks : List ℕ)
    (hvisit : ∀ k ∈ ks, ∀ s, Mounts disk g 0 s (visit (entryAt sector k) s)) (s : FatMount) :
    Mounts disk g 0 s (mountEntries visit sector ks s).2 := by
  induction ks generalizing s with
  | nil => exact .refl s
  | cons k ks ih =>
    unfold FatMount.mountEntries
    split
    · exact .refl s
    · refine Mounts.after (ih (fun k' hk' => hvisit k' (mem_cons_of_mem _ hk')) _) ?_
      exact hvisit k mem_cons_self s

lemma Mounts.mountSectors
    (hvisit : ∀ entry, Record disk entry → ∀ s, Mounts disk g 0 s (visit entry s)) (lbas : List ℕ)
    (s : FatMount) : Mounts disk g lbas.length s (mountSectors disk visit lbas s).2 := by
  induction lbas generalizing s with
  | nil => exact .refl s
  | cons lba lbas ih =>
    have hread : Mounts disk g 1 s { s with sectorReads := s.sectorReads + 1 } := .read s
    unfold FatMount.mountSectors
    split
    · next s₁ hsector =>
      rw [readSector_state hsector]
      exact hread.mono (by simp)
    · next sector s₁ hsector =>
      obtain ⟨rfl, hreadable, rfl⟩ := readSector_eq_some hsector
      have hrecs : Mounts disk g 1 s (FatMount.mountEntries visit (disk.contents lba)
          (range 16) { s with sectorReads := s.sectorReads + 1 }).2 := by
        refine hread.before (.mountEntries _ ?_ _)
        intro k hk s
        exact hvisit _ ⟨lba, k, hreadable, mem_range.1 hk, rfl⟩ s
      split
      · next s₂ hstop =>
        rw [hstop] at hrecs
        exact hrecs.mono (by simp)
      · next s₂ hgo =>
        rw [hgo] at hrecs
        exact (hrecs.trans (ih s₂)).mono (by simp [add_comm])

/-- The clusters of a directory: for each, its sectors and its entry in the table. -/
lemma Mounts.mountClusters
    (hvisit : ∀ entry, Record disk entry → ∀ s, Mounts disk g 0 s (visit entry s))
    (guard cluster : ℕ) (s : FatMount) :
    Mounts disk g (guard * (g.sectorsPerCluster + 1)) s
      (mountClusters disk g visit guard cluster s) := by
  induction guard generalizing cluster s with
  | zero => exact .refl s
  | succ guard ih =>
    have hreads : (guard + 1) * (g.sectorsPerCluster + 1) =
        g.sectorsPerCluster + 1 + guard * (g.sectorsPerCluster + 1) := by ring
    have hsectors : Mounts disk g g.sectorsPerCluster s
        (FatMount.mountSectors disk visit (clusterSectors g cluster) s).2 := by
      simpa using Mounts.mountSectors hvisit (clusterSectors g cluster) s
    rw [hreads]
    unfold FatMount.mountClusters
    split
    · split
      · next s₁ hstop =>
        rw [hstop] at hsectors
        exact hsectors.mono (by omega)
      · next s₁ hgo =>
        rw [hgo] at hsectors
        have hentry := hsectors.trans (.read s₁)
        split
        · next s₂ hfat =>
          rw [readFatEntry_state hfat]
          exact hentry.mono (by omega)
        · next next s₂ hfat =>
          rw [readFatEntry_state hfat]
          exact hentry.trans (ih _ _)
    · exact .refl s

lemma Mounts.mountFatDirectoryCluster (levels : ℕ) (path : Path) (c : ℕ) (s : FatMount) :
    Mounts disk g (chainReads g) s (mountFatDirectoryCluster disk g levels path c s) := by
  induction levels generalizing path c s with
  | zero => exact .refl s
  | succ levels ih =>
    unfold FatMount.mountFatDirectoryCluster
    split
    · exact .refl s
    · exact .mountClusters (fun entry hentry s => .mountFatEntry ih path hentry s) _ _ s

/-! ## The whole mount -/

/-- What an accepted geometry keeps to. -/
structure Accepted (g : Fat16Geometry) : Prop where
  spc_pos : 0 < g.sectorsPerCluster
  spc_lt : g.sectorsPerCluster < 2 ^ 8
  rootDirSectors_le : g.rootDirSectors ≤ 4096
  dataSector_le : g.dataSector ≤ 2 ^ 16 + 2 ^ 8 * 2 ^ 16 + 4096

lemma accepted_of_parseFat16Geometry (h : parseFat16Geometry sector = some g) : Accepted g := by
  have hspc := (sector 13).toNat_lt
  have hcount := (sector 16).toNat_lt
  have hreserved := readLe16_lt sector 14
  have hroot := readLe16_lt sector 17
  have hfat := readLe16_lt sector 22
  unfold parseFat16Geometry at h
  dsimp only at h
  split_ifs at h with hdata
  all_goals
    simp only [Option.some.injEq] at h
    subst h
    have hmul : (sector 16).toNat * readLe16 sector 22 ≤ 2 ^ 8 * 2 ^ 16 :=
      Nat.mul_le_mul (by omega) (by omega)
    exact ⟨by dsimp only; omega, hspc, by dsimp only; omega, by dsimp only; omega⟩

/-- The sectors that mounting asks for at most: the boot sector, those of the root directory, and
for each place in the table of paths those of a chain. -/
def mountReads : ℕ := 1 + 4096 + kMaxMountedFatNodes * (kMaxChainClusters * 2 ^ 8)

lemma Accepted.sectorReads_le (h : Accepted g) (hm : Mounts disk g (1 + g.rootDirSectors) s s') :
    s'.sectorReads ≤ s.sectorReads + mountReads := by
  have hplaces : (kMaxMountedFatNodes - s.mountedFatPathCount) * chainReads g ≤
      kMaxMountedFatNodes * (kMaxChainClusters * 2 ^ 8) :=
    Nat.mul_le_mul (Nat.sub_le _ _) (Nat.mul_le_mul_left _ h.spc_lt)
  have hroot := h.rootDirSectors_le
  have hsum : 1 + g.rootDirSectors + kMaxMountedFatNodes * (kMaxChainClusters * 2 ^ 8) ≤
      mountReads := by
    unfold mountReads
    gcongr
  have hreads : s'.sectorReads ≤ s.reserve g + (1 + g.rootDirSectors) :=
    (le_add_right _ _).trans hm.reads
  unfold reserve at hreads
  linarith

lemma mountFat16Root_cases (disk : Disk) (s : FatMount) :
    (∃ g, parseFat16Geometry (disk.contents 0) = some g ∧
      Mounts disk g (1 + g.rootDirSectors) s (mountFat16Root disk s)) ∨
    mountFat16Root disk s = { s with sectorReads := s.sectorReads + 1 } := by
  unfold mountFat16Root
  split
  · next s₁ hread => exact .inr (readSector_state hread)
  next boot s₁ hread =>
    obtain ⟨rfl, -, rfl⟩ := readSector_eq_some hread
    split
    · exact .inr rfl
    next g hg =>
      refine .inl ⟨g, hg, ?_⟩
      have hvisit : ∀ entry, Record disk entry → ∀ s, Mounts disk g 0 s
          (mountFatEntry disk g (mountFatDirectoryCluster disk g 4) mountPoint entry s) :=
        fun entry hentry s =>
          .mountFatEntry (Mounts.mountFatDirectoryCluster 4) mountPoint hentry s
      refine (((Mounts.read s).before (.registerDirectory (Path.ascii "/mnt") _)).before
        (.registerDirectory mountPoint _)).trans ?_
      simpa using Mounts.mountSectors hvisit (range' g.rootSector g.rootDirSectors) _

/-- Loading from any disk and mounting it.  Mounting asks for a bounded number of sectors.  Whenever
a file is loaded, and for every file that is registered, the bytes in memory are those of the walk
from its first cluster, cut at its size; and they are the bytes of the chain that the table gives
exactly if every cluster passed before the file was complete has an entry in the table. -/
theorem mountFat16Root_sound (disk : Disk) (s : FatMount) :
    (mountFat16Root disk s).sectorReads ≤ s.sectorReads + mountReads ∧
    (∀ boot g first size base, parseFat16Geometry boot = some g → size < 2 ^ 32 →
      (loadFatFile disk g first size s).1 = some base →
      ∃ bytes, Holds (loadFatFile disk g first size s).2 base bytes ∧
        ChainFile disk g first size bytes ∧
        (FatFile disk g first size bytes ↔ InFat disk g first size)) ∧
    ∃ added, (mountFat16Root disk s).vfs.nodes = s.vfs.nodes ++ added ∧ ∀ node ∈ added,
      node.type = .directory ∨ ∃ g entry base bytes,
        parseFat16Geometry (disk.contents 0) = some g ∧
        Backed disk g (mountFat16Root disk s) node entry base bytes := by
  refine and_left_comm.1 ⟨fun boot g first size base _ hsize hbase =>
    (loadFatFile_spec disk g first s hsize).file hbase, ?_⟩
  rcases mountFat16Root_cases disk s with ⟨g, hg, hm⟩ | hnothing
  · refine ⟨(accepted_of_parseFat16Geometry hg).sectorReads_le hm, ?_⟩
    obtain ⟨added, hnodes, hadded⟩ := hm.nodes
    refine ⟨added, hnodes, ?_⟩
    intro node hnode
    rcases hadded node hnode with hdir | ⟨entry, base, bytes, hfile⟩
    · exact .inl hdir
    · exact .inr ⟨g, entry, base, bytes, hg, hfile⟩
  · refine ⟨?_, [], by simp [hnothing]⟩
    rw [hnothing]
    exact Nat.add_le_add_left (by unfold mountReads; omega) _

/-! ## A volume whose table is too small

One sector of table has 256 entries, but nothing keeps a record from naming cluster 256. -/

/-- Bytes given at some places, zero elsewhere. -/
def sparse (bytes : List (ℕ × UInt8)) (i : ℕ) : UInt8 := (bytes.lookup i).getD 0

/-- One sector for the table, one for the root directory, clusters of one sector. -/
def smallBootSector : ℕ → UInt8 := sparse
  [(12, 2), (13, 1), (14, 1), (16, 1), (17, 16), (19, 0xe8), (20, 3), (22, 1), (54, 0x46),
    (55, 0x41), (56, 0x54), (57, 0x31), (58, 0x36), (510, 0x55), (511, 0xaa)]

/-- The record of a file `A` of 513 bytes, starting at a cluster given by its two bytes. -/
def smallRecord (low high : UInt8) : ℕ → UInt8 := sparse
  ((0, 0x41) :: (range 11).map (fun i => (i + 1, 0x20)) ++ [(26, low), (27, high),
    (28, 1), (29, 2)])

/-- A disk with that one file; the table leads from cluster 2 to cluster 3. -/
def smallDisk (low high : UInt8) : Disk where
  contents := fun lba =>
    if lba = 0 then smallBootSector
    else if lba = 1 then sparse [(4, 3)]
    else if lba = 2 then smallRecord low high
    else fun _ => UInt8.ofNat lba
  answers := fun _ _ => true

def smallGeometry : Fat16Geometry where
  bytesPerSector := 512
  sectorsPerCluster := 1
  reservedSectors := 1
  fatCount := 1
  rootEntries := 16
  totalSectors := 1000
  fatSectors := 1
  rootDirSectors := 1
  rootSector := 2
  dataSector := 3

/-- A kernel with a few free pages and nothing registered. -/
def smallKernel : FatMount where
  pmm := { bitmap := fun _ => 0, totalPages := 0x110 }
  memory := fun _ => 0

/-- The file at clusters 2 and 3 is loaded as the table says. -/
theorem mountFat16Root_sound_small :
    ∃ bytes, Holds (loadFatFile (smallDisk 2 0) smallGeometry 2 513 smallKernel).2 0x100000 bytes ∧
      ChainFile (smallDisk 2 0) smallGeometry 2 513 bytes ∧
      (FatFile (smallDisk 2 0) smallGeometry 2 513 bytes ↔
        InFat (smallDisk 2 0) smallGeometry 2 513) :=
  (mountFat16Root_sound (smallDisk 2 0) smallKernel).2.1 smallBootSector smallGeometry 2
    513 0x100000
    (by decide +kernel) (by norm_num) (by decide +kernel)

/-- With cluster 256 in the record, the kernel takes the next cluster from the name of the file in
the root directory, which lies behind the table, and registers what it finds there. -/
theorem mounts_chain_outside_fat :
    parseFat16Geometry ((smallDisk 0 1).contents 0) = some smallGeometry ∧
    (loadFatFile (smallDisk 0 1) smallGeometry 256 513 smallKernel).1 = some 0x100000 ∧
    (mountFat16Root (smallDisk 0 1) smallKernel).vfs.nodes.map
    (fun node => (node.path, node.size)) =
      [(some (.constant (Path.ascii "/mnt")), 0), (some (.constant mountPoint), 0),
        (some (.constant (Path.ascii "/mnt/boot/a")), 513)] ∧
    ¬∃ bytes, FatFile (smallDisk 0 1) smallGeometry 256 513 bytes := by
  refine ⟨by decide +kernel, by decide +kernel, by decide +kernel, ?_⟩
  rintro ⟨bytes, hfile⟩
  have hwalk : Walk (smallDisk 0 1) smallGeometry 256 [256] :=
    Walk.cons ⟨by norm_num, by norm_num [kEndOfChain]⟩ (by simp)
  have hin := hfile.inFat [256] hwalk (by norm_num [clusterBytes, smallGeometry]) 256 (by simp)
  norm_num [fatEntries, smallGeometry] at hin

/-! ## What a failed load leaves -/

/-- Every way out of the loader keeps the pages that it took on the way in. -/
lemma loadFatFile_pmm (disk : Disk) (g : Fat16Geometry) (first size : ℕ) (s : FatMount) :
    (loadFatFile disk g first size s).2.pmm =
      if first < 2 ∨ size = 0 then s.pmm
      else (s.pmm.allocateContiguous (pageAlignUp size / kPageSize)).1 := by
  unfold loadFatFile
  dsimp only
  split_ifs with hno hzero
  · rfl
  · rfl
  obtain ⟨bs, hbs, -⟩ := copyClusters_spec disk g
    (s.pmm.allocateContiguous (pageAlignUp size / kPageSize)).2 kMaxChainClusters first
    { s with
      pmm := (s.pmm.allocateContiguous (pageAlignUp size / kPageSize)).1
      memory := Bytes.fill s.memory (s.pmm.allocateContiguous (pageAlignUp size / kPageSize)).2
        (pageAlignUp size / kPageSize * kPageSize) 0 } (zero_le size)
  split <;> next hcopy => rw [hcopy] at hbs; rw [hbs.state]

/-- A record leads to a file with this path, and the file does not come into the tree: the loader
fails, or the table of nodes does not take the file. -/
structure Fails (disk : Disk) (g : Fat16Geometry) (parent path : Path) (entry : ℕ → UInt8)
    (s s' : FatMount) : Prop where
  read : ¬ Skipped entry
  file : ¬ IsDirectory entry
  reserved : ∃ name, fatShortName entry = some name ∧
    reserveMountedPath parent name s = (some path, s')
  fails : ∀ base s'', loadFatFile disk g (entryCluster entry) (entrySize entry) s' =
    (some base, s'') → (s''.vfs.registerDiskFile path base (entrySize entry)).1 = false

lemma reserveMountedPath_pmm (parent name : Path) (s : FatMount) :
    (reserveMountedPath parent name s).2.pmm = s.pmm := by
  unfold reserveMountedPath
  split <;> simp

lemma Fails.pmm {descend : Path → ℕ → FatMount → FatMount} {parent path : Path}
    (h : Fails disk g parent path entry s s') :
    (mountFatEntry disk g descend parent entry s).pmm =
      (loadFatFile disk g (entryCluster entry) (entrySize entry) s').2.pmm := by
  obtain ⟨name, hname, hpath⟩ := h.reserved
  unfold mountFatEntry
  simp only [if_neg h.read, hname, hpath, if_neg h.file]
  split <;> next hload => rw [hload]

/-- A file that does not come into the tree leaves the free pages as they were exactly if the loader
never had a buffer: nothing on the way out of it gives the buffer back. -/
theorem failed_load_keeps_free_iff {descend : Path → ℕ → FatMount → FatMount} {parent path : Path}
    (hinv : s.pmm.Inv) (h : Fails disk g parent path entry s s') :
    (mountFatEntry disk g descend parent entry s).pmm.freeSet = s.pmm.freeSet ↔
      entryCluster entry < 2 ∨ entrySize entry = 0 ∨
        ∀ page, ¬ Finset.Ico page (page + pageAlignUp (entrySize entry) / kPageSize) ⊆
          s.pmm.freeSet := by
  obtain ⟨name, -, hpath⟩ := h.reserved
  have hpmm : s'.pmm = s.pmm := by simpa [hpath] using reserveMountedPath_pmm parent name s
  rw [h.pmm, loadFatFile_pmm, hpmm]
  split_ifs with hno
  · exact iff_of_true rfl (by tauto)
  have hpages := le_pages (readLe32_lt entry 28)
  rw [← entrySize] at hpages
  set pages := pageAlignUp (entrySize entry) / kPageSize
  have hpos : 0 < pages := by
    by_contra hzero
    rw [Nat.eq_zero_of_not_pos hzero] at hpages
    omega
  rcases s.pmm.allocateContiguous_cases hinv hpos
    with ⟨page, hfree, -, hset, -⟩ | ⟨hnone, -, hset, -⟩
  · have hmem : page ∈ Finset.Ico page (page + pages) := by simp [hpos]
    refine iff_of_false ?_ (by push Not; exact ⟨by omega, by omega, page, hfree⟩)
    intro heq
    rw [hset] at heq
    have hstill := hfree hmem
    rw [← heq] at hstill
    exact (Finset.mem_sdiff.mp hstill).2 hmem
  · exact iff_of_true hset (.inr (.inr hnone))

/-- A kernel with these pages and nothing registered. -/
def emptyKernel (pmm : PhysicalMemoryManager) : FatMount where
  pmm := pmm
  memory := fun _ => 0

@[simp] lemma pmm_emptyKernel (pmm : PhysicalMemoryManager) : (emptyKernel pmm).pmm = pmm := rfl

def bootedKernel : FatMount :=
  emptyKernel (.initializeFromBoot (BootInfo.oneRegion ⟨0x100000, 0x8000, .usable⟩))

lemma inv_bootedKernel : bootedKernel.pmm.Inv := by
  rw [bootedKernel, pmm_emptyKernel]
  exact PhysicalMemoryManager.inv_initializeFromBoot _

/-- A record whose first cluster is 0 costs nothing. -/
theorem failed_load_keeps_free_cluster_zero :
    (mountFatEntry (smallDisk 0 0) smallGeometry (fun _ _ s => s) mountPoint (smallRecord 0 0)
      bootedKernel).pmm.freeSet = bootedKernel.pmm.freeSet := by
  have hcluster : entryCluster (smallRecord 0 0) < 2 := by decide +kernel
  have hname : fatShortName (smallRecord 0 0) = some (Path.ascii "a") := by decide +kernel
  have hpath : (reserveMountedPath mountPoint (Path.ascii "a") bootedKernel).1 =
      some (Path.ascii "/mnt/boot/a") := by decide +kernel
  refine (failed_load_keeps_free_iff inv_bootedKernel
    ⟨by decide +kernel, by decide +kernel, ⟨_, hname, Prod.ext hpath rfl⟩, ?_⟩).2 (.inl hcluster)
  intro base s'' h
  rw [loadFatFile, if_pos (.inl hcluster)] at h
  simp at h

/-- The disk of the file `A`.  The second read, which is that of the table, fails. -/
def brokenDisk : Disk := { smallDisk 2 0 with answers := fun read _ => read ≠ 1 }

/-- One sector of the file is copied, the table cannot be read, and the page of the file is never
given back. -/
theorem failed_load_keeps_page :
    (loadFatFile brokenDisk smallGeometry 2 513 bootedKernel).1 = none ∧
    bootedKernel.pmm.isUsed 0x100 = false ∧
    (mountFatEntry brokenDisk smallGeometry (fun _ _ s => s) mountPoint (smallRecord 2 0)
      bootedKernel).pmm.isUsed 0x100 = true := by
  decide +kernel

/-! ## Mounted paths -/

/-- The path of the directory does not end in a slash, and the buffer has room for the name. -/
def Joins (parent name : Path) : Prop :=
  parent.getLast? ≠ some slash ∧ parent.length + 1 + name.length < kPathBytes
  deriving Decidable

lemma reserveMountedPath_joins {parent : Path} (name : Path) {s : FatMount}
    (hparent : 1 < parent.length)
    (hroom : s.mountedFatPathCount < kMaxMountedFatNodes) :
    ∃ path, (reserveMountedPath parent name s).1 = some path ∧
      (path = parent ++ slash :: name ↔ Joins parent name) := by
  have hshort (h : parent.length < kPathBytes) : parent.take (kPathBytes - 1) = parent :=
    take_of_length_le (by omega)
  have hbytes : kPathBytes - 1 ≠ 0 := by decide
  rw [reserveMountedPath, if_neg (not_le.2 hroom)]
  dsimp only
  split_ifs with hput hempty hempty
  · simp [hbytes] at hempty
  · refine ⟨_, rfl, ?_, ?_⟩
    · intro heq
      have hlen := congrArg length heq
      simp at hlen
      rw [hshort (by omega)] at hput
      exact ⟨hput.2.2, by omega⟩
    · rintro ⟨-, hfits⟩
      rw [hshort (by omega), append_assoc]
      exact take_of_length_le (by simp; omega)
  · simp [hbytes, ne_nil_of_length_pos (zero_lt_of_lt hparent)] at hempty
  · refine ⟨_, rfl, iff_of_false ?_ ?_⟩
    · intro heq
      have hlen := congrArg length heq
      simp at hlen
      omega
    · rintro ⟨hslash, hfits⟩
      rw [hshort (by omega)] at hput
      exact hput ⟨by omega, hparent, hslash⟩

/-- In a directory below the mount point a record gets the path of the directory, a slash and its
name exactly if the three fit and the directory's path does not end in a slash, unless the table of
paths is full; names that fit get different paths. -/
theorem mounted_path_iff (rest : Path) :
    (∀ name s, (reserveMountedPath (mountPoint ++ rest) name s).1 = none ∨
        (reserveMountedPath (mountPoint ++ rest) name s).1 =
          some (mountPoint ++ rest ++ slash :: name) ↔
      kMaxMountedFatNodes ≤ s.mountedFatPathCount ∨ Joins (mountPoint ++ rest) name) ∧
    ∀ name name' s s' path, Joins (mountPoint ++ rest) name → Joins (mountPoint ++ rest) name' →
      (reserveMountedPath (mountPoint ++ rest) name s).1 = some path →
      (reserveMountedPath (mountPoint ++ rest) name' s').1 = some path → name = name' := by
  have hlength : 1 < (mountPoint ++ rest).length := by
    rw [length_append]
    exact lt_of_lt_of_le (by decide) (le_add_right _ _)
  generalize mountPoint ++ rest = parent at hlength
  have hfull (name : Path) (s : FatMount) (h : kMaxMountedFatNodes ≤ s.mountedFatPathCount) :
      (reserveMountedPath parent name s).1 = none := by
    rw [reserveMountedPath, if_pos h]
  have hexact (name path : Path) (s : FatMount) (hjoins : Joins parent name)
      (h : (reserveMountedPath parent name s).1 = some path) : path = parent ++ slash :: name := by
    rcases lt_or_ge s.mountedFatPathCount kMaxMountedFatNodes with hroom | hno
    · obtain ⟨path', hpath', hiff⟩ := reserveMountedPath_joins name hlength hroom
      rw [← Option.some.inj (hpath'.symm.trans h)]
      exact hiff.2 hjoins
    · rw [hfull name s hno] at h
      cases h
  constructor
  · intro name s
    rcases lt_or_ge s.mountedFatPathCount kMaxMountedFatNodes with hroom | hno
    · obtain ⟨path, hpath, hiff⟩ := reserveMountedPath_joins name hlength hroom
      rw [hpath, Option.some_inj, hiff]
      simp [hroom]
    · exact iff_of_true (.inl (hfull name s hno)) (.inl hno)
  · intro name name' s s' path hjoins hjoins' h h'
    have heq := (hexact name path s hjoins h).symm.trans (hexact name' path s' hjoins' h')
    exact (cons.inj (append_cancel_left heq)).2

/-- A directory four levels down, as deep as directories are read. -/
def deepPath : Path := mountPoint ++ (replicate 4 (Path.ascii "/aaaaaaaa.aaa")).flatten

/-- The path of such a directory leaves room for one character of a name, so that two names get one
path. -/
theorem deep_names_collide :
    let record := fun (c : UInt8) (i : ℕ) => if i = 0 then 0x41 else if i = 1 then c else 0x20
    let deep := fun (s : FatMount) => (replicate 4 (Path.ascii "aaaaaaaa.aaa")).foldlM
      (fun parent name => (reserveMountedPath parent name s).1) mountPoint
    deep bootedKernel = some deepPath ∧
      fatShortName (record 0x42) = some (Path.ascii "ab") ∧
      fatShortName (record 0x43) = some (Path.ascii "ac") ∧
      (reserveMountedPath deepPath (Path.ascii "ab") bootedKernel).1 =
        some (deepPath ++ Path.ascii "/a") ∧
      (reserveMountedPath deepPath (Path.ascii "ac") bootedKernel).1 =
        some (deepPath ++ Path.ascii "/a") := by
  decide +kernel

end IanOS.FatMount
