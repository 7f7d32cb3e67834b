import IanOS.Fs.Vfs
import IanOS.Mm.Pmm

/-!
# Mounting the FAT16 boot disk

A model of the part of `kernel/src/fs/vfs.cpp` that reads a FAT16 volume at boot: the boot sector,
the directory records, the cluster chains of the files, and the registration of what was found under
`/mnt/boot`.

A disk answers or fails each read; which of the two may depend on how many sectors were read before,
so a sector that fails once need not fail again.  The cache in front of the disk and the pages its
driver takes for itself are not modelled.  The nodes and bytes counted for `register_mount` are only
reported, and the log lines are left out.
-/

namespace IanOS

open Bytes

def kMaxMountedFatNodes : ℕ := 256

/-- The bound of the `guard` counters, on the clusters of one chain. -/
def kMaxChainClusters : ℕ := 4096

/-- The first cluster number that ends a chain. -/
def kEndOfChain : ℕ := 0xfff8

/-- `hk::block::BlockDevice`: what its sectors hold, and whether it answers the read with a given
number of a given sector. -/
structure Disk where
  contents : ℕ → ℕ → UInt8
  answers : ℕ → ℕ → Bool

structure Fat16Geometry where
  bytesPerSector : ℕ
  sectorsPerCluster : ℕ
  reservedSectors : ℕ
  fatCount : ℕ
  rootEntries : ℕ
  totalSectors : ℕ
  fatSectors : ℕ
  rootDirSectors : ℕ
  rootSector : ℕ
  dataSector : ℕ
  deriving DecidableEq, Repr

/-- What mounting changes: the file system, the page allocator, physical memory, the number of
`mounted_fat_paths` in use, and how many sectors were asked for. -/
structure FatMount where
  vfs : Vfs := {}
  pmm : PhysicalMemoryManager
  memory : ℕ → UInt8
  mountedFatPathCount : ℕ := 0
  sectorReads : ℕ := 0

/-! ## The fields of a sector -/

def readLe16 (bytes : ℕ → UInt8) (offset : ℕ) : ℕ :=
  (bytes offset).toNat + (bytes (offset + 1)).toNat * 2 ^ 8

def readLe32 (bytes : ℕ → UInt8) (offset : ℕ) : ℕ :=
  (bytes offset).toNat + (bytes (offset + 1)).toNat * 2 ^ 8 +
    (bytes (offset + 2)).toNat * 2 ^ 16 + (bytes (offset + 3)).toNat * 2 ^ 24

def parseFat16Geometry (sector : ℕ → UInt8) : Option Fat16Geometry :=
  if sector 510 ≠ 0x55 ∨ sector 511 ≠ 0xaa then none
  else if load sector 54 5 ≠ Path.ascii "FAT16" then none
  else
    let bytesPerSector := readLe16 sector 11
    let sectorsPerCluster := (sector 13).toNat
    let reservedSectors := readLe16 sector 14
    let fatCount := (sector 16).toNat
    let rootEntries := readLe16 sector 17
    let total16 := readLe16 sector 19
    let totalSectors := if total16 ≠ 0 then total16 else readLe32 sector 32
    let fatSectors := readLe16 sector 22
    if bytesPerSector ≠ 512 ∨ sectorsPerCluster = 0 ∨ reservedSectors = 0 ∨ fatCount = 0 ∨
        rootEntries = 0 ∨ fatSectors = 0 ∨ totalSectors = 0 then none
    else
      let rootDirSectors := (rootEntries * 32 + 511) / 512
      let rootSector := reservedSectors + fatCount * fatSectors
      let dataSector := rootSector + rootDirSectors
      if dataSector < totalSectors then
        some { bytesPerSector, sectorsPerCluster, reservedSectors, fatCount, rootEntries,
               totalSectors, fatSectors, rootDirSectors, rootSector, dataSector }
      else none

def lowerAscii (c : UInt8) : UInt8 := if 0x41 ≤ c ∧ c ≤ 0x5a then c - 0x41 + 0x61 else c

/-- The text of the 8.3 name of a directory record.  It is a C string, so it ends at the first zero
byte. -/
def fatShortName (entry : ℕ → UInt8) : Option Path :=
  if entry 0 = 0 ∨ entry 0 = 0xe5 ∨ entry 0 = dot then none
  else
    let stem := (load entry 0 8).takeWhile (· ≠ 0x20)
    let extension := load entry 8 3
    let out := stem.map lowerAscii ++
      (if extension.any (· ≠ 0x20) then [dot] else []) ++
      (extension.takeWhile (· ≠ 0x20)).map lowerAscii
    if out = [] then none else some (out.takeWhile (· ≠ 0))

namespace FatMount

/-! ## Reading the disk -/

def readSector (disk : Disk) (lba : ℕ) (s : FatMount) : Option (ℕ → UInt8) × FatMount :=
  (if disk.answers s.sectorReads lba then some (disk.contents lba) else none,
    { s with sectorReads := s.sectorReads + 1 })

/-- Where the entry of a cluster stands in the first FAT. -/
def fatSector (g : Fat16Geometry) (cluster : ℕ) : ℕ := g.reservedSectors + cluster * 2 / 512

def readFatEntry (disk : Disk) (g : Fat16Geometry) (cluster : ℕ) (s : FatMount) :
    Option ℕ × FatMount :=
  match readSector disk (fatSector g cluster) s with
  | (none, s) => (none, s)
  | (some sector, s) => (some (readLe16 sector (cluster * 2 % 512)), s)

/-- The sectors of a cluster. -/
def clusterSectors (g : Fat16Geometry) (cluster : ℕ) : List ℕ :=
  List.range' (g.dataSector + (cluster - 2) * g.sectorsPerCluster) g.sectorsPerCluster

/-! ## Loading a file -/

/-- The loop over the sectors of a cluster: how much of the file has been copied after it, or
nothing if a sector could not be read. -/
def copySectors (disk : Disk) (base size : ℕ) : List ℕ → ℕ → FatMount → Option ℕ × FatMount
  | [], copied, s => (some copied, s)
  | lba :: lbas, copied, s =>
    if size ≤ copied then (some copied, s)
    else
      match readSector disk lba s with
      | (none, s) => (none, s)
      | (some sector, s) =>
        let toCopy := min (size - copied) 512
        copySectors disk base size lbas (copied + toCopy)
          { s with memory := store s.memory (base + copied) (load sector 0 toCopy) }

/-- The loop over the clusters of a file.  The first number is what `guard` still allows. -/
def copyClusters (disk : Disk) (g : Fat16Geometry) (base size : ℕ) :
    ℕ → ℕ → ℕ → FatMount → Option ℕ × FatMount
  | 0, _, copied, s => (some copied, s)
  | guard + 1, cluster, copied, s =>
    if 2 ≤ cluster ∧ cluster < kEndOfChain ∧ copied < size then
      match copySectors disk base size (clusterSectors g cluster) copied s with
      | (none, s) => (none, s)
      | (some copied, s) =>
        match readFatEntry disk g cluster s with
        | (none, s) => (none, s)
        | (some next, s) => copyClusters disk g base size guard next copied s
    else (some copied, s)

/-- The address of the copy, if the whole file was read. -/
def loadFatFile (disk : Disk) (g : Fat16Geometry) (firstCluster fileSize : ℕ) (s : FatMount) :
    Option ℕ × FatMount :=
  if firstCluster < 2 ∨ fileSize = 0 then (none, s)
  else
    let pages := pageAlignUp fileSize / kPageSize
    let (pmm, base) := s.pmm.allocateContiguous pages
    let s := { s with pmm := pmm }
    if base = 0 then (none, s)
    else
      let s := { s with memory := fill s.memory base (pages * kPageSize) 0 }
      match copyClusters disk g base fileSize kMaxChainClusters firstCluster 0 s with
      | (none, s) => (none, s)
      | (some copied, s) => (if copied = fileSize then some base else none, s)

/-! ## Directories -/

def reserveMountedPath (parent name : Path) (s : FatMount) : Option Path × FatMount :=
  if kMaxMountedFatNodes ≤ s.mountedFatPathCount then (none, s)
  else
    let out := parent.take (kPathBytes - 1)
    let out :=
      if out.length + 1 < kPathBytes ∧ 1 < out.length ∧ out.getLast? ≠ some slash then
        out ++ [slash]
      else out
    let out := (out ++ name).take (kPathBytes - 1)
    (if out = [] then none
      else some out, { s with mountedFatPathCount := s.mountedFatPathCount + 1 })

/-- Registration, whatever comes of it. -/
def registerDirectory (path : Path) (s : FatMount) : FatMount :=
  { s with vfs := (s.vfs.registerDirectory path false).2 }

/-- Deleted records, `.` and `..`, pieces of long names and volume labels are passed over. -/
def Skipped (entry : ℕ → UInt8) : Prop :=
  entry 0 = 0xe5 ∨ entry 0 = dot ∨ entry 11 &&& 0x0f = 0x0f ∨ entry 11 &&& 0x08 ≠ 0
  deriving Decidable

def IsDirectory (entry : ℕ → UInt8) : Prop := entry 11 &&& 0x10 ≠ 0
  deriving Decidable

def entryCluster (entry : ℕ → UInt8) : ℕ := readLe16 entry 26

def entrySize (entry : ℕ → UInt8) : ℕ := readLe32 entry 28

/-- `mount_fat_entry`; `descend` is what it does with a directory, given its path and cluster. -/
def mountFatEntry (disk : Disk) (g : Fat16Geometry) (descend : Path → ℕ → FatMount → FatMount)
    (parent : Path) (entry : ℕ → UInt8) (s : FatMount) : FatMount :=
  if Skipped entry then s
  else
    match fatShortName entry with
    | none => s
    | some name =>
      match reserveMountedPath parent name s with
      | (none, s) => s
      | (some path, s) =>
        if IsDirectory entry then
          descend path (entryCluster entry) (registerDirectory path s)
        else
          match loadFatFile disk g (entryCluster entry) (entrySize entry) s with
          | (none, s) => s
          | (some base, s) =>
            { s with vfs := (s.vfs.registerDiskFile path base (entrySize entry)).2 }

/-- A record of a sector of a directory. -/
def entryAt (sector : ℕ → UInt8) (index : ℕ) : ℕ → UInt8 := fun i => sector (index * 32 + i)

/-- The loop over the records of a sector.  A record that starts with zero ends the directory; the
flag says whether to go on. -/
def mountEntries (visit : (ℕ → UInt8) → FatMount → FatMount) (sector : ℕ → UInt8) :
    List ℕ → FatMount → Bool × FatMount
  | [], s => (true, s)
  | index :: rest, s =>
    if entryAt sector index 0 = 0 then (false, s)
    else mountEntries visit sector rest (visit (entryAt sector index) s)

/-- The loop over sectors of a directory. -/
def mountSectors (disk : Disk) (visit : (ℕ → UInt8) → FatMount → FatMount) :
    List ℕ → FatMount → Bool × FatMount
  | [], s => (true, s)
  | lba :: lbas, s =>
    match readSector disk lba s with
    | (none, s) => (false, s)
    | (some sector, s) =>
      match mountEntries visit sector (List.range 16) s with
      | (false, s) => (false, s)
      | (true, s) => mountSectors disk visit lbas s

/-- The loop over the clusters of a directory. -/
def mountClusters (disk : Disk) (g : Fat16Geometry) (visit : (ℕ → UInt8) → FatMount → FatMount) :
    ℕ → ℕ → FatMount → FatMount
  | 0, _, s => s
  | guard + 1, cluster, s =>
    if 2 ≤ cluster ∧ cluster < kEndOfChain then
      match mountSectors disk visit (clusterSectors g cluster) s with
      | (false, s) => s
      | (true, s) =>
        match readFatEntry disk g cluster s with
        | (none, s) => s
        | (some next, s) => mountClusters disk g visit guard next s
    else s

/-- `mount_fat_directory_cluster`.  The source counts `depth` up and returns above 4; the first
argument is `5 - depth`. -/
def mountFatDirectoryCluster (disk : Disk) (g : Fat16Geometry) :
    ℕ → Path → ℕ → FatMount → FatMount
  | 0, _, _, s => s
  | levels + 1, parent, firstCluster, s =>
    if firstCluster < 2 then s
    else
      mountClusters disk g
        (mountFatEntry disk g (mountFatDirectoryCluster disk g levels) parent)
        kMaxChainClusters firstCluster s

def mountPoint : Path := Path.ascii "/mnt/boot"

def mountFat16Root (disk : Disk) (s : FatMount) : FatMount :=
  match readSector disk 0 s with
  | (none, s) => s
  | (some bootSector, s) =>
    match parseFat16Geometry bootSector with
    | none => s
    | some g =>
      let s := registerDirectory mountPoint (registerDirectory (Path.ascii "/mnt") s)
      -- the records of the root are at depth 0
      (mountSectors disk (mountFatEntry disk g (mountFatDirectoryCluster disk g 4) mountPoint)
        (List.range' g.rootSector g.rootDirSectors) s).2

end FatMount
end IanOS
