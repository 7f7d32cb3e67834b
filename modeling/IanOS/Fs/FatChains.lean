import IanOS.Fs.Fat

/-!
# What a cluster chain holds

A `Walk` is a list of clusters, each named by the table entry of the one before.  The loader is
meant to return the sectors of a walk from the first cluster, cut at the size of the file
(`ChainFile`).

The table has as many entries as fit into its sectors, but `read_fat_entry` does not compare the
cluster with their number: behind the end of the table it reads whatever is on the disk there.  So
being a walk is one thing, and being a walk that the table gives (`InFat`) another.
-/

namespace IanOS

open List

/-- The sector was, or would be, read at some time. -/
def Disk.Readable (disk : Disk) (lba : ℕ) : Prop := ∃ n, disk.answers n lba = true

def Disk.sectorBytes (disk : Disk) (lba : ℕ) : List UInt8 := Bytes.load (disk.contents lba) 0 512

@[simp] lemma Disk.length_sectorBytes (disk : Disk) (lba : ℕ) :
    (disk.sectorBytes lba).length = 512 := by
  simp [sectorBytes]

namespace FatMount

/-- What is found where the entry of a cluster would stand. -/
def nextCluster (disk : Disk) (g : Fat16Geometry) (cluster : ℕ) : ℕ :=
  readLe16 (disk.contents (fatSector g cluster)) (cluster * 2 % 512)

/-- How many entries the table has. -/
def fatEntries (g : Fat16Geometry) : ℕ := g.fatSectors * 512 / 2

def chainSectors (g : Fat16Geometry) (clusters : List ℕ) : List ℕ :=
  clusters.flatMap (clusterSectors g)

def chainBytes (disk : Disk) (g : Fat16Geometry) (clusters : List ℕ) : List UInt8 :=
  (chainSectors g clusters).flatMap disk.sectorBytes

/-- How many bytes a cluster holds. -/
def clusterBytes (g : Fat16Geometry) : ℕ := g.sectorsPerCluster * 512

@[simp] lemma length_clusterSectors (g : Fat16Geometry) (c : ℕ) :
    (clusterSectors g c).length = g.sectorsPerCluster := by
  simp [clusterSectors]

lemma length_flatMap_sectorBytes (disk : Disk) (lbas : List ℕ) :
    (lbas.flatMap disk.sectorBytes).length = lbas.length * 512 := by
  simp [length_flatMap]

lemma chainBytes_cons (disk : Disk) (g : Fat16Geometry) (c : ℕ) (cs : List ℕ) :
    chainBytes disk g (c :: cs) =
      (clusterSectors g c).flatMap disk.sectorBytes ++ chainBytes disk g cs := by
  simp [chainBytes, chainSectors]

lemma length_chainBytes (disk : Disk) (g : Fat16Geometry) (cs : List ℕ) :
    (chainBytes disk g cs).length = cs.length * clusterBytes g := by
  simp [chainBytes, chainSectors, clusterBytes, Nat.mul_assoc]

/-! ## Walks -/

/-- Clusters in the order in which they are reached from the first. -/
structure Walk (disk : Disk) (g : Fat16Geometry) (first : ℕ) (clusters : List ℕ) : Prop where
  head : clusters.head? = some first
  linked : clusters.IsChain fun c d => nextCluster disk g c = d
  inRange : ∀ c ∈ clusters, 2 ≤ c ∧ c < kEndOfChain

variable {disk : Disk} {g : Fat16Geometry} {c first size : ℕ} {cs : List ℕ}

/-- A walk of one cluster, or one that continues where its entry points. -/
lemma Walk.cons (h : 2 ≤ c ∧ c < kEndOfChain)
    (hcs : cs ≠ [] → Walk disk g (nextCluster disk g c) cs) : Walk disk g c (c :: cs) := by
  cases cs with
  | nil => exact ⟨by simp, by simp, by simpa using h⟩
  | cons d cs =>
    have hrest := hcs (by simp)
    have hd : d = nextCluster disk g c := by simpa using hrest.head
    refine ⟨by simp, isChain_cons_cons.2 ⟨hd.symm, hrest.linked⟩, ?_⟩
    intro x hx
    rcases mem_cons.1 hx with rfl | hx
    · exact h
    · exact hrest.inRange x hx

lemma Walk.tail {d : ℕ} (h : Walk disk g c (c :: d :: cs)) :
    Walk disk g (nextCluster disk g c) (d :: cs) := by
  obtain ⟨hd, hlinked⟩ := isChain_cons_cons.1 h.linked
  refine ⟨by simp [hd], hlinked, ?_⟩
  intro x hx
  exact h.inRange x (mem_cons_of_mem _ hx)

lemma Walk.exists_cons (h : Walk disk g first cs) : ∃ rest, cs = first :: rest := by
  cases cs with
  | nil => simpa using h.head
  | cons c rest =>
    have hc : c = first := by simpa using h.head
    exact ⟨rest, by rw [hc]⟩

/-- There is only one way to walk. -/
lemma Walk.isPrefix {ds : List ℕ} (hc : Walk disk g first cs) (hd : Walk disk g first ds)
    (hle : cs.length ≤ ds.length) : cs <+: ds := by
  induction cs generalizing first ds with
  | nil => simp
  | cons c cs ih =>
    obtain ⟨ds, rfl⟩ := hd.exists_cons
    obtain rfl : c = first := by simpa using hc.head
    rw [prefix_cons_inj]
    cases cs with
    | nil => simp
    | cons c' cs =>
      cases ds with
      | nil => simp at hle
      | cons d' ds => exact ih hc.tail hd.tail (by simpa using hle)

lemma Walk.dropLast (h : Walk disk g first cs) (hne : cs.dropLast ≠ []) :
    Walk disk g first cs.dropLast where
  head := by
    obtain ⟨rest, rfl⟩ := h.exists_cons
    cases rest with
    | nil => simp at hne
    | cons d rest => simp
  linked := h.linked.prefix ( dropLast_prefix cs)
  inRange := fun c hc => h.inRange c (mem_of_mem_dropLast hc)

/-! ## Files -/

/-- The clusters hold a file of this size: there are enough of them, not more than the guard allows,
and the sectors the file needs can be read. -/
structure Covers (disk : Disk) (g : Fat16Geometry) (first size : ℕ) (clusters : List ℕ) : Prop
    extends Walk disk g first clusters where
  length_le : clusters.length ≤ kMaxChainClusters
  size_le : size ≤ clusters.length * clusterBytes g
  readable : ∀ lba ∈ (chainSectors g clusters).take ((size + 511) / 512), disk.Readable lba

/-- The bytes of a file of this size that starts at this cluster. -/
def ChainFile (disk : Disk) (g : Fat16Geometry) (first size : ℕ) (bytes : List UInt8) : Prop :=
  ∃ cs, Covers disk g first size cs ∧ bytes = (chainBytes disk g cs).take size

/-- The same, where each cluster after the first is given by an entry of the table. -/
def FatFile (disk : Disk) (g : Fat16Geometry) (first size : ℕ) (bytes : List UInt8) : Prop :=
  ∃ cs, Covers disk g first size cs ∧ (∀ c ∈ cs.dropLast, c < fatEntries g) ∧
    bytes = (chainBytes disk g cs).take size

/-- Every cluster that is passed while bytes of the file are missing has an entry in the table. -/
def InFat (disk : Disk) (g : Fat16Geometry) (first size : ℕ) : Prop :=
  ∀ cs, Walk disk g first cs → cs.length * clusterBytes g < size → ∀ c ∈ cs, c < fatEntries g

lemma FatFile.inFat {bytes : List UInt8} (h : FatFile disk g first size bytes) :
    InFat disk g first size := by
  obtain ⟨cs, hcs, hfat, -⟩ := h
  intro ds hds hshort c hc
  have hlt : ds.length < cs.length := by
    by_contra hge
    have := Nat.mul_le_mul_right (clusterBytes g) (Nat.le_of_not_lt hge)
    have := hcs.size_le
    omega
  -- a shorter walk lies in the part of the chain that is followed further
  have hpre : ds <+: cs.dropLast := by
    refine prefix_of_prefix_length_le (hds.isPrefix hcs.toWalk hlt.le) ( dropLast_prefix cs) ?_
    rw [length_dropLast]
    omega
  exact hfat c (hpre.subset hc)

/-- Cut a covering walk after the first cluster that completes the file. -/
lemma Covers.fatFile (h : Covers disk g first size cs)
    (hmin : (cs.length - 1) * clusterBytes g < size) (hfat : InFat disk g first size) :
    FatFile disk g first size ((chainBytes disk g cs).take size) := by
  refine ⟨cs, h, ?_, rfl⟩
  intro c hc
  have hne : cs.dropLast ≠ [] := ne_nil_of_mem hc
  refine hfat cs.dropLast (h.toWalk.dropLast hne) ?_ c hc
  rwa [length_dropLast]

end FatMount
end IanOS
