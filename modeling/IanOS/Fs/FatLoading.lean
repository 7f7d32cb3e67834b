import IanOS.Fs.FatChains
import IanOS.Mm.PmmSpec

/-!
# Loading a file from its cluster chain

What the two loops of `load_fat_file` do: whatever the disk holds and however its reads fail, they
only write into the file's own memory, and what they have copied is the beginning of the bytes of
the walk they made.  If the loader returns an address, the file's bytes stand there
(`loadFatFile_spec`).
-/

namespace IanOS.FatMount

open List Bytes Nat

variable {disk : Disk} {g : Fat16Geometry}
  {lba c first pages : ℕ} {cs : List ℕ} {pmm : PhysicalMemoryManager}

lemma readSector_eq_some {s s' : FatMount} {sector : ℕ → UInt8}
    (h : readSector disk lba s = (some sector, s')) :
    sector = disk.contents lba ∧ disk.Readable lba ∧
      s' = { s with sectorReads := s.sectorReads + 1 } := by
  simp only [readSector, Prod.mk.injEq, Option.ite_none_right_eq_some, Option.some.injEq] at h
  obtain ⟨⟨hanswers, hsector⟩, hs⟩ := h
  exact ⟨hsector.symm, ⟨_, hanswers⟩, hs.symm⟩

lemma readSector_state {s s' : FatMount} {r : Option (ℕ → UInt8)}
    (h : readSector disk lba s = (r, s')) : s' = { s with sectorReads := s.sectorReads + 1 } := by
  simp only [readSector, Prod.mk.injEq] at h
  exact h.2.symm

lemma readFatEntry_eq_some {next : ℕ} {s s' : FatMount}
    (h : readFatEntry disk g c s = (some next, s')) :
    next = nextCluster disk g c ∧ s' = { s with sectorReads := s.sectorReads + 1 } := by
  unfold readFatEntry at h
  split at h
  · simp at h
  · next sector s₁ hread =>
    obtain ⟨rfl, -, hs⟩ := readSector_eq_some hread
    simp only [Prod.mk.injEq, Option.some.injEq] at h
    exact ⟨h.1.symm, h.2 ▸ hs⟩

lemma readFatEntry_state {s s' : FatMount} {r : Option ℕ} (h : readFatEntry disk g c s = (r, s')) :
    s' = { s with sectorReads := s.sectorReads + 1 } := by
  unfold readFatEntry at h
  split at h
  all_goals next hread =>
      simp only [Prod.mk.injEq] at h
      exact h.2 ▸ readSector_state hread

/-! ## The loops -/

/-- A loop of the loader wrote `bs` behind what was copied before, within the file, and asked for at
most `n` sectors. -/
structure Wrote (base size copied n : ℕ) (bs : List UInt8) (s s' : FatMount) : Prop where
  state : s' = { s with
    memory := store s.memory (base + copied) bs, sectorReads := s'.sectorReads }
  within : copied + bs.length ≤ size
  reads : s'.sectorReads ≤ s.sectorReads + n

variable {base size copied n n' : ℕ} {bs bs' : List UInt8} {s s' s'' : FatMount}

lemma Wrote.refl (h : copied ≤ size) : Wrote base size copied n [] s s where
  state := by simp
  within := by simpa using h
  reads := le_add_right _ _

section

variable (h : Wrote base size copied n bs s s')
include h

/-- Asking for one more sector writes nothing. -/
lemma Wrote.read :
    Wrote base size copied (n + 1) bs s { s' with sectorReads := s'.sectorReads + 1 } where
  state := by rw [h.state]
  within := h.within
  reads := by
    have := h.reads
    dsimp only
    omega

lemma Wrote.mono (hle : n ≤ n') :
    Wrote base size copied n' bs s s' :=
  ⟨h.state, h.within, h.reads.trans (Nat.add_le_add_left hle _)⟩

lemma Wrote.trans
    (h' : Wrote base size (copied + bs.length) n' bs' s' s'') :
    Wrote base size copied (n + n') (bs ++ bs') s s'' where
  state := by
    have hmemory : s'.memory = store s.memory (base + copied) bs := by rw [h.state]
    rw [h'.state, hmemory, ← add_assoc, store_store, h.state]
  within := by
    have := h'.within
    simp only [length_append]
    omega
  reads := by
    have := h.reads
    have := h'.reads
    omega

end

/-- The part of a sector that still belongs to the file, written behind what was copied. -/
lemma Wrote.sector (disk : Disk) (base lba : ℕ) (s : FatMount) (h : copied ≤ size) :
    Wrote base size copied 1 ((disk.sectorBytes lba).take (size - copied)) s { s with
        memory := store s.memory (base + copied)
          (load (disk.contents lba) 0 (min (size - copied) 512))
        sectorReads := s.sectorReads + 1 } where
  state := by
    have htake : (disk.sectorBytes lba).take (size - copied) =
        load (disk.contents lba) 0 (min (size - copied) 512) := by
      simpa [Disk.sectorBytes] using take_drop_load (disk.contents lba) 0 512 0 (size - copied)
    rw [htake]
  within := by
    simp only [length_take]
    omega
  reads := le_rfl

/-- Copying sectors: on success these are the sectors' bytes, as far as the file goes. -/
lemma copySectors_spec (disk : Disk) (base : ℕ) (lbas : List ℕ) (s : FatMount)
    (h : copied ≤ size) :
    ∃ bs, Wrote base size copied lbas.length bs s (copySectors disk base size lbas copied s).2 ∧
      ∀ c, (copySectors disk base size lbas copied s).1 = some c →
        c = copied + bs.length ∧ bs = (lbas.flatMap disk.sectorBytes).take (size - copied) ∧
          ∀ lba ∈ lbas.take ((size - copied + 511) / 512), disk.Readable lba := by
  induction lbas generalizing copied s with
  | nil =>
    refine ⟨[], Wrote.refl h, ?_⟩
    intro c hc
    simpa [copySectors] using hc.symm
  | cons lba lbas ih =>
    unfold copySectors
    split_ifs
    · refine ⟨[], Wrote.refl h, ?_⟩
      intro c hc
      have hzero : size - copied = 0 := by omega
      simpa [hzero] using hc.symm
    split
    · next s₁ hread =>
      rw [readSector_state hread]
      exact ⟨[], (Wrote.refl h).read, by simp⟩
    · next sector s₁ hread =>
      obtain ⟨rfl, hreadable, rfl⟩ := readSector_eq_some hread
      have hfirst := Wrote.sector disk base lba s h
      have hlen : ((disk.sectorBytes lba).take (size - copied)).length =
          min (size - copied) 512 := by simp
      have hle : copied + min (size - copied) 512 ≤ size := by omega
      obtain ⟨bs, hbs, hsome⟩ := ih _ hle
      refine ⟨(disk.sectorBytes lba).take (size - copied) ++ bs, ?_, ?_⟩
      · rw [length_cons, add_comm lbas.length]
        refine hfirst.trans ?_
        rwa [hlen]
      intro c hc
      obtain ⟨rfl, rfl, hrest⟩ := hsome c hc
      have hsub : size - (copied + min (size - copied) 512) = size - copied - 512 := by
        omega
      refine ⟨by rw [length_append, hlen, add_assoc], ?_, ?_⟩
      · simp [take_append, hsub]
      rw [hsub] at hrest
      have hcount : (size - copied + 511) / 512 = (size - copied - 512 + 511) / 512 + 1 := by
        omega
      rw [hcount]
      simpa using ⟨hreadable, hrest⟩

/-- The walk that the loop over the clusters makes for the part of the file behind `copied`.  Each
of its clusters was begun while bytes were missing. -/
structure Passes (disk : Disk) (g : Fat16Geometry) (size guard cluster copied : ℕ)
    (cs : List ℕ) : Prop where
  walk : cs ≠ [] → Walk disk g cluster cs
  length_le : cs.length ≤ guard
  missing : cs ≠ [] → copied + (cs.length - 1) * clusterBytes g < size
  readable : ∀ lba ∈ (chainSectors g cs).take ((size - copied + 511) / 512), disk.Readable lba

lemma Passes.nil (guard cluster : ℕ) : Passes disk g size guard cluster copied [] where
  walk := by simp
  length_le := by simp
  missing := by simp
  readable := by simp [chainSectors]

lemma Passes.cons {guard cluster : ℕ} (hgo : 2 ≤ cluster ∧ cluster < kEndOfChain ∧ copied < size)
    (hread : ∀ lba ∈ (clusterSectors g cluster).take ((size - copied + 511) / 512),
      disk.Readable lba) (h : Passes disk g size guard (nextCluster disk g cluster)
      (copied + min (size - copied) (clusterBytes g)) cs) :
    Passes disk g size (guard + 1) cluster copied (cluster :: cs) where
  walk := fun _ => Walk.cons ⟨hgo.1, hgo.2.1⟩ h.walk
  length_le := by simpa using h.length_le
  missing := by
    cases cs with
    | nil => simpa using hgo.2.2
    | cons d cs =>
      have hmissing := h.missing (by simp)
      simp only [length_cons, Nat.add_sub_cancel, Nat.succ_mul] at hmissing ⊢
      omega
  readable := by
    intro lba hlba
    rw [chainSectors, flatMap_cons, take_append, mem_append] at hlba
    rcases hlba with hlba | hlba
    · exact hread lba hlba
    refine h.readable lba ?_
    have hcount : (size - (copied + min (size - copied) (clusterBytes g)) + 511) / 512 =
        (size - copied + 511) / 512 - g.sectorsPerCluster := by
      simp only [clusterBytes]
      omega
    rw [hcount]
    simpa [chainSectors] using hlba

/-- A walk that gave all bytes of a file covers it. -/
lemma Passes.covers (h : Passes disk g size kMaxChainClusters first 0 cs) (hpos : 0 < size)
    (hle : size ≤ cs.length * clusterBytes g) :
    Covers disk g first size cs ∧ (cs.length - 1) * clusterBytes g < size := by
  have hne : cs ≠ [] := by
    rintro rfl
    simp only [length_nil] at hle
    omega
  exact ⟨⟨h.walk hne, h.length_le, hle, by simpa using h.readable⟩, by simpa using h.missing hne⟩

lemma copyClusters_spec (disk : Disk) (g : Fat16Geometry) (base guard cluster : ℕ) (s : FatMount)
    (h : copied ≤ size) :
    ∃ bs, Wrote base size copied (guard * (g.sectorsPerCluster + 1)) bs s
        (copyClusters disk g base size guard cluster copied s).2 ∧
      ∀ c, (copyClusters disk g base size guard cluster copied s).1 = some c →
        c = copied + bs.length ∧ ∃ cs, Passes disk g size guard cluster copied cs ∧
          bs = (chainBytes disk g cs).take (size - copied) := by
  induction guard generalizing cluster copied s with
  | zero =>
    refine ⟨[], Wrote.refl h, ?_⟩
    intro c hc
    exact ⟨by simpa [copyClusters] using hc.symm, [],
      Passes.nil _ _, by simp [chainBytes, chainSectors]⟩
  | succ guard ih =>
    unfold copyClusters
    split_ifs with hgo
    · obtain ⟨bs₁, hbs₁, hsome₁⟩ := copySectors_spec disk base (clusterSectors g cluster) s h
      rw [length_clusterSectors] at hbs₁
      have hreads : (guard + 1) * (g.sectorsPerCluster + 1) =
          g.sectorsPerCluster + 1 + guard * (g.sectorsPerCluster + 1) := by ring
      split
      · next s₁ hcopy =>
        rw [hcopy] at hbs₁
        exact ⟨bs₁, hbs₁.mono (by omega), by simp⟩
      · next c₁ s₁ hcopy =>
        rw [hcopy] at hbs₁ hsome₁
        obtain ⟨rfl, hbytes, hread⟩ := hsome₁ c₁ rfl
        split
        · next s₂ hentry =>
          rw [readFatEntry_state hentry]
          exact ⟨bs₁, hbs₁.read.mono (by omega), by simp⟩
        · next next s₂ hentry =>
          obtain ⟨rfl, rfl⟩ := readFatEntry_eq_some hentry
          obtain ⟨bs₂, hbs₂, hsome₂⟩ := ih (nextCluster disk g cluster) _ hbs₁.within
          refine ⟨bs₁ ++ bs₂, (hbs₁.read.trans hbs₂).mono hreads.ge, ?_⟩
          intro c hc
          obtain ⟨rfl, cs, hpasses, rfl⟩ := hsome₂ c hc
          have hlen : bs₁.length = min (size - copied) (clusterBytes g) := by
            rw [hbytes, length_take, length_flatMap_sectorBytes, length_clusterSectors,
              clusterBytes]
          rw [hlen] at hpasses
          refine ⟨by rw [length_append, add_assoc], cluster :: cs,
            Passes.cons hgo hread hpasses, ?_⟩
          have hrest : size - (copied + bs₁.length) = size - copied - clusterBytes g := by
            omega
          rw [chainBytes_cons, take_append, ← hbytes, length_flatMap_sectorBytes,
            length_clusterSectors, hrest, clusterBytes]
    · refine ⟨[], Wrote.refl h, ?_⟩
      intro c hc
      exact ⟨by simpa using hc.symm, [], Passes.nil _ _, by simp [chainBytes, chainSectors]⟩

/-! ## The file -/

/-- Pages were only taken from the allocator, and only pages that were free have been written. -/
structure Spends (s s' : FatMount) : Prop where
  free : s'.pmm.freeSet ⊆ s.pmm.freeSet
  memory : ∀ a, a / kPageSize ∉ s.pmm.freeSet → s'.memory a = s.memory a

lemma Spends.of_eq (hpmm : s'.pmm = s.pmm) (hmemory : s'.memory = s.memory) : Spends s s' where
  free := by rw [hpmm]
  memory := by simp [hmemory]

lemma Spends.trans (h : Spends s s') (h' : Spends s' s'') : Spends s s'' where
  free := h'.free.trans h.free
  memory := by
    intro a ha
    rw [h'.memory a fun hfree => ha (h.free hfree), h.memory a ha]

/-- The bytes of a file stand at an address, in pages that are not free. -/
structure Holds (s : FatMount) (base : ℕ) (bytes : List UInt8) : Prop where
  base_ne_zero : base ≠ 0
  bytes_eq : load s.memory base bytes.length = bytes
  owned : ∀ i < bytes.length, (base + i) / kPageSize ∉ s.pmm.freeSet

/-- A file that was loaded stays as it is. -/
lemma Holds.of_spends {bytes : List UInt8} (h : Holds s base bytes) (h' : Spends s s') :
    Holds s' base bytes where
  base_ne_zero := h.base_ne_zero
  bytes_eq := by
    have hsame : load s'.memory base bytes.length = load s.memory base bytes.length :=
      load_congr fun i hi => h'.memory _ (h.owned i hi)
    rw [hsame, h.bytes_eq]
  owned := fun i hi hfree => h.owned i hi (h'.free hfree)

/-- The loader's pages hold the file. -/
lemma le_pages (h : size < 2 ^ 32) : size ≤ pageAlignUp size / kPageSize * kPageSize := by
  have hsmall : size + (kPageSize - 1) < Word.modulus := by
    simp only [kPageSize, Word.modulus]
    omega
  rw [pageAlignUp_div hsmall]
  simp only [kPageSize]
  omega

/-- What `load_fat_file` does on any disk. -/
structure LoadSpec (disk : Disk) (g : Fat16Geometry) (first size : ℕ) (s s' : FatMount)
    (result : Option ℕ) : Prop where
  vfs : s'.vfs = s.vfs
  paths : s'.mountedFatPathCount = s.mountedFatPathCount
  reads : s'.sectorReads ≤ s.sectorReads + kMaxChainClusters * (g.sectorsPerCluster + 1)
  spends : Spends s s'
  loaded : ∀ base, result = some base → ∃ cs, Covers disk g first size cs ∧
    (cs.length - 1) * clusterBytes g < size ∧ Holds s' base ((chainBytes disk g cs).take size)

section Copied

variable (h : Wrote base size 0 n bs
    { s with pmm := pmm, memory := fill s.memory base (pages * kPageSize) 0 } s')
  (hbase : base = first * kPageSize)
  (hset : pmm.freeSet = s.pmm.freeSet \ Finset.Ico first (first + pages))
  (hsize : size ≤ pages * kPageSize)
include h hbase hset hsize

/-- The file's memory after the copy: a run of pages that were free, filled with zeros and then
written from its beginning. -/
lemma Wrote.spends (hsub : Finset.Ico first (first + pages) ⊆ s.pmm.freeSet) : Spends s s' where
  free := by
    rw [h.state, hset]
    exact Finset.sdiff_subset
  memory := by
    intro a ha
    have hnot : a / kPageSize ∉ Finset.Ico first (first + pages) := fun hmem => ha (hsub hmem)
    rw [Finset.mem_Ico] at hnot
    have hwithin := h.within
    simp only [kPageSize] at hnot hbase hsize
    rw [h.state]
    dsimp only
    rw [store_apply_of_notMem (by omega), fill, if_neg (by simp only [kPageSize]; omega)]

lemma Wrote.holds (hlow : 0x100 ≤ first) : Holds s' base bs where
  base_ne_zero := by
    simp only [kPageSize] at hbase
    omega
  bytes_eq := by
    rw [h.state]
    exact load_store (by simp)
  owned := by
    intro i hi
    have hwithin := h.within
    have hmem : (base + i) / kPageSize ∈ Finset.Ico first (first + pages) := by
      rw [Finset.mem_Ico]
      simp only [kPageSize] at hbase hsize ⊢
      omega
    rw [h.state]
    simp [hset, hmem]

end Copied

theorem loadFatFile_spec (disk : Disk) (g : Fat16Geometry) (first : ℕ) (s : FatMount)
    (hsize : size < 2 ^ 32) :
    LoadSpec disk g first size s (loadFatFile disk g first size s).2
      (loadFatFile disk g first size s).1 := by
  unfold loadFatFile
  split_ifs
  · exact ⟨rfl, rfl, le_add_right _ _, Spends.of_eq rfl rfl, by simp⟩
  have hpages := le_pages hsize
  dsimp only
  set pages := pageAlignUp size / kPageSize
  have htaken := s.pmm.allocateContiguous_taken pages
  generalize s.pmm.allocateContiguous pages = r at htaken ⊢
  obtain ⟨pmm, base⟩ := r
  rcases htaken with ⟨p, hlow, hsub, hbase, hset⟩ | ⟨rfl, hset⟩
  · have hne : base ≠ 0 := by
      simp only [kPageSize] at hbase
      omega
    rw [if_neg hne]
    obtain ⟨bs, hbs, hsome⟩ := copyClusters_spec disk g base kMaxChainClusters first
      { s with pmm := pmm, memory := fill s.memory base (pages * kPageSize) 0 }
      (zero_le size)
    split
    · next s₁ hcopy =>
      rw [hcopy] at hbs
      exact ⟨by rw [hbs.state], by rw [hbs.state], hbs.reads,
        hbs.spends hbase hset hpages hsub, by simp⟩
    · next copied s₁ hcopy =>
      rw [hcopy] at hbs hsome
      refine ⟨by rw [hbs.state], by rw [hbs.state], hbs.reads,
        hbs.spends hbase hset hpages hsub, ?_⟩
      intro b hb
      obtain ⟨hcopied, rfl⟩ : copied = size ∧ base = b := by simpa using hb
      obtain ⟨hlen, cs, hpasses, rfl⟩ := hsome copied rfl
      have hle : size ≤ cs.length * clusterBytes g := by
        rw [length_take, length_chainBytes] at hlen
        omega
      obtain ⟨hcovers, hmissing⟩ := hpasses.covers (by omega) hle
      exact ⟨cs, hcovers, hmissing, hbs.holds hbase hset hpages hlow⟩
  · rw [if_pos rfl]
    refine ⟨rfl, rfl, le_add_right _ _, ⟨?_, by simp⟩, by simp⟩
    rw [hset]

end IanOS.FatMount
