import IanOS.Block.Device

/-!
# Coherence of the block cache

Every valid entry of the cache holds the contents of its sector, and the counters count what they
say, whatever the driver does.  A miss puts its sector into the victim's slot only after the driver
has succeeded, and by then no other slot holds the sector.
-/

namespace IanOS.Block

open BlockDevice TagCache

variable {σ : Type*} {disk : Word64 → Sector} {driver : Word64 → σ → Bool × σ} {b : BlockDevice}
  {s : σ} {start lba : Word64} {out : Bool} {n i : ℕ}

/-- The cache is coherent with the disk, and the counters agree with it and with each other. -/
structure BlockDevice.Inv (disk : Word64 → Sector) (b : BlockDevice) : Prop where
  coherent : TagCache.Coherent disk b.cache
  cached : b.stats.cachedEntries = BitVec.ofNat 64 (count b.cache)
  reads : b.stats.sectorReads =
    b.stats.cacheHits + b.stats.cacheMisses + b.stats.backendReadFailures

namespace BlockDevice

lemma inv_initializeAhci (disk : Word64 → Sector) (initialized : Bool) (sectorCount : Word64) :
    (initializeAhci initialized sectorCount).Inv disk where
  coherent := coherent_of_invalid disk fun _ => rfl
  cached := by simp [initializeAhci, count]
  reads := by simp [initializeAhci]

lemma readMissing_spec (h : TagCache.Coherent disk b.cache)
    (hcached : b.stats.cachedEntries = BitVec.ofNat 64 (count b.cache))
    (hreads : b.stats.sectorReads =
      b.stats.cacheHits + b.stats.cacheMisses + b.stats.backendReadFailures + 1)
    (hmiss : lookup b.cache lba = none) :
    (b.readMissing disk driver lba s).2.1.Inv disk ∧
      ∀ data ∈ (b.readMissing disk driver lba s).1, data = disk lba := by
  rw [readMissing]
  by_cases hok : (driver lba s).1 = true
  · rw [if_neg (not_not.2 hok)]
    refine ⟨⟨h.fill hmiss b.victim, rfl, ?_⟩, by simp⟩
    show b.stats.sectorReads =
      b.stats.cacheHits + (b.stats.cacheMisses + 1) + b.stats.backendReadFailures
    rw [hreads]
    ac_rfl
  · rw [if_pos hok]
    refine ⟨⟨h, hcached, ?_⟩, by simp⟩
    show b.stats.sectorReads =
      b.stats.cacheHits + b.stats.cacheMisses + (b.stats.backendReadFailures + 1)
    rw [hreads]
    ac_rfl

/-- `read_sector` keeps the invariant and returns the contents of the sector. -/
lemma Inv.readSector (h : b.Inv disk) (driver : Word64 → σ → Bool × σ) (lba : Word64) (out : Bool)
    (s : σ) :
    (b.readSector disk driver lba out s).2.1.Inv disk ∧
      ∀ data ∈ (b.readSector disk driver lba out s).1, data = disk lba := by
  rw [BlockDevice.readSector]
  by_cases hinit : b.stats.initialized = true
  · rw [if_neg (not_not.2 hinit)]
    by_cases hrange : b.stats.sectorCount ≠ 0 ∧ b.stats.sectorCount ≤ lba
    · rw [if_pos hrange]
      exact ⟨⟨h.coherent, h.cached, h.reads⟩, by simp⟩
    split_ifs
    · dsimp only
      cases hlook : lookup b.cache lba with
      | some data =>
        refine ⟨⟨h.coherent, h.cached, ?_⟩, fun d hd => ?_⟩
        · show b.stats.sectorReads + 1 =
            b.stats.cacheHits + 1 + b.stats.cacheMisses + b.stats.backendReadFailures
          rw [h.reads]
          ac_rfl
        · rw [← Option.some.inj hd]
          exact h.coherent.eq_of_lookup hlook
      | none =>
        refine readMissing_spec h.coherent h.cached ?_ hlook
        rw [h.reads]
    · exact ⟨⟨h.coherent, h.cached, h.reads⟩, by simp⟩
  · rw [if_pos hinit]
    exact ⟨⟨h.coherent, h.cached, h.reads⟩, by simp⟩

/-- The contents of `n` sectors, one after the other. -/
def sectorsFrom (disk : Word64 → Sector) (start : Word64) (n i : ℕ) : List UInt8 :=
  (List.range' i n).flatMap fun k => (disk (start + BitVec.ofNat 64 k)).1

lemma Inv.readEach (h : b.Inv disk) :
    (readEach disk driver start n i b s).2.2.1.Inv disk ∧
      ((readEach disk driver start n i b s).1 = true →
        (readEach disk driver start n i b s).2.1 = sectorsFrom disk start n i) := by
  induction n generalizing i b s with
  | zero => exact ⟨h, fun _ => by simp [readEach, sectorsFrom]⟩
  | succ n ih =>
    obtain ⟨hinv, hdata⟩ := h.readSector driver (start + BitVec.ofNat 64 i) true s
    rw [readEach]
    generalize b.readSector disk driver (start + BitVec.ofNat 64 i) true s = r at hinv hdata ⊢
    obtain ⟨_ | data, b', s'⟩ := r
    · exact ⟨hinv, fun hok => absurd hok (by simp)⟩
    obtain ⟨hinv', hbytes⟩ := ih hinv
    refine ⟨hinv', fun hok => ?_⟩
    rw [sectorsFrom, List.range'_succ, List.flatMap_cons, ← hdata data rfl]
    exact congrArg (data.1 ++ ·) (hbytes hok)

/-- `read_sectors` keeps the invariant and returns the contents of the sectors. -/
lemma Inv.readSectors (h : b.Inv disk) (driver : Word64 → σ → Bool × σ) (start : Word64)
    (sectorCount : BitVec 32) (out : Bool) (s : σ) :
    (b.readSectors disk driver start sectorCount out s).2.2.1.Inv disk ∧
      ((b.readSectors disk driver start sectorCount out s).1 = true →
        (b.readSectors disk driver start sectorCount out s).2.1 =
          sectorsFrom disk start sectorCount.toNat 0) := by
  rw [BlockDevice.readSectors]
  by_cases hinit : b.stats.initialized = true
  · rw [if_neg (not_not.2 hinit)]
    by_cases hout : out = true
    · rw [if_neg (not_not.2 hout)]
      by_cases hzero : sectorCount = 0
      · rw [if_pos hzero]
        exact ⟨⟨h.coherent, h.cached, h.reads⟩, by simp⟩
      rw [if_neg hzero]
      by_cases hlarge : 64 < sectorCount
      · rw [if_pos hlarge]
        exact ⟨⟨h.coherent, h.cached, h.reads⟩, by simp⟩
      split_ifs
      · exact ⟨⟨h.coherent, h.cached, h.reads⟩, by simp⟩
      · exact Inv.readEach ⟨h.coherent, h.cached, h.reads⟩
    · rw [if_pos hout]
      exact ⟨⟨h.coherent, h.cached, h.reads⟩, by simp⟩
  · rw [if_pos hinit]
    exact ⟨⟨h.coherent, h.cached, h.reads⟩, by simp⟩

end BlockDevice

/-- Every call keeps the invariant. -/
lemma BlockCall.inv_step (driver : Word64 → σ → Bool × σ) (p : BlockDevice × σ) (call : BlockCall)
    (h : p.1.Inv disk) : (BlockCall.step disk driver p call).1.Inv disk := by
  obtain ⟨b, s⟩ := p
  cases call with
  | readSector => exact (BlockDevice.Inv.readSector h driver _ _ s).1
  | readSectors => exact (BlockDevice.Inv.readSectors h driver _ _ _ s).1

/-- After any calls, with a driver that may fail at any of them, a read that succeeds returns what
is on the disk, no two valid entries of the cache hold one sector, and the counters of the valid
entries and of the reads are right. -/
theorem block_cache_coherent (disk : Word64 → Sector) (driver : Word64 → σ → Bool × σ)
    (initialized : Bool) (sectorCount : Word64) (s : σ) (calls : List BlockCall) :
    let p := calls.foldl (BlockCall.step disk driver) (initializeAhci initialized sectorCount, s)
    (∀ lba out data, (p.1.readSector disk driver lba out p.2).1 = some data → data = disk lba) ∧
    (∀ start n out, (p.1.readSectors disk driver start n out p.2).1 = true →
      (p.1.readSectors disk driver start n out p.2).2.1 =
        sectorsFrom disk start n.toNat 0) ∧
    (∀ i j, (p.1.cache i).valid = true → (p.1.cache j).valid = true →
      (p.1.cache i).tag = (p.1.cache j).tag → i = j) ∧
    p.1.stats.cachedEntries.toNat = count p.1.cache ∧
    p.1.stats.sectorReads =
      p.1.stats.cacheHits + p.1.stats.cacheMisses + p.1.stats.backendReadFailures := by
  intro p
  have h : p.1.Inv disk := List.foldlRecOn (motive := fun p => p.1.Inv disk) calls _
    (inv_initializeAhci disk initialized sectorCount)
    fun p hp call _ => BlockCall.inv_step driver p call hp
  refine ⟨fun lba out data hdata => ?_, fun start n out hok => ?_, h.coherent.distinct, ?_, h.reads⟩
  · exact (h.readSector driver lba out p.2).2 data hdata
  · exact (h.readSectors driver start n out p.2).2 hok
  · have hle : count p.1.cache ≤ kCacheEntries :=
      (Finset.card_le_univ _).trans (Fintype.card_fin _).le
    rw [h.cached, BitVec.toNat_ofNat, Nat.mod_eq_of_lt (hle.trans_lt (by decide))]

end IanOS.Block
