import IanOS.Lib.TagCache
import IanOS.Lib.WordStack

/-!
# The block device

`kernel/src/block/block_device.cpp`: reads of sectors of the boot disk through a cache of sixteen
entries.  The driver below may fail at any time.  What it does otherwise is left open: it has a
state of its own, of any type.  The disk is a function from sector numbers to contents, and the
driver writes its buffer only when it succeeds.

An entry is filled in place: the driver reads into the buffer of the victim, which is still valid
for its old sector, and the tag changes only after a success.
-/

namespace IanOS.Block

/-- The contents of a sector. -/
def Sector : Type := { bytes : List UInt8 // bytes.length = 512 }

instance : DecidableEq Sector := inferInstanceAs (DecidableEq (Subtype _))

/-- A sector of zeros, as the cache holds in the beginning. -/
def Sector.zero : Sector := ⟨List.replicate 512 0, List.length_replicate⟩

def kCacheEntries : ℕ := 16

structure BlockStats where
  initialized : Bool
  sectorCount : Word64
  sectorReads : Word64 := 0
  multiSectorReads : Word64 := 0
  cacheHits : Word64 := 0
  cacheMisses : Word64 := 0
  cacheEvictions : Word64 := 0
  invalidReads : Word64 := 0
  nullBufferRejects : Word64 := 0
  zeroCountRejects : Word64 := 0
  oversizedRequestRejects : Word64 := 0
  backendReadFailures : Word64 := 0
  cacheFills : Word64 := 0
  cachedEntries : Word64 := 0
  largestRequestSectors : Word64 := 0
  lastLba : Word64 := 0

structure BlockDevice where
  cache : Fin kCacheEntries → TagCache.Entry Word64 Sector
  nextVictim : BitVec 32
  stats : BlockStats

/-- `initialize_ahci`, with what the driver has found out about the disk. -/
def initializeAhci (initialized : Bool) (sectorCount : Word64) : BlockDevice where
  cache := fun _ => ⟨false, 0, .zero⟩
  nextVictim := 0
  stats := { initialized, sectorCount }

namespace BlockDevice

variable {σ : Type*} (disk : Word64 → Sector) (driver : Word64 → σ → Bool × σ)

/-- The counters that are changed together when a read is rejected. -/
def reject (b : BlockDevice) (f : BlockStats → BlockStats) : BlockDevice :=
  { b with stats := f { b.stats with invalidReads := b.stats.invalidReads + 1 } }

def refreshCachedEntryCount (b : BlockDevice) : BlockDevice :=
  { b with stats := { b.stats with cachedEntries := BitVec.ofNat 64 (TagCache.count b.cache) } }

/-- The slot the next miss goes to. -/
def victim (b : BlockDevice) : Fin kCacheEntries :=
  ⟨b.nextVictim.toNat % kCacheEntries, Nat.mod_lt _ (by decide)⟩

/-- The part of `read_sector` behind the checks, when the sector is not in the cache. -/
def readMissing (lba : Word64) (b : BlockDevice) (s : σ) : Option Sector × BlockDevice × σ :=
  let i := b.victim
  let b := { b with
    nextVictim := b.nextVictim + 1
    stats := { b.stats with
      cacheEvictions := b.stats.cacheEvictions + if (b.cache i).valid then 1 else 0 } }
  let r := driver lba s
  if ¬r.1 then
    (none, { b with stats := { b.stats with
      backendReadFailures := b.stats.backendReadFailures + 1 } }, r.2)
  else
    let b := { b with
      cache := Function.update b.cache i ⟨true, lba, disk lba⟩
      stats := { b.stats with
        cacheFills := b.stats.cacheFills + 1
        cacheMisses := b.stats.cacheMisses + 1 } }
    (some (disk lba), b.refreshCachedEntryCount, r.2)

/-- `read_sector`: the 512 bytes it writes if it succeeds.  `out` says that the buffer is not null.
-/
def readSector (lba : Word64) (out : Bool) (b : BlockDevice) (s : σ) :
    Option Sector × BlockDevice × σ :=
  if ¬b.stats.initialized then (none, b.reject id, s)
  else if b.stats.sectorCount ≠ 0 ∧ b.stats.sectorCount ≤ lba then (none, b.reject id, s)
  else if ¬out then
    (none, b.reject fun t => { t with nullBufferRejects := t.nullBufferRejects + 1 }, s)
  else
    let b := { b with stats := { b.stats with
      sectorReads := b.stats.sectorReads + 1
      lastLba := lba } }
    match TagCache.lookup b.cache lba with
    | some data => (some data, { b with stats := { b.stats with
        cacheHits := b.stats.cacheHits + 1 } }, s)
    | none => b.readMissing disk driver lba s

/-- The loop of `read_sectors`, which stops at the first failure: the bytes that have been written,
and whether all reads succeeded. -/
def readEach (start : Word64) : ℕ → ℕ → BlockDevice → σ → Bool × List UInt8 × BlockDevice × σ
  | 0, _, b, s => (true, [], b, s)
  | n + 1, i, b, s =>
    let r := b.readSector disk driver (start + BitVec.ofNat 64 i) true s
    match r.1 with
    | none => (false, [], r.2)
    | some data =>
      let rest := readEach start n (i + 1) r.2.1 r.2.2
      (rest.1, data.1 ++ rest.2.1, rest.2.2)

/-- The range of sectors does not lie on the disk. -/
def Refuses (b : BlockDevice) (start : Word64) (sectorCount : BitVec 32) : Prop :=
  b.stats.sectorCount ≠ 0 ∧ (b.stats.sectorCount ≤ start ∨
    b.stats.sectorCount - start < sectorCount.setWidth 64)

instance (b : BlockDevice) (start : Word64) (sectorCount : BitVec 32) :
    Decidable (b.Refuses start sectorCount) := inferInstanceAs (Decidable (_ ∧ _))

/-- The counters of a request that passes the checks. -/
def countRequest (b : BlockDevice) (sectorCount : BitVec 32) : BlockDevice :=
  { b with stats := { b.stats with
    multiSectorReads := b.stats.multiSectorReads + 1
    largestRequestSectors :=
      if b.stats.largestRequestSectors < sectorCount.setWidth 64 then sectorCount.setWidth 64
      else b.stats.largestRequestSectors } }

/-- `read_sectors`. -/
def readSectors (start : Word64) (sectorCount : BitVec 32) (out : Bool) (b : BlockDevice) (s : σ) :
    Bool × List UInt8 × BlockDevice × σ :=
  if ¬b.stats.initialized then (false, [], b.reject id, s)
  else if ¬out then
    (false, [], b.reject fun t => { t with nullBufferRejects := t.nullBufferRejects + 1 }, s)
  else if sectorCount = 0 then
    (false, [], b.reject fun t => { t with zeroCountRejects := t.zeroCountRejects + 1 }, s)
  else if 64 < sectorCount then
    (false, [],
      b.reject fun t => { t with oversizedRequestRejects := t.oversizedRequestRejects + 1 }, s)
  else if b.Refuses start sectorCount then (false, [], b.reject id, s)
  else readEach disk driver start sectorCount.toNat 0 (b.countRequest sectorCount) s

end BlockDevice

/-- The calls of the two functions. -/
inductive BlockCall
  | readSector (lba : Word64) (out : Bool)
  | readSectors (start : Word64) (sectorCount : BitVec 32) (out : Bool)

/-- The device and the driver's state after a call. -/
def BlockCall.step {σ : Type*} (disk : Word64 → Sector) (driver : Word64 → σ → Bool × σ) :
    BlockDevice × σ → BlockCall → BlockDevice × σ
  | (b, s), .readSector lba out => (b.readSector disk driver lba out s).2
  | (b, s), .readSectors start n out => (b.readSectors disk driver start n out s).2.2

end IanOS.Block
