import IanOS.Lib.Tiling
import IanOS.Mm.Heap

/-!
# The block list of the kernel heap

The invariant of the heap is that its blocks tile `[heapStart, heapEnd)` and that free blocks are
never neighbours.  Each operation is specified by how it rewrites the list: `allocate` replaces one
free block by a block in use and possibly a free rest, growing appends a free block at the end, and
`free` replaces a block together with its free neighbours by one free block.
-/

namespace IanOS

open Tiling Word Block List Option

/-- Blocks cover `[a, b)` in address order and without gaps. -/
abbrev BlockTiles (a b : ℕ) (blocks : List Block) : Prop := Tiles addr stop a b blocks

/-- No two neighbouring blocks are both free. -/
abbrev Coalesced (blocks : List Block) : Prop := Sparse free blocks

namespace KernelHeap

/-- The invariant between operations. -/
structure Inv (h : KernelHeap) : Prop where
  tiles : BlockTiles h.heapStart h.heapEnd h.blocks
  coalesced : Coalesced h.blocks
  end_lt : h.heapEnd < modulus
  end_aligned : h.heapEnd % kPageSize = 0

variable {h : KernelHeap} {b : Block} {size alignment k : ℕ} {pre post blocks : List Block}
  {used : Block} {rest : List Block} {r : List Block × ℕ} {lo hi bytes n fuel addr : ℕ}
  {h' : KernelHeap}

/-- The bytes a request takes from the page allocator. -/
def growth (size alignment : ℕ) : ℕ :=
  (size + alignment + sizeofBlock + (kPageSize - 1)) / kPageSize * kPageSize

/-- An attempt to grow succeeds: it needs no page, or it gets its pages. -/
def Grows (bytes : ℕ) (ok : Bool) : Prop := pageAlignUp bytes / kPageSize = 0 ∨ ok
  deriving Decidable

/-- The sums of a call of `allocate` do not wrap, as far as they are used: for the block that is
taken, rounding its payload up and adding the padding to the request; and when no block fits and the
heap grows, the bytes to grow by and the new end.  `ok` says whether growing gets its pages. -/
structure SumsFit (h : KernelHeap) (size alignment : ℕ) (ok : Bool) : Prop where
  scan : ∀ b ∈ h.blocks.find? (fits · size alignment),
    b.payload + alignment ≤ modulus ∧ size + b.padding alignment < modulus
  grow : (∀ b ∈ h.blocks, b.fits size alignment = false) →
    Grows ((size + alignment + sizeofBlock) % modulus) ok →
      size + alignment + sizeofBlock + (kPageSize - 1) < modulus ∧
        h.heapEnd + growth size alignment < modulus

/-! ## Carving a request out of a block -/

section

variable (hk : k ≤ 64) (hsum : b.payload + 2 ^ k ≤ modulus)
include hk hsum

/-- The aligned address of a block, when rounding does not wrap. -/
lemma aligned_bounds :
    b.payload ≤ b.aligned (2 ^ k) ∧ b.aligned (2 ^ k) < b.payload + 2 ^ k ∧
      b.aligned (2 ^ k) % 2 ^ k = 0 ∧ b.padding (2 ^ k) = b.aligned (2 ^ k) - b.payload := by
  obtain ⟨hge, hlt, hmod⟩ := alignUp_bounds hsum hk
  exact ⟨hge, hlt, hmod, sub_eq (by unfold aligned; omega) hge⟩

/-- A block that fits has room for the request behind the padding. -/
lemma usedEnd_le
    (hneed : size + b.padding (2 ^ k) < modulus) (hstop : b.stop < modulus)
    (hfit : b.fits size (2 ^ k) = true) :
    b.usedEnd size (2 ^ k) = b.aligned (2 ^ k) + size ∧ b.usedEnd size (2 ^ k) ≤ b.stop := by
  obtain ⟨hge, -, -, hpad⟩ := aligned_bounds hk hsum
  have hroom : size + b.padding (2 ^ k) ≤ b.size := by
    rw [fits, Nat.mod_eq_of_lt hneed, Bool.and_eq_true, decide_eq_true_eq] at hfit
    exact hfit.2
  have hle : b.aligned (2 ^ k) + size ≤ b.stop := by
    rw [stop]
    omega
  have heq : b.usedEnd size (2 ^ k) = b.aligned (2 ^ k) + size := by
    rw [usedEnd, Nat.mod_eq_of_lt (by omega)]
  exact ⟨heq, by rw [heq]; exact hle⟩

/-- What carving leaves: a block in use that holds the request, and at most one free block behind
it; together they cover the block that was taken. -/
lemma carve_cases
    (hneed : size + b.padding (2 ^ k) < modulus)
    (hstop : b.stop + sizeofBlock + kMinSplitPayload < modulus)
    (hfit : b.fits size (2 ^ k) = true) :
    ∃ used rest, b.carve size (2 ^ k) = used :: rest ∧ used.free = false ∧ used.addr = b.addr ∧
      used.payload ≤ b.aligned (2 ^ k) ∧ b.aligned (2 ^ k) + size ≤ used.stop ∧
      ((rest = [] ∧ used.stop = b.stop) ∨
        ∃ tail : Block, rest = [tail] ∧ tail.free = true ∧ tail.addr = used.stop ∧
          tail.addr < tail.stop ∧ tail.stop = b.stop) := by
  obtain ⟨hge, -, -, -⟩ := aligned_bounds hk hsum
  obtain ⟨hend, hle⟩ := usedEnd_le hk hsum hneed (by omega) hfit
  have hmod : (b.usedEnd size (2 ^ k) + sizeofBlock + kMinSplitPayload) % modulus =
      b.usedEnd size (2 ^ k) + sizeofBlock + kMinSplitPayload := Nat.mod_eq_of_lt (by omega)
  unfold carve
  dsimp only
  rw [hmod]
  split
  · next hsplit =>
    have husedSize : sub (b.usedEnd size (2 ^ k)) b.payload =
        b.usedEnd size (2 ^ k) - b.payload := sub_eq (by omega) (by omega)
    have htailSize : sub (sub b.stop (b.usedEnd size (2 ^ k))) sizeofBlock =
        b.stop - b.usedEnd size (2 ^ k) - sizeofBlock := by
      rw [sub_eq (by omega) hle, sub_eq (by omega) (by omega)]
    rw [husedSize, htailSize]
    refine ⟨_, _, rfl, rfl, rfl, hge, ?_, .inr ⟨_, rfl, rfl, ?_, ?_, ?_⟩⟩
    all_goals simp only [stop, payload, sizeofBlock] at *
    all_goals omega
  · exact ⟨_, _, rfl, rfl, rfl, hge, by rw [← hend]; exact hle, .inl ⟨rfl, rfl⟩⟩

end

/-- The two sides of the taken block keep their free blocks apart: the block in use separates
them, and the free rest stands before a block in use. -/
lemma coalesced_carve {stop : ℕ} (hpre : Coalesced pre) (hpost : Coalesced (b :: post))
    (hb : b.free = true) (hused : used.free = false) (hrest : (rest = [] ∧ used.stop = stop) ∨
      ∃ tail : Block, rest = [tail] ∧ tail.free = true ∧ tail.addr = used.stop ∧
        tail.addr < tail.stop ∧ tail.stop = stop) : Coalesced (pre ++ (used :: rest ++ post)) := by
  rw [cons_append]
  refine (sparse_append_cons hused).mpr ⟨hpre, ?_⟩
  rcases hrest with ⟨rfl, -⟩ | ⟨tail, rfl, htail, -⟩
  · exact hpost.right (l := [b])
  · exact Sparse.replace (l := []) hpost (htail.trans hb.symm)

lemma tiles_carve (haddr : used.addr = b.addr) (hlt : used.addr < used.stop)
    (hrest : (rest = [] ∧ used.stop = b.stop) ∨
      ∃ tail : Block, rest = [tail] ∧ tail.free = true ∧ tail.addr = used.stop ∧
        tail.addr < tail.stop ∧ tail.stop = b.stop) : BlockTiles b.addr b.stop (used :: rest) := by
  refine ⟨haddr, by omega, ?_⟩
  rcases hrest with ⟨rfl, hstop⟩ | ⟨tail, rfl, -, hstart, hlt', hstop⟩
  · exact hstop
  · exact ⟨hstart, by omega, hstop⟩

/-! ## The scan -/

lemma takeFit_some (hr : takeFit size alignment blocks = some r) :
    ∃ pre b post, blocks = pre ++ b :: post ∧ blocks.find? (fits · size alignment) = some b ∧
      r = (pre ++ (b.carve size alignment ++ post), b.aligned alignment) := by
  induction blocks generalizing r with
  | nil => simp [takeFit] at hr
  | cons x bs ih =>
    unfold takeFit at hr
    split_ifs at hr with hx
    · rw [some.injEq] at hr
      exact ⟨[], x, bs, rfl, find?_cons_of_pos hx, hr.symm⟩
    rw [map_eq_some_iff] at hr
    obtain ⟨r', hr', rfl⟩ := hr
    obtain ⟨pre, b, post, rfl, hb, rfl⟩ := ih hr'
    exact ⟨x :: pre, b, post, rfl,
      (find?_cons_of_neg (p := (fits · size alignment)) hx).trans hb, rfl⟩

lemma takeFit_none : takeFit size alignment blocks = none ↔
    ∀ b ∈ blocks, b.fits size alignment = false := by
  induction blocks with
  | nil => simp [takeFit]
  | cons x bs ih =>
    unfold takeFit
    by_cases hx : x.fits size alignment = true
    · simp [hx]
    · simp only [hx, Bool.false_eq_true, if_false, map_eq_none_iff, ih, forall_mem_cons]
      simp

/-- Blocks that do not fit are passed over. -/
lemma takeFit_append (hnone : ∀ x ∈ pre, x.fits size alignment = false)
    (hb : b.fits size alignment = true) :
    takeFit size alignment (pre ++ b :: post) =
      some (pre ++ (b.carve size alignment ++ post), b.aligned alignment) := by
  induction pre with
  | nil => simp [takeFit, hb]
  | cons x pre ih =>
    rw [cons_append, takeFit, hnone x mem_cons_self, ih fun y hy => hnone y (mem_cons_of_mem _ hy)]
    rfl

/-- What a successful request does to the block list: the bytes returned are aligned and lie in a
block in use, and blocks that were in use before are still there, apart from these bytes. -/
structure Placed (before after : List Block) (size alignment pointer : ℕ) : Prop where
  aligned : pointer % alignment = 0
  pos : pointer ≠ 0
  inside : ∃ u ∈ after, u.free = false ∧ u.payload ≤ pointer ∧ pointer + size ≤ u.stop
  kept : ∀ x ∈ before, x.free = false → x ∈ after
  apart : ∀ x ∈ before, x.free = false → x.stop ≤ pointer ∨ pointer + size ≤ x.addr

lemma placed_carve (htiles : BlockTiles lo hi (pre ++ b :: post)) (hpre : Coalesced pre)
    (hpost : Coalesced (b :: post)) (hk : k ≤ 64) (hsum : b.payload + 2 ^ k ≤ modulus)
    (hneed : size + b.padding (2 ^ k) < modulus)
    (hhi : hi + sizeofBlock + kMinSplitPayload < modulus) (hfit : b.fits size (2 ^ k) = true) :
    BlockTiles lo hi (pre ++ (b.carve size (2 ^ k) ++ post)) ∧
      Coalesced (pre ++ (b.carve size (2 ^ k) ++ post)) ∧
      Placed (pre ++ b :: post) (pre ++ (b.carve size (2 ^ k) ++ post)) size (2 ^ k)
        (b.aligned (2 ^ k)) := by
  have hbounds := htiles.bounds (show b ∈ pre ++ b :: post by simp)
  have hbfree : b.free = true := by
    rw [fits, Bool.and_eq_true] at hfit
    exact hfit.1
  obtain ⟨hge, -, hmod, -⟩ := aligned_bounds hk hsum
  obtain ⟨used, rest, hcarve, hused, haddr, hpay, hstop, hrest⟩ :=
    carve_cases hk hsum hneed (by omega) hfit
  have hlt : used.addr < used.stop := by
    simp only [stop, payload, sizeofBlock]
    omega
  rw [hcarve]
  refine ⟨htiles.replace (tiles_carve haddr hlt hrest),
    coalesced_carve hpre hpost hbfree hused hrest, hmod, ?_, ?_, ?_, ?_⟩
  · simp only [payload, sizeofBlock] at hge
    omega
  · exact ⟨used, by simp, hused, hpay, hstop⟩
  · intro x hx hxfree
    rcases mem_append.mp hx with hx | hx
    · simp [hx]
    rcases mem_cons.mp hx with rfl | hx
    · rw [hbfree] at hxfree
      exact absurd hxfree (by decide)
    · simp [hx]
  -- Any other block lies on one side of `b`, and the request inside `b`.
  intro x hx hxfree
  have hpair := htiles.pairwise
  rw [pairwise_append] at hpair
  obtain ⟨-, hright, hleft⟩ := hpair
  rcases mem_append.mp hx with hx | hx
  · have := hleft x hx b mem_cons_self
    simp only [payload] at hge
    exact .inl (by omega)
  · rcases mem_cons.mp hx with rfl | hx
    · rw [hbfree] at hxfree
      exact absurd hxfree (by decide)
    · have := (pairwise_cons.mp hright).1 x hx
      exact .inr (by omega)

/-! ## Growing -/

lemma growth_ge (size alignment : ℕ) : size + alignment + sizeofBlock ≤ growth size alignment := by
  unfold growth kPageSize
  omega

/-- The block that growing appends. -/
def grownBlock (h : KernelHeap) (bytes : ℕ) : Block := ⟨h.heapEnd, bytes - sizeofBlock, true⟩

lemma grownBlock_stop (hbytes : sizeofBlock ≤ bytes) :
    (h.grownBlock bytes).stop = h.heapEnd + bytes := by
  change h.heapEnd + sizeofBlock + (bytes - sizeofBlock) = h.heapEnd + bytes
  omega

/-- Growing fails without a trace, or appends one free block at the end. -/
lemma expand_cases {grown : ℕ} (hpos : 0 < bytes) (hsum : bytes + (kPageSize - 1) < modulus)
    (hgrown : grown = (bytes + (kPageSize - 1)) / kPageSize * kPageSize)
    (hend : h.heapEnd + grown < modulus) (ok : Bool) :
    h.expand bytes ok = if ok then
        ({ h with
          blocks := h.blocks ++ [h.grownBlock grown]
          heapEnd := h.heapEnd + grown }, true)
      else (h, false) := by
  subst hgrown
  have hpages : (bytes + (kPageSize - 1)) / kPageSize ≠ 0 := by
    simp only [kPageSize]
    omega
  have hsub : sub ((bytes + (kPageSize - 1)) / kPageSize * kPageSize) sizeofBlock =
      (bytes + (kPageSize - 1)) / kPageSize * kPageSize - sizeofBlock := by
    refine sub_eq (by omega) ?_
    simp only [kPageSize, sizeofBlock] at hpages ⊢
    omega
  unfold expand
  rw [pageAlignUp_div hsum]
  dsimp only
  rw [Nat.mod_eq_of_lt hend, hsub]
  cases ok with
  | true => simp [grownBlock]
  | false => simp [hpages]

lemma expand_of_not_grows {ok : Bool} (hfail : ¬Grows bytes ok) :
    h.expand bytes ok = (h, false) := by
  rw [Grows, not_or] at hfail
  simp [expand, hfail]

/-! ## `allocate` -/

/-- The invariant does not look at the counters. -/
lemma Inv.congr (hinv : Inv h) (hstart : h'.heapStart = h.heapStart) (hend : h'.heapEnd = h.heapEnd)
    (hblocks : h'.blocks = h.blocks) : Inv h' :=
  ⟨by rw [hstart, hend, hblocks]; exact hinv.tiles, by rw [hblocks]; exact hinv.coalesced,
    by rw [hend]; exact hinv.end_lt, by rw [hend]; exact hinv.end_aligned⟩

lemma updatePeakUsedLocked_eq (h : KernelHeap) :
    ∃ d, h.updatePeakUsedLocked = { h with diagnostics := d } := by
  unfold updatePeakUsedLocked
  split
  · exact ⟨_, rfl⟩
  · exact ⟨h.diagnostics, rfl⟩

/-- Result of a call: the heap is in order, growing was tried at most once, and either the block
list is as before and the pointer is null, or the request has been placed. -/
structure Served (h : KernelHeap) (size alignment : ℕ) (r : AllocateResult) : Prop where
  inv : Inv r.heap
  start_eq : r.heap.heapStart = h.heapStart
  expansions_le : r.expansions ≤ 1
  outcome : (r.pointer = 0 ∧ r.heap.blocks = h.blocks) ∨
    Placed h.blocks r.heap.blocks size alignment r.pointer

lemma Served.placed {pointer : ℕ} (hinv : Inv h') (hstart : h'.heapStart = h.heapStart) (hn : n ≤ 1)
    (hp : Placed h.blocks h'.blocks size alignment pointer) :
    Served h size alignment ⟨h', pointer, n⟩ :=
  ⟨hinv, hstart, hn, .inr hp⟩

/-- An end of the heap leaves room for a header and a minimal payload below `2 ^ 64`. -/
lemma end_add_lt {e : ℕ} (hlt : e < modulus) (halign : e % kPageSize = 0) :
    e + sizeofBlock + kMinSplitPayload < modulus := by
  simp only [modulus, kPageSize, sizeofBlock, kMinSplitPayload] at *
  omega

/-- A round of the loop whose scan succeeds. -/
lemma allocateLoop_take (outcome : ℕ → Bool) (fuel n : ℕ)
    (hr : takeFit size alignment h.blocks = some r) :
    ∃ d, allocateLoop size alignment outcome (fuel + 1) n h =
      some ⟨{ h with blocks := r.1, diagnostics := d }, r.2, n⟩ := by
  obtain ⟨blocks, pointer⟩ := r
  obtain ⟨d, hd⟩ := updatePeakUsedLocked_eq { h with
    blocks := blocks, diagnostics := { h.diagnostics with lastAllocSize := size } }
  refine ⟨d, ?_⟩
  rw [allocateLoop, hr]
  simp only [hd]

lemma served_scan {outcome : ℕ → Bool} (hinv : Inv h) (hn : n ≤ 1) (hk : k ≤ 64)
    (hscan : ∀ b ∈ h.blocks.find? (fits · size (2 ^ k)), b.payload + 2 ^ k ≤ modulus ∧
      size + b.padding (2 ^ k) < modulus) (hr : takeFit size (2 ^ k) h.blocks = some r) :
    ∃ res, allocateLoop size (2 ^ k) outcome (fuel + 1) n h = some res ∧
    Served h size (2 ^ k) res := by
  obtain ⟨d, hloop⟩ := allocateLoop_take outcome fuel n hr
  obtain ⟨pre, b, post, hblocks, hb, rfl⟩ := takeFit_some hr
  have htiles := hinv.tiles
  have hco := hinv.coalesced
  rw [hblocks] at htiles hco
  obtain ⟨ht, hc, hp⟩ := placed_carve htiles hco.left hco.right hk (hscan b hb).1 (hscan b hb).2
    (end_add_lt hinv.end_lt hinv.end_aligned) (find?_some (p := (fits · size (2 ^ k))) hb)
  rw [← hblocks] at hp
  exact ⟨_, hloop, ⟨ht, hc, hinv.end_lt, hinv.end_aligned⟩, rfl, hn, .inr hp⟩

/-- The block that growing appends is large enough for the request. -/
lemma fits_grownBlock (hk : k ≤ 64)
    (hend : h.heapEnd + growth size (2 ^ k) < modulus) :
    (h.grownBlock (growth size (2 ^ k))).payload + 2 ^ k ≤ modulus ∧
      size + (h.grownBlock (growth size (2 ^ k))).padding (2 ^ k) < modulus ∧
      (h.grownBlock (growth size (2 ^ k))).fits size (2 ^ k) = true := by
  have hge := growth_ge size (2 ^ k)
  have hsum : (h.grownBlock (growth size (2 ^ k))).payload + 2 ^ k ≤ modulus := by
    simp only [payload, grownBlock]
    omega
  obtain ⟨h1, h2, -, h4⟩ := aligned_bounds hk hsum
  have hneed : size + (h.grownBlock (growth size (2 ^ k))).padding (2 ^ k) < modulus := by
    omega
  refine ⟨hsum, hneed, ?_⟩
  rw [fits, Nat.mod_eq_of_lt hneed, Bool.and_eq_true, decide_eq_true_eq]
  refine ⟨rfl, ?_⟩
  change size + _ ≤ growth size (2 ^ k) - sizeofBlock
  omega

/-- **One call of the loop of `allocate`.**  With two rounds of fuel it returns. -/
lemma served_allocateLoop (outcome : ℕ → Bool) (hinv : Inv h) (hk : k ≤ 64)
    (hsums : SumsFit h size (2 ^ k) (outcome 0)) (hfuel : 2 ≤ fuel) :
    ∃ res, allocateLoop size (2 ^ k) outcome fuel 0 h = some res ∧ Served h size (2 ^ k) res := by
  obtain ⟨fuel, rfl⟩ : ∃ f, fuel = f + 2 := ⟨fuel - 2, by omega⟩
  cases hscan : takeFit size (2 ^ k) h.blocks with
  | some r => exact served_scan hinv (by omega) hk hsums.scan hscan
  | none =>
    have hnone := takeFit_none.mp hscan
    rw [allocateLoop, hscan]
    by_cases hgrows : Grows ((size + 2 ^ k + sizeofBlock) % modulus) (outcome 0)
    swap
    · rw [expand_of_not_grows hgrows]
      exact ⟨_, rfl, hinv.congr rfl rfl rfl, rfl, le_rfl, .inl ⟨rfl, rfl⟩⟩
    obtain ⟨hreq, hend⟩ := hsums.grow hnone hgrows
    have hpow : 0 < 2 ^ k := Nat.two_pow_pos k
    have hbytes : (size + 2 ^ k + sizeofBlock) % modulus = size + 2 ^ k + sizeofBlock :=
      Nat.mod_eq_of_lt (by omega)
    have hgrow := expand_cases (show 0 < size + 2 ^ k + sizeofBlock by omega) hreq
      (growth.eq_1 size (2 ^ k)) hend (outcome 0)
    rw [hbytes, hgrow]
    cases outcome 0 with
    | false => exact ⟨_, rfl, hinv.congr rfl rfl rfl, rfl, le_rfl, .inl ⟨rfl, rfl⟩⟩
    | true =>
      rw [if_pos rfl, Nat.zero_add]
      -- The second scan passes over the old blocks and takes the new one, which is the last.
      obtain ⟨hsum, hneed, hfit⟩ := fits_grownBlock hk hend
      set new := h.grownBlock (growth size (2 ^ k)) with hnew
      have hge := growth_ge size (2 ^ k)
      have hstop : new.stop = h.heapEnd + growth size (2 ^ k) := grownBlock_stop (by omega)
      have hlt : h.heapEnd < new.stop := by omega
      have htiles : BlockTiles h.heapStart (h.heapEnd + growth size (2 ^ k))
          (h.blocks ++ [new]) :=
        tiles_append.mpr ⟨h.heapEnd, hinv.tiles, rfl, hlt, hstop⟩
      have hmod : (h.heapEnd + growth size (2 ^ k)) % kPageSize = 0 := by
        rw [Nat.add_mod, hinv.end_aligned, growth, Nat.mul_mod_left]
        rfl
      obtain ⟨ht, hc, hp⟩ := placed_carve htiles hinv.coalesced (isChain_singleton _) hk
        hsum hneed (end_add_lt hend hmod) hfit
      obtain ⟨d, hloop⟩ := allocateLoop_take (h := { h with
          blocks := h.blocks ++ [new], heapEnd := h.heapEnd + growth size (2 ^ k) })
        outcome fuel 1 (takeFit_append hnone hfit)
      refine ⟨_, hloop, Served.placed ⟨ht, hc, hend, hmod⟩ rfl le_rfl ?_⟩
      exact ⟨hp.aligned, hp.pos, hp.inside, fun x hx => hp.kept x (by simp [hx]),
        fun x hx => hp.apart x (by simp [hx])⟩

/-- When the request and the padding wrap, the pointer is returned all the same, and no block in use
has that many bytes behind it. -/
lemma not_inside_of_wrap (hinv : Inv h) (hk : k ≤ 64) (hr : takeFit size (2 ^ k) h.blocks = some r)
    (hb : h.blocks.find? (fits · size (2 ^ k)) = some b) (hsum : b.payload + 2 ^ k ≤ modulus)
    (hwrap : modulus ≤ size + b.padding (2 ^ k)) :
    r.2 ≠ 0 ∧ ∀ u ∈ r.1, u.free = false → ¬r.2 + size ≤ u.stop := by
  obtain ⟨pre, b', post, hblocks, hb', rfl⟩ := takeFit_some hr
  obtain rfl : b = b' := some.inj (hb.symm.trans hb')
  obtain ⟨hge, -, -, hpad⟩ := aligned_bounds hk hsum
  have hpos : 0 < b.payload := by simp [payload, sizeofBlock]
  have hold (u : Block) (hu : u ∈ h.blocks) : u.stop < modulus :=
    (hinv.tiles.bounds hu).2.2.trans_lt hinv.end_lt
  have hend : b.stop < modulus := hold b (mem_of_find?_eq_some hb)
  refine ⟨by dsimp only; omega, fun u hu hfree hle => ?_⟩
  rw [mem_append, mem_append] at hu
  rcases hu with hu | hu | hu
  · have := hold u (by rw [hblocks]; simp [hu])
    omega
  · rw [carve] at hu
    split at hu
    · rcases mem_cons.1 hu with rfl | hu
      · have hlt : sub (b.usedEnd size (2 ^ k)) b.payload < modulus := Nat.mod_lt _ (by decide)
        simp only [stop, payload] at *
        omega
      · rw [mem_singleton.1 hu] at hfree
        cases hfree
    · rw [mem_singleton.1 hu] at hle
      simp only [stop, payload] at *
      omega
  · have := hold u (by rw [hblocks]; simp [hu])
    omega

/-- Appending the first block to an empty heap, or failing to. -/
lemma inv_initializeHeap (hinv : Inv h) (hstart : h.heapStart = 0xffff800000000000) (ok : Bool) :
    Inv (h.initializeHeap ok) ∧ (h.initializeHeap ok).heapStart = h.heapStart ∧
      (∀ x ∈ h.blocks, x ∈ (h.initializeHeap ok).blocks) := by
  unfold initializeHeap
  by_cases hempty : h.blocks = []
  · have htiles := hinv.tiles
    rw [hempty] at htiles
    have heq : h.heapStart = h.heapEnd := htiles
    have hend : h.heapEnd + 65536 < modulus := by
      rw [← heq, hstart]
      decide
    rw [if_pos hempty, expand_cases (by decide) (by decide) (by decide) hend]
    cases ok with
    | false => exact ⟨hinv, rfl, fun x hx => hx⟩
    | true =>
      have hstop := grownBlock_stop (h := h) (show sizeofBlock ≤ 65536 by decide)
      rw [if_pos rfl, hempty, nil_append]
      refine ⟨⟨⟨heq.symm, ?_, hstop⟩, isChain_singleton _, hend, ?_⟩, rfl, by simp⟩
      · rw [hstop, heq]
        omega
      · have := hinv.end_aligned
        simp only [kPageSize] at this ⊢
        omega
  · rw [if_neg hempty]
    exact ⟨hinv, rfl, fun x hx => hx⟩

/-! ## `free` -/

lemma markFree_some {raw : ℕ} {r : ℕ × List Block} (hr : markFree raw blocks = some r) :
    ∃ pre b post, blocks = pre ++ b :: post ∧ b.holds raw = true ∧
      r = (b.addr, pre ++ (coalesceNext { b with free := true } post).1 ::
        (coalesceNext { b with free := true } post).2) := by
  induction blocks generalizing r with
  | nil => simp [markFree] at hr
  | cons x bs ih =>
    unfold markFree at hr
    split_ifs at hr with hx
    · rw [some.injEq] at hr
      exact ⟨[], x, bs, rfl, hx, hr.symm⟩
    rw [map_eq_some_iff] at hr
    obtain ⟨r', hr', rfl⟩ := hr
    obtain ⟨pre, b, post, rfl, hb, rfl⟩ := ih hr'
    exact ⟨x :: pre, b, post, rfl, hb, rfl⟩

lemma absorb_stop {next : Block} (htouch : b.stop = next.addr) :
    (b.absorb next).stop = next.stop := by
  simp only [stop, payload, absorb] at *
  omega

/-- Merging forward swallows the next block exactly when it is free; free blocks being apart, it
stops there. -/
lemma coalesceNext_cases (htiles : BlockTiles lo hi (b :: post)) (hpost : Coalesced post) :
    ∃ b' post', coalesceNext b post = (b', post') ∧ b'.addr = b.addr ∧ b'.free = b.free ∧
      BlockTiles lo hi (b' :: post') ∧ Coalesced post' ∧ (∀ y ∈ post'.head?, y.free = false) ∧
      (∀ x ∈ post, x.free = false → x ∈ post') := by
  cases post with
  | nil => exact ⟨b, [], rfl, rfl, rfl, htiles, hpost, by simp, by simp⟩
  | cons next rest =>
    have htouch : b.stop = next.addr := Tiles.stop_eq_start (l := []) htiles
    cases hnext : next.free with
    | false =>
      refine ⟨b, next :: rest, ?_, rfl, rfl, htiles, hpost, by simp [hnext], fun x hx _ => hx⟩
      simp [coalesceNext, hnext]
    | true =>
      have hmerged : BlockTiles lo hi (b.absorb next :: rest) :=
        Tiles.merge (l := []) htiles rfl (absorb_stop htouch)
      obtain ⟨-, hrest, hhead⟩ := (sparse_append_cons_marked (l := []) hnext).mp hpost
      -- The block after `next` is in use, so the loop ends.
      have hstop : coalesceNext (b.absorb next) rest = (b.absorb next, rest) := by
        cases rest with
        | nil => rfl
        | cons y rest =>
          have hy : y.free = false := hhead y (by simp)
          simp [coalesceNext, hy]
      refine ⟨b.absorb next, rest, ?_, rfl, rfl, hmerged, hrest, hhead, ?_⟩
      · rw [coalesceNext, hnext, htouch]
        simpa using hstop
      intro x hx hxfree
      rcases mem_cons.mp hx with rfl | hx
      · rw [hnext] at hxfree
        exact absurd hxfree (by decide)
      · exact hx

/-- No block after the first has the address: nothing happens. -/
lemma coalescePrev_of_forall (hblocks : ∀ x ∈ blocks.tail, x.addr ≠ addr) :
    coalescePrev addr blocks = blocks := by
  induction blocks with
  | nil => rfl
  | cons prev bs ih =>
    cases bs with
    | nil => rfl
    | cons x rest =>
      have hx : x.addr ≠ addr := hblocks x (by simp)
      rw [coalescePrev, if_neg (by simp [hx]), ih fun y hy => hblocks y (by simp_all)]

/-- The blocks before the predecessor are passed over. -/
lemma coalescePrev_append {q : Block} (hpre : ∀ x ∈ pre ++ [q], x.addr ≠ addr) (rest : List Block) :
    coalescePrev addr (pre ++ q :: rest) = pre ++ coalescePrev addr (q :: rest) := by
  induction pre with
  | nil => rfl
  | cons x pre ih =>
    have hrest := ih fun y hy => hpre y (by simp_all)
    cases pre with
    | nil =>
      have hq : q.addr ≠ addr := hpre q (by simp)
      simp only [nil_append, cons_append] at hrest ⊢
      rw [coalescePrev, if_neg (by simp [hq])]
    | cons y pre =>
      have hy : y.addr ≠ addr := hpre y (by simp)
      simp only [cons_append] at hrest ⊢
      rw [coalescePrev, if_neg (by simp [hy]), hrest]

/-- Merging backward swallows the freed block into a free predecessor. -/
lemma coalescePrev_spec (htiles : BlockTiles lo hi (pre ++ b :: post)) (hb : b.free = true)
    (hpre : Coalesced pre) (hpost : Coalesced post) (hhead : ∀ y ∈ post.head?, y.free = false) :
    BlockTiles lo hi (coalescePrev b.addr (pre ++ b :: post)) ∧
      Coalesced (coalescePrev b.addr (pre ++ b :: post)) ∧
      (∀ x ∈ pre ++ post, x.free = false → x ∈ coalescePrev b.addr (pre ++ b :: post)) := by
  have hpair := htiles.pairwise
  have hbounds := fun x hx => (htiles.bounds (x := x) hx).2.1
  rw [pairwise_append] at hpair
  obtain ⟨-, hright, hleft⟩ := hpair
  -- Addresses are distinct, so the search stops at the right place.
  have hafter : ∀ x ∈ post, x.addr ≠ b.addr := by
    intro x hx heq
    have h1 := (pairwise_cons.mp hright).1 x hx
    have h2 := hbounds b (by simp)
    omega
  have hbefore : ∀ x ∈ pre, x.addr ≠ b.addr := by
    intro x hx heq
    have h1 := hleft x hx b mem_cons_self
    have h2 := hbounds x (by simp [hx])
    omega
  rcases eq_nil_or_concat pre with rfl | ⟨front, q, rfl⟩
  · rw [coalescePrev_of_forall (by simpa using hafter)]
    refine ⟨htiles, (sparse_append_cons_marked hb).mpr ⟨⟨hpre, by simp⟩, hpost, hhead⟩, ?_⟩
    intro x hx _
    exact mem_cons_of_mem _ hx
  rw [concat_eq_append] at *
  rw [append_assoc, singleton_append] at htiles ⊢
  rw [coalescePrev_append hbefore]
  have htouch : q.stop = b.addr := htiles.stop_eq_start
  cases hq : q.free with
  | false =>
    have hsame : coalescePrev b.addr (q :: b :: post) = q :: b :: post := by
      have hrest : coalescePrev b.addr (b :: post) = b :: post := coalescePrev_of_forall hafter
      rw [coalescePrev, hq]
      simpa using hrest
    rw [hsame]
    refine ⟨htiles, ?_, ?_⟩
    · refine (sparse_append_cons hq).mpr ⟨hpre.left, ?_⟩
      exact (sparse_append_cons_marked hb).mpr ⟨⟨isChain_nil, by simp⟩, hpost, hhead⟩
    · intro x hx _
      simp only [mem_append, mem_cons, not_mem_nil, or_false] at hx ⊢
      tauto
  | true =>
    have hmerge : coalescePrev b.addr (q :: b :: post) = q.absorb b :: post := by
      rw [coalescePrev, hq, htouch]
      simp
    rw [hmerge]
    obtain ⟨⟨hfront, hlast⟩, -⟩ := (sparse_append_cons_marked hq).mp hpre
    refine ⟨htiles.merge rfl (absorb_stop htouch), ?_, ?_⟩
    · exact (sparse_append_cons_marked (show (q.absorb b).free = true from hq)).mpr
        ⟨⟨hfront, hlast⟩, hpost, hhead⟩
    intro x hx hxfree
    simp only [mem_append, mem_cons, not_mem_nil, or_false] at hx ⊢
    rcases hx with (hx | rfl) | hx
    · exact .inl hx
    · rw [hq] at hxfree
      exact absurd hxfree (by decide)
    · exact .inr (.inr hx)

/-- **`free` of any pointer keeps the heap in order**, and every block in use that does not hold
the pointer survives. -/
lemma free_spec (hinv : Inv h) (raw : ℕ) :
    Inv (h.free raw) ∧ (h.free raw).heapStart = h.heapStart ∧
      ∀ x ∈ h.blocks, x.free = false → x.holds raw = false ∨ raw = 0 → x ∈ (h.free raw).blocks := by
  unfold free
  split_ifs with hraw
  · exact ⟨hinv, rfl, fun x hx _ _ => hx⟩
  cases hmark : markFree raw h.blocks with
  | none => exact ⟨hinv.congr rfl rfl rfl, rfl, fun x hx _ _ => hx⟩
  | some r =>
    obtain ⟨pre, b, post, hblocks, hholds, rfl⟩ := markFree_some hmark
    have htiles := hinv.tiles
    have hco := hinv.coalesced
    rw [hblocks] at htiles hco
    obtain ⟨c, htpre, htpost⟩ := tiles_append.mp htiles
    -- Marking the block free does not move its bounds.
    have htmark : BlockTiles c h.heapEnd ({ b with free := true } :: post) := htpost
    obtain ⟨b', post', heq, haddr, hfree, ht', hco', hhead, hkept⟩ :=
      coalesceNext_cases htmark (hco.right).tail
    rw [heq]
    rw [show b.addr = b'.addr from haddr.symm]
    obtain ⟨ht, hc, hk⟩ := coalescePrev_spec (tiles_append.mpr ⟨c, htpre, ht'⟩) hfree hco.left
      hco' hhead
    refine ⟨⟨ht, hc, hinv.end_lt, hinv.end_aligned⟩, rfl, ?_⟩
    intro x hx hxfree hnot
    refine hk x ?_ hxfree
    rw [hblocks] at hx
    rcases mem_append.mp hx with hx | hx
    · exact mem_append_left _ hx
    rcases mem_cons.mp hx with rfl | hx
    · rcases hnot with hnot | hnot
      · rw [hholds] at hnot
        exact absurd hnot (by decide)
      · exact absurd hnot hraw
    · exact mem_append_right _ (hkept x hx hxfree)

end KernelHeap
end IanOS
