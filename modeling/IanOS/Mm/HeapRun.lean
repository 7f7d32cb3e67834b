import IanOS.Lib.Bytes
import IanOS.Lib.Run
import IanOS.Mm.HeapSpec

/-!
# Sequences of heap operations

Runs of the heap from its constructed state, with the allocations that are live at each moment
kept beside it.  An allocation is live from the call that returned it until a `free` whose pointer
lies in the same block, be it the pointer returned or any other.

The run theorem assumes of each request what its caller promises: a power-of-two alignment and
sums that do not wrap.  Nothing is assumed about the pointers given to `free`.
-/

namespace IanOS

/-- Bytes handed to a caller. -/
structure Allocation where
  pointer : ℕ
  size : ℕ
  deriving DecidableEq, Repr

/-- The heap and the allocations that are live. -/
structure HeapState where
  heap : KernelHeap
  live : List Allocation

/-- One call of the heap; `outcome` is what its attempts to grow would yield. -/
inductive HeapOp
  | start (ok : Bool)
  | allocate (size alignment : ℕ) (outcome : ℕ → Bool)
  | calloc (count size : ℕ) (outcome : ℕ → Bool)
  | free (raw : ℕ)

namespace HeapState

open KernelHeap Tiling

variable {s : HeapState} {size alignment fuel : ℕ}

/-- Record the outcome of a request; a call that has not returned changes nothing. -/
def record (s : HeapState) (size : ℕ) : Option AllocateResult → HeapState
  | none => s
  | some r => ⟨r.heap, if r.pointer = 0 then s.live else ⟨r.pointer, size⟩ :: s.live⟩

/-- The two pointers lie in one block. -/
def sameBlock (h : KernelHeap) (p q : ℕ) : Bool := h.blocks.any fun b => b.holds p && b.holds q

def step (fuel : ℕ) (s : HeapState) : HeapOp → HeapState
  | .start ok => ⟨s.heap.initializeHeap ok, s.live⟩
  | .allocate size alignment outcome =>
    s.record size (s.heap.allocate size alignment fuel outcome)
  | .calloc count size outcome =>
    s.record (count * size) (s.heap.calloc count size fuel outcome)
  | .free raw =>
    ⟨s.heap.free raw,
      if raw = 0 then s.live else s.live.filter fun a => !sameBlock s.heap raw a.pointer⟩

/-- A request with a power-of-two alignment whose sums do not wrap; `ok` says whether growing gets
its pages. -/
def RequestFits (h : KernelHeap) (size alignment : ℕ) (ok : Bool) : Prop :=
  (∃ k < 64, alignment = 2 ^ k) ∧ (size ≠ 0 → h.SumsFit size (effectiveAlignment alignment) ok)

/-- What a call is promised. -/
def Promised (s : HeapState) : HeapOp → Prop
  | .allocate size alignment outcome => RequestFits s.heap size alignment (outcome 0)
  | .calloc count size outcome =>
    count * size < Word.modulus ∧ RequestFits s.heap (count * size) 16 (outcome 0)
  | _ => True

/-- The heap is in order, and the live allocations lie, disjoint, in blocks in use. -/
structure Inv (s : HeapState) : Prop where
  heap : s.heap.Inv
  start_eq : s.heap.heapStart = 0xffff800000000000
  live_inside : ∀ a ∈ s.live, ∃ u ∈ s.heap.blocks, u.free = false ∧ u.payload ≤ a.pointer ∧
    a.pointer + a.size ≤ u.stop
  live_pos : ∀ a ∈ s.live, 0 < a.size
  live_disjoint : s.live.Pairwise fun a b =>
    a.pointer + a.size ≤ b.pointer ∨ b.pointer + b.size ≤ a.pointer

/-! ## Requests -/

lemma effectiveAlignment_pow {k : ℕ} (hk : k < 64) :
    ∃ j, j ≤ 64 ∧ effectiveAlignment (2 ^ k) = 2 ^ j ∧ 2 ^ k ∣ 2 ^ j := by
  unfold effectiveAlignment
  by_cases hlt : 2 ^ k < 16
  · have hk4 : k ≤ 4 := by
      by_contra hgt
      have : 2 ^ 4 ≤ 2 ^ k := Nat.pow_le_pow_right (by norm_num) (by omega)
      omega
    exact ⟨4, by norm_num, by rw [if_pos hlt]; rfl, Nat.pow_dvd_pow 2 hk4⟩
  · exact ⟨k, by omega, by rw [if_neg hlt], dvd_rfl⟩

lemma allocate_served {outcome : ℕ → Bool} (hinv : s.heap.Inv)
    (hreq : RequestFits s.heap size alignment (outcome 0)) (hfuel : 2 ≤ fuel) :
    ∃ r, s.heap.allocate size alignment fuel outcome = some r ∧ Served s.heap size alignment r ∧
      (r.pointer ≠ 0 → size ≠ 0) := by
  obtain ⟨⟨k, hk, rfl⟩, hsums⟩ := hreq
  unfold KernelHeap.allocate
  split_ifs with hsize
  · exact ⟨_, rfl, ⟨hinv, rfl, Nat.zero_le _, .inl ⟨rfl, rfl⟩⟩, fun h => absurd rfl h⟩
  obtain ⟨j, hj, heq, hdvd⟩ := effectiveAlignment_pow hk
  have hfit := hsums hsize
  rw [heq] at hfit ⊢
  -- Counting the call changes neither the blocks nor the end of the heap.
  obtain ⟨r, hr, hserved⟩ := served_allocateLoop (h := { s.heap with diagnostics :=
      { s.heap.diagnostics with allocationCalls := s.heap.diagnostics.allocationCalls + 1 } })
    outcome (hinv.congr rfl rfl rfl) hj ⟨hfit.scan, hfit.grow⟩ hfuel
  refine ⟨r, hr, ⟨hserved.inv, hserved.start_eq, hserved.expansions_le, ?_⟩, fun _ => hsize⟩
  refine hserved.outcome.imp_right fun hp => ⟨?_, hp.pos, hp.inside, hp.kept, hp.apart⟩
  exact Nat.mod_eq_zero_of_dvd (hdvd.trans (Nat.dvd_of_mod_eq_zero hp.aligned))

/-- `calloc` is `allocate` of the product. -/
lemma calloc_served {count : ℕ} {outcome : ℕ → Bool} (hinv : s.heap.Inv)
    (hprod : count * size < Word.modulus) (hreq : RequestFits s.heap (count * size) 16 (outcome 0))
    (hfuel : 2 ≤ fuel) :
    ∃ r, s.heap.calloc count size fuel outcome = some r ∧ Served s.heap (count * size) 16 r ∧
      (r.pointer ≠ 0 → count * size ≠ 0) := by
  unfold KernelHeap.calloc
  rw [Nat.mod_eq_of_lt hprod]
  obtain ⟨hpow, hsums⟩ := hreq
  obtain ⟨r, hr, hserved, hne⟩ := allocate_served (s := ⟨{ s.heap with diagnostics :=
      { s.heap.diagnostics with callocCalls := s.heap.diagnostics.callocCalls + 1 } }, s.live⟩)
    (hinv.congr rfl rfl rfl) ⟨hpow, fun hsize => ⟨(hsums hsize).scan, (hsums hsize).grow⟩⟩ hfuel
  exact ⟨r, hr, ⟨hserved.inv, hserved.start_eq, hserved.expansions_le, hserved.outcome⟩, hne⟩

lemma inv_record (hs : Inv s) {r : AllocateResult} (hr : Served s.heap size alignment r)
    (hne : r.pointer ≠ 0 → size ≠ 0) : Inv (s.record size (some r)) := by
  obtain ⟨hinv, hstart, -, hout⟩ := hr
  rw [record]
  rcases hout with ⟨hnull, hblocks⟩ | hp
  · rw [if_pos hnull]
    exact ⟨hinv, hstart.trans hs.start_eq, by rw [hblocks]; exact hs.live_inside, hs.live_pos,
      hs.live_disjoint⟩
  rw [if_neg hp.pos]
  refine ⟨hinv, hstart.trans hs.start_eq, ?_, ?_, ?_⟩
  · intro a ha
    rcases List.mem_cons.mp ha with rfl | ha
    · exact hp.inside
    · obtain ⟨u, hu, hfree, h1, h2⟩ := hs.live_inside a ha
      exact ⟨u, hp.kept u hu hfree, hfree, h1, h2⟩
  · intro a ha
    rcases List.mem_cons.mp ha with rfl | ha
    · exact Nat.pos_of_ne_zero (hne hp.pos)
    · exact hs.live_pos a ha
  · refine List.Pairwise.cons ?_ hs.live_disjoint
    -- An older allocation lies in a block in use, which the new bytes avoid.
    intro a ha
    obtain ⟨u, hu, hfree, h1, h2⟩ := hs.live_inside a ha
    have hpay : u.addr ≤ u.payload := Nat.le_add_right _ _
    rcases hp.apart u hu hfree with h | h
    · exact .inr (h2.trans h)
    · exact .inl (by change r.pointer + size ≤ a.pointer; omega)

/-! ## All operations -/

lemma inv_free (hs : Inv s) (raw : ℕ) : Inv (step fuel s (.free raw)) := by
  obtain ⟨hinv, hstart, hkept⟩ := free_spec hs.heap raw
  unfold step
  by_cases hraw : raw = 0
  · simp only [hraw, if_true]
    refine ⟨hraw ▸ hinv, hraw ▸ hstart.trans hs.start_eq, ?_, hs.live_pos, hs.live_disjoint⟩
    intro a ha
    obtain ⟨u, hu, hfree, h12⟩ := hs.live_inside a ha
    exact ⟨u, hraw ▸ hkept u hu hfree (.inr hraw), hfree, h12⟩
  simp only [hraw, if_false]
  refine ⟨hinv, hstart.trans hs.start_eq, ?_, ?_, hs.live_disjoint.filter _⟩
  · intro a ha
    obtain ⟨ha, hother⟩ := List.mem_filter.mp ha
    obtain ⟨u, hu, hfree, h1, h2⟩ := hs.live_inside a ha
    refine ⟨u, hkept u hu hfree (.inl ?_), hfree, h1, h2⟩
    -- Were the pointer in `u`, the allocation would not have stayed live.
    by_contra hholds
    have hpos := hs.live_pos a ha
    have hsame : sameBlock s.heap raw a.pointer = true := by
      refine List.any_eq_true.mpr ⟨u, hu, ?_⟩
      rw [Bool.and_eq_true]
      refine ⟨by simpa using hholds, ?_⟩
      rw [Block.holds, Bool.and_eq_true, decide_eq_true_eq, decide_eq_true_eq]
      exact ⟨h1, by omega⟩
    rw [hsame] at hother
    exact absurd hother (by decide)
  · intro a ha
    exact hs.live_pos a (List.mem_filter.mp ha).1

lemma inv_step (hfuel : 2 ≤ fuel) (hs : Inv s) {op : HeapOp} (hop : Promised s op) :
    Inv (step fuel s op) := by
  cases op with
  | start ok =>
    obtain ⟨hinv, hstart, hkept⟩ := inv_initializeHeap hs.heap hs.start_eq ok
    refine ⟨hinv, hstart.trans hs.start_eq, ?_, hs.live_pos, hs.live_disjoint⟩
    intro a ha
    obtain ⟨u, hu, hrest⟩ := hs.live_inside a ha
    exact ⟨u, hkept u hu, hrest⟩
  | allocate size alignment outcome =>
    obtain ⟨r, hr, hserved, hne⟩ := allocate_served hs.heap hop hfuel
    rw [step, hr]
    exact inv_record hs hserved hne
  | calloc count size outcome =>
    obtain ⟨r, hr, hserved, hne⟩ := calloc_served hs.heap hop.1 hop.2 hfuel
    rw [step, hr]
    exact inv_record hs hserved hne
  | free raw => exact inv_free hs raw

/-- The heap as constructed, with nothing allocated. -/
def init : HeapState := ⟨{}, []⟩

lemma inv_init : Inv init where
  heap := ⟨rfl, List.isChain_nil, by decide, by decide⟩
  start_eq := rfl
  live_inside := by simp [init]
  live_pos := by simp [init]
  live_disjoint := List.Pairwise.nil

/-- **The heap stays in order in every run.**  The blocks are in address order and tile the heap,
no two free blocks are neighbours, every live allocation lies in a block in use and live
allocations are disjoint; and the next request, whatever it is, returns after at most one attempt
to grow the heap, with null or with an aligned pointer to bytes inside a block in use. -/
theorem heap_in_order {ops : List HeapOp} (hfuel : 2 ≤ fuel)
    (hops : Run.Allowed (step fuel) Promised init ops) :
    let s := ops.foldl (step fuel) init
    (s.heap.blocks.Pairwise (fun x y => x.stop ≤ y.addr) ∧
      BlockTiles s.heap.heapStart s.heap.heapEnd s.heap.blocks) ∧
    Coalesced s.heap.blocks ∧
    (∀ a ∈ s.live, ∃ u ∈ s.heap.blocks, u.free = false ∧ u.payload ≤ a.pointer ∧
      a.pointer + a.size ≤ u.stop) ∧
    s.live.Pairwise (fun a b => a.pointer + a.size ≤ b.pointer ∨ b.pointer + b.size ≤ a.pointer) ∧
    (∀ size alignment outcome, Promised s (.allocate size alignment outcome) →
      ∃ r, s.heap.allocate size alignment fuel outcome = some r ∧ r.expansions ≤ 1 ∧
        (r.pointer = 0 ∨ r.pointer % alignment = 0 ∧ ∃ u ∈ r.heap.blocks, u.free = false ∧
          u.payload ≤ r.pointer ∧ r.pointer + size ≤ u.stop)) ∧
    (∀ count size outcome, Promised s (.calloc count size outcome) →
      ∃ r, s.heap.calloc count size fuel outcome = some r ∧ r.expansions ≤ 1 ∧
        (r.pointer = 0 ∨ r.pointer % 16 = 0 ∧ ∃ u ∈ r.heap.blocks, u.free = false ∧
          u.payload ≤ r.pointer ∧ r.pointer + count * size ≤ u.stop)) := by
  have hs : Inv (ops.foldl (step fuel) init) :=
    hops.foldl (fun _ _ hs hop => inv_step hfuel hs hop) inv_init
  refine ⟨⟨hs.heap.tiles.pairwise, hs.heap.tiles⟩, hs.heap.coalesced, hs.live_inside,
    hs.live_disjoint, ?_, ?_⟩
  · intro size alignment outcome hop
    obtain ⟨r, hr, hserved, -⟩ := allocate_served hs.heap hop hfuel
    exact ⟨r, hr, hserved.expansions_le,
      hserved.outcome.imp (fun h => h.1) fun hp => ⟨hp.aligned, hp.inside⟩⟩
  · intro count size outcome hop
    obtain ⟨r, hr, hserved, -⟩ := calloc_served hs.heap hop.1 hop.2 hfuel
    exact ⟨r, hr, hserved.expansions_le,
      hserved.outcome.imp (fun h => h.1) fun hp => ⟨hp.aligned, hp.inside⟩⟩

/-- A request of 100 bytes to the fresh heap, and the release of what it returned. -/
theorem heap_in_order_once :
    Run.Allowed (step 2) Promised init
        [.allocate 100 16 (fun _ => true), .free 0xffff800000000020] ∧
      Coalesced ([HeapOp.allocate 100 16 (fun _ => true), .free 0xffff800000000020].foldl
        (step 2) init).heap.blocks := by
  have hops : Run.Allowed (step 2) Promised init
      [.allocate 100 16 (fun _ => true), .free 0xffff800000000020] := by
    refine ⟨⟨⟨4, by norm_num, by norm_num⟩, fun _ => ⟨by simp [init], fun _ _ => ?_⟩⟩,
      trivial, trivial⟩
    decide
  exact ⟨hops, (heap_in_order le_rfl hops).2.1⟩

/-! ## Requests are honoured or refused -/

/-- The pointer, if it is not null, is followed by `n` bytes of a block in use. -/
def Grants (r : AllocateResult) (n : ℕ) : Prop :=
  r.pointer ≠ 0 → ∃ u ∈ r.heap.blocks, u.free = false ∧ u.payload ≤ r.pointer ∧
  r.pointer + n ≤ u.stop
  deriving Decidable

/-- The memory after a `calloc`. -/
def callocMemory (mem : ℕ → UInt8) (count size pointer : ℕ) : ℕ → UInt8 :=
  if pointer = 0 then mem else Bytes.fill mem pointer ((count * size) % Word.modulus) 0

/-- A request returns with null or with the bytes it asked for, in the case of `calloc` zeroed. -/
def Honoured (fuel : ℕ) (s : HeapState) (mem : ℕ → UInt8) : HeapOp → Prop
  | .allocate size alignment outcome =>
    ∃ r, s.heap.allocate size alignment fuel outcome = some r ∧ Grants r size
  | .calloc count size outcome =>
    ∃ r, s.heap.calloc count size fuel outcome = some r ∧ Grants r (count * size) ∧
      (r.pointer ≠ 0 → ∀ i < count * size,
        callocMemory mem count size r.pointer (r.pointer + i) = 0)
  | _ => True

lemma grants_of_served {r : AllocateResult} (h : Served s.heap size alignment r) :
    Grants r size := by
  intro hne
  obtain ⟨hnull, -⟩ | hp := h.outcome
  · exact absurd hnull hne
  · exact hp.inside

/-- What is promised is kept. -/
lemma honoured_of_promised (hs : Inv s) (hfuel : 2 ≤ fuel) (mem : ℕ → UInt8) {op : HeapOp}
    (hop : Promised s op) : Honoured fuel s mem op := by
  cases op with
  | start | free => trivial
  | allocate size alignment outcome =>
    obtain ⟨r, hr, hserved, -⟩ := allocate_served hs.heap hop hfuel
    exact ⟨r, hr, grants_of_served hserved⟩
  | calloc count size outcome =>
    obtain ⟨r, hr, hserved, -⟩ := calloc_served hs.heap hop.1 hop.2 hfuel
    refine ⟨r, hr, grants_of_served hserved, fun hne i hi => ?_⟩
    rw [callocMemory, if_neg hne, Nat.mod_eq_of_lt hop.1]
    simp [Bytes.fill, hi]

/-- A block fits, or the heap does not grow. -/
def Settled (h : KernelHeap) (size alignment : ℕ) (ok : Bool) : Prop :=
  (∀ b ∈ h.blocks, b.fits size alignment = false) →
    ¬Grows ((size + alignment + sizeofBlock) % Word.modulus) ok

/-- A request that finds a block is answered from the first one that fits. -/
lemma allocate_of_fits {b : Block} (alignment : ℕ) (outcome : ℕ → Bool) (hfuel : 2 ≤ fuel)
    (hsize : size ≠ 0)
    (hb : s.heap.blocks.find? (Block.fits · size (effectiveAlignment alignment)) = some b) :
    ∃ r d, takeFit size (effectiveAlignment alignment) s.heap.blocks = some r ∧
      s.heap.allocate size alignment fuel outcome =
        some ⟨{ s.heap with blocks := r.1, diagnostics := d }, r.2, 0⟩ := by
  obtain ⟨fuel, rfl⟩ : ∃ f, fuel = f + 1 := ⟨fuel - 1, by omega⟩
  cases hscan : takeFit size (effectiveAlignment alignment) s.heap.blocks with
  | none =>
    have hno := takeFit_none.1 hscan b (List.mem_of_find?_eq_some hb)
    cases hno.symm.trans
      (List.find?_some (p := (Block.fits · size (effectiveAlignment alignment))) hb)
  | some r =>
    rw [KernelHeap.allocate, if_neg hsize]
    obtain ⟨d, hloop⟩ := allocateLoop_take (h := { s.heap with diagnostics :=
      { s.heap.diagnostics with allocationCalls := s.heap.diagnostics.allocationCalls + 1 } })
      outcome fuel 0 hscan
    exact ⟨r, d, rfl, hloop⟩

/-- What a block is found for is not null, and no pointer is followed by a whole address space. -/
lemma not_grants {r : AllocateResult} {outcome : ℕ → Bool} {n : ℕ} (hinv : s.heap.Inv)
    (hreq : RequestFits s.heap size 16 (outcome 0)) (hfuel : 2 ≤ fuel) (hsize : size ≠ 0)
    (hblock : ∃ b ∈ s.heap.blocks, b.fits size 16 = true)
    (hr : s.heap.allocate size 16 fuel outcome = some r) (hn : Word.modulus ≤ n) : ¬Grants r n := by
  intro hgrants
  obtain ⟨b, hb⟩ := Option.isSome_iff_exists.1 (List.find?_isSome.2 hblock)
  obtain ⟨r', hr', hserved, -⟩ := allocate_served hinv hreq hfuel
  obtain rfl := Option.some.inj (hr.symm.trans hr')
  obtain ⟨taken, d, hscan, hcall⟩ :=
    allocate_of_fits 16 outcome hfuel hsize hb
  obtain rfl := Option.some.inj (hr.symm.trans hcall)
  obtain ⟨pre, b', post, -, hb', rfl⟩ := takeFit_some hscan
  obtain rfl : b = b' := Option.some.inj (hb.symm.trans hb')
  have hge := (aligned_bounds (k := 4) (by norm_num) ((hreq.2 hsize).scan b hb).1).1
  have hpos : 0 < b.payload := by simp [Block.payload, sizeofBlock]
  obtain ⟨u, hu, -, -, hstop⟩ := hgrants (hpos.trans_le hge).ne'
  have hlt := (hserved.inv.tiles.bounds hu).2.2.trans_lt hserved.inv.end_lt
  omega

/-- **Requests are honoured or refused.**  After a run of promised calls every promised request is.
Of the other requests to `allocate`, at an alignment that the heap leaves room for and with the heap
not growing, none is; and of those to `calloc` that find a block for the product as a word, none
whose product wraps. -/
theorem requests_honoured {ops : List HeapOp} (hfuel : 2 ≤ fuel) (mem : ℕ → UInt8)
    (hops : Run.Allowed (step fuel) Promised init ops) :
    let s := ops.foldl (step fuel) init
    (∀ op, Promised s op → Honoured fuel s mem op) ∧
    (∀ size k outcome, size ≠ 0 → k < 64 →
      s.heap.heapEnd + effectiveAlignment (2 ^ k) ≤ Word.modulus →
      Settled s.heap size (effectiveAlignment (2 ^ k)) (outcome 0) →
      (Honoured fuel s mem (.allocate size (2 ^ k) outcome) ↔
        Promised s (.allocate size (2 ^ k) outcome))) ∧
    ∀ count size outcome, count * size % Word.modulus ≠ 0 →
      Promised s (.allocate (count * size % Word.modulus) 16 outcome) →
      (∃ b ∈ s.heap.blocks, b.fits (count * size % Word.modulus) 16 = true) →
      (Honoured fuel s mem (.calloc count size outcome) ↔ count * size < Word.modulus) := by
  intro s
  have hs : Inv s := hops.foldl (fun _ _ hs hop => inv_step hfuel hs hop) inv_init
  generalize s = s at hs
  have hpromised (op : HeapOp) (hop : Promised s op) := honoured_of_promised hs hfuel mem hop
  refine ⟨hpromised, fun size k outcome hsize hk hroom hsettled => ⟨?_, hpromised _⟩, ?_⟩
  · rintro ⟨r, hr, hgrants⟩
    refine ⟨⟨k, hk, rfl⟩,
      fun _ => ⟨fun b hb => ?_, fun hnone hgrows => absurd hgrows (hsettled hnone)⟩⟩
    have hin := (hs.heap.tiles.bounds (List.mem_of_find?_eq_some hb)).2.2
    have hsum : b.payload + effectiveAlignment (2 ^ k) ≤ Word.modulus := by
      rw [Block.stop] at hin
      omega
    refine ⟨hsum, not_le.1 fun hwrap => ?_⟩
    obtain ⟨j, hj, heq, -⟩ := effectiveAlignment_pow hk
    obtain ⟨r', d, hscan, hcall⟩ := allocate_of_fits _ outcome hfuel hsize hb
    rw [heq] at hscan hb hsum hwrap
    obtain ⟨hne, hinside⟩ := not_inside_of_wrap hs.heap hj hscan hb hsum hwrap
    obtain rfl := Option.some.inj (hr.symm.trans hcall)
    obtain ⟨u, hu, hfree, -, hstop⟩ := hgrants hne
    exact hinside u hu hfree hstop
  · intro count size outcome hne hfits hblock
    refine ⟨?_, fun hlt => hpromised _ ⟨hlt, by rwa [Nat.mod_eq_of_lt hlt] at hfits⟩⟩
    rintro ⟨r, hr, hgrants, -⟩
    by_contra hwrap
    refine not_grants (s := ⟨{ s.heap with diagnostics :=
      { s.heap.diagnostics with callocCalls := s.heap.diagnostics.callocCalls + 1 } }, s.live⟩)
      (hs.heap.congr rfl rfl rfl)
        ⟨hfits.1, fun hsize => ⟨(hfits.2 hsize).scan, (hfits.2 hsize).grow⟩⟩
      hfuel hne hblock hr (not_lt.1 hwrap) hgrants

/-- The first request to the heap, for 100 bytes. -/
theorem requests_honoured_first :
    Honoured 2 init (fun _ => 0) (.allocate 100 16 fun _ => true) := by
  have hempty : Run.Allowed (step 2) Promised init [] := trivial
  refine (requests_honoured le_rfl (fun _ => 0) hempty).1 _
    ⟨⟨4, by norm_num, by norm_num⟩, ?_⟩
  exact fun _ => ⟨by simp [init], fun _ _ => by decide⟩

/-- With eight bytes of padding a request for `2 ^ 64 - 8` bytes fits into every free block, and the
product of a `calloc` wraps to 16. -/
theorem huge_requests_granted :
    ¬ Honoured 2 (step 2 init (.start true)) (fun _ => 0)
      (.allocate (2 ^ 64 - 8) 16 fun _ => true) ∧
    ¬ Honoured 2 (step 2 init (.start true)) (fun _ => 0)
      (.calloc (2 ^ 60 + 1) 16 fun _ => true) := by
  have hallocate : (((step 2 init (.start true)).heap.allocate (2 ^ 64 - 8) 16 2 fun _ => true).any
      fun r => decide (Grants r (2 ^ 64 - 8))) = false := by decide +kernel
  have hcalloc : (((step 2 init (.start true)).heap.calloc (2 ^ 60 + 1) 16 2 fun _ => true).any
      fun r => decide (Grants r ((2 ^ 60 + 1) * 16))) = false := by decide +kernel
  constructor
  · rintro ⟨r, hr, hgrants⟩
    rw [hr, Option.any_some, decide_eq_false_iff_not] at hallocate
    exact hallocate hgrants
  · rintro ⟨r, hr, hgrants, -⟩
    rw [hr, Option.any_some, decide_eq_false_iff_not] at hcalloc
    exact hcalloc hgrants

end HeapState
end IanOS
