import IanOS.Lib.Run
import IanOS.Mm.BootMap

/-!
# Sequences of allocations and releases

The four public operations of the page allocator as one step function, and what holds after any
sequence of them from `initialize`: the invariant, the exact conditions under which an allocation
fails, and that a page handed out is not handed out again until a release covers it.

The only assumption on the sequence is that the page range of a release does not run past the end
of the 64-bit page numbers; `page + i` is a plain 64-bit sum in `free_contiguous`.
-/

namespace IanOS

open Finset PhysicalMemoryManager

/-- One call of the allocator. -/
inductive PmmOp
  | allocatePage
  | allocateContiguous (pageCount : ℕ)
  | freePage (physical : ℕ)
  | freeContiguous (physical pageCount : ℕ)
  deriving DecidableEq, Repr

namespace PmmOp

variable {m : PhysicalMemoryManager} {op : PmmOp} {p : ℕ}

/-- Perform a call; releases return nothing, written as zero. -/
def perform (m : PhysicalMemoryManager) : PmmOp → PhysicalMemoryManager × ℕ
  | allocatePage => m.allocatePage
  | allocateContiguous n => m.allocateContiguous n
  | freePage physical => (m.freePage physical, 0)
  | freeContiguous physical n => (m.freeContiguous physical n, 0)

/-- The state after a call. -/
def step (m : PhysicalMemoryManager) (op : PmmOp) : PhysicalMemoryManager := (op.perform m).1

/-- The page range of a release does not wrap. -/
def NoWrap : PmmOp → Prop
  | freePage physical => physical / kPageSize + 1 ≤ Word.modulus
  | freeContiguous physical n => physical / kPageSize + n ≤ Word.modulus
  | _ => True

/-- The pages a call hands to its caller. -/
def handedOut (m : PhysicalMemoryManager) : PmmOp → Finset ℕ
  | allocatePage => if m.allocatePage.2 = 0 then ∅ else {m.allocatePage.2 / kPageSize}
  | allocateContiguous n =>
    if (m.allocateContiguous n).2 = 0 then ∅
    else Finset.Ico ((m.allocateContiguous n).2 / kPageSize)
      ((m.allocateContiguous n).2 / kPageSize + n)
  | _ => ∅

/-- The call is a release whose range has page `p` in it. -/
def Covers : PmmOp → ℕ → Prop
  | freePage physical, p => p = physical / kPageSize
  | freeContiguous physical n, p => physical / kPageSize ≤ p ∧ p < physical / kPageSize + n
  | _, _ => False

/-! ## One call -/

/-- What any call does to the free set: the pages it hands out were free and are not any more,
and a page it makes free lies in its range. -/
structure StepSpec (m : PhysicalMemoryManager) (op : PmmOp) : Prop where
  inv : Inv (op.step m)
  handed_free : op.handedOut m ⊆ m.freeSet
  handed_used : ∀ p ∈ op.handedOut m, p ∉ (op.step m).freeSet
  freed_covered : ∀ p ∈ (op.step m).freeSet, p ∈ m.freeSet ∨ op.Covers p

lemma pos_of_mem_freeSet (h : Inv m) (hp : p ∈ m.freeSet) : p * kPageSize ≠ 0 := by
  have := (h.free_range p hp).1
  simp only [kPageSize]
  omega

lemma mul_kPageSize_div (p : ℕ) : p * kPageSize / kPageSize = p :=
  Nat.mul_div_cancel _ (by norm_num [kPageSize])

lemma stepSpec_allocatePage (h : Inv m) : StepSpec m allocatePage := by
  rcases allocatePage_cases h with
    ⟨page, hp, hres, hset, hinv⟩ | ⟨-, hres, hset, hinv⟩
  · have hout : handedOut m allocatePage = {page} := by
      rw [handedOut, hres, if_neg (pos_of_mem_freeSet h hp), mul_kPageSize_div]
    refine ⟨hinv, ?_, ?_, ?_⟩
    · rw [hout]
      exact singleton_subset_iff.mpr hp
    · intro q hq
      rw [hout, mem_singleton] at hq
      rw [hq, step, perform, hset]
      exact notMem_erase _ _
    · intro q hq
      rw [step, perform, hset] at hq
      exact .inl (mem_of_mem_erase hq)
  · have hout : handedOut m allocatePage = ∅ := by rw [handedOut, hres, if_pos rfl]
    refine ⟨hinv, by simp [hout], by simp [hout], ?_⟩
    intro q hq
    rw [step, perform, hset] at hq
    exact .inl hq

lemma stepSpec_allocateContiguous (h : Inv m) (n : ℕ) : StepSpec m (allocateContiguous n) := by
  -- A call that fails leaves the free set alone.
  have hfail : (m.allocateContiguous n).2 = 0 →
      (m.allocateContiguous n).1.freeSet = m.freeSet → Inv (m.allocateContiguous n).1 →
      StepSpec m (allocateContiguous n) := by
    intro hres hset hinv
    have hout : handedOut m (allocateContiguous n) = ∅ := by rw [handedOut, hres, if_pos rfl]
    refine ⟨hinv, by simp [hout], by simp [hout], ?_⟩
    intro q hq
    rw [step, perform, hset] at hq
    exact .inl hq
  rcases Nat.eq_zero_or_pos n with rfl | hn
  · exact hfail rfl rfl ((h.withDiagnostics _ rfl).withDiagnostics _ rfl)
  rcases allocateContiguous_cases h hn with
    ⟨s, hsub, hres, hset, hinv⟩ | ⟨-, hres, hset, hinv⟩
  · have hs : s ∈ m.freeSet := hsub (mem_Ico.mpr ⟨le_rfl, by omega⟩)
    have hout : handedOut m (allocateContiguous n) = Finset.Ico s (s + n) := by
      rw [handedOut, hres, if_neg (pos_of_mem_freeSet h hs), mul_kPageSize_div]
    refine ⟨hinv, ?_, ?_, ?_⟩
    · rwa [hout]
    · intro q hq
      rw [hout] at hq
      rw [step, perform, hset]
      exact fun hmem => (mem_sdiff.mp hmem).2 hq
    · intro q hq
      rw [step, perform, hset] at hq
      exact .inl (mem_sdiff.mp hq).1
  · exact hfail hres hset hinv

lemma mem_of_release {m' : PhysicalMemoryManager} {physical n : ℕ}
    (hacc : releaseAccepted physical n →
      m'.freeSet = m.freeSet ∪ m.covered (physical / kPageSize) n)
    (hrej : ¬ releaseAccepted physical n → m'.freeSet = m.freeSet)
    (hp : p ∈ m'.freeSet) :
    p ∈ m.freeSet ∨ (physical / kPageSize ≤ p ∧ p < physical / kPageSize + n) := by
  by_cases ha : releaseAccepted physical n
  · rw [hacc ha, mem_union] at hp
    refine hp.imp_right fun hc => ?_
    exact mem_Ico.mp (mem_filter.mp hc).1
  · rw [hrej ha] at hp
    exact .inl hp

lemma stepSpec (h : Inv m) (hop : op.NoWrap) : StepSpec m op := by
  cases op with
  | allocatePage => exact stepSpec_allocatePage h
  | allocateContiguous n => exact stepSpec_allocateContiguous h n
  | freePage physical =>
    obtain ⟨hinv, hacc, hrej⟩ := freePage_spec h hop
    refine ⟨hinv, by simp [handedOut], by simp [handedOut], ?_⟩
    intro q hq
    refine (mem_of_release hacc hrej hq).imp_right fun hc => ?_
    change q = physical / kPageSize
    omega
  | freeContiguous physical n =>
    obtain ⟨hinv, hacc, hrej⟩ := freeContiguous_spec h hop
    exact ⟨hinv, by simp [handedOut], by simp [handedOut], fun q hq => mem_of_release hacc hrej hq⟩

/-! ## Sequences of calls -/

/-- The state after a sequence of calls. -/
def run (m : PhysicalMemoryManager) (ops : List PmmOp) : PhysicalMemoryManager := ops.foldl step m

lemma inv_run (h : Inv m) {ops : List PmmOp} (hops : ∀ op ∈ ops, op.NoWrap) :
    Inv (run m ops) :=
  Run.Allowed.foldl (P := Inv) (fun _ _ hm hop => (stepSpec hm hop).inv)
    (Run.allowed_of_forall hops) h

/-- A page that is not free stays so until a release covers it. -/
lemma notMem_freeSet_run (h : Inv m) {ops : List PmmOp} (hops : ∀ op ∈ ops, op.NoWrap)
    (hp : p ∉ m.freeSet) (hcov : ∀ op ∈ ops, ¬ op.Covers p) : p ∉ (run m ops).freeSet := by
  have hall : ∀ op ∈ ops, op.NoWrap ∧ ¬ op.Covers p := fun op hop => ⟨hops op hop, hcov op hop⟩
  refine (Run.Allowed.foldl (P := fun m => Inv m ∧ p ∉ m.freeSet) ?_
    (Run.allowed_of_forall hall) ⟨h, hp⟩).2
  rintro s op ⟨hs, hnot⟩ ⟨hwrap, hno⟩
  have hspec := stepSpec hs hwrap
  exact ⟨hspec.inv, fun hmem => (hspec.freed_covered p hmem).elim hnot hno⟩

/-- Between two calls that hand out the same page, a release covers it. -/
lemma covers_between (h : Inv m) {before between after : List PmmOp} {a b : PmmOp}
    (hops : ∀ op ∈ before ++ a :: between ++ b :: after, op.NoWrap)
    (ha : p ∈ a.handedOut (run m before))
    (hb : p ∈ b.handedOut (run m (before ++ a :: between))) : ∃ op ∈ between, op.Covers p := by
  by_contra hno
  have hbefore : Inv (run m before) := inv_run h fun op hop => hops op (by simp [hop])
  have haspec := stepSpec hbefore (hops a (by simp))
  have hmid : run m (before ++ a :: between) = run (a.step (run m before)) between := by
    simp [run]
  have hwrap : ∀ op ∈ between, op.NoWrap := fun op hop => hops op (by simp [hop])
  have hused := notMem_freeSet_run haspec.inv hwrap (haspec.handed_used p ha)
    fun op hop hc => hno ⟨op, hop, hc⟩
  rw [hmid] at hb
  exact hused ((stepSpec (inv_run haspec.inv hwrap) (hops b (by simp))).handed_free hb)

/-- **The page allocator is correct.**  After `initialize` and any sequence of calls that do not
wrap: the free counter counts the clear bits, these lie in the managed range, the statistics add
up and the peak bounds the use; a single page is refused exactly when no bit is clear, a run of
`n` pages exactly when there is none, and a run that is returned was free; and a page handed out
is not handed out again before a release covers it. -/
theorem allocator_correct (boot : BootInfo) (ops : List PmmOp) (hops : ∀ op ∈ ops, op.NoWrap) :
    let m := run (initializeFromBoot boot) ops
    m.freePages = m.freeSet.card ∧
    (∀ p ∈ m.freeSet, 0x100 ≤ p ∧ p < m.totalPages) ∧
    (m.stats.freePages = m.freePages ∧ m.stats.totalPages = m.totalPages ∧
      m.stats.usedPages + m.stats.freePages = m.stats.totalPages) ∧
    m.stats.usedPages ≤ m.diagnostics.peakUsedPages ∧
    (m.allocatePage.2 = 0 ↔ m.freeSet = ∅) ∧
    (∀ n, 0 < n → (m.allocateContiguous n).2 ≠ 0 →
      (m.allocateContiguous n).2 % kPageSize = 0 ∧
      ∀ i < n, (m.allocateContiguous n).2 / kPageSize + i ∈ m.freeSet) ∧
    (∀ n, 0 < n → ((m.allocateContiguous n).2 = 0 ↔ ¬ ∃ s, ∀ i < n, s + i ∈ m.freeSet)) ∧
    (∀ before a between b after p, ops = before ++ a :: between ++ b :: after →
      p ∈ a.handedOut (run (initializeFromBoot boot) before) →
      p ∈ b.handedOut (run (initializeFromBoot boot) (before ++ a :: between)) →
      ∃ op ∈ between, op.Covers p) := by
  have hinit := inv_initializeFromBoot boot
  have h := inv_run hinit hops
  refine ⟨h.free_eq, h.free_range, ⟨h.stats_free, h.stats_total, h.used_add_free⟩, ?_,
    ?_, ?_, ?_, ?_⟩
  · rw [h.stats_used]
    exact h.peak_ge
  · rcases allocatePage_cases h with
      ⟨page, hp, hres, -⟩ | ⟨hempty, hres, -⟩
    · refine iff_of_false ?_ (ne_empty_of_mem hp)
      rw [hres]
      exact pos_of_mem_freeSet h hp
    · exact iff_of_true hres hempty
  · intro n hn hne
    rcases allocateContiguous_cases h hn with
      ⟨s, hsub, hres, -⟩ | ⟨-, hres, -⟩
    · rw [hres, mul_kPageSize_div]
      refine ⟨Nat.mul_mod_left _ _, fun i hi => ?_⟩
      exact hsub (mem_Ico.mpr ⟨by omega, by omega⟩)
    · exact absurd hres hne
  · intro n hn
    rcases allocateContiguous_cases h hn with
      ⟨s, hsub, hres, -⟩ | ⟨hnone, hres, -⟩
    · have hs := hsub (mem_Ico.mpr ⟨le_rfl, show s < s + n by omega⟩)
      refine iff_of_false ?_ (not_not.mpr ⟨s, fun i hi => ?_⟩)
      · rw [hres]
        exact pos_of_mem_freeSet h hs
      · exact hsub (mem_Ico.mpr ⟨by omega, by omega⟩)
    · refine iff_of_true hres ?_
      rintro ⟨s, hall⟩
      refine hnone s fun q hq => ?_
      obtain ⟨hlo, hhi⟩ := mem_Ico.mp hq
      have hmem := hall (q - s) (by omega)
      rwa [Nat.add_sub_cancel' hlo] at hmem
  · rintro before a between b after p rfl ha hb
    exact covers_between hinit hops ha hb

/-- The theorem at a sequence that allocates, releases a page and allocates again. -/
theorem allocator_correct_reuse :
    let boot := BootInfo.oneRegion ⟨0x100000, 0xf00000, .usable⟩
    let ops := [allocatePage, freePage 0x100000, allocateContiguous 2]
    (∀ op ∈ ops, op.NoWrap) ∧
      (run (initializeFromBoot boot) ops).freePages =
        (run (initializeFromBoot boot) ops).freeSet.card := by
  have hops : ∀ op ∈ [allocatePage, freePage 0x100000, allocateContiguous 2], op.NoWrap := by
    simp only [List.forall_mem_cons, NoWrap, true_and, List.not_mem_nil, false_imp_iff,
      implies_true, and_true]
    decide
  exact ⟨hops, (allocator_correct _ _ hops).1⟩

end PmmOp
end IanOS
