import IanOS.Mm.Pmm
import Mathlib.Algebra.Order.Interval.Finset.SuccPred

/-!
# What the page allocator does to the set of free pages

The purpose of `PhysicalMemoryManager` is to keep a finite set of free pages.  `freeSet` reads that
set off the bitmap, and each operation of the source is specified by what it does to it: a
successful allocation removes the pages it returns, a release adds the pages it covers below
`totalPages`, and everything else leaves the set alone.

Two invariants carry the counters.  `Counted` ties `free_pages_` to the cardinality of the free
set and holds already between the loops of `initialize`; `Inv` adds the scan hint, the published
statistics and the recorded peak, and holds between operations.
-/

namespace IanOS.PhysicalMemoryManager

open Finset Word Nat

variable {m m' : PhysicalMemoryManager}
  {p page n i physical : ℕ} {s S : Finset ℕ} {l : List ℕ}
  {acc : PhysicalMemoryManager × Bool}

/-! ## The free set -/

/-- The pages whose bit in the bitmap is clear. -/
def freeSet (m : PhysicalMemoryManager) : Finset ℕ := m.bitmap.clearBelow kPmmBitmapPages

lemma mem_freeSet : p ∈ m.freeSet ↔ m.isUsed p = false := by
  unfold freeSet isUsed
  by_cases hp : kPmmBitmapPages ≤ p
  · simp [hp, not_lt.mpr hp]
  · simp [hp, not_le.mp hp]

lemma mem_freeSet_iff_not : (!m.isUsed p) = true ↔ p ∈ m.freeSet := by
  rw [mem_freeSet, Bool.not_eq_true']

lemma lt_of_mem_freeSet (hp : p ∈ m.freeSet) : p < kPmmBitmapPages := by
  exact (Bitmap.mem_clearBelow.mp hp).1

/-- Only the bitmap changes when a page is marked. -/
lemma setUsed_eq (m : PhysicalMemoryManager) (p : ℕ) (v : Bool) :
    m.setUsed p v =
      { m with bitmap := if kPmmBitmapPages ≤ p then m.bitmap else m.bitmap.assign p v } := by
  unfold setUsed
  split <;> rfl

lemma freeSet_setUsed_true (m : PhysicalMemoryManager) (p : ℕ) :
    (m.setUsed p true).freeSet = m.freeSet.erase p := by
  by_cases hp : kPmmBitmapPages ≤ p
  · have hnot : p ∉ m.freeSet := fun h => absurd (lt_of_mem_freeSet h) (not_lt.mpr hp)
    rw [setUsed, if_pos hp, erase_eq_of_notMem hnot]
  · rw [setUsed, if_neg hp]
    exact Bitmap.clearBelow_assign_true _ _ _

lemma freeSet_setUsed_false (hp : p < kPmmBitmapPages) :
    (m.setUsed p false).freeSet = insert p m.freeSet := by
  rw [setUsed, if_neg (not_le.mpr hp)]
  exact Bitmap.clearBelow_assign_false hp

@[simp] lemma setUsed_totalPages (p : ℕ) (v : Bool) :
    (m.setUsed p v).totalPages = m.totalPages := by rw [setUsed_eq]

@[simp] lemma setUsed_freePages (p : ℕ) (v : Bool) :
    (m.setUsed p v).freePages = m.freePages := by rw [setUsed_eq]

@[simp] lemma setUsed_diagnostics (p : ℕ) (v : Bool) :
    (m.setUsed p v).diagnostics = m.diagnostics := by rw [setUsed_eq]

@[simp] lemma setUsed_stats (p : ℕ) (v : Bool) :
    (m.setUsed p v).stats = m.stats := by rw [setUsed_eq]

@[simp] lemma setUsed_scanHint (p : ℕ) (v : Bool) :
    (m.setUsed p v).scanHint = m.scanHint := by rw [setUsed_eq]

/-! ## The counters -/

/-- The free counter is exact, and free pages lie between the low megabyte and `totalPages`. -/
structure Counted (m : PhysicalMemoryManager) : Prop where
  free_eq : m.freePages = m.freeSet.card
  free_range : ∀ p ∈ m.freeSet, 0x100 ≤ p ∧ p < m.totalPages
  total_le : m.totalPages ≤ kPmmBitmapPages

lemma Counted.free_le_total (h : Counted m) : m.freePages ≤ m.totalPages := by
  have hsub : m.freeSet ⊆ range m.totalPages := by
    intro p hp
    exact mem_range.mpr (h.free_range p hp).2
  calc m.freePages = m.freeSet.card := h.free_eq
    _ ≤ (range m.totalPages).card := card_le_card hsub
    _ = m.totalPages := card_range _

/-- Taking pages out of the free set and subtracting their number keeps the counter exact. -/
lemma Counted.remove (h : Counted m) (hs : s ⊆ m.freeSet) (hset : m'.freeSet = m.freeSet \ s)
    (hfree : m'.freePages = m.freePages - s.card) (htotal : m'.totalPages = m.totalPages) :
    Counted m' where
  free_eq := by rw [hfree, hset, card_sdiff_of_subset hs, h.free_eq]
  free_range := by
    intro p hp
    rw [hset] at hp
    rw [htotal]
    exact h.free_range p (mem_sdiff.mp hp).1
  total_le := by rw [htotal]; exact h.total_le

lemma Counted.release (h : Counted m) (hlo : 0x100 ≤ p) (hhi : p < m.totalPages)
    (hused : m.isUsed p = true) :
    Counted { m.setUsed p false with freePages := m.freePages + 1 } where
  free_eq := by
    have hp : p ∉ m.freeSet := by rw [mem_freeSet, hused]; decide
    change m.freePages + 1 = (m.setUsed p false).freeSet.card
    rw [freeSet_setUsed_false (lt_of_lt_of_le hhi h.total_le), card_insert_of_notMem hp, h.free_eq]
  free_range := by
    intro q hq
    change q ∈ (m.setUsed p false).freeSet at hq
    rw [freeSet_setUsed_false (lt_of_lt_of_le hhi h.total_le), mem_insert] at hq
    rw [setUsed_totalPages]
    rcases hq with rfl | hq
    · exact ⟨hlo, hhi⟩
    · exact h.free_range q hq
  total_le := by
    rw [setUsed_totalPages]
    exact h.total_le

lemma Counted.congr (h : Counted m) (hbits : m'.bitmap = m.bitmap)
    (hfree : m'.freePages = m.freePages) (htotal : m'.totalPages = m.totalPages) :
    Counted m' where
  free_eq := by rw [hfree, h.free_eq, freeSet, freeSet, hbits]
  free_range := by
    unfold freeSet
    rw [hbits, htotal]
    exact h.free_range
  total_le := by rw [htotal]; exact h.total_le

/-- The invariant between operations. -/
structure Inv (m : PhysicalMemoryManager) : Prop extends Counted m where
  hint_ge : 0x100 ≤ m.scanHint
  stats_total : m.stats.totalPages = m.totalPages
  stats_free : m.stats.freePages = m.freePages
  stats_used : m.stats.usedPages = m.totalPages - m.freePages
  peak_ge : m.totalPages - m.freePages ≤ m.diagnostics.peakUsedPages

lemma Inv.used_add_free (h : Inv m) :
    m.stats.usedPages + m.stats.freePages = m.stats.totalPages := by
  rw [h.stats_used, h.stats_free, h.stats_total]
  exact Nat.sub_add_cancel h.free_le_total

/-- Changing only counters of the diagnostics, and not the peak, keeps the invariant. -/
lemma Inv.withDiagnostics (h : Inv m) (d : PhysicalMemoryDiagnostics)
    (hd : d.peakUsedPages = m.diagnostics.peakUsedPages) : Inv { m with diagnostics := d } where
  toCounted := h.toCounted.congr rfl rfl rfl
  hint_ge := h.hint_ge
  stats_total := h.stats_total
  stats_free := h.stats_free
  stats_used := h.stats_used
  peak_ge := by
    rw [hd]
    exact h.peak_ge

lemma peak_updatePeakUsed (m : PhysicalMemoryManager) :
    m.totalPages - m.freePages ≤ m.updatePeakUsed.diagnostics.peakUsedPages := by
  unfold updatePeakUsed
  dsimp only
  split
  · exact le_rfl
  · exact not_lt.mp ‹_›

lemma updatePeakUsed_eq (m : PhysicalMemoryManager) :
    ∃ d, m.updatePeakUsed = { m with diagnostics := d } := by
  unfold updatePeakUsed
  dsimp only
  split
  · exact ⟨_, rfl⟩
  · exact ⟨m.diagnostics, rfl⟩

/-- Recording the peak completes the invariant. -/
lemma Inv.of_updatePeakUsed (h : Counted m) (hhint : 0x100 ≤ m.scanHint)
    (htotal : m.stats.totalPages = m.totalPages) (hfree : m.stats.freePages = m.freePages)
    (hused : m.stats.usedPages = m.totalPages - m.freePages) : Inv m.updatePeakUsed := by
  have hpeak := peak_updatePeakUsed m
  obtain ⟨d, hd⟩ := updatePeakUsed_eq m
  rw [hd] at hpeak ⊢
  exact ⟨h.congr rfl rfl rfl, hhint, htotal, hfree, hused, hpeak⟩

lemma freeSet_updatePeakUsed (m : PhysicalMemoryManager) :
    m.updatePeakUsed.freeSet = m.freeSet := by
  obtain ⟨d, hd⟩ := updatePeakUsed_eq m
  rw [hd]
  rfl

lemma totalPages_updatePeakUsed (m : PhysicalMemoryManager) :
    m.updatePeakUsed.totalPages = m.totalPages := by
  obtain ⟨d, hd⟩ := updatePeakUsed_eq m
  rw [hd]

/-! ## Allocation -/

/-- Removing free pages, refreshing the statistics and recording the peak: the common end of both
allocators. -/
lemma Inv.taken (h : Inv m) (hs : s ⊆ m.freeSet) (hset : m'.freeSet = m.freeSet \ s)
    (hfree : m'.freePages = m.freePages - s.card) (htotal : m'.totalPages = m.totalPages)
    (hhint : 0x100 ≤ m'.scanHint) (hstatsTotal : m'.stats.totalPages = m.stats.totalPages)
    (hstatsFree : m'.stats.freePages = m'.freePages)
    (hstatsUsed : m'.stats.usedPages = m'.totalPages - m'.freePages) : Inv m'.updatePeakUsed := by
  refine Inv.of_updatePeakUsed
    (h.toCounted.remove hs hset hfree htotal) hhint ?_ hstatsFree hstatsUsed
  rw [hstatsTotal, htotal, h.stats_total]

lemma freeSet_takePage (m : PhysicalMemoryManager) (page : ℕ) :
    (m.takePage page).1.freeSet = m.freeSet.erase page := by
  unfold takePage
  rw [freeSet_updatePeakUsed, ← freeSet_setUsed_true]
  rfl

lemma Inv.takePage (h : Inv m) (hp : page ∈ m.freeSet) : Inv (m.takePage page).1 := by
  have hlo := (h.free_range page hp).1
  refine h.taken (singleton_subset_iff.mpr hp) ?_ ?_ ?_ ?_ ?_ rfl rfl
  · rw [sdiff_singleton_eq_erase, ← freeSet_setUsed_true]
    rfl
  · simp [refreshStats]
  · simp [refreshStats]
  · change 0x100 ≤ page + 1
    omega
  · simp [refreshStats]

/-- The two scans of `allocate_page` together look at every page that can be free. -/
lemma scans_cover (h : Inv m)
    (h1 : (List.range' m.scanHint (m.totalPages - m.scanHint)).find? (fun p => !m.isUsed p) = none)
    (h2 : (List.range' 0x100 (m.scanHint - 0x100)).find? (fun p => !m.isUsed p) = none) :
    m.freeSet = ∅ := by
  rw [List.find?_eq_none] at h1 h2
  rw [eq_empty_iff_forall_notMem]
  intro p hp
  obtain ⟨hlo, hhi⟩ := h.free_range p hp
  rcases lt_or_ge p m.scanHint with hlt | hge
  · exact h2 p (List.mem_range'_1.mpr ⟨hlo, by omega⟩) (mem_freeSet_iff_not.mpr hp)
  · exact h1 p (List.mem_range'_1.mpr ⟨hge, by omega⟩) (mem_freeSet_iff_not.mpr hp)

lemma mem_freeSet_of_find (h : l.find? (fun p => !m.isUsed p) = some page) : page ∈ m.freeSet := by
  have hp := List.find?_some h
  exact mem_freeSet_iff_not.mp hp

/-- Whatever its bookkeeping says, `allocate_page` hands out a page that was free and is not free
any more, or returns 0. -/
lemma allocatePage_taken (m : PhysicalMemoryManager) :
    (∃ page ∈ m.freeSet, m.allocatePage.2 = page * kPageSize ∧
      m.allocatePage.1.freeSet = m.freeSet.erase page) ∨
    (m.allocatePage.2 = 0 ∧ m.allocatePage.1.freeSet = m.freeSet) := by
  unfold allocatePage
  dsimp only
  split
  · next page h1 => exact .inl ⟨page, mem_freeSet_of_find h1, rfl, freeSet_takePage _ _⟩
  · split
    · next page h2 => exact .inl ⟨page, mem_freeSet_of_find h2, rfl, freeSet_takePage _ _⟩
    · exact .inr ⟨rfl, rfl⟩

lemma allocatePage_cases (h : Inv m) :
    (∃ page ∈ m.freeSet, m.allocatePage.2 = page * kPageSize ∧
      m.allocatePage.1.freeSet = m.freeSet.erase page ∧ Inv m.allocatePage.1) ∨
    (m.freeSet = ∅ ∧ m.allocatePage.2 = 0 ∧ m.allocatePage.1.freeSet = m.freeSet ∧
      Inv m.allocatePage.1) := by
  unfold allocatePage
  -- Counting the call does not touch what the scans read.
  set d : PhysicalMemoryDiagnostics :=
    { m.diagnostics with allocatePageCalls := m.diagnostics.allocatePageCalls + 1 } with hd
  have hc : Inv { m with diagnostics := d } := h.withDiagnostics d rfl
  set c : PhysicalMemoryManager := { m with diagnostics := d } with hcdef
  have hfree : c.freeSet = m.freeSet := rfl
  dsimp only
  rw [← hfree]
  split
  · next page h1 =>
    have hp := mem_freeSet_of_find h1
    exact .inl ⟨page, hp, rfl, freeSet_takePage _ _, hc.takePage hp⟩
  · next h1 =>
    split
    · next page h2 =>
      have hp := mem_freeSet_of_find h2
      exact .inl ⟨page, hp, rfl, freeSet_takePage _ _, hc.takePage hp⟩
    · next h2 => exact .inr ⟨scans_cover hc h1 h2, rfl, rfl, hc.withDiagnostics _ rfl⟩

/-- Marking a list of pages changes the bitmap only, and removes exactly these pages. -/
lemma foldl_setUsed (l : List ℕ) (m : PhysicalMemoryManager) :
    (∃ b, l.foldl (fun m p => m.setUsed p true) m = { m with bitmap := b }) ∧
      (l.foldl (fun m p => m.setUsed p true) m).freeSet = m.freeSet \ l.toFinset := by
  induction l generalizing m with
  | nil => exact ⟨⟨m.bitmap, rfl⟩, by simp⟩
  | cons p l ih =>
    obtain ⟨⟨b, hb⟩, hset⟩ := ih (m.setUsed p true)
    refine ⟨⟨b, ?_⟩, ?_⟩
    · rw [List.foldl_cons, hb, setUsed_eq]
    · rw [List.foldl_cons, hset, freeSet_setUsed_true, List.toFinset_cons,
        sdiff_insert, erase_sdiff_comm]

lemma toFinset_range' (s n : ℕ) : (List.range' s n).toFinset = Finset.Ico s (s + n) := by
  ext p
  rw [List.mem_toFinset, List.mem_range'_1, mem_Ico]

lemma allIn_iff {s : ℕ} :
    RunSearch.AllIn (fun p => !m.isUsed p) s n ↔ Finset.Ico s (s + n) ⊆ m.freeSet := by
  constructor
  · intro hall p hp
    obtain ⟨hlo, hhi⟩ := mem_Ico.mp hp
    exact mem_freeSet_iff_not.mp (hall p hlo hhi)
  · intro hsub p hlo hhi
    exact mem_freeSet_iff_not.mpr (hsub (mem_Ico.mpr ⟨hlo, hhi⟩))

/-- Whatever its bookkeeping says, `allocate_contiguous` hands out a run of pages that were free and
are not free any more, or returns 0. -/
lemma allocateContiguous_taken (m : PhysicalMemoryManager) (n : ℕ) :
    (∃ s, 0x100 ≤ s ∧ Finset.Ico s (s + n) ⊆ m.freeSet ∧
      (m.allocateContiguous n).2 = s * kPageSize ∧
      (m.allocateContiguous n).1.freeSet = m.freeSet \ Finset.Ico s (s + n)) ∨
    ((m.allocateContiguous n).2 = 0 ∧ (m.allocateContiguous n).1.freeSet = m.freeSet) := by
  unfold allocateContiguous
  set c : PhysicalMemoryManager := { m with diagnostics := { m.diagnostics with
    allocateContiguousCalls := m.diagnostics.allocateContiguousCalls + 1 } }
  have hfree : c.freeSet = m.freeSet := rfl
  rw [← hfree]
  by_cases hn : n = 0
  · rw [if_pos hn]
    exact .inr ⟨rfl, rfl⟩
  rw [if_neg hn]
  split
  · next s hs =>
    obtain ⟨hlo, -, hall⟩ := RunSearch.findRun_some (RunSearch.ScanInv.init (pos_of_ne_zero hn)) hs
    obtain ⟨⟨b, hb⟩, hset⟩ := foldl_setUsed (List.range' s n) c
    rw [toFinset_range'] at hset
    refine .inl ⟨s, hlo, allIn_iff.mp hall, rfl, ?_⟩
    rw [freeSet_updatePeakUsed, ← hset]
    rfl
  · exact .inr ⟨rfl, rfl⟩

/-- `allocate_contiguous` hands out a run of free pages, or there is none of that length. -/
lemma allocateContiguous_cases (h : Inv m) (hn : 0 < n) :
    (∃ s, Finset.Ico s (s + n) ⊆ m.freeSet ∧ (m.allocateContiguous n).2 = s * kPageSize ∧
      (m.allocateContiguous n).1.freeSet = m.freeSet \ Finset.Ico s (s + n) ∧
      Inv (m.allocateContiguous n).1) ∨
    ((∀ s, ¬ Finset.Ico s (s + n) ⊆ m.freeSet) ∧ (m.allocateContiguous n).2 = 0 ∧
      (m.allocateContiguous n).1.freeSet = m.freeSet ∧ Inv (m.allocateContiguous n).1) := by
  unfold allocateContiguous
  set d : PhysicalMemoryDiagnostics := { m.diagnostics with
    allocateContiguousCalls := m.diagnostics.allocateContiguousCalls + 1 } with hd
  have hc : Inv { m with diagnostics := d } := h.withDiagnostics d rfl
  set c : PhysicalMemoryManager := { m with diagnostics := d } with hcdef
  have hfree : c.freeSet = m.freeSet := rfl
  have hinit : RunSearch.ScanInv (fun p => !c.isUsed p) 0x100 n 0x100 0 0 :=
    RunSearch.ScanInv.init hn
  rw [← hfree, if_neg (pos_iff_ne_zero.mp hn)]
  split
  · next s hs =>
    obtain ⟨hlo, -, hall⟩ := RunSearch.findRun_some hinit hs
    have hsub : Finset.Ico s (s + n) ⊆ c.freeSet := allIn_iff.mp hall
    obtain ⟨⟨b, hb⟩, hset⟩ := foldl_setUsed (List.range' s n) c
    rw [toFinset_range'] at hset
    rw [hb] at hset ⊢
    refine .inl ⟨s, hsub, rfl, ?_, ?_⟩
    · rw [freeSet_updatePeakUsed, ← hset]
      rfl
    refine hc.taken hsub hset ?_ rfl ?_ rfl rfl rfl
    · simp [refreshStats]
    · change 0x100 ≤ s + n
      omega
  · next hnone =>
    refine .inr ⟨?_, rfl, rfl, hc.withDiagnostics _ rfl⟩
    intro s hsub
    have hlast : s + n - 1 ∈ c.freeSet := hsub (mem_Ico.mpr ⟨by omega, by omega⟩)
    have hfirst : s ∈ c.freeSet := hsub (mem_Ico.mpr ⟨le_rfl, by omega⟩)
    have hlo := (hc.free_range s hfirst).1
    have hhi := (hc.free_range _ hlast).2
    exact RunSearch.findRun_none hinit hnone s hlo (by omega) (allIn_iff.mpr hsub)

/-- `free_run_count` adds up how many blocks fit into each maximal run of free pages, and counts one
exactly if `allocate_contiguous` would hand one out. -/
theorem freeRunCount_runs (m : PhysicalMemoryManager) (order : Fin 21) :
    m.freeRunCount order =
        ∑ r ∈ RunSearch.runs (fun p => !m.isUsed p) 0x100 m.totalPages, r.2 / 2 ^ (order : ℕ) ∧
      (0 < m.freeRunCount order ↔ (m.allocateContiguous (2 ^ (order : ℕ))).2 ≠ 0) := by
  have hpos : 0 < 2 ^ (order : ℕ) := Nat.two_pow_pos order
  rw [freeRunCount, if_neg (by omega)]
  constructor
  · rw [RunSearch.countRuns_eq _ _ _ _ (Nat.zero_le _) fun i hi hlt => by omega, Nat.zero_add,
      Nat.sub_zero]
    rcases Nat.le_total 0x100 m.totalPages with hle | hle
    · rw [Nat.add_sub_cancel' hle]
    · rw [Nat.sub_eq_zero_of_le hle, RunSearch.runs_eq_empty le_rfl, RunSearch.runs_eq_empty hle]
  · rw [RunSearch.countRuns_pos_iff _ _ 0 hpos]
    unfold allocateContiguous
    set c : PhysicalMemoryManager := { m with diagnostics := { m.diagnostics with
      allocateContiguousCalls := m.diagnostics.allocateContiguousCalls + 1 } }
    rw [if_neg hpos.ne']
    change (RunSearch.findRun (fun p => !c.isUsed p) _ (c.totalPages - 0x100) 0x100 0 0).isSome ↔ _
    split
    · next s hs =>
      have hlo := (RunSearch.findRun_some (RunSearch.ScanInv.init hpos) hs).1
      rw [hs]
      exact iff_of_true rfl (Nat.mul_ne_zero (by omega) (by decide))
    · next hnone =>
      rw [hnone]
      exact iff_of_false (by decide) (not_not_intro rfl)

/-! ## Loops that only move pages in or out of the free set -/

/-- `m'` is `m` with free set `S`: the free counter follows it, and the total, the hint, the
published total and the peak are as before. -/
structure SetsFree (m : PhysicalMemoryManager) (S : Finset ℕ) (m' : PhysicalMemoryManager) :
    Prop where
  counted : Counted m'
  set_eq : m'.freeSet = S
  total_eq : m'.totalPages = m.totalPages
  hint_eq : m'.scanHint = m.scanHint
  statsTotal_eq : m'.stats.totalPages = m.stats.totalPages
  peak_eq : m'.diagnostics.peakUsedPages = m.diagnostics.peakUsedPages

lemma SetsFree.refl (h : Counted m) : SetsFree m m.freeSet m :=
  ⟨h, rfl, rfl, rfl, rfl, rfl⟩

lemma SetsFree.trans {m'' : PhysicalMemoryManager} {T : Finset ℕ} (h : SetsFree m S m')
    (h' : SetsFree m' T m'') : SetsFree m T m'' :=
  ⟨h'.counted, h'.set_eq, h'.total_eq.trans h.total_eq, h'.hint_eq.trans h.hint_eq,
    h'.statsTotal_eq.trans h.statsTotal_eq, h'.peak_eq.trans h.peak_eq⟩

lemma SetsFree.refreshStats (h : SetsFree m S m') : SetsFree m S m'.refreshStats :=
  ⟨h.counted.congr rfl rfl rfl, h.set_eq, h.total_eq, h.hint_eq, h.statsTotal_eq, h.peak_eq⟩

/-- Counting an invalid request does not disturb the free set. -/
lemma SetsFree.countInvalidFree (h : SetsFree m S m') : SetsFree m S m'.countInvalidFree :=
  ⟨h.counted.congr rfl rfl rfl, h.set_eq, h.total_eq, h.hint_eq, h.statsTotal_eq, h.peak_eq⟩

section

variable (h : Counted m)
include h

lemma SetsFree.release (hlo : 0x100 ≤ p) (hhi : p < m.totalPages)
    (hused : m.isUsed p = true) :
    SetsFree m (insert p m.freeSet) { m.setUsed p false with freePages := m.freePages + 1 } where
  counted := h.release hlo hhi hused
  set_eq := freeSet_setUsed_false (lt_of_lt_of_le hhi h.total_le)
  total_eq := setUsed_totalPages _ _
  hint_eq := setUsed_scanHint _ _
  statsTotal_eq := congrArg _ (setUsed_stats _ _)
  peak_eq := congrArg _ (setUsed_diagnostics _ _)

/-- Releasing a page that is free already changes nothing. -/
lemma SetsFree.refl_insert (hfree : m.isUsed p = false) : SetsFree m (insert p m.freeSet) m := by
  rw [insert_eq_of_mem (mem_freeSet.mpr hfree)]
  exact SetsFree.refl h

/-! ### The loops of `initialize` -/

lemma SetsFree.releasePage (hp : p < m.totalPages) :
    SetsFree m (if p < 0x100 then m.freeSet else insert p m.freeSet) (m.releasePage p) := by
  unfold PhysicalMemoryManager.releasePage
  split
  · exact SetsFree.refl h
  · next hlo =>
    cases hused : m.isUsed p with
    | true => exact SetsFree.release h (not_lt.mp hlo) hp hused
    | false => exact SetsFree.refl_insert h hused

/-- Releasing a list of pages adds those above the low megabyte. -/
lemma SetsFree.foldl_releasePage (hl : ∀ p ∈ l, p < m.totalPages) :
    SetsFree m (m.freeSet ∪ l.toFinset.filter (0x100 ≤ ·))
      (l.foldl PhysicalMemoryManager.releasePage m) := by
  induction l generalizing m with
  | nil => simpa using SetsFree.refl h
  | cons p l ih =>
    have hstep := SetsFree.releasePage h (hl p List.mem_cons_self)
    have hrest := ih hstep.counted (by
      intro q hq
      rw [hstep.total_eq]
      exact hl q (List.mem_cons_of_mem _ hq))
    have hall := hstep.trans hrest
    rw [hstep.set_eq] at hall
    rw [List.foldl_cons, List.toFinset_cons, filter_insert]
    split_ifs at hall with hlo
    · rwa [if_neg (not_le.mpr hlo)]
    · rw [insert_union] at hall
      rwa [if_pos (not_lt.mp hlo), union_insert]

lemma SetsFree.reservePage (p : ℕ) : SetsFree m (m.freeSet.erase p) (m.reservePage p) := by
  unfold PhysicalMemoryManager.reservePage
  cases hused : m.isUsed p with
  | true =>
    have hp : p ∉ m.freeSet := by rw [mem_freeSet, hused]; decide
    rw [erase_eq_of_notMem hp]
    exact SetsFree.refl h
  | false =>
    have hp : p ∈ m.freeSet := mem_freeSet.mpr hused
    have hpos : 0 < m.freePages := by
      rw [h.free_eq]
      exact card_pos.mpr ⟨p, hp⟩
    have hset := freeSet_setUsed_true m p
    rw [if_neg Bool.false_ne_true, if_pos hpos]
    refine ⟨h.remove (singleton_subset_iff.mpr hp) ?_ ?_ ?_, hset, ?_, ?_, ?_, ?_⟩
    · rwa [sdiff_singleton_eq_erase]
    · exact congrArg (m.freePages - ·) (card_singleton p).symm
    · exact setUsed_totalPages _ _
    · exact setUsed_totalPages _ _
    · exact setUsed_scanHint _ _
    · exact congrArg _ (setUsed_stats _ _)
    · exact congrArg _ (setUsed_diagnostics _ _)

lemma SetsFree.foldl_reservePage (l : List ℕ) :
    SetsFree m (m.freeSet \ l.toFinset) (l.foldl PhysicalMemoryManager.reservePage m) := by
  induction l generalizing m with
  | nil => simpa using SetsFree.refl h
  | cons p l ih =>
    have hstep := SetsFree.reservePage h p
    have hall := hstep.trans (ih hstep.counted)
    rw [hstep.set_eq] at hall
    rwa [List.foldl_cons, List.toFinset_cons, sdiff_insert, ← erase_sdiff_comm]

/-- `mark_range_used` removes the pages between its two rounded bounds. -/
lemma SetsFree.markRangeUsed (base length : ℕ) :
    SetsFree m (m.freeSet \ Finset.Ico (pageAlignDown base / kPageSize)
      (pageAlignUp ((base + length) % modulus) / kPageSize)) (m.markRangeUsed base length) := by
  unfold PhysicalMemoryManager.markRangeUsed
  generalize pageAlignDown base / kPageSize = first
  generalize pageAlignUp ((base + length) % modulus) / kPageSize = last
  set stop := if m.totalPages < last then m.totalPages else last with hstop
  have hfold := SetsFree.foldl_reservePage h (List.range' first (stop - first))
  -- No free page lies beyond the clamp to `totalPages`.
  have hset : m.freeSet \ (List.range' first (stop - first)).toFinset =
      m.freeSet \ Finset.Ico first last := by
    rw [toFinset_range']
    ext p
    rw [mem_sdiff, mem_sdiff, mem_Ico, mem_Ico]
    refine and_congr_right fun hp => not_congr ?_
    have hhi := (h.free_range p hp).2
    rw [hstop]
    split <;> omega
  rw [hset] at hfold
  exact hfold.refreshStats

end

/-! ## Release -/

lemma freeStep_skip (hwrap : page + i < modulus)
    (h : acc.1.totalPages ≤ page + i ∨ acc.1.isUsed (page + i) = false) :
    freeStep page acc i = acc := by
  unfold freeStep
  rw [mod_eq_of_lt hwrap]
  exact if_pos (by simpa using h)

lemma freeStep_release (hwrap : page + i < modulus) (hin : page + i < acc.1.totalPages)
    (hused : acc.1.isUsed (page + i) = true) :
    (freeStep page acc i).1 =
      { acc.1.setUsed (page + i) false with freePages := acc.1.freePages + 1 } := by
  unfold freeStep
  rw [mod_eq_of_lt hwrap]
  rw [if_neg (by simp [hin, hused])]

/-- One iteration, at an index that the sum `page + i` reaches without wrapping. -/
lemma SetsFree.freeStep (h : Counted acc.1) (hlo : 0x100 ≤ page) (hwrap : page + i < modulus) :
    SetsFree acc.1
      (if page + i < acc.1.totalPages then insert (page + i) acc.1.freeSet else acc.1.freeSet)
      (PhysicalMemoryManager.freeStep page acc i).1 := by
  split_ifs with hin
  · cases hused : acc.1.isUsed (page + i) with
    | false =>
      rw [freeStep_skip hwrap (.inr hused)]
      exact SetsFree.refl_insert h hused
    | true =>
      rw [freeStep_release hwrap hin hused]
      exact SetsFree.release h (by omega) hin hused
  · rw [freeStep_skip hwrap (.inl (not_lt.mp hin))]
    exact SetsFree.refl h

/-- The pages a release of `n` pages from `page` on covers. -/
def covered (m : PhysicalMemoryManager) (page n : ℕ) : Finset ℕ :=
  (Finset.Ico page (page + n)).filter (· < m.totalPages)

/-- The interval grows at its top. -/
lemma covered_succ (m : PhysicalMemoryManager) (page n : ℕ) :
    m.covered page (n + 1) =
      if page + n < m.totalPages then insert (page + n) (m.covered page n)
      else m.covered page n := by
  unfold covered
  rw [← add_assoc, ← insert_Ico_right_eq_Ico_add_one (by omega), filter_insert]

/-- The whole loop of `free_contiguous`. -/
lemma SetsFree.foldl_freeStep (h : Counted m) (hlo : 0x100 ≤ page) (hwrap : page + n ≤ modulus)
    (freed : Bool) :
    SetsFree m (m.freeSet ∪ m.covered page n)
      ((List.range n).foldl (PhysicalMemoryManager.freeStep page) (m, freed)).1 := by
  induction n with
  | zero => simpa [covered] using SetsFree.refl h
  | succ n ih =>
    have hprev := ih (by omega)
    have hall := hprev.trans (SetsFree.freeStep (i := n) hprev.counted hlo (by omega))
    rw [hprev.set_eq, hprev.total_eq] at hall
    rw [List.range_succ, List.foldl_append, List.foldl_cons, List.foldl_nil, covered_succ]
    split_ifs at hall ⊢
    · rwa [union_insert]
    · exact hall

/-- The end of `free_contiguous`, when the loop has only added pages: the statistics and the hint
are brought up to date. -/
lemma Inv.released (h : Inv m) (hr : SetsFree m S m') (hS : m.freeSet ⊆ S) (hlo : 0x100 ≤ page) :
    let r := m'.refreshStats
    let r' := if page < r.scanHint then { r with scanHint := page } else r
    Inv r' ∧ r'.freeSet = S := by
  have hpeak : m'.totalPages - m'.freePages ≤ m'.diagnostics.peakUsedPages := by
    have hle : m.freePages ≤ m'.freePages := by
      rw [h.free_eq, hr.counted.free_eq, hr.set_eq]
      exact card_le_card hS
    have := h.peak_ge
    rw [hr.total_eq, hr.peak_eq]
    omega
  have htotal : m'.stats.totalPages = m'.totalPages := by
    rw [hr.statsTotal_eq, hr.total_eq, h.stats_total]
  have hhint : 0x100 ≤ m'.scanHint := by rw [hr.hint_eq]; exact h.hint_ge
  dsimp only
  split
  · exact ⟨⟨hr.counted.congr rfl rfl rfl, hlo, htotal, rfl, rfl, hpeak⟩, hr.set_eq⟩
  · exact ⟨⟨hr.counted.congr rfl rfl rfl, hhint, htotal, rfl, rfl, hpeak⟩, hr.set_eq⟩

/-- Whether a release is accepted: a page-aligned address above the low megabyte and at least one
page. -/
def releaseAccepted (physical pageCount : ℕ) : Prop :=
  ¬ (physical = 0 ∨ physical % kPageSize ≠ 0 ∨ physical / kPageSize < 0x100 ∨ pageCount = 0)

/-- `free_contiguous` keeps the invariant; an accepted release adds the pages it covers to the
free set, a rejected one changes nothing but a counter. -/
lemma freeContiguous_spec (h : Inv m) (hwrap : physical / kPageSize + n ≤ modulus) :
    Inv (m.freeContiguous physical n) ∧
      (releaseAccepted physical n → (m.freeContiguous physical n).freeSet =
        m.freeSet ∪ m.covered (physical / kPageSize) n) ∧
      (¬ releaseAccepted physical n → (m.freeContiguous physical n).freeSet = m.freeSet) := by
  unfold freeContiguous releaseAccepted
  set d : PhysicalMemoryDiagnostics :=
    { m.diagnostics with freeContiguousCalls := m.diagnostics.freeContiguousCalls + 1 } with hd
  have hc : Inv { m with diagnostics := d } := h.withDiagnostics d rfl
  set c : PhysicalMemoryManager := { m with diagnostics := d } with hcdef
  simp only [Bool.or_eq_true, decide_eq_true_eq, or_assoc, not_not]
  split
  · next hbad =>
    exact ⟨hc.withDiagnostics _ rfl, fun hgood => absurd hbad hgood, fun _ => rfl⟩
  next hgood =>
    have hlo : 0x100 ≤ physical / kPageSize := by
      by_contra hlt
      exact hgood (.inr (.inr (.inl (not_le.mp hlt))))
    have hrel := SetsFree.foldl_freeStep hc.toCounted hlo hwrap false
    have hrel' : SetsFree c (c.freeSet ∪ c.covered (physical / kPageSize) n)
        (if ((List.range n).foldl (freeStep (physical / kPageSize)) (c, false)).2 = true then
          ((List.range n).foldl (freeStep (physical / kPageSize)) (c, false)).1
        else
          ((List.range n).foldl (freeStep (physical / kPageSize)) (c,
            false)).1.countInvalidFree) := by
      split
      · exact hrel
      · exact hrel.countInvalidFree
    obtain ⟨hinv, hset⟩ := hc.released hrel' subset_union_left hlo
    exact ⟨hinv, fun _ => hset, fun hbad => absurd hbad hgood⟩

/-- `free_page` is `free_contiguous` of one page, after counting the call. -/
lemma freePage_spec (h : Inv m) (hwrap : physical / kPageSize + 1 ≤ modulus) :
    Inv (m.freePage physical) ∧
      (releaseAccepted physical 1 → (m.freePage physical).freeSet =
        m.freeSet ∪ m.covered (physical / kPageSize) 1) ∧
      (¬ releaseAccepted physical 1 → (m.freePage physical).freeSet = m.freeSet) := by
  have hc : Inv { m with diagnostics :=
      { m.diagnostics with freePageCalls := m.diagnostics.freePageCalls + 1 } } :=
    h.withDiagnostics _ rfl
  exact freeContiguous_spec hc hwrap

/-! ### The number of pages -/

lemma totalPages_takePage (m : PhysicalMemoryManager) (page : ℕ) :
    (m.takePage page).1.totalPages = m.totalPages := by
  simp [takePage, totalPages_updatePeakUsed, refreshStats]

lemma totalPages_allocatePage (m : PhysicalMemoryManager) :
    m.allocatePage.1.totalPages = m.totalPages := by
  unfold allocatePage
  dsimp only
  split
  · exact totalPages_takePage _ _
  · split
    · exact totalPages_takePage _ _
    · rfl

lemma totalPages_freeStep (page : ℕ) (acc : PhysicalMemoryManager × Bool) (i : ℕ) :
    (freeStep page acc i).1.totalPages = acc.1.totalPages := by
  unfold freeStep
  dsimp only
  split
  · rfl
  · exact setUsed_totalPages _ _

lemma totalPages_freePage (m : PhysicalMemoryManager) (physical : ℕ) :
    (m.freePage physical).totalPages = m.totalPages := by
  unfold freePage freeContiguous
  dsimp only
  split
  · rfl
  · rw [List.range_one, List.foldl_cons, List.foldl_nil]
    split_ifs <;> simp [refreshStats, countInvalidFree, totalPages_freeStep]

lemma freePage_managed (h : Inv m) (hlo : 0x100 ≤ page) (hhi : page < m.totalPages) :
    Inv (m.freePage (page * kPageSize)) ∧
      (m.freePage (page * kPageSize)).freeSet = insert page m.freeSet := by
  have hdiv : page * kPageSize / kPageSize = page := Nat.mul_div_cancel page (by decide)
  have htotal := h.total_le
  have hwrap : page * kPageSize / kPageSize + 1 ≤ modulus := by
    rw [hdiv]
    simp only [kPmmBitmapPages, modulus] at htotal ⊢
    omega
  obtain ⟨hinv, hfree, -⟩ := freePage_spec h hwrap
  refine ⟨hinv, ?_⟩
  rw [hfree, hdiv]
  · ext q
    simp only [covered, mem_union, mem_filter, mem_Ico, mem_insert]
    constructor
    · rintro (hq | hq)
      · exact .inr hq
      · exact .inl (by omega)
    · rintro (rfl | hq)
      · exact .inr ⟨⟨le_rfl, by omega⟩, hhi⟩
      · exact .inl hq
  · unfold releaseAccepted
    rw [hdiv]
    simp only [kPageSize]
    omega

end IanOS.PhysicalMemoryManager
