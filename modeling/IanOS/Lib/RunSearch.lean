import Mathlib.Tactic

/-!
# Searching for a run of consecutive indices

A linear scan over a Boolean predicate that looks for `n` consecutive indices at which it holds,
keeping only where the current run started and how long it is.  `ScanInv` is the loop invariant;
from it, `findRun_some` and `findRun_none` say that the scan finds a run exactly when there is one
in the range it covers.  `countRuns` adds up all runs of a range in the same way (`countRuns_eq`).
-/

namespace IanOS.RunSearch

variable (p : ℕ → Bool) {lo n start page run : ℕ}

/-- The predicate holds on all of `[s, s + n)`. -/
def AllIn (s n : ℕ) : Prop := ∀ i, s ≤ i → i < s + n → p i = true

/-- Scan `fuel` indices from `page`, with a run of `run` indices that began at `start` behind it;
stop at the first run of length `n`. -/
def findRun (n : ℕ) : ℕ → ℕ → ℕ → ℕ → Option ℕ
  | 0, _, _, _ => none
  | fuel + 1, page, start, run =>
    if p page then
      let start := if run = 0 then page else start
      if run + 1 = n then some start else findRun n fuel (page + 1) start (run + 1)
    else findRun n fuel (page + 1) start 0

/-- What the scan knows when it is about to look at `page`, having begun at `lo`: the run behind it
is maximal, too short, and no run of length `n` lies before `page`. -/
structure ScanInv (lo n page start run : ℕ) : Prop where
  run_lt : run < n
  within : lo + run ≤ page
  start_eq : run ≠ 0 → start + run = page
  run_true : AllIn p (page - run) run
  maximal : page - run ≠ lo → p (page - run - 1) = false
  none_before : ∀ s, lo ≤ s → s + n ≤ page → ¬ AllIn p s n

variable {p}

lemma ScanInv.init (hn : 0 < n) : ScanInv p lo n lo start 0 where
  run_lt := hn
  within := by omega
  start_eq := by omega
  run_true := by intro i hi hlt; omega
  maximal := by omega
  none_before := by intro s hs hle; omega

/-- Looking at an index where the predicate fails ends the run. -/
lemma ScanInv.miss (h : ScanInv p lo n page start run) (hp : p page = false) :
    ScanInv p lo n (page + 1) start 0 where
  run_lt := by have := h.run_lt; omega
  within := by have := h.within; omega
  start_eq := by omega
  run_true := by intro i hi hlt; omega
  maximal := by intro _; simpa using hp
  none_before := by
    intro s hs hle hall
    rcases Nat.lt_or_ge (s + n) (page + 1) with hlt | hge
    · exact h.none_before s hs (by omega) hall
    · have hpage : p page = true := hall page (by have := h.run_lt; omega) (by omega)
      rw [hp] at hpage
      exact Bool.false_ne_true hpage

/-- Looking at an index where it holds extends the run, as long as it stays too short. -/
lemma ScanInv.hit (h : ScanInv p lo n page start run) (hp : p page = true) (hne : run + 1 ≠ n) :
    ScanInv p lo n (page + 1) (if run = 0 then page else start) (run + 1) where
  run_lt := by have := h.run_lt; omega
  within := by have := h.within; omega
  start_eq := by
    by_cases hr : run = 0
    · simp [hr]
    · have := h.start_eq hr
      simp only [hr, if_false]
      omega
  run_true := by
    intro i hi hlt
    rcases Nat.lt_or_ge i page with hip | hip
    · exact h.run_true i (by omega) (by have := h.within; omega)
    · have : i = page := by have := h.within; omega
      rw [this, hp]
  maximal := by
    intro hlo
    have hsub : page + 1 - (run + 1) = page - run := by omega
    rw [hsub] at hlo ⊢
    exact h.maximal hlo
  none_before := by
    -- A run ending exactly at `page` would need the `n - 1 > run` indices before it, but the run
    -- behind the scan is maximal.
    intro s hs hle hall
    rcases Nat.lt_or_ge (s + n) (page + 1) with hlt | hge
    · exact h.none_before s hs (by omega) hall
    have hrun := h.run_lt
    have hlo : page - run ≠ lo := by omega
    have hstop : p (page - run - 1) = false := h.maximal hlo
    have hgo : p (page - run - 1) = true := hall _ (by omega) (by omega)
    rw [hstop] at hgo
    exact Bool.false_ne_true hgo

/-- A run the scan reports is one, inside the range it was given. -/
theorem findRun_some {lo n fuel page start run s : ℕ} (h : ScanInv p lo n page start run)
    (hs : findRun p n fuel page start run = some s) :
    lo ≤ s ∧ s + n ≤ page + fuel ∧ AllIn p s n := by
  induction fuel generalizing page start run with
  | zero => simp [findRun] at hs
  | succ fuel ih =>
    cases hp : p page with
    | false =>
      rw [findRun, hp] at hs
      obtain ⟨h1, h2, h3⟩ := ih (h.miss hp) hs
      exact ⟨h1, by omega, h3⟩
    | true =>
      by_cases hn : run + 1 = n
      · simp only [findRun, hp, if_true, hn, Option.some.injEq] at hs
        have hwithin := h.within
        have hstart : s + run = page := by
          by_cases hr : run = 0
          · simp only [hr, if_true] at hs
            omega
          · simp only [hr, if_false] at hs
            have := h.start_eq hr
            omega
        refine ⟨by omega, by omega, ?_⟩
        intro i hi hlt
        rcases Nat.lt_or_ge i page with hip | hip
        · exact h.run_true i (by omega) (by omega)
        · have : i = page := by omega
          rw [this, hp]
      · simp only [findRun, hp, hn] at hs
        obtain ⟨h1, h2, h3⟩ := ih (h.hit hp hn) hs
        exact ⟨h1, by omega, h3⟩

/-- A scan that finds nothing has ruled out every run in its range. -/
theorem findRun_none {lo n fuel page start run : ℕ} (h : ScanInv p lo n page start run)
    (hnone : findRun p n fuel page start run = none) :
    ∀ s, lo ≤ s → s + n ≤ page + fuel → ¬ AllIn p s n := by
  induction fuel generalizing page start run with
  | zero => exact h.none_before
  | succ fuel ih =>
    intro s hs hle
    cases hp : p page with
    | false =>
      rw [findRun, hp] at hnone
      exact ih (h.miss hp) hnone s hs (by omega)
    | true =>
      by_cases hn : run + 1 = n
      · simp [findRun, hp, hn] at hnone
      · simp only [findRun, hp, hn] at hnone
        exact ih (h.hit hp hn) hnone s hs (by omega)

/-! ### Adding up runs -/

variable {hi : ℕ}

/-- Scan `fuel` indices from `page`, with a run of `run` indices behind it, and add up how often `n`
goes into the runs. -/
def countRuns (p : ℕ → Bool) (n : ℕ) : ℕ → ℕ → ℕ → ℕ → ℕ
  | 0, _, run, count => count + run / n
  | fuel + 1, page, run, count =>
    if p page then countRuns p n fuel (page + 1) (run + 1) count
    else countRuns p n fuel (page + 1) 0 (count + run / n)

/-- A run of `r.2` indices from `r.1` on that cannot be extended within `[lo, hi)`. -/
structure IsRun (p : ℕ → Bool) (lo hi : ℕ) (r : ℕ × ℕ) : Prop where
  pos : 0 < r.2
  le : lo ≤ r.1
  end_le : r.1 + r.2 ≤ hi
  all : AllIn p r.1 r.2
  left : r.1 = lo ∨ p (r.1 - 1) = false
  right : r.1 + r.2 = hi ∨ p (r.1 + r.2) = false

open Classical in
/-- All such runs. -/
noncomputable def runs (p : ℕ → Bool) (lo hi : ℕ) : Finset (ℕ × ℕ) :=
  {r ∈ Finset.range (hi + 1) ×ˢ Finset.range (hi + 1) | IsRun p lo hi r}

lemma mem_runs {r : ℕ × ℕ} : r ∈ runs p lo hi ↔ IsRun p lo hi r := by
  simp only [runs, Finset.mem_filter, Finset.mem_product, Finset.mem_range, and_iff_right_iff_imp]
  intro h
  have hle := h.end_le
  omega

lemma runs_eq_empty (h : hi ≤ lo) : runs p lo hi = ∅ := by
  refine Finset.eq_empty_of_forall_notMem fun r hr => ?_
  have hrun := mem_runs.1 hr
  have := hrun.pos
  have := hrun.le
  have := hrun.end_le
  omega

/-- The runs are the one at the lower end, if there is one, and those behind its end. -/
lemma isRun_iff {r : ℕ × ℕ} (hall : AllIn p lo run) (hle : lo + run ≤ hi)
    (hend : lo + run = hi ∨ p (lo + run) = false) :
    IsRun p lo hi r ↔ r = (lo, run) ∧ 0 < run ∨ IsRun p (lo + run + 1) hi r := by
  constructor
  · intro h
    -- no run crosses the index behind the first one, and one that starts before it is that one
    have hgap := h.all (lo + run)
    have hbefore := hall (r.1 - 1)
    have hbehind := hall (r.1 + r.2)
    grind [IsRun]
  · rintro (⟨rfl, hpos⟩ | h)
    · exact ⟨hpos, le_refl lo, hle, hall, .inl rfl, hend⟩
    · grind [IsRun]

lemma sum_runs {f : ℕ → ℕ} (hf : f 0 = 0) (hall : AllIn p lo run) (hle : lo + run ≤ hi)
    (hend : lo + run = hi ∨ p (lo + run) = false) :
    ∑ r ∈ runs p lo hi, f r.2 = f run + ∑ r ∈ runs p (lo + run + 1) hi, f r.2 := by
  rcases Nat.eq_zero_or_pos run with hzero | hpos
  · have heq : runs p lo hi = runs p (lo + run + 1) hi := by
      ext r
      rw [mem_runs, mem_runs, isRun_iff hall hle hend]
      simp [hzero]
    rw [heq, hzero, hf, Nat.zero_add]
  · have heq : runs p lo hi = insert (lo, run) (runs p (lo + run + 1) hi) := by
      ext r
      rw [Finset.mem_insert, mem_runs, mem_runs, isRun_iff hall hle hend, and_iff_left hpos]
    have hnew : (lo, run) ∉ runs p (lo + run + 1) hi := fun hmem => by
      have hlo := (mem_runs.1 hmem).le
      dsimp only at hlo
      omega
    rw [heq, Finset.sum_insert hnew]

/-- The scan adds up all runs of the range, from the start of the run behind it on. -/
lemma countRuns_eq (fuel page run count : ℕ) (hle : run ≤ page) (hall : AllIn p (page - run) run) :
    countRuns p n fuel page run count =
      count + ∑ r ∈ runs p (page - run) (page + fuel), r.2 / n := by
  induction fuel generalizing page run count with
  | zero =>
    rw [countRuns, Nat.add_zero, sum_runs (f := (· / n)) (Nat.zero_div n) hall (by omega)
      (.inl (by omega)), runs_eq_empty (by omega), Finset.sum_empty, Nat.add_zero]
  | succ fuel ih =>
    rw [countRuns]
    have hend : page + 1 + fuel = page + (fuel + 1) := by omega
    split_ifs with hp
    · have hstart : page + 1 - (run + 1) = page - run := by omega
      rw [ih (page + 1) (run + 1) count (by omega) ?_, hstart, hend]
      intro i hi hlt
      rcases Nat.lt_or_ge i page with hip | hip
      · exact hall i (by omega) (by omega)
      · rwa [show i = page by omega]
    · have hpage : page - run + run = page := by omega
      rw [ih (page + 1) 0 _ (by omega) (fun i hi hlt => absurd hlt (by omega)), Nat.sub_zero, hend,
        sum_runs (f := (· / n)) (Nat.zero_div n) hall (by omega)
          (.inr (by rwa [hpage, ← Bool.not_eq_true])), hpage, Nat.add_assoc]

/-- A scan that has a run of length `n` behind it counts something. -/
lemma countRuns_pos (hn : 0 < n) {fuel page run count : ℕ} (h : n ≤ run ∨ 0 < count) :
    0 < countRuns p n fuel page run count := by
  have hadd {run count : ℕ} (h : n ≤ run ∨ 0 < count) : 0 < count + run / n := by
    rcases h with h | h
    · exact Nat.add_pos_right count (Nat.div_pos h hn)
    · exact Nat.add_pos_left h (run / n)
  induction fuel generalizing page run count with
  | zero => exact hadd h
  | succ fuel ih =>
    rw [countRuns]
    split_ifs
    · exact ih (h.imp_left (by omega))
    · exact ih (.inr (hadd h))

/-- Something is counted exactly if the search for a run succeeds. -/
lemma countRuns_pos_iff (fuel page start : ℕ) (hrun : run < n) :
    0 < countRuns p n fuel page run 0 ↔ (findRun p n fuel page start run).isSome := by
  induction fuel generalizing page start run with
  | zero => simp [countRuns, findRun, Nat.div_eq_of_lt hrun]
  | succ fuel ih =>
    rw [countRuns, findRun]
    dsimp only
    generalize (if run = 0 then page else start) = first
    split_ifs with hp hfull
    · exact iff_of_true (countRuns_pos (by omega) (.inl hfull.ge)) rfl
    · exact ih (page + 1) first (by omega)
    · rw [Nat.div_eq_of_lt hrun]
      exact ih (page + 1) start (by omega)

end IanOS.RunSearch
