import Mathlib.Tactic

/-!
# Round robin

The slots of a table are tried in cyclic order, beginning behind the slot that was chosen last, and
the first slot that satisfies a condition is chosen.  The distance `wait N last i` says how many
slots are tried before slot `i` in a ring of `N` slots.  A choice never has a larger distance than
any other slot that satisfies the condition (`wait_le_of_pick`), and after a choice of another slot
the distance of a slot that satisfies it has become smaller (`wait_lt`).  So a slot that satisfies
the condition until it is chosen is chosen among the next `N` choices.  The ring may be larger than
the table: a table that grows up to `N` slots keeps the order of those it has.
-/

namespace IanOS.RoundRobin

open List Nat

variable {n N last i j : ℕ} {p : ℕ → Prop} [DecidablePred p]

/-- The slots in the order in which they are tried. -/
def order (n last : ℕ) : List ℕ := (range n).map fun step => (last + (step + 1)) % n

/-- The first slot behind `last` that satisfies `p`. -/
def pick (n last : ℕ) (p : ℕ → Prop) [DecidablePred p] : Option ℕ :=
  (order n last).find? fun i => p i

/-- The number of slots of a ring of `N` slots that are tried before slot `i`. -/
def wait (N last i : ℕ) : ℕ := if last < i then i - last - 1 else N + i - last - 1

lemma wait_lt_size (hlast : last < N) (hi : i < N) : wait N last i < N := by
  rw [wait]
  split <;> omega

lemma add_wait_mod (hlast : last < n) (hi : i < n) : (last + (wait n last i + 1)) % n = i := by
  rw [wait]
  split
  · have hsum : last + (i - last - 1 + 1) = i := by omega
    rw [hsum, mod_eq_of_lt hi]
  · have hsum : last + (n + i - last - 1 + 1) = i + n := by omega
    rw [hsum, add_mod_right, mod_eq_of_lt hi]

/-- Slot `i` is tried in step `wait n last i` and in no other. -/
lemma wait_add_mod {step : ℕ} (hlast : last < n) (hstep : step < n) :
    wait n last ((last + (step + 1)) % n) = step := by
  obtain hlt | hge := lt_or_ge (last + (step + 1)) n
  · rw [mod_eq_of_lt hlt, wait, if_pos (by omega)]
    omega
  have hmod : (last + (step + 1)) % n = last + (step + 1) - n := by
    rw [mod_eq_sub_mod hge, mod_eq_of_lt (by omega)]
  rw [wait, if_neg (by omega)]
  omega

lemma mem_order : i ∈ order n last ↔ i < n := by
  rw [order, mem_map]
  constructor
  · rintro ⟨step, hstep, rfl⟩
    exact mod_lt _ (by have := mem_range.1 hstep; omega)
  intro hi
  have hn : 0 < n := by omega
  have hlast : last % n < n := mod_lt _ hn
  refine ⟨wait n (last % n) i, mem_range.2 (wait_lt_size hlast hi), ?_⟩
  rw [← mod_add_mod, add_wait_mod hlast hi]

/-- The order depends only on the remainder of the last choice. -/
lemma order_mod : order n (last % n) = order n last := by
  apply map_congr_left
  intro step _
  rw [mod_add_mod]

lemma pick_eq_none : pick n last p = none ↔ ∀ i < n, ¬ p i := by
  simp only [pick, find?_eq_none, mem_order, decide_eq_true_eq]

/-- The choice satisfies the condition, and a slot that satisfies it is not tried earlier. -/
lemma pick_eq_some (hlast : last < n) :
    pick n last p = some j ↔ j < n ∧ p j ∧ ∀ i < n, p i → wait n last j ≤ wait n last i := by
  rw [pick, order, find?_map, Option.map_eq_some_iff]
  constructor
  · rintro ⟨step, hfind, rfl⟩
    obtain ⟨hp, hstep, hbefore⟩ := find?_range_eq_some.1 hfind
    have hstep : step < n := mem_range.1 hstep
    refine ⟨mod_lt _ (by omega), by simpa using hp, fun i hi hpi => ?_⟩
    rw [wait_add_mod hlast hstep]
    by_contra hless
    have := hbefore _ (not_le.1 hless)
    simp [add_wait_mod hlast hi, hpi] at this
  · rintro ⟨hj, hp, hfirst⟩
    refine ⟨wait n last j, find?_range_eq_some.2 ⟨?_, ?_, fun step hless => ?_⟩,
      add_wait_mod hlast hj⟩
    · simpa [add_wait_mod hlast hj] using hp
    · exact mem_range.2 (wait_lt_size hlast hj)
    have hstep : step < n := hless.trans (wait_lt_size hlast hj)
    have hnot : ¬ p ((last + (step + 1)) % n) := by
      intro hpi
      have := hfirst _ (mod_lt _ (by omega)) hpi
      rw [wait_add_mod hlast hstep] at this
      omega
    simpa using hnot

/-- A larger ring has the slots of the table in the same order. -/
lemma wait_mono (hlast : last < n) (hi : i < n) (hj : j < n) (hN : n ≤ N)
    (h : wait n last j ≤ wait n last i) : wait N last j ≤ wait N last i := by
  unfold wait at *
  split_ifs at * <;> omega

lemma wait_le_of_pick (hlast : last < n) (hN : n ≤ N) (h : pick n last p = some j) (hi : i < n)
    (hp : p i) : wait N last j ≤ wait N last i := by
  obtain ⟨hj, -, hfirst⟩ := (pick_eq_some hlast).1 h
  exact wait_mono hlast hi hj hN (hfirst i hi hp)

/-- When another slot is chosen, a slot has fewer slots before it. -/
lemma wait_lt (hlast : last < N) (hi : i < N) (hj : j < N) (hne : j ≠ i)
    (h : wait N last j ≤ wait N last i) : wait N j i < wait N last i := by
  unfold wait at *
  split_ifs at * <;> omega

/-- Two slots with the same distance are the same. -/
lemma wait_inj (hlast : last < n) (hi : i < n) (hj : j < n) (h : wait n last i = wait n last j) :
    i = j := by
  rw [← add_wait_mod hlast hi, h, add_wait_mod hlast hj]

end IanOS.RoundRobin
