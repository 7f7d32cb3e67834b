import Mathlib.Tactic

/-!
# Copying between memories

A memory is a map from addresses to cells.  `load` reads a run of cells, `store` writes one, and
`fill` writes one value into a run; `memcpy` is a `store` of what a `load` read, and `memmove`
within one memory is the same, since the whole source is read before the destination is written.
-/

namespace IanOS.Bytes

open List

variable {α : Type*} {m : ℕ → α} {a n x : ℕ} {bs : List α}

/-- The `n` cells from address `a` on. -/
def load (m : ℕ → α) (a n : ℕ) : List α := (range n).map fun i => m (a + i)

/-- Write the cells of `bs` from address `a` on. -/
def store (m : ℕ → α) (a : ℕ) (bs : List α) : ℕ → α := fun x =>
  if a ≤ x then (bs[x - a]?).getD (m x) else m x

/-- Write `z` into the `n` cells from address `a` on. -/
def fill (m : ℕ → α) (a n : ℕ) (z : α) : ℕ → α := fun x => if a ≤ x ∧ x < a + n then z else m x

@[simp] lemma load_zero (m : ℕ → α) (a : ℕ) : load m a 0 = [] := rfl

@[simp] lemma length_load (m : ℕ → α) (a n : ℕ) : (load m a n).length = n := by
  simp [load]

lemma load_add (m : ℕ → α) (a n k : ℕ) : load m a (n + k) = load m a n ++ load m (a + n) k := by
  simp [load, range_add, Nat.add_assoc]

lemma load_congr {m' : ℕ → α} (h : ∀ i < n, m (a + i) = m' (a + i)) : load m a n = load m' a n := by
  apply map_congr_left
  intro i hi
  exact h i (mem_range.1 hi)

lemma take_drop_load (m : ℕ → α) (a n d k : ℕ) :
    ((load m a n).drop d).take k = load m (a + d) (min k (n - d)) := by
  apply ext_getElem
  · simp
  · simp [load, Nat.add_assoc]

lemma store_apply_of_notMem (h : x < a ∨ a + bs.length ≤ x) : store m a bs x = m x := by
  unfold store
  split
  · rw [getElem?_eq_none (by omega), Option.getD_none]
  · rfl

@[simp] lemma store_nil (m : ℕ → α) (a : ℕ) : store m a [] = m := by
  funext x
  simp [store]

/-- Two stores, the second directly behind the first. -/
lemma store_store (m : ℕ → α) (a : ℕ) (bs cs : List α) :
    store (store m a bs) (a + bs.length) cs = store m a (bs ++ cs) := by
  funext x
  simp only [store]
  by_cases ha : a ≤ x
  · rw [if_pos ha, if_pos ha]
    by_cases hb : a + bs.length ≤ x
    · have hnone : bs[x - a]? = none := getElem?_eq_none (by omega)
      rw [if_pos hb, getElem?_append_right (by omega), hnone, Option.getD_none, Nat.sub_sub]
    · rw [if_neg hb, getElem?_append_left (by omega)]
  · rw [if_neg ha, if_neg ha, if_neg (by omega)]

/-- What was stored is read back. -/
lemma load_store (h : bs.length = n) : load (store m a bs) a n = bs := by
  subst h
  apply ext_getElem
  · simp
  · intro i _ hi
    simp [load, store, hi]

/-- A store leaves the cells below it alone. -/
lemma load_store_below {b : ℕ} (bs : List α) (h : a + n ≤ b) :
    load (store m b bs) a n = load m a n := by
  apply load_congr
  intro i hi
  have hlt : ¬ b ≤ a + i := by omega
  simp [store, hlt]

/-- Storing within a run of cells or directly behind it. -/
lemma load_store_within (bs : List α) (h : a ≤ n) :
    load (store m a bs) 0 (max n (a + bs.length)) =
      (load m 0 n).take a ++ bs ++ (load m 0 n).drop (a + bs.length) := by
  apply ext_getElem
  · simp
    omega
  intro i hi _
  simp only [load, store, getElem_map, getElem_range, Nat.zero_add, getElem_append,
    length_append, length_take, length_map, length_range, getElem_take,
    getElem_drop, min_eq_left h]
  by_cases hlt : i < a
  · rw [if_neg (by omega), dif_pos (by omega), dif_pos hlt]
  rw [if_pos (by omega)]
  by_cases hin : i < a + bs.length
  · rw [dif_pos hin, dif_neg hlt, getElem?_eq_getElem (by omega), Option.getD_some]
  · rw [dif_neg hin, getElem?_eq_none (by omega), Option.getD_none]
    congr 1
    omega

/-- Extending a run of cells by copies of a value, or cutting it off. -/
lemma load_pad (z : α) (n s : ℕ) :
    load (fun i => if n ≤ i ∧ i < s then z else m i) 0 s =
      (load m 0 n).take s ++ replicate (s - n) z := by
  apply ext_getElem
  · simp
    omega
  intro i hi _
  rw [length_load] at hi
  simp only [load, getElem_map, getElem_range, getElem_append,
    length_take, length_map, length_range, getElem_take,
    getElem_replicate]
  by_cases hlt : i < n
  · rw [if_neg (by omega), dif_pos (by omega)]
  · rw [if_pos (by omega), dif_neg (by omega)]

end IanOS.Bytes
