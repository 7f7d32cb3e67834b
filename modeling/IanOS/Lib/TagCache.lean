import Mathlib.Tactic

/-!
# Caches with tags

A cache of `n` slots, each of which may hold a value under a key.  A key is looked up by scanning
the slots in order.  A cache is coherent with a function if every value it holds is the function's
value at its key, and no key is held twice.  Filling a slot keeps a cache coherent if the key is not
there yet; what the slot held before does not matter.
-/

namespace IanOS.TagCache

open Function

structure Entry (κ ν : Type*) where
  valid : Bool
  tag : κ
  data : ν

variable {κ ν : Type*} [DecidableEq κ] {n : ℕ} {f : κ → ν} {c : Fin n → Entry κ ν} {i j : Fin n}
  {k : κ} {v : ν}

/-- The value in the first valid slot with this key. -/
def lookup (c : Fin n → Entry κ ν) (k : κ) : Option ν :=
  ((List.finRange n).find? fun i => (c i).valid && decide ((c i).tag = k)).map fun i => (c i).data

/-- The number of valid slots. -/
def count (c : Fin n → Entry κ ν) : ℕ := (Finset.univ.filter fun i => (c i).valid = true).card

lemma exists_of_lookup (h : lookup c k = some v) :
    ∃ i, (c i).valid = true ∧ (c i).tag = k ∧ (c i).data = v := by
  obtain ⟨i, hfind, hdata⟩ := Option.map_eq_some_iff.1 h
  have hcond := List.find?_some hfind
  rw [Bool.and_eq_true, decide_eq_true_eq] at hcond
  exact ⟨i, hcond.1, hcond.2, hdata⟩

lemma ne_of_lookup_none (h : lookup c k = none) (hi : (c i).valid = true) : (c i).tag ≠ k := by
  intro htag
  have hnone := List.find?_eq_none.1 (Option.map_eq_none_iff.1 h) i (List.mem_finRange i)
  simp [hi, htag] at hnone

/-- The values are those of `f`, and no key is held twice. -/
structure Coherent (f : κ → ν) (c : Fin n → Entry κ ν) : Prop where
  data : ∀ i, (c i).valid = true → (c i).data = f (c i).tag
  distinct : ∀ i j, (c i).valid = true → (c j).valid = true → (c i).tag = (c j).tag → i = j

omit [DecidableEq κ] in
/-- A cache with no valid slot. -/
lemma coherent_of_invalid (f : κ → ν) (h : ∀ i, (c i).valid = false) : Coherent f c := by
  refine ⟨fun i hi => ?_, fun i j hi => ?_⟩ <;>
  · rw [h] at hi
    cases hi

lemma Coherent.eq_of_lookup (h : Coherent f c) (hk : lookup c k = some v) : v = f k := by
  obtain ⟨i, hvalid, htag, hdata⟩ := exists_of_lookup hk
  rw [← hdata, h.data i hvalid, htag]

/-- A key that is not held may go into any slot. -/
lemma Coherent.fill (h : Coherent f c) (hmiss : lookup c k = none) (i : Fin n) :
    Coherent f (update c i ⟨true, k, f k⟩) := by
  constructor
  · intro j hj
    by_cases hji : j = i
    · subst hji
      simp
    · rw [update_of_ne hji] at hj ⊢
      exact h.data j hj
  intro a b ha hb htag
  by_cases hai : a = i
  · by_cases hbi : b = i
    · rw [hai, hbi]
    · rw [update_of_ne hbi] at hb htag
      rw [hai, update_self] at htag
      exact absurd htag.symm (ne_of_lookup_none hmiss hb)
  · rw [update_of_ne hai] at ha htag
    by_cases hbi : b = i
    · rw [hbi, update_self] at htag
      exact absurd htag (ne_of_lookup_none hmiss ha)
    · rw [update_of_ne hbi] at hb htag
      exact h.distinct a b ha hb htag

end IanOS.TagCache
