import Mathlib.Tactic
import Mathlib.Data.Finset.Card

/-!
# Bitmaps stored in bytes

A bitmap keeps one flag per index in an array of bytes: index `i` is bit `i & 7` of byte
`i >> 3`.  `test` and `assign` are the two byte-level accesses; `test_assign` is the one fact about
them later modules use, that an assignment changes exactly its own flag.

The flags that are clear below a bound form a finite set (`clearBelow`), and assigning a flag
inserts into it or erases from it.  This is what makes a free counter kept beside a bitmap exact.
-/

namespace IanOS

open BitVec

/-- A bitmap, as the array of bytes that stores it. -/
def Bitmap : Type := ℕ → BitVec 8

namespace Bitmap

/-- The byte with only the bit of index `i` set. -/
def mask (i : ℕ) : BitVec 8 := 1#8 <<< (i % 8)

/-- The flag of index `i`: the byte that holds it, masked. -/
def test (b : Bitmap) (i : ℕ) : Bool := (b (i / 8) &&& mask i) != 0#8

/-- Set or clear the flag of index `i` by a read-modify-write of its byte. -/
def assign (b : Bitmap) (i : ℕ) (v : Bool) : Bitmap := fun k =>
  if k = i / 8 then (if v then b k ||| mask i else b k &&& ~~~mask i) else b k

/-- The bitmap with every flag set. -/
def full : Bitmap := fun _ => 0xff#8

lemma mask_getLsbD (i j : ℕ) : (mask i).getLsbD j = (decide (j < 8) && decide (j = i % 8)) := by
  have hi : i % 8 < 8 := Nat.mod_lt _ (by norm_num)
  rw [mask]
  by_cases hj : j < 8
  · by_cases hij : j = i % 8
    · subst hij
      simp [hi]
    by_cases hlt : j < i % 8
    · simp [hlt, hij]
    · have hsub : j - i % 8 ≠ 0 := by omega
      simp [hij, hsub]
  · simp [hj]

/-- Masking with a single bit and comparing with zero reads that bit. -/
lemma and_mask_ne_zero (x : BitVec 8) (i : ℕ) : ((x &&& mask i) != 0#8) = x.getLsbD (i % 8) := by
  have hi : i % 8 < 8 := Nat.mod_lt _ (by norm_num)
  cases hx : x.getLsbD (i % 8) with
  | true =>
    have hne : x &&& mask i ≠ 0#8 := by
      intro h0
      have hbit : (x &&& mask i).getLsbD (i % 8) = false := by rw [h0]; simp
      rw [getLsbD_and, mask_getLsbD, hx] at hbit
      simp [hi] at hbit
    simpa using hne
  | false =>
    have heq : x &&& mask i = 0#8 := by
      apply eq_of_getLsbD_eq
      intro j hj
      by_cases hij : j = i % 8
      · subst hij
        simp [hx]
      · simp [mask_getLsbD, hij]
    simp [heq]

lemma test_eq_getLsbD (b : Bitmap) (i : ℕ) : b.test i = (b (i / 8)).getLsbD (i % 8) :=
  and_mask_ne_zero _ _

lemma test_full (i : ℕ) : full.test i = true := by
  rw [test_eq_getLsbD]
  have hbit : (allOnes 8).getLsbD (i % 8) = true := by
    rw [getLsbD_allOnes]
    exact decide_eq_true (Nat.mod_lt _ (by norm_num))
  exact hbit

/-- An assignment changes exactly the flag it names. -/
theorem test_assign (b : Bitmap) (i j : ℕ) (v : Bool) :
    (b.assign i v).test j = if j = i then v else b.test j := by
  have hj : j % 8 < 8 := Nat.mod_lt _ (by norm_num)
  rw [test_eq_getLsbD, test_eq_getLsbD, assign]
  by_cases hbyte : j / 8 = i / 8
  · by_cases hji : j = i
    · subst hji
      cases v <;> simp [mask_getLsbD, hj]
    have hbit : j % 8 ≠ i % 8 := by omega
    rw [if_pos hbyte, if_neg hji]
    cases v with
    | true =>
      rw [if_pos rfl, getLsbD_or, mask_getLsbD]
      simp [hbit]
    | false =>
      rw [if_neg Bool.false_ne_true, getLsbD_and, getLsbD_not, mask_getLsbD]
      simp [hbit, hj]
  · have hji : j ≠ i := fun h => hbyte (by rw [h])
    simp [hbyte, hji]

/-! ## The set of clear flags -/

/-- The indices below `n` whose flag is clear. -/
def clearBelow (b : Bitmap) (n : ℕ) : Finset ℕ :=
  (Finset.range n).filter fun i => b.test i = false

@[simp] lemma mem_clearBelow {b : Bitmap} {n i : ℕ} :
    i ∈ b.clearBelow n ↔ i < n ∧ b.test i = false := by
  simp [clearBelow]

lemma clearBelow_assign_false {b : Bitmap} {n i : ℕ} (hi : i < n) :
    (b.assign i false).clearBelow n = insert i (b.clearBelow n) := by
  ext j
  by_cases hji : j = i
  · subst hji
    simp [test_assign, hi]
  · simp [test_assign, hji]

lemma clearBelow_assign_true (b : Bitmap) (n i : ℕ) :
    (b.assign i true).clearBelow n = (b.clearBelow n).erase i := by
  ext j
  by_cases hji : j = i
  · subst hji
    simp [test_assign]
  · simp [test_assign, hji]

end Bitmap
end IanOS
