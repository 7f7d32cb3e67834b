import Mathlib.Tactic
import Mathlib.Data.Nat.Bitwise

/-!
# 64-bit words as natural numbers

Machine words are kept as natural numbers, with the reduction modulo `2 ^ 64` written out where
an operation can overflow.  This module has the two rounding operations every allocator is built
from: clearing the low bits of a word, and rounding a word up to a power-of-two boundary.  Both are
defined by the bit operations a machine performs and then characterised arithmetically.
-/

namespace IanOS.Word

open Nat

variable {k : ℕ}

/-- The number of values of a 64-bit word. -/
def modulus : ℕ := 2 ^ 64

/-- Rounding down as a machine does it: `value & ~(align - 1)`.  The complement of `align - 1` is
`2 ^ 64 - align`. -/
def alignDown (value align : ℕ) : ℕ := value &&& (modulus - align)

/-- Rounding up: `(value + align - 1) & ~(align - 1)`, where the sum is reduced to a word. -/
def alignUp (value align : ℕ) : ℕ := alignDown ((value + align - 1) % modulus) align

/-- Subtraction of words: the difference modulo `2 ^ 64`. -/
def sub (a b : ℕ) : ℕ := (a + (modulus - b)) % modulus

lemma sub_eq {a b : ℕ} (ha : a < modulus) (hb : b ≤ a) : sub a b = a - b := by
  rw [sub, show a + (modulus - b) = a - b + modulus by omega, add_mod_right,
    Nat.mod_eq_of_lt (by omega)]

lemma testBit_modulus_sub_two_pow (hk : k ≤ 64) (i : ℕ) :
    (modulus - 2 ^ k).testBit i = (decide (i < 64) && !decide (i < k)) := by
  have hpos : 0 < 2 ^ k := Nat.two_pow_pos k
  have hlt : 2 ^ k - 1 < 2 ^ 64 := by
    have hle : 2 ^ k ≤ 2 ^ 64 := Nat.pow_le_pow_right (by norm_num) hk
    omega
  have hsub : modulus - 2 ^ k = 2 ^ 64 - ((2 ^ k - 1) + 1) := by
    rw [modulus, Nat.sub_add_cancel hpos]
  rw [hsub, Nat.testBit_two_pow_sub_succ hlt, Nat.testBit_two_pow_sub_one]

/-- Clearing the low `k` bits of a word rounds it down to a multiple of `2 ^ k`. -/
theorem alignDown_two_pow {value k : ℕ} (hv : value < modulus) (hk : k ≤ 64) :
    alignDown value (2 ^ k) = value / 2 ^ k * 2 ^ k := by
  apply eq_of_testBit_eq
  intro i
  rw [alignDown, testBit_and, testBit_modulus_sub_two_pow hk, testBit_mul_two_pow,
    testBit_div_two_pow]
  by_cases hik : i < k
  · simp [hik]
  have hki : k ≤ i := Nat.not_lt.mp hik
  by_cases hi : i < 64
  · simp [hki, hi]
  have hbig : value.testBit i = false := by
    apply testBit_lt_two_pow
    calc value < 2 ^ 64 := hv
      _ ≤ 2 ^ i := Nat.pow_le_pow_right (by norm_num) (Nat.not_lt.mp hi)
  simp [hbig, hki]

/-- Rounding up, when adding `2 ^ k - 1` stays inside a word. -/
theorem alignUp_two_pow {value k : ℕ} (hv : value + 2 ^ k ≤ modulus) (hk : k ≤ 64) :
    alignUp value (2 ^ k) = (value + 2 ^ k - 1) / 2 ^ k * 2 ^ k := by
  have hpos : 0 < 2 ^ k := Nat.two_pow_pos k
  have hlt : value + 2 ^ k - 1 < modulus := by omega
  rw [alignUp, Nat.mod_eq_of_lt hlt, alignDown_two_pow hlt hk]

/-- Rounding up gives the first multiple of `2 ^ k` that is not below the word. -/
lemma alignUp_bounds {value : ℕ} (hv : value + 2 ^ k ≤ modulus) (hk : k ≤ 64) :
    value ≤ alignUp value (2 ^ k) ∧ alignUp value (2 ^ k) < value + 2 ^ k ∧
      alignUp value (2 ^ k) % 2 ^ k = 0 := by
  have hdiv := Nat.div_add_mod (value + 2 ^ k - 1) (2 ^ k)
  rw [mul_comm] at hdiv
  rw [alignUp_two_pow hv hk]
  exact ⟨by omega, by omega, mul_mod_left _ _⟩

lemma modulus_pos : 0 < modulus := Nat.two_pow_pos 64

end IanOS.Word
