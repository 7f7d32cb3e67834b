import IanOS.Lib.Word

/-!
# Pages

The page size and the rounding of addresses to page boundaries (`kernel/include/hk/mm/pmm.hpp`),
with what the rounding does to page numbers.  Rounding up is exact only while the sum
`value + 4095` stays inside a word.
-/

namespace IanOS

open Word

variable {v : ℕ}

/-- Size of a page in bytes. -/
def kPageSize : ℕ := 4096

/-- Rounding to page boundaries, the default alignment of the source's helpers. -/
def pageAlignDown (value : ℕ) : ℕ := alignDown value kPageSize

@[inherit_doc pageAlignDown]
def pageAlignUp (value : ℕ) : ℕ := alignUp value kPageSize

lemma pageAlignDown_eq (hv : v < modulus) : pageAlignDown v = v / kPageSize * kPageSize :=
  alignDown_two_pow (k := 12) hv (by norm_num)

lemma pageAlignDown_div (hv : v < modulus) : pageAlignDown v / kPageSize = v / kPageSize := by
  rw [pageAlignDown_eq hv, Nat.mul_div_cancel _ (by norm_num [kPageSize])]

lemma pageAlignUp_div (hv : v + (kPageSize - 1) < modulus) :
    pageAlignUp v / kPageSize = (v + (kPageSize - 1)) / kPageSize := by
  have hle : v + 2 ^ 12 ≤ modulus := by
    simp only [kPageSize] at hv
    omega
  have hup : pageAlignUp v = (v + 2 ^ 12 - 1) / 2 ^ 12 * 2 ^ 12 :=
    alignUp_two_pow (k := 12) hle (by norm_num)
  rw [hup, show (2 : ℕ) ^ 12 = kPageSize from rfl, Nat.mul_div_cancel _ (by norm_num [kPageSize])]
  rfl

end IanOS
