import Mathlib.Tactic

/-!
# Ring buffers

A buffer of `size` cells through which a stream of elements goes: element number `n` is kept in cell
`n % size`, until it has been taken out and the cell is used again.  `Holds` says that from element
`lo` on the stream is in the buffer.
-/

namespace IanOS.Ring

variable {α : Type*} {size lo : ℕ} {buf buf' : ℕ → α} {stream : List α} {a : α}

/-- The elements of the stream from number `lo` on are in their cells. -/
def Holds (size : ℕ) (buf : ℕ → α) (lo : ℕ) (stream : List α) : Prop :=
  ∀ n, lo ≤ n → n < stream.length → stream[n]? = some (buf (n % size))

/-- Elements less than `size` apart are in different cells. -/
lemma mod_ne_mod {m n : ℕ} (hlt : m < n) (hsize : n < m + size) : m % size ≠ n % size := by
  intro heq
  have hdvd : size ∣ n - m := (Nat.modEq_iff_dvd' hlt.le).1 heq
  exact absurd (Nat.le_of_dvd (by omega) hdvd) (by omega)

namespace Holds

lemma nil (buf : ℕ → α) : Holds size buf lo [] := fun _ _ hn => absurd hn (Nat.not_lt_zero _)

section

variable (h : Holds size buf lo stream)
include h

lemma mono {lo' : ℕ} (hle : lo ≤ lo') : Holds size buf lo' stream :=
  fun n hn hlt => h n (hle.trans hn) hlt

/-- Other cells may be written. -/
lemma congr (hsame : ∀ n, lo ≤ n → n < stream.length → buf' (n % size) = buf (n % size)) :
    Holds size buf' lo stream :=
  fun n hn hlt => (h n hn hlt).trans (congrArg some (hsame n hn hlt).symm)

/-- The cell of the next element is free if fewer than `size` are in the buffer. -/
lemma next_cell (hroom : stream.length < lo + size)
    (hsame : ∀ k, k ≠ stream.length % size → buf' k = buf k) : Holds size buf' lo stream :=
  h.congr fun _ hn hlt => hsame _ (mod_ne_mod hlt (by omega))

/-- The next element is in its cell. -/
lemma extend (ha : buf (stream.length % size) = a) : Holds size buf lo (stream ++ [a]) := by
  intro n hn hlt
  rcases Nat.lt_or_ge n stream.length with hold | hnew
  · rw [List.getElem?_append_left hold]
    exact h n hn hold
  · rw [List.length_append, List.length_singleton] at hlt
    obtain rfl : n = stream.length := by omega
    rw [List.getElem?_concat_length, ha]

/-- The cell of an element that has been taken out may be written. -/
lemma old_cell {k : ℕ} (hk : k < lo) (hsize : stream.length ≤ k + size)
    (hsame : ∀ i, i ≠ k % size → buf' i = buf i) : Holds size buf' lo stream :=
  h.congr fun _ hn hlt => hsame _ (mod_ne_mod (by omega) (by omega)).symm

end

end Holds
end IanOS.Ring
