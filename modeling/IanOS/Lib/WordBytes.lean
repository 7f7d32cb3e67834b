import IanOS.Lib.WordStack

/-!
# The bytes of a memory of words

A memory that is kept as a map from addresses to words of eight bytes, with the words at the
multiples of eight, is also a memory of bytes: `load` reads a byte, and `store` writes a run of
bytes, which may begin and end in the middle of a word.
-/

namespace IanOS.WordBytes

variable {words : ℕ → Word64} {a n x k : ℕ} {f : ℕ → UInt8}

/-- Byte `k` of a word, counted from the lowest. -/
def byteOf (w : Word64) (k : ℕ) : UInt8 := UInt8.ofNat (w.toNat / 256 ^ k)

/-- The number with the bytes `f 0`, ..., `f (n - 1)`. -/
def join (f : ℕ → UInt8) : ℕ → ℕ
  | 0 => 0
  | n + 1 => (f 0).toNat + 256 * join (fun k => f (k + 1)) n

/-- The word with the bytes `f 0`, ..., `f 7`. -/
def ofBytes (f : ℕ → UInt8) : Word64 := BitVec.ofNat 64 (join f 8)

lemma join_lt (f : ℕ → UInt8) (n : ℕ) : join f n < 256 ^ n := by
  induction n generalizing f with
  | zero => simp [join]
  | succ n ih =>
    have hfirst := (f 0).toNat_lt
    have hrest := ih fun k => f (k + 1)
    rw [join]
    omega

lemma join_div_mod (hk : k < n) (f : ℕ → UInt8) : join f n / 256 ^ k % 256 = (f k).toNat := by
  induction n generalizing f k with
  | zero => omega
  | succ n ih =>
    have hfirst := (f 0).toNat_lt
    cases k with
    | zero =>
      rw [join]
      omega
    | succ k =>
      have hdrop : join f (n + 1) / 256 = join (fun k => f (k + 1)) n := by
        rw [join]
        omega
      rw [pow_succ', ← Nat.div_div_eq_div_mul, hdrop, ih (by omega)]

lemma byteOf_ofBytes (hk : k < 8) : byteOf (ofBytes f) k = f k := by
  have hlt : join f 8 < 2 ^ 64 := join_lt f 8
  apply UInt8.toNat_inj.1
  rw [byteOf, ofBytes, BitVec.toNat_ofNat, Nat.mod_eq_of_lt hlt]
  exact join_div_mod hk f

/-- The byte at an address. -/
def load (words : ℕ → Word64) (a : ℕ) : UInt8 := byteOf (words (a / 8 * 8)) (a % 8)

/-- Write the bytes `f 0`, ..., `f (n - 1)` from address `a` on. -/
def store (words : ℕ → Word64) (a n : ℕ) (f : ℕ → UInt8) : ℕ → Word64 := fun w =>
  if w % 8 = 0 ∧ a < w + 8 ∧ w < a + n then
    ofBytes fun k => if a ≤ w + k ∧ w + k < a + n then f (w + k - a) else byteOf (words w) k
  else words w

lemma load_store : load (store words a n f) x =
    if a ≤ x ∧ x < a + n then f (x - a) else load words x := by
  have hx : x / 8 * 8 + x % 8 = x := by omega
  have hlt : x % 8 < 8 := Nat.mod_lt x (by norm_num)
  rw [load, store]
  split_ifs with hword hin hin
  · rw [byteOf_ofBytes hlt, hx, if_pos hin]
  · rw [byteOf_ofBytes hlt, hx, if_neg hin, load]
  · omega
  · rw [load]

end IanOS.WordBytes
