import Mathlib

/-!
# The checksum of `cksum`

A word stands for a polynomial over the field with two elements, with its lowest bit at the highest
power. One round of `crc32_update` multiplies by `X` modulo the generator, so what is left at the
end is a remainder (`cksum_remainder`).
-/

namespace IanOS.Cksum

open Polynomial

/-- The body of the inner loop of `crc32_update`. -/
def round (crc : BitVec 32) : BitVec 32 :=
  let mask := 0 - (crc &&& 1#32)
  (crc >>> 1) ^^^ (0xedb88320 &&& mask)

def takeByte (crc : BitVec 32) (byte : BitVec 8) : BitVec 32 := round^[8] (crc ^^^ byte.setWidth 32)

def crc32Update (crc : BitVec 32) (data : List (BitVec 8)) : BitVec 32 :=
  ~~~(data.foldl takeByte (~~~crc))

/-- The sum that `_start` reports, from the bytes of each read. -/
def cksum (reads : List (List (BitVec 8))) : BitVec 32 := reads.foldl crc32Update 0

/-! ## Words as polynomials -/

noncomputable def poly {w : ℕ} (x : BitVec w) : (ZMod 2)[X] :=
  ofFn w fun i => if x.getMsbD i then 1 else 0

noncomputable def generator : (ZMod 2)[X] := X ^ 32 + poly (0xedb88320 : BitVec 32)

/-- The polynomial of a message, with the first byte at the highest power. -/
noncomputable def message : List (BitVec 8) → (ZMod 2)[X]
  | [] => 0
  | byte :: data => poly byte * X ^ (8 * data.length) + message data

lemma coeff_poly {w : ℕ} (x : BitVec w) (i : ℕ) :
    (poly x).coeff i = if x.getMsbD i then 1 else 0 := by
  by_cases hi : i < w
  · rw [poly, ofFn_coeff_eq_val_of_lt _ hi]
  · rw [poly, ofFn_coeff_eq_zero_of_ge _ (not_lt.1 hi), BitVec.getMsbD_of_ge _ _ (not_lt.1 hi)]
    rfl

lemma poly_injective {w : ℕ} {x y : BitVec w} (h : poly x = poly y) : x = y := by
  refine BitVec.eq_of_getMsbD_eq fun i _ => ?_
  have hcoeff := coeff_poly x i
  rw [h, coeff_poly] at hcoeff
  cases hx : x.getMsbD i <;> cases hy : y.getMsbD i <;> simp [hx, hy] at hcoeff ⊢

lemma poly_xor {w : ℕ} (x y : BitVec w) : poly (x ^^^ y) = poly x + poly y := by
  ext i
  rw [coeff_add, coeff_poly, coeff_poly, coeff_poly, BitVec.getMsbD_xor]
  cases x.getMsbD i <;> cases y.getMsbD i <;> decide

lemma poly_setWidth (x : BitVec 8) : poly (x.setWidth 32) = X ^ 24 * poly x := by
  ext i
  rw [coeff_X_pow_mul', coeff_poly, coeff_poly, BitVec.getMsbD_setWidth]
  by_cases hi : 24 ≤ i <;> simp [hi]

lemma X_mul_poly (x : BitVec 32) :
    X * poly x = poly (x >>> 1) + if x.getLsbD 0 then X ^ 32 else 0 := by
  ext i
  rw [coeff_add, coeff_poly, BitVec.getMsbD_ushiftRight, apply_ite (coeff · i),
    coeff_X_pow, coeff_zero]
  cases i with
  | zero => simp
  | succ i =>
    rw [coeff_X_mul, coeff_poly]
    obtain hi | rfl | hi := lt_trichotomy i 31
    · simp [Nat.succ_lt_succ hi, hi.ne]
    · simp [BitVec.getMsbD]
    · simp [BitVec.getMsbD_of_ge x i hi, hi.ne']

lemma monic_generator : generator.Monic := monic_X_pow_add (ofFn_degree_lt _)

lemma mask_eq (x c : BitVec 32) : c &&& (0 - (x &&& 1#32)) = if x.getLsbD 0 then c else 0#32 := by
  rw [BitVec.and_one_eq_setWidth_ofBool_getLsbD]
  cases x.getLsbD 0
  · simp
  · exact BitVec.and_allOnes

open AdjoinRoot (mk)

lemma mk_round (x : BitVec 32) : mk generator (poly (round x)) = mk generator (X * poly x) := by
  rw [round, mask_eq, X_mul_poly]
  split
  · -- the generator vanishes, and minus is plus
    have hsub : generator ∣ poly (0xedb88320 : BitVec 32) - X ^ 32 := by
      rw [CharTwo.sub_eq_add, add_comm]
      exact dvd_rfl
    rw [poly_xor, map_add, map_add, AdjoinRoot.mk_eq_mk.2 hsub]
  · rw [BitVec.xor_zero, add_zero]

lemma mk_iterate (n : ℕ) (x : BitVec 32) :
    mk generator (poly (round^[n] x)) = mk generator (X ^ n * poly x) := by
  induction n generalizing x with
  | zero => simp
  | succ n ih =>
    rw [Function.iterate_succ_apply, ih, map_mul, mk_round, ← map_mul, pow_succ, mul_assoc]

lemma mk_foldl (data : List (BitVec 8)) (x : BitVec 32) :
    mk generator (poly (data.foldl takeByte x)) =
    mk generator (X ^ (8 * data.length) * poly x + X ^ 32 * message data) := by
  induction data generalizing x with
  | nil => simp [message]
  | cons byte data ih =>
    have hbyte : mk generator (poly (takeByte x byte)) =
        mk generator (X ^ 8 * (poly x + X ^ 24 * poly byte)) := by
      rw [takeByte, mk_iterate, poly_xor, poly_setWidth]
    rw [List.foldl_cons, ih, map_add, map_mul, hbyte, ← map_mul, ← map_add, message,
      List.length_cons]
    exact congrArg _ (by ring)

lemma crc32Update_append (crc : BitVec 32) (a b : List (BitVec 8)) :
    crc32Update (crc32Update crc a) b = crc32Update crc (a ++ b) := by
  rw [crc32Update, crc32Update, crc32Update, BitVec.not_not, List.foldl_append]

/-- The remainder of a message behind 32 ones. -/
noncomputable def remainder (data : List (BitVec 8)) : (ZMod 2)[X] :=
  (X ^ (8 * data.length) * poly (BitVec.allOnes 32) + X ^ 32 * message data) %ₘ generator

lemma poly_foldl (data : List (BitVec 8)) :
    poly (data.foldl takeByte (BitVec.allOnes 32)) = remainder data := by
  have hdeg : (poly (data.foldl takeByte (BitVec.allOnes 32))).degree < generator.degree := by
    have hX : (X ^ 32 : (ZMod 2)[X]).degree = (32 : ℕ) := degree_X_pow 32
    rw [generator, degree_add_eq_left_of_degree_lt (by rw [hX]; exact ofFn_degree_lt _), hX]
    exact ofFn_degree_lt _
  rw [remainder, ← (modByMonic_eq_self_iff monic_generator).2 hdeg]
  exact modByMonic_eq_of_dvd_sub monic_generator (AdjoinRoot.mk_eq_mk.1 (mk_foldl data _))

/-- Updates compose, and however the input is cut into reads, the sum is the complement of the word
whose polynomial is the remainder of the whole. -/
theorem cksum_remainder (reads : List (List (BitVec 8))) :
    (∀ crc a b, crc32Update (crc32Update crc a) b = crc32Update crc (a ++ b)) ∧
      ∀ x, cksum reads = ~~~x ↔ poly x = remainder reads.flatten := by
  refine ⟨crc32Update_append, fun x => ?_⟩
  have hfold (crc : BitVec 32) : reads.foldl crc32Update crc = crc32Update crc reads.flatten := by
    induction reads generalizing crc with
    | nil => simp [crc32Update]
    | cons a reads ih => rw [List.foldl_cons, ih, crc32Update_append, List.flatten_cons]
  rw [cksum, hfold, crc32Update, BitVec.not_inj, ← poly_foldl]
  exact ⟨fun h => h ▸ rfl, fun h => poly_injective h.symm⟩

end IanOS.Cksum
