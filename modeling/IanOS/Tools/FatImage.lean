import Mathlib

/-!
# The builder of the disk image

`tools/make_fat_image.py`: the search for the size of the FAT and of the image.
-/

namespace IanOS.FatImage

/-! ## The code -/

/-- `math.ceil(n / 512)`.  The quotient is a double, so it is exact only up to some size. -/
structure CeilQuotient where
  ceil : ℕ → ℕ
  exact : ∀ n < 2 ^ 53, ceil n = (n + 511) / 512

def dataSectors (total fatSectors : ℕ) : ℕ := total - 1 - 2 * fatSectors - 32

def clusters (total fatSectors : ℕ) : ℕ := dataSectors total fatSectors / 4

section

variable (q : CeilQuotient)

def needed (total fatSectors : ℕ) : ℕ := q.ceil ((clusters total fatSectors + 2) * 2)

open Classical in
/-- `while True`: each step returns or goes on.  `none` if the loop goes on for ever. -/
noncomputable def whileTrue (step : ℕ → Option (ℕ ⊕ ℕ)) (n : ℕ) : Option ℕ :=
  (PFun.fix (fun n => step n : ℕ →. ℕ ⊕ ℕ) n).toOption

/-- The loop of `fat_geometry`, which starts with one sector.  The other numbers that are returned
follow from the total and the size of the FAT. -/
noncomputable def fatGeometry (total : ℕ) : ℕ → Option ℕ :=
  whileTrue fun fatSectors =>
    if needed q total fatSectors = fatSectors then some (.inl fatSectors)
    else some (.inr (needed q total fatSectors))

def alignUp (value align : ℕ) : ℕ := (value + align - 1) / align * align

/-- The loop of `choose_total_sectors`, which starts with 32768 sectors. -/
noncomputable def chooseTotalSectors (required : ℕ) : ℕ → Option ℕ :=
  whileTrue fun total => do
    let fatSectors ← fatGeometry q total 1
    if dataSectors total fatSectors ≥ required ∧
      clusters total fatSectors > 4085 then some (.inl total)
    else some (.inr (alignUp (total + 2048) 2048))

end

/-! ## Where the search ends -/

/-- There is an entry for each cluster and the two reserved ones, and all areas fit. -/
def Holds (total fatSectors : ℕ) : Prop :=
  clusters total fatSectors + 2 ≤ fatSectors * 256 ∧
    1 + 2 * fatSectors + 32 + 4 * clusters total fatSectors ≤ total

variable {q : CeilQuotient} {t f g : ℕ}

section

variable {step : ℕ → Option (ℕ ⊕ ℕ)} {n b : ℕ}

lemma whileTrue_eq_some :
    whileTrue step n = some b ↔ b ∈ PFun.fix (fun n => step n : ℕ →. ℕ ⊕ ℕ) n := by
  classical exact Part.toOption_eq_some_iff

lemma whileTrue_eq : whileTrue step n = (step n).bind (Sum.elim some (whileTrue step)) := by
  refine Option.ext fun b => ?_
  refine (whileTrue_eq_some.trans PFun.mem_fix_iff).trans ?_
  simp [Option.bind_eq_some_iff, whileTrue_eq_some]

end

lemma fatGeometry_eq : fatGeometry q t f =
    if needed q t f = f then some f else fatGeometry q t (needed q t f) := by
  rw [fatGeometry, whileTrue_eq]
  split_ifs <;> rfl

lemma chooseTotalSectors_eq {required : ℕ} : chooseTotalSectors q required t =
    (fatGeometry q t 1).bind fun f =>
      if dataSectors t f ≥ required ∧ clusters t f > 4085 then some t
      else chooseTotalSectors q required (alignUp (t + 2048) 2048) := by
  rw [chooseTotalSectors, whileTrue_eq]
  cases fatGeometry q t 1 with
  | none => rfl
  | some f =>
    dsimp only [Option.bind_eq_bind, Option.bind_some]
    split_ifs <;> rfl

lemma fixed_of_fatGeometry (h : fatGeometry q t f = some g) : needed q t g = g := by
  refine PFun.fixInduction' (C := fun _ => needed q t g = g) (whileTrue_eq_some.1 h)
    (fun f hf => ?_)
    fun _ _ _ _ hfix => hfix
  split_ifs at hf with hfix
  · cases Part.mem_some_iff.1 hf
    exact hfix
  · cases Part.mem_some_iff.1 hf

section

variable (ht : t < 2 ^ 53) (hmin : 32768 ≤ t)

include ht

lemma needed_eq (f : ℕ) : needed q t f = ((t - 33 - 2 * f) / 4 + 257) / 256 := by
  rw [needed, clusters, dataSectors, q.exact _ (by omega)]
  omega

include hmin

/-- A larger FAT leaves fewer clusters; the FAT is one sector less for 512 sectors of it. -/
lemma needed_le_needed (hfg : f ≤ g) (hg : g ≤ t / 1024 + 2) :
    needed q t g ≤ needed q t f ∧ needed q t f ≤ needed q t g + (g - f + 511) / 512 := by
  rw [needed_eq ht, needed_eq ht]
  omega

/-- The loop swings between two sizes exactly at these totals. -/
lemma cycle_iff (heven : t % 2 = 0) :
    needed q t f = f + 1 ∧ needed q t (f + 1) = f ↔ t = 1026 * f + 30 := by
  rw [needed_eq ht, needed_eq ht]
  omega

lemma exists_fatGeometry (hcycle : ∀ f, t ≠ 1026 * f + 30) (heven : t % 2 = 0)
    (hf : f ≤ t / 1024 + 2) :
    ∃ g, fatGeometry q t f = some g := by
  have hle (f : ℕ) : needed q t f ≤ t / 1024 + 2 := by rw [needed_eq ht]; omega
  -- the distance to the next size shrinks until it is at most one
  induction hd : (f - needed q t f) + (needed q t f - f)
    using Nat.strong_induction_on generalizing f with
  | _ d ih =>
    rw [fatGeometry_eq]
    split
    · exact ⟨_, rfl⟩
    · next hne =>
      refine ih _ ?_ (hle f) rfl
      obtain hlt | hlt := Nat.lt_or_gt_of_ne (Ne.symm hne)
      · have hnext := needed_le_needed (q := q) ht hmin hlt.le (hle f)
        have hback : needed q t f = f + 1 → needed q t (needed q t f) ≠ f := fun hone hback =>
          hcycle f ((cycle_iff ht hmin heven).1 ⟨hone, hone ▸ hback⟩)
        omega
      · have hnext := needed_le_needed (q := q) ht hmin hlt.le hf
        have hback : f = needed q t f + 1 → needed q t (needed q t f) ≠ f := fun hone hback =>
          hcycle _ ((cycle_iff ht hmin heven).1 ⟨hback.trans hone, hone ▸ rfl⟩)
        omega

lemma fatGeometry_eq_none (h : t % 1050624 = 509952) : fatGeometry q t f = none := by
  refine Option.eq_none_iff_forall_ne_some.2 fun g hg => ?_
  have hfix := fixed_of_fatGeometry hg
  rw [needed_eq ht] at hfix
  omega

lemma exists_holds (haligned : t % 2048 = 0) (h : t % 1050624 ≠ 509952) :
    ∃ g, fatGeometry q t 1 = some g ∧ Holds t g := by
  obtain ⟨g, hg⟩ :=
    exists_fatGeometry (q := q) (f := 1) ht hmin (fun f => by omega) (by omega) (by omega)
  have hfix := fixed_of_fatGeometry hg
  rw [needed_eq ht] at hfix
  refine ⟨g, hg, ?_⟩
  rw [Holds, clusters, dataSectors]
  omega

end

lemma dataSectors_le (ht : t ≤ 507904) (hmin : 32768 ≤ t) (h : fatGeometry q t 1 = some g) :
    dataSectors t g ≤ 506879 ∧ 4085 < clusters t g ∧ (t = 507904 → dataSectors t g = 506879) := by
  have hfix := fixed_of_fatGeometry h
  rw [needed_eq (by omega)] at hfix
  rw [clusters, dataSectors]
  omega

/-- The search for the size of the image gets no further than 509952 sectors. -/
lemma chooseTotalSectors_iff {required : ℕ} (ht : t ≤ 507904) (hmin : 32768 ≤ t)
    (haligned : t % 2048 = 0) :
    (∃ total, chooseTotalSectors q required t = some total) ↔ required ≤ 506879 := by
  induction hd : 507904 - t using Nat.strong_induction_on generalizing t with
  | _ d ih =>
    obtain ⟨g, hg, -⟩ := exists_holds (q := q) (t := t) (by omega) hmin haligned (by omega)
    obtain ⟨hle, hclusters, hlast⟩ := dataSectors_le ht hmin hg
    have hnext : alignUp (t + 2048) 2048 = t + 2048 := by rw [alignUp]; omega
    rw [chooseTotalSectors_eq, hg, Option.bind_some, hnext]
    split
    · next hfits => exact iff_of_true ⟨t, rfl⟩ (hfits.1.trans hle)
    · next hsmall =>
      by_cases hlt : t = 507904
      · have hnone :=
          fatGeometry_eq_none (q := q) (t := 509952) (f := 1) (by decide) (by decide) rfl
        rw [hlt, chooseTotalSectors_eq, hnone]
        refine iff_of_false (by simp) fun hreq => hsmall ⟨?_, hclusters⟩
        rwa [hlast hlt]
      · exact ih _ (by omega) (by omega) (by omega) (by omega) rfl

/-- A total that `choose_total_sectors` can pass on, below the size at which quotients are rounded.
-/
structure Total where
  sectors : ℕ
  min : 32768 ≤ sectors
  aligned : sectors % 2048 = 0
  exact : sectors < 2 ^ 53

/-- The search for the size of the FAT ends, with a FAT that is large enough and areas that fit,
exactly for the totals that do not differ from 509952 by a multiple of 1050624.  So the search for
the size of the image ends exactly if less than 509952 sectors are enough. -/
theorem geometry_terminates_iff (q : CeilQuotient) :
    (∀ t : Total, (∃ g, fatGeometry q t.sectors 1 = some g ∧ Holds t.sectors g) ↔
      t.sectors % 1050624 ≠ 509952) ∧
    ∀ required, (∃ total, chooseTotalSectors q required 32768 = some total) ↔
    required ≤ 506879 := by
  refine ⟨fun t => ⟨?_, exists_holds t.exact t.min t.aligned⟩,
    fun _ => chooseTotalSectors_iff (by decide) le_rfl rfl⟩
  rintro ⟨g, hg, -⟩ h
  rw [fatGeometry_eq_none t.exact t.min h] at hg
  cases hg

/-- The first total that is tried. -/
theorem geometry_terminates_first :
    ∃ g, fatGeometry ⟨fun n => (n + 511) / 512, fun _ _ => rfl⟩ 32768 1 = some g ∧ Holds 32768 g :=
  ((geometry_terminates_iff _).1 ⟨32768, le_rfl, rfl, by norm_num⟩).2 (by decide)

/-- An image of 249 MiB is tried and never left. -/
theorem geometry_hangs :
    fatGeometry ⟨fun n => (n + 511) / 512, fun _ _ => rfl⟩ 509952 1 = none ∧
      ¬∃ total,
        chooseTotalSectors ⟨fun n => (n + 511) / 512, fun _ _ => rfl⟩ 506880 32768 = some total :=
  ⟨fatGeometry_eq_none (by decide) (by decide) rfl,
    fun h => absurd ((chooseTotalSectors_iff (by decide) le_rfl rfl).1 h) (by decide)⟩

end IanOS.FatImage
