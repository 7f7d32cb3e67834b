import IanOS.Loader.Runtime

/-!
# When there is room for the window

The identity window takes page tables from the allocator, and `map_kernel_identity_window` gives up
when there are none left.  Each page of the window needs at most three of them, so the function
succeeds if there are three free pages for each page of the window.
-/

namespace IanOS.Loader

open Paging
open Paging.State
open LinkTree (walk)

variable {s before : State} {root v requiredLimit : Word64} {start : PhysicalMemoryManager}
  {owned : List OwnedPage} {i n : ℕ} {M : Word64 → Prop}

/-- The frame of a page of the process is not at address zero. -/
lemma Sound.phys_ne_zero {o : OwnedPage} (h : Sound start root owned s) (hstart : start.Inv)
    (ho : o ∈ owned) : o.phys ≠ 0 := by
  have hmem : o.phys.toNat / kPageSize ∈ ownedPages owned :=
    List.mem_toFinset.2 (List.mem_map.2 ⟨o, ho, rfl⟩)
  have hlow := (hstart.free_range _ ((h.accounted.pages _).2 (.inr (.inr hmem)))).1
  intro hzero
  rw [hzero] at hlow
  cases hlow

/-- The function takes a page for free only if it is: user pages have translations other than zero.
-/
lemma Runtime.not_present (h : Runtime start root owned before M s)
    (hbuilt : Built start root owned before)
    (hstart : start.Inv) (hroot : root ≠ 0) (hv : LowerHalf v) (halign : v &&& 0xfff = 0)
    (hnew : ∀ w, M w → path w ≠ path v) (htrans : s.translate root v = 0) :
    ¬Present (leafOf s root v) := by
  intro hpres
  rcases h.leaves v hv with hsame | ⟨-, w, flags, hw, hpath, -⟩
  · rw [hsame] at hpres
    obtain ⟨o, ho, hpath⟩ := hbuilt.only v hv hpres
    obtain ⟨flags, huser⟩ := hbuilt.pages o ho
    have hwalk := (huser.grows h.grows).walk_eq (h.sound.frames o ho)
    rw [translate_eq hroot, ← hpath, hwalk, halign, Option.elim_some, BitVec.ofNat_toNat] at htrans
    exact h.sound.phys_ne_zero hstart ho ((BitVec.add_zero o.phys).symm.trans htrans)
  · exact hnew w hw hpath

/-- One page of a range is mapped, or passed over, if three pages are free. -/
lemma Runtime.mapUnlessMapped_room (flags : Word64) (h : Runtime start root owned before M s)
    (hbuilt : Built start root owned before) (hstart : start.Inv) (hroot : root ≠ 0)
    (hv : LowerHalf v) (halign : v &&& 0xfff = 0) (hnew : ∀ w, M w → path w ≠ path v)
    (hfree : 3 ≤ s.pmm.freeSet.card) :
    (Loader.mapUnlessMapped root v flags s).1 = true ∧
      Room 3 s (Loader.mapUnlessMapped root v flags s).2 := by
  have hinv := h.sound.accounted.inv
  rw [Loader.mapUnlessMapped]
  split
  · exact ⟨rfl, hinv, Nat.le_add_right _ _⟩
  · rename_i htrans
    exact mapPage_room flags h.sound.tables hv hroot halign halign
      (h.not_present hbuilt hstart hroot hv halign hnew (not_not.1 htrans)) hinv hfree

/-- If there are three free pages for each page of the window, then it is mapped. -/
lemma Built.window_room (h : Built start root owned s) (hstart : start.Inv) (hroot : root ≠ 0)
    (hsize : pagesBetween 0 (identityLimit requiredLimit) ≤ 2 ^ 29)
    (hfree : 3 * pagesBetween 0 (identityLimit requiredLimit) ≤ s.pmm.freeSet.card) :
    (mapKernelIdentityWindow root requiredLimit s).1 = true := by
  rw [mapKernelIdentityWindow]
  generalize pagesBetween 0 (identityLimit requiredLimit) = n at hsize hfree ⊢
  -- what is left of the free pages is enough for the rounds that are left
  refine Attempt.succeeds (P := fun i s' =>
    Runtime start root owned s (fun w => ∃ j < i, w = pageAbove 0 j) s' ∧
      3 * (n - i) ≤ s'.pmm.freeSet.card) ⟨?_, hfree⟩ ?_
  · exact h.runtime.mono (fun _ hw => hw.elim) fun _ ⟨j, hj, _⟩ => absurd hj j.not_lt_zero
  rintro i s' - hi ⟨hruntime, hroom⟩
  rw [Nat.zero_add] at hi
  have hnat (j : ℕ) (hj : j < n) : (pageAbove 0 j).toNat = j * kPageSize :=
    toNat_windowPage (by omega)
  have hv : LowerHalf (pageAbove 0 i) := by
    refine lowerHalf_of_lt ?_
    rw [hnat i hi]
    simp only [kPageSize]
    omega
  have halign : pageAbove 0 i &&& 0xfff = 0 := by
    rw [and_fff_eq_zero, hnat i hi, Nat.mul_mod_left]
  have hnew (w : Word64) (hw : ∃ j < i, w = pageAbove 0 j) : path w ≠ path (pageAbove 0 i) := by
    obtain ⟨j, hj, rfl⟩ := hw
    rw [Ne, path_eq_iff, pageNumber, pageNumber, hnat i hi, hnat j (by omega), mul_div_page,
      mul_div_page]
    omega
  obtain ⟨hok, hleft⟩ :=
    hruntime.mapUnlessMapped_room PageWrite h hstart hroot hv halign hnew (by omega)
  have hcard := hleft.card
  refine ⟨hok, ?_, by omega⟩
  have hset : (fun w => (∃ j < i, w = pageAbove 0 j) ∨ w = pageAbove 0 i) =
      fun w => ∃ j < i + 1, w = pageAbove 0 j := by
    simp only [Nat.lt_succ_iff_lt_or_eq, or_and_right, exists_or, exists_eq_left]
  rw [← hset]
  exact hruntime.mapUnlessMapped hv (by decide) (by decide) hok

/-! ## A machine with enough memory -/

/-- The bitmap in which the flags of the bytes from `first` to `last` are clear. -/
def clearBytes (first last : ℕ) : Bitmap := fun b => if first ≤ b ∧ b < last then 0 else 0xff

lemma clearBelow_clearBytes {first last : ℕ} (hlast : last * 8 ≤ n) :
    (clearBytes first last).clearBelow n = Finset.Ico (first * 8) (last * 8) := by
  ext p
  rw [Bitmap.mem_clearBelow, Finset.mem_Ico]
  by_cases hfree : first ≤ p / 8 ∧ p / 8 < last
  · have htest : (clearBytes first last).test p = false := by simp [Bitmap.test, clearBytes, hfree]
    rw [htest, eq_self, and_true]
    omega
  · have htest : (clearBytes first last).test p = Bitmap.full.test p := by
      simp only [Bitmap.test, clearBytes, if_neg hfree]
      rfl
    rw [htest, Bitmap.test_full, Bool.true_eq_false, and_false, false_iff]
    omega

/-- An allocator for one gigabyte of memory, which is free above the first megabyte. -/
def gigabyte : PhysicalMemoryManager where
  bitmap := clearBytes 0x20 0x8000
  totalPages := 0x40000
  freePages := 0x3ff00
  scanHint := 0x100
  stats := { totalPages := 0x40000, freePages := 0x3ff00, usedPages := 0x100 }
  diagnostics := { peakUsedPages := 0x100 }

lemma freeSet_gigabyte : gigabyte.freeSet = Finset.Ico 0x100 0x40000 :=
  clearBelow_clearBytes (by decide)

lemma inv_gigabyte : gigabyte.Inv where
  free_eq := by rw [freeSet_gigabyte, Nat.card_Ico]; rfl
  free_range p hp := by rwa [freeSet_gigabyte, Finset.mem_Ico] at hp
  total_le := by decide
  hint_ge := by decide
  stats_total := rfl
  stats_free := rfl
  stats_used := rfl
  peak_ge := by decide

end IanOS.Loader
