import Mathlib.Tactic
import Mathlib.Data.List.Chain

/-!
# Lists of segments that tile an interval

A list of segments, each with a start and a stop, *tiles* `[a, b)` when the first one starts at
`a`, every next one starts where the one before stops, and the last one stops at `b`.  Segments are
never empty, so they are in address order and pairwise disjoint; replacing one by a list that tiles
its own extent keeps the whole a tiling.

`Sparse` says that no two neighbours both have a given mark.  For a list of memory blocks with the
mark "free" this is the statement that free blocks are coalesced.
-/

namespace IanOS.Tiling

section Tiles

variable {β : Type*} (start stop : β → ℕ)

/-- The segments cover `[a, b)` from left to right, without gaps. -/
def Tiles : ℕ → ℕ → List β → Prop
  | a, b, [] => a = b
  | a, b, x :: l => start x = a ∧ a < stop x ∧ Tiles (stop x) b l

variable {start stop} {a b : ℕ} {l ys : List β} {x y : β}

lemma tiles_append :
    Tiles start stop a b (l ++ ys) ↔ ∃ c, Tiles start stop a c l ∧ Tiles start stop c b ys := by
  induction l generalizing a with
  | nil => simp [Tiles]
  | cons x l ih =>
    simp only [List.cons_append, Tiles, ih]
    constructor
    · rintro ⟨h1, h2, c, h3, h4⟩
      exact ⟨c, ⟨h1, h2, h3⟩, h4⟩
    · rintro ⟨c, ⟨h1, h2, h3⟩, h4⟩
      exact ⟨h1, h2, c, h3, h4⟩

lemma Tiles.le (h : Tiles start stop a b l) : a ≤ b := by
  induction l generalizing a with
  | nil => exact le_of_eq h
  | cons x l ih => exact le_trans (le_of_lt h.2.1) (ih h.2.2)

lemma Tiles.bounds (h : Tiles start stop a b l) (hx : x ∈ l) :
    a ≤ start x ∧ start x < stop x ∧ stop x ≤ b := by
  induction l generalizing a with
  | nil => simp at hx
  | cons y l ih =>
    obtain ⟨hstart, hlt, hrest⟩ := h
    rcases List.mem_cons.mp hx with rfl | hx
    · exact ⟨le_of_eq hstart.symm, by rw [hstart]; exact hlt, hrest.le⟩
    · obtain ⟨h1, h2, h3⟩ := ih hrest hx
      exact ⟨by omega, h2, h3⟩

/-- Segments of a tiling come in order and do not overlap. -/
lemma Tiles.pairwise (h : Tiles start stop a b l) : l.Pairwise fun x y => stop x ≤ start y := by
  induction l generalizing a with
  | nil => exact List.Pairwise.nil
  | cons x l ih =>
    obtain ⟨-, -, hrest⟩ := h
    exact List.Pairwise.cons (fun y hy => (hrest.bounds hy).1) (ih hrest)

/-- Replacing a segment by segments that tile its extent. -/
lemma Tiles.replace (h : Tiles start stop a b (l ++ x :: ys))
    (hz : Tiles start stop (start x) (stop x) zs) : Tiles start stop a b (l ++ (zs ++ ys)) := by
  obtain ⟨c, hxs, hstart, -, hys⟩ := tiles_append.mp h
  rw [hstart] at hz
  exact tiles_append.mpr ⟨c, hxs, tiles_append.mpr ⟨_, hz, hys⟩⟩

/-- Putting one segment in the place of two neighbours. -/
lemma Tiles.merge {z : β} (h : Tiles start stop a b (l ++ x :: y :: ys))
    (hstart : start z = start x) (hstop : stop z = stop y) :
    Tiles start stop a b (l ++ z :: ys) := by
  obtain ⟨c, hxs, hx, hlt, hy, hlt', hys⟩ := tiles_append.mp h
  refine tiles_append.mpr ⟨c, hxs, hstart.trans hx, ?_, ?_⟩
  · omega
  · rwa [hstop]

/-- Neighbours touch. -/
lemma Tiles.stop_eq_start (h : Tiles start stop a b (l ++ x :: y :: ys)) : stop x = start y := by
  obtain ⟨c, -, -, -, hy, -⟩ := tiles_append.mp h
  exact hy.symm

end Tiles

section Sparse

variable {β : Type*} (mark : β → Bool)

/-- No two neighbours are both marked. -/
def Sparse (l : List β) : Prop := l.IsChain fun x y => ¬ (mark x = true ∧ mark y = true)

variable {mark} {l ys zs : List β} {x y : β}

lemma Sparse.left (h : Sparse mark (l ++ ys)) : Sparse mark l := h.left_of_append

lemma Sparse.right (h : Sparse mark (l ++ ys)) : Sparse mark ys := h.right_of_append

/-- An unmarked element separates. -/
lemma sparse_append_cons (hx : mark x = false) :
    Sparse mark (l ++ x :: ys) ↔ Sparse mark l ∧ Sparse mark ys := by
  unfold Sparse
  rw [List.isChain_append, List.isChain_cons]
  constructor
  · rintro ⟨h1, ⟨-, h2⟩, -⟩
    exact ⟨h1, h2⟩
  rintro ⟨h1, h2⟩
  refine ⟨h1, ⟨fun y _ hxy => ?_, h2⟩, ?_⟩
  · rw [hx] at hxy
    exact Bool.false_ne_true hxy.1
  rintro y - z hz hyz
  obtain rfl : x = z := by simpa using hz
  rw [hx] at hyz
  exact Bool.false_ne_true hyz.2

/-- What a marked element asks of its neighbours. -/
lemma sparse_append_cons_marked (hx : mark x = true) :
    Sparse mark (l ++ x :: ys) ↔
      (Sparse mark l ∧ ∀ y ∈ l.getLast?, mark y = false) ∧
        (Sparse mark ys ∧ ∀ y ∈ ys.head?, mark y = false) := by
  unfold Sparse
  rw [List.isChain_append, List.isChain_cons]
  simp only [hx, true_and, Bool.not_eq_true, List.head?_cons, Option.mem_def, Option.some.injEq,
    forall_eq', and_true]
  tauto

/-- An element with the same mark may take another's place. -/
lemma Sparse.replace (h : Sparse mark (l ++ x :: ys)) (hxy : mark y = mark x) :
    Sparse mark (l ++ y :: ys) := by
  cases hx : mark x with
  | false =>
    rw [sparse_append_cons hx] at h
    exact (sparse_append_cons (hxy.trans hx)).mpr h
  | true =>
    rw [sparse_append_cons_marked hx] at h
    exact (sparse_append_cons_marked (hxy.trans hx)).mpr h

end Sparse
end IanOS.Tiling
