import Mathlib.Tactic

/-!
# Tables of slots

A table is an array of slots of which the first `count` are in use.  Records are looked up by
scanning for the first slot in use that satisfies a condition, and a new record goes into the first
slot in use that is free, or else into the next slot.  When the live records have distinct keys, a
lookup by key finds the one record with that key.
-/

namespace IanOS

open List

structure Table (α : Type*) where
  slot : ℕ → α
  count : ℕ

namespace Table

variable {α : Type*} (t : Table α) {used : α → Bool} {a : α} {free : α → Prop} {capacity : ℕ}

/-- The first slot in use that satisfies `p`. -/
def find (p : α → Prop) [DecidablePred p] : Option ℕ :=
  (range t.count).find? fun i => decide (p (t.slot i))

def set (i : ℕ) (a : α) : Table α := { t with slot := Function.update t.slot i a }

def modify (i : ℕ) (f : α → α) : Table α := t.set i (f (t.slot i))

/-- A loop over all slots. -/
def mapSlots (f : α → α) : Table α := { t with slot := fun i => f (t.slot i) }

/-- A slot for a new record: the first free slot in use, or the next one while there is room. -/
def allocate (free : α → Prop) [DecidablePred free] (capacity : ℕ) : Option (ℕ × Table α) :=
  match t.find free with
  | some i => some (i, t)
  | none => if capacity ≤ t.count then none else some (t.count, { t with count := t.count + 1 })

@[simp] lemma count_set (i : ℕ) (a : α) : (t.set i a).count = t.count := rfl

@[simp] lemma count_modify (i : ℕ) (f : α → α) : (t.modify i f).count = t.count := rfl

lemma slot_set (i : ℕ) (a : α) (j : ℕ) : (t.set i a).slot j = if j = i then a else t.slot j := by
  simp [set, Function.update_apply]

@[simp] lemma slot_set_self (i : ℕ) (a : α) : (t.set i a).slot i = a := by
  simp [slot_set]

lemma slot_modify (i : ℕ) (f : α → α) (j : ℕ) :
    (t.modify i f).slot j = if j = i then f (t.slot j) else t.slot j := by
  rw [modify, slot_set]
  split
  · next h => rw [h]
  · rfl

@[simp] lemma slot_modify_self (i : ℕ) (f : α → α) : (t.modify i f).slot i = f (t.slot i) := by
  simp [slot_modify]

lemma modify_modify (i : ℕ) (f g : α → α) :
    (t.modify i f).modify i g = t.modify i fun a => g (f a) := by
  simp [modify, set]

/-- A loop that changes the first `n` slots. -/
lemma foldl_modify_range (f : α → α) (n : ℕ) :
    ((range n).foldl (fun t i => t.modify i f) t).count = t.count ∧
      ∀ i, ((range n).foldl (fun t i => t.modify i f) t).slot i =
        if i < n then f (t.slot i) else t.slot i := by
  induction n with
  | zero => simp
  | succ n ih =>
    obtain ⟨hcount, hslot⟩ := ih
    rw [range_succ, foldl_concat]
    refine ⟨hcount, fun i => ?_⟩
    rw [slot_modify, hslot]
    split_ifs <;> first | rfl | omega

/-- A slot whose record is marked as used. -/
def InUse (used : α → Bool) (i : ℕ) : Prop := i < t.count ∧ used (t.slot i)

lemma inUse_set {i : ℕ} {j : ℕ} :
    (t.set i a).InUse used j ↔ if j = i then i < t.count ∧ used a else t.InUse used j := by
  rw [InUse, slot_set, count_set]
  split
  · next h => rw [h]
  · rfl

lemma inUse_of_set {i j : ℕ} (h : (t.set i a).InUse used j) :
    j = i ∧ used a ∨ t.InUse used j ∧ j ≠ i := by
  rw [inUse_set] at h
  split at h
  · next hj => exact .inl ⟨hj, h.2⟩
  · next hj => exact .inr ⟨h, hj⟩

/-- Overwriting a slot that is not used by a record that is not. -/
lemma inUse_set_of_unused {i : ℕ} (h : ¬used (t.slot i)) (ha : used a = false) (j : ℕ) :
    (t.set i a).InUse used j ↔ t.InUse used j := by
  rw [inUse_set]
  split
  · next hj => simp [InUse, hj, h, ha]
  · rfl

variable {t} {p q : α → Prop} [DecidablePred p] [DecidablePred q] {i : ℕ}

lemma find_eq_some : t.find p = some i ↔ i < t.count ∧ p (t.slot i) ∧ ∀ j < i, ¬ p (t.slot j) := by
  rw [find, find?_range_eq_some]
  simp only [mem_range, decide_eq_true_eq, Bool.not_eq_true', decide_eq_false_iff_not]
  tauto

lemma find_eq_none : t.find p = none ↔ ∀ i < t.count, ¬ p (t.slot i) := by
  simp [find]

lemma find_isSome : (t.find p).isSome ↔ ∃ i < t.count, p (t.slot i) := by
  rw [← not_iff_not, Option.not_isSome_iff_eq_none, find_eq_none]
  push Not
  rfl

/-- A lookup depends only on the answers its condition gives on the slots in use. -/
lemma find_congr {t' : Table α} (hcount : t'.count = t.count)
    (hslot : ∀ i < t.count, (q (t'.slot i) ↔ p (t.slot i))) : t'.find q = t.find p := by
  rw [find, hcount]
  apply find?_congr
  intro i hi
  simp [hslot i (mem_range.1 hi)]

/-! ## Keys -/

variable (t) in
/-- Live records have distinct keys. -/
def Distinct (live : α → Prop) (key : α → ℕ) : Prop :=
  ∀ i < t.count, ∀ j < t.count, live (t.slot i) → live (t.slot j) →
    key (t.slot i) = key (t.slot j) → i = j

variable {live : α → Prop} {key : α → ℕ}

lemma Distinct.find_eq (h : t.Distinct live key) (hi : i < t.count) (hlive : live (t.slot i))
    (hp : p (t.slot i)) (hkey : ∀ a, p a → live a ∧ key a = key (t.slot i)) :
    t.find p = some i := by
  rw [find_eq_some]
  refine ⟨hi, hp, fun j hj hpj => ?_⟩
  obtain ⟨hlj, hkj⟩ := hkey _ hpj
  have hij := h j (by omega) i hi hlj hlive hkj
  omega

/-! ## New records -/

/-- A record has been put into a slot that was free or unused, and the others are as before. -/
structure Placed (free : α → Prop) (t t' : Table α) (i : ℕ) (a : α) : Prop where
  lt : i < t'.count
  le : t.count ≤ t'.count
  old : ∀ k < t'.count, k ≠ i → k < t.count ∧ t'.slot k = t.slot k
  new : t'.slot i = a
  wasFree : i < t.count → free (t.slot i)

/-- The slot for a new record: a free one in use, or the next one. -/
lemma allocate_eq_some [DecidablePred free] {t' : Table α}
    (h : t.allocate free capacity = some (i, t')) : t'.slot = t.slot ∧
      (i < t.count ∧ free (t.slot i) ∧ t'.count = t.count ∨
        i = t.count ∧ t.count < capacity ∧ t'.count = t.count + 1) := by
  rw [allocate] at h
  split at h
  · next j hj =>
    obtain ⟨rfl, rfl⟩ : j = i ∧ t = t' := by simpa using h
    obtain ⟨hlt, hfree, -⟩ := find_eq_some.1 hj
    exact ⟨rfl, .inl ⟨hlt, hfree, rfl⟩⟩
  · split at h
    · cases h
    · next hroom =>
      obtain ⟨rfl, rfl⟩ : t.count = i ∧ { t with count := t.count + 1 } = t' := by simpa using h
      exact ⟨rfl, .inr ⟨rfl, not_le.1 hroom, rfl⟩⟩

/-- A slot that is free can be given out. -/
lemma isSome_allocate [DecidablePred free] (hi : i < t.count) (hfree : free (t.slot i)) :
    (t.allocate free capacity).isSome := by
  obtain ⟨k, hk⟩ := Option.isSome_iff_exists.1 (find_isSome.2 ⟨i, hi, hfree⟩)
  rw [allocate, hk]
  rfl

lemma allocate_placed [DecidablePred free] {t' : Table α}
    (h : t.allocate free capacity = some (i, t')) (a : α) : Placed free t (t'.set i a) i a := by
  obtain ⟨hslot, hcases⟩ := allocate_eq_some h
  have hold (hcount : ∀ k < t'.count, k ≠ i → k < t.count) :
      ∀ k < (t'.set i a).count, k ≠ i → k < t.count ∧ (t'.set i a).slot k = t.slot k := by
    intro k hk hne
    exact ⟨hcount k hk hne, by rw [slot_set, if_neg hne, hslot]⟩
  obtain ⟨hlt, hfree, hcount⟩ | ⟨rfl, -, hcount⟩ := hcases
  · exact ⟨hcount ▸ hlt, hcount.ge, hold fun k hk _ => hcount ▸ hk, t'.slot_set_self _ _,
      fun _ => hfree⟩
  refine ⟨?_, ?_, hold fun k hk hne => ?_, t'.slot_set_self _ _,
    fun hlt => absurd hlt (lt_irrefl _)⟩
  · rw [count_set]
    omega
  · rw [count_set]
    omega
  · omega

/-- A record with a new key keeps the keys distinct. -/
lemma Placed.distinct {t' : Table α} (hp : Placed free t t' i a) (h : t.Distinct live key)
    (hnew : ∀ k < t.count, live (t.slot k) → key (t.slot k) ≠ key a) : t'.Distinct live key := by
  intro j hj k hk hjlive hklive heq
  by_cases hji : j = i
  · by_cases hki : k = i
    · exact hji.trans hki.symm
    obtain ⟨hk', hslot⟩ := hp.old k hk hki
    rw [hji, hp.new, hslot] at heq
    rw [hslot] at hklive
    exact absurd heq.symm (hnew k hk' hklive)
  · obtain ⟨hj', hjslot⟩ := hp.old j hj hji
    rw [hjslot] at hjlive heq
    by_cases hki : k = i
    · rw [hki, hp.new] at heq
      exact absurd heq (hnew j hj' hjlive)
    · obtain ⟨hk', hkslot⟩ := hp.old k hk hki
      rw [hkslot] at hklive heq
      exact h j hj' k hk' hjlive hklive heq

end Table
end IanOS
