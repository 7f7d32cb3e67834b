import Mathlib.Data.List.GetD
import Mathlib.Tactic

/-!
# Texts in buffers

A text in a buffer ends at the first zero.  `Spells` says which text a buffer holds; the functions
that work on buffers, those of a C string library and the loops that make or close a gap in a line,
are described by what they do to the text.

Loops that run to the end of a text are bounded by the size of the buffers.
-/

namespace IanOS.Text

open Function List Nat

variable {α : Type*} [Zero α]

/-- The buffer holds a text and a zero after it. -/
structure Spells (buffer : ℕ → α) (text : List α) : Prop where
  ne_zero : ∀ a ∈ text, a ≠ 0
  get : ∀ i ≤ text.length, buffer i = text.getD i 0

/-- A buffer with a text in it. -/
def ofList (text : List α) (i : ℕ) : α := text.getD i 0

namespace Spells

variable {buffer buffer' : ℕ → α} {text : List α} {i : ℕ}

lemma ofList (h : ∀ a ∈ text, a ≠ 0) : Spells (Text.ofList text) text := ⟨h, fun _ _ => rfl⟩

lemma nil (h : buffer 0 = 0) : Spells buffer [] := by
  refine ⟨by simp, fun i hi => ?_⟩
  obtain rfl := le_zero.1 hi
  exact h

section

variable (h : Spells buffer text)
include h

lemma congr (hsame : ∀ i ≤ text.length, buffer' i = buffer i) : Spells buffer' text :=
  ⟨h.ne_zero, fun i hi => (hsame i hi).trans (h.get i hi)⟩

lemma get_length : buffer text.length = 0 := by
  rw [h.get _ le_rfl, getD_eq_default _ _ le_rfl]

lemma get_lt (hi : i < text.length) : buffer i = text[i] := by
  rw [h.get i hi.le, getD_eq_getElem _ _ hi]

lemma get_ne_zero (hi : i < text.length) : buffer i ≠ 0 := by
  rw [h.get_lt hi]
  exact h.ne_zero _ (getElem_mem hi)

lemma get_eq_zero_iff (hi : i ≤ text.length) : buffer i = 0 ↔ i = text.length := by
  refine ⟨fun hzero => ?_, fun heq => heq ▸ h.get_length⟩
  by_contra hne
  exact h.get_ne_zero (lt_of_le_of_ne hi hne) hzero

/-- The zero at the end may be written again. -/
lemma update_length {n : ℕ} (hn : n = text.length) : Spells (update buffer n 0) text := by
  refine h.congr fun i _ => ?_
  rw [update_apply]
  split_ifs with heq
  · rw [heq, hn, h.get_length]
  · rfl

/-- What is left of the text from a place on. -/
lemma drop_eq (hi : i < text.length) : text.drop i = buffer i :: text.drop (i + 1) := by
  rw [h.get_lt hi, drop_eq_getElem_cons hi]

/-- The first part of the text, followed by zeros. -/
lemma take (n : ℕ) :
    Spells (fun i => if i < min text.length n then buffer i else 0) (text.take n) := by
  refine ⟨fun a ha => h.ne_zero a (mem_of_mem_take ha), fun i hi => ?_⟩
  split_ifs with hlt
  · rw [h.get i (by omega), getD_eq_getElem?_getD, getD_eq_getElem?_getD, getElem?_take,
      if_pos (by omega)]
  · rw [getD_eq_default]
    rw [length_take]
    omega

end

end Spells

/-! ## The string library -/

section Library

variable [DecidableEq α] {i n : ℕ}

/-- The number of places before the first zero, if it is within the next `n`. -/
def lengthUpTo (text : ℕ → α) : ℕ → ℕ → ℕ
  | 0, i => i
  | n + 1, i => if text i = 0 then i else lengthUpTo text n (i + 1)

/-- `copy_text`: as much as fits of a text, then zeros. -/
def copy (capacity : ℕ) (text : ℕ → α) : ℕ → α :=
  let n := lengthUpTo text (capacity - 1) 0
  fun i => if i < n then text i else 0

/-- `streq`. -/
def same (left right : ℕ → α) : ℕ → ℕ → Bool
  | 0, _ => false
  | n + 1, i =>
    if left i ≠ 0 ∧ right i ≠ 0 then
      if left i ≠ right i then false else same left right n (i + 1)
    else left i = 0 ∧ right i = 0

/-- `starts_with`. -/
def startsWith (text token : ℕ → α) : ℕ → ℕ → Bool
  | 0, _ => true
  | n + 1, i =>
    if token i = 0 then true
    else if text i ≠ token i then false
    else startsWith text token n (i + 1)

variable {buffer buffer' : ℕ → α} {text text' : List α}

section

variable (h : Spells buffer text)
include h

lemma lengthUpTo_eq (n : ℕ) (hi : i ≤ text.length) :
    lengthUpTo buffer n i = min text.length (i + n) := by
  induction n generalizing i with
  | zero => exact (min_eq_right hi).symm
  | succ n ih =>
    rw [lengthUpTo]
    split_ifs with hzero
    · have hend := (h.get_eq_zero_iff hi).1 hzero
      omega
    · have hlt : i < text.length := lt_of_le_of_ne hi ((h.get_eq_zero_iff hi).not.1 hzero)
      rw [ih hlt]
      omega

lemma lengthUpTo_eq_length (hn : text.length ≤ n) : lengthUpTo buffer n 0 = text.length := by
  rw [lengthUpTo_eq h n (zero_le _)]
  omega

lemma Spells.copy (capacity : ℕ) : Spells (copy capacity buffer) (text.take (capacity - 1)) := by
  refine (h.take (capacity - 1)).congr fun i _ => ?_
  rw [Text.copy, lengthUpTo_eq h _ (zero_le _), zero_add]

/-- A text that fits is copied whole. -/
lemma Spells.copy_of_lt {capacity : ℕ} (hlt : text.length < capacity) :
    Spells (Text.copy capacity buffer) text := by
  have hcopy := h.copy capacity
  rwa [take_of_length_le (by omega)] at hcopy

section

variable (h' : Spells buffer' text') (hi : i ≤ text.length) (hi' : i ≤ text'.length)
include h' hi hi'

lemma same_iff
    (hn : text.length < i + n) :
    same buffer buffer' n i = true ↔ text.drop i = text'.drop i := by
  induction n generalizing i with
  | zero => omega
  | succ n ih =>
    rw [same]
    by_cases hends : buffer i ≠ 0 ∧ buffer' i ≠ 0
    · have hlt : i < text.length := lt_of_le_of_ne hi ((h.get_eq_zero_iff hi).not.1 hends.1)
      have hlt' : i < text'.length := lt_of_le_of_ne hi' ((h'.get_eq_zero_iff hi').not.1 hends.2)
      rw [h.drop_eq hlt, h'.drop_eq hlt']
      split_ifs with hne
      · simp [hne]
      · rw [not_not] at hne
        rw [ih hlt hlt' (by omega)]
        simp [hne]
    · rw [if_neg hends, decide_eq_true_iff, h.get_eq_zero_iff hi, h'.get_eq_zero_iff hi']
      rw [ne_eq, ne_eq, h.get_eq_zero_iff hi, h'.get_eq_zero_iff hi'] at hends
      constructor
      · rintro ⟨hend, hend'⟩
        rw [drop_eq_nil_of_le hend.ge, drop_eq_nil_of_le hend'.ge]
      intro heq
      have hlen := congrArg length heq
      rw [length_drop, length_drop] at hlen
      omega

lemma startsWith_iff
    (hn : text'.length < i + n) :
    startsWith buffer buffer' n i = true ↔ text'.drop i <+: text.drop i := by
  induction n generalizing i with
  | zero => omega
  | succ n ih =>
    rw [startsWith]
    by_cases hend : buffer' i = 0
    · rw [if_pos hend, drop_eq_nil_of_le ((h'.get_eq_zero_iff hi').1 hend).ge]
      simp
    have hlt' : i < text'.length := lt_of_le_of_ne hi' ((h'.get_eq_zero_iff hi').not.1 hend)
    rw [if_neg hend, h'.drop_eq hlt']
    by_cases hfull : i = text.length
    · have hzero : buffer i = 0 := (h.get_eq_zero_iff hi).2 hfull
      rw [if_pos (by rw [hzero]; exact Ne.symm hend), drop_eq_nil_of_le hfull.ge]
      simp
    have hlt : i < text.length := lt_of_le_of_ne hi hfull
    rw [h.drop_eq hlt]
    split_ifs with hne
    · simp [Ne.symm hne]
    · rw [not_not] at hne
      rw [ih hlt hlt' (by omega)]
      simp [hne]

end

end

end Library

/-! ## Gaps -/

section Gaps

variable {α : Type*}

/-- The `n` places from `cursor` on move up by one, the last one first. -/
def shiftUp (line : ℕ → α) (cursor : ℕ) : ℕ → ℕ → α
  | 0 => line
  | n + 1 => shiftUp (update line (cursor + n + 1) (line (cursor + n))) cursor n

/-- The `n` places after `i` move down by one, the first one first. -/
def shiftDown (line : ℕ → α) (i : ℕ) : ℕ → ℕ → α
  | 0 => line
  | n + 1 => shiftDown (update line i (line (i + 1))) (i + 1) n

lemma shiftUp_apply (line : ℕ → α) (cursor n i : ℕ) :
    shiftUp line cursor n i = if cursor < i ∧ i ≤ cursor + n then line (i - 1) else line i := by
  induction n generalizing line with
  | zero => rw [shiftUp, if_neg (by omega)]
  | succ n ih =>
    rw [shiftUp, ih, update_apply, update_apply]
    rcases eq_or_ne i (cursor + n + 1) with rfl | hne
    · rw [if_neg (by omega : ¬(_ ∧ _)), if_pos rfl, if_pos (by omega), Nat.add_sub_cancel]
    split
    · rw [if_neg (by omega), if_pos (by omega)]
    · rw [if_neg (by omega)]

lemma shiftDown_apply (line : ℕ → α) (i n j : ℕ) :
    shiftDown line i n j = if i ≤ j ∧ j < i + n then line (j + 1) else line j := by
  induction n generalizing line i with
  | zero => rw [shiftDown, if_neg (by omega)]
  | succ n ih =>
    rw [shiftDown, ih, update_apply, update_apply]
    rcases eq_or_ne j i with rfl | hne
    · rw [if_neg (by omega), if_pos rfl, if_pos (by omega)]
    split
    · rw [if_neg (by omega), if_pos (by omega)]
    · rw [if_neg (by omega)]

end Gaps

namespace Spells

variable {buffer : ℕ → α} {before after : List α} {a : α} {n : ℕ}

/-- A gap is made and filled. -/
lemma insert (h : Spells buffer (before ++ after)) (ha : a ≠ 0) (hn : n = after.length + 1) :
    Spells (update (shiftUp buffer before.length n) before.length a) (before ++ a :: after) where
  ne_zero := by
    intro b hb
    rcases mem_append.1 hb with hleft | hright
    · exact h.ne_zero b (mem_append_left _ hleft)
    · rcases mem_cons.1 hright with rfl | hafter
      · exact ha
      · exact h.ne_zero b (mem_append_right _ hafter)
  get := by
    intro i hi
    rw [length_append, length_cons] at hi
    rw [update_apply, shiftUp_apply]
    rcases lt_trichotomy i before.length with hlt | rfl | hgt
    · rw [if_neg (by omega), if_neg (by omega), h.get i (by rw [length_append]; omega),
        getD_append _ _ _ _ hlt, getD_append _ _ _ _ hlt]
    · rw [if_pos rfl, getD_append_right _ _ _ _ le_rfl, Nat.sub_self, getD_cons_zero]
    obtain ⟨k, rfl⟩ : ∃ k, i = before.length + k + 1 := ⟨i - before.length - 1, by omega⟩
    rw [if_neg (by omega), if_pos (by omega), Nat.add_sub_cancel,
      h.get _ (by rw [length_append]; omega), getD_append_right _ _ _ _ (by omega),
      getD_append_right _ _ _ _ (by omega), Nat.add_sub_cancel_left]
    have hk : before.length + k + 1 - before.length = k + 1 := by omega
    rw [hk, getD_cons_succ]

/-- A place is taken out and the gap closed. -/
lemma remove (h : Spells buffer (before ++ a :: after)) (hn : n = after.length + 1) :
    Spells (shiftDown buffer before.length n) (before ++ after) where
  ne_zero := by
    intro b hb
    refine h.ne_zero b ?_
    rcases mem_append.1 hb with hleft | hright
    · exact mem_append_left _ hleft
    · exact mem_append_right _ (mem_cons_of_mem _ hright)
  get := by
    intro i hi
    rw [length_append] at hi
    rw [shiftDown_apply]
    rcases lt_or_ge i before.length with hlt | hge
    · rw [if_neg (by omega), h.get i (by rw [length_append]; omega), getD_append _ _ _ _ hlt,
        getD_append _ _ _ _ hlt]
    obtain ⟨k, rfl⟩ := Nat.exists_eq_add_of_le hge
    rw [if_pos (by omega), h.get _ (by rw [length_append, length_cons]; omega),
      getD_append_right _ _ _ _ (by omega), getD_append_right _ _ _ _ (by omega),
      Nat.add_sub_cancel_left]
    have hk : before.length + k + 1 - before.length = k + 1 := by omega
    rw [hk, getD_cons_succ]

/-- A letter is put at the end. -/
lemma concat (h : Spells buffer before) (ha : a ≠ 0) :
    Spells (update (update buffer before.length a) (before.length + 1) 0) (before ++ [a]) where
  ne_zero := by
    intro b hb
    rcases mem_append.1 hb with hleft | hright
    · exact h.ne_zero b hleft
    · rwa [mem_singleton.1 hright]
  get := by
    intro i hi
    rw [length_append, length_singleton] at hi
    rw [update_apply, update_apply]
    rcases lt_trichotomy i before.length with hlt | rfl | hgt
    · rw [if_neg (by omega), if_neg (by omega), h.get i hlt.le, getD_append _ _ _ _ hlt]
    · rw [if_neg (by omega), if_pos rfl, getD_append_right _ _ _ _ le_rfl, Nat.sub_self,
        getD_cons_zero]
    · rw [if_pos (by omega), getD_eq_default]
      rw [length_append, length_singleton]
      omega

end Spells
end IanOS.Text
