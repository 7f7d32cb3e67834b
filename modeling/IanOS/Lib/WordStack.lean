import Mathlib.Tactic

/-!
# A stack of words in a flat memory

Memory maps the address of a word to its contents; words on a stack lie eight bytes apart, the top
at the lowest address.  `StackAt mem sp ws` reads the words `ws` off the memory from `sp` upwards,
and the lemmas say what pushes, pops, loads and stores relative to the stack pointer do to that
list.  A symbolic execution of straight-line stack code is then a computation on lists.

Addresses wrap at `2 ^ 64`, so a list of words must be short enough not to meet itself; that is the
only side condition.
-/

namespace IanOS

open Function
namespace WordStack

/-- A machine word, also used as an address. -/
abbrev Word64 := BitVec 64

variable {mem : Word64 → Word64} {sp a v : Word64} {ws : List Word64} {i : ℕ}

/-- The words from `sp` upwards are `ws`. -/
def StackAt (mem : Word64 → Word64) : Word64 → List Word64 → Prop
  | _, [] => True
  | sp, w :: ws => mem sp = w ∧ StackAt mem (sp + 8) ws

/-- Address of the `i`-th word above `sp`. -/
def slot (sp : Word64) (i : ℕ) : Word64 := sp + BitVec.ofNat 64 (8 * i)

lemma slot_zero (sp : Word64) : slot sp 0 = sp := by simp [slot]

lemma slot_succ (sp : Word64) (i : ℕ) : slot (sp + 8) i = slot sp (i + 1) := by
  unfold slot
  rw [show 8 * (i + 1) = 8 + 8 * i by ring, BitVec.ofNat_add, BitVec.add_assoc]
  rfl

/-- Slots below `2 ^ 61` are distinct. -/
lemma slot_injective {j : ℕ} (hi : i < 2 ^ 61) (hj : j < 2 ^ 61) (h : slot sp i = slot sp j) :
    i = j := by
  have hnat := congrArg BitVec.toNat ((BitVec.add_right_inj sp).mp h)
  simp only [BitVec.toNat_ofNat] at hnat
  omega

/-- The word just below the stack is none of its slots. -/
lemma slot_ne_below (hi : i + 1 < 2 ^ 61) : slot sp i ≠ sp - 8 := by
  intro h
  have hbelow : sp - 8 = slot (sp - 8) 0 := (slot_zero _).symm
  have habove : slot sp i = slot (sp - 8) (i + 1) := by
    rw [← slot_succ, BitVec.sub_add_cancel]
  rw [hbelow, habove] at h
  exact absurd (slot_injective hi (by norm_num) h) (Nat.succ_ne_zero i)

lemma stackAt_update_of_ne (h : ∀ i < ws.length, slot sp i ≠ a) :
    StackAt (update mem a v) sp ws ↔ StackAt mem sp ws := by
  induction ws generalizing sp with
  | nil => rfl
  | cons w ws ih =>
    have hsp : sp ≠ a := by
      have := h 0 (by simp)
      rwa [slot_zero] at this
    have hrest : ∀ i < ws.length, slot (sp + 8) i ≠ a := by
      intro i hi
      rw [slot_succ]
      exact h (i + 1) (by simpa using hi)
    simp only [StackAt, update_of_ne hsp, ih hrest]

section

variable (h : StackAt mem sp ws)
include h

/-- A push puts a word on top. -/
lemma StackAt.push (hlen : ws.length < 2 ^ 60) (v : Word64) :
    StackAt (update mem (sp - 8) v) (sp - 8) (v :: ws) := by
  refine ⟨update_self _ _ _, ?_⟩
  rwa [BitVec.sub_add_cancel, stackAt_update_of_ne fun i hi => slot_ne_below (by omega)]

/-- A load above the stack pointer reads the list. -/
lemma StackAt.load (hi : i < ws.length) : mem (slot sp i) = ws[i] := by
  induction ws generalizing sp i with
  | nil => simp at hi
  | cons w ws ih =>
    cases i with
    | zero =>
      rw [slot_zero]
      exact h.1
    | succ i =>
      rw [← slot_succ]
      exact ih h.2 (by simpa using hi)

/-- A store above the stack pointer replaces a word of the list. -/
lemma StackAt.store (hi : i < ws.length) (hlen : ws.length < 2 ^ 60)
    (v : Word64) : StackAt (update mem (slot sp i) v) sp (ws.set i v) := by
  induction ws generalizing sp i with
  | nil => simp at hi
  | cons w ws ih =>
    rw [List.length_cons] at hlen hi
    cases i with
    | zero =>
      rw [slot_zero]
      refine ⟨update_self _ _ _, ?_⟩
      have hne : ∀ i < ws.length, slot (sp + 8) i ≠ sp := by
        intro i hi heq
        rw [slot_succ] at heq
        have hzero := slot_injective (by omega) (by norm_num) (heq.trans (slot_zero sp).symm)
        omega
      exact (stackAt_update_of_ne hne).mpr h.2
    | succ i =>
      have hsp : sp ≠ slot sp (i + 1) := by
        intro heq
        have hzero := slot_injective (by norm_num) (by omega) ((slot_zero sp).trans heq)
        omega
      refine ⟨by rw [update_of_ne hsp]; exact h.1, ?_⟩
      rw [← slot_succ]
      exact ih h.2 (by omega) (by omega)

/-- Raising the stack pointer drops words. -/
lemma StackAt.drop (n : ℕ) (hn : n ≤ ws.length) : StackAt mem (slot sp n) (ws.drop n) := by
  induction n generalizing sp ws with
  | zero =>
    rwa [slot_zero]
  | succ n ih =>
    cases ws with
    | nil => simp at hn
    | cons w ws =>
      rw [← slot_succ]
      exact ih h.2 (by simpa using hn)

end

/-- The words of an initial part. -/
lemma StackAt.of_append {ws' : List Word64} (h : StackAt mem sp (ws ++ ws')) :
    StackAt mem sp ws := by
  induction ws generalizing sp with
  | nil => trivial
  | cons w ws ih => exact ⟨h.1, ih h.2⟩

/-- Two memories that agree on the slots hold the same words. -/
lemma StackAt.congr {mem' : Word64 → Word64} (h : StackAt mem sp ws)
    (heq : ∀ i < ws.length, mem' (slot sp i) = mem (slot sp i)) : StackAt mem' sp ws := by
  induction ws generalizing sp with
  | nil => trivial
  | cons w ws ih =>
    refine ⟨?_, ih h.2 fun i hi => ?_⟩
    · have := heq 0 (by simp)
      rw [slot_zero] at this
      rw [this]
      exact h.1
    · rw [slot_succ]
      exact heq (i + 1) (by simpa using hi)

end WordStack

export WordStack (Word64)

end IanOS
