import IanOS.Userland.EditorReference
import Mathlib.Data.List.Destutter

/-!
# What the history holds

The history after any sequence of entered lines, against what it is for: the lines that are not
empty, those that repeat the one before them counted once, the last `kHistoryCapacity` of them.
-/

namespace IanOS.InitShell

open Text List

/-- A line as it is entered, and the text it spells. -/
structure EnteredLine where
  buffer : Buffer
  text : List UInt8
  spells : Spells buffer text
  fits : text.length < kLineCapacity

/-- The texts that a sequence of entered lines leaves behind, the oldest first. -/
def remembered (texts : List (List UInt8)) : List (List UInt8) :=
  ((texts.filter (· ≠ [])).destutter (· ≠ ·)).rtake kHistoryCapacity

lemma destutter_concat {α : Type} [DecidableEq α] (l : List α) (a : α) :
    (l ++ [a]).destutter (· ≠ ·) =
      l.destutter (· ≠ ·) ++ if (l.destutter (· ≠ ·)).getLast? = some a then [] else [a] := by
  cases l with
  | nil => rfl
  | cons b l =>
    rw [cons_append, destutter_cons', destutter_cons']
    induction l generalizing b with
    | nil => by_cases h : b = a <;> simp [h]
    | cons c l ih =>
      by_cases hne : b ≠ c
      · have hlast :
            (b :: l.destutter' (· ≠ ·) c).getLast? = (l.destutter' (· ≠ ·) c).getLast? := by
          rw [getLast?_cons, getLast?_eq_some_getLast (destutter'_ne_nil l _), Option.getD_some]
        rw [cons_append, destutter'_cons_pos _ hne, destutter'_cons_pos _ hne, hlast, ih c,
          cons_append]
      · rw [cons_append, destutter'_cons_neg _ hne, destutter'_cons_neg _ hne, ih b]

lemma record_remembered (texts : List (List UInt8)) (text : List UInt8) :
    Reference.record (remembered texts) text = remembered (texts ++ [text]) := by
  rw [remembered, remembered, filter_append, Reference.record]
  by_cases hempty : text = []
  · rw [if_pos (.inl hempty), hempty]
    simp
  have hkept : [text].filter (· ≠ []) = [text] := by simp [hempty]
  rw [hkept, destutter_concat]
  generalize (texts.filter (· ≠ [])).destutter (· ≠ ·) = l
  have hlast : (l.rtake kHistoryCapacity).getLast? = l.getLast? := by
    cases l using List.reverseRecOn with
    | nil => rfl
    | append_singleton l a =>
      rw [kHistoryCapacity, rtake_concat_succ, getLast?_concat, getLast?_concat]
  rw [hlast]
  by_cases hrepeat : l.getLast? = some text
  · rw [if_pos (.inr hrepeat), if_pos hrepeat, append_nil]
  · rw [if_neg (not_or.2 ⟨hempty, hrepeat⟩), if_neg hrepeat]
    rw [rtake, rtake, ← drop_append_of_le_length (by omega), drop_drop, length_drop, length_append]
    congr 1
    omega

/-- The history holds the remembered texts of the entered lines, and `history_at` returns them in
order from the oldest to the newest. -/
theorem history_remembered (lines : List EnteredLine) :
    let h := lines.foldl (fun h line => h.push line.buffer) ({} : History)
    let kept := remembered (lines.map (·.text))
    h.count = kept.length ∧ ∀ i, Spells (h.entry i) (kept.getD i []) := by
  intro h kept
  have hkeeps : h.Keeps kept := by
    unfold h kept
    induction lines using List.reverseRecOn with
    | nil => exact .empty
    | append_singleton lines line ih =>
      rw [foldl_append, map_append, map_singleton, ← record_remembered]
      exact ih.push line.spells line.fits
  refine ⟨hkeeps.count, fun i => ?_⟩
  rcases Nat.lt_or_ge i kept.length with hlt | hge
  · exact (hkeeps.spells_getD hlt).1
  · rw [History.entry, if_pos (hkeeps.count ▸ hge), getD_eq_default _ _ hge]
    exact .ofList (forall_mem_nil _)

/-- `a`, an empty line, `b` and `b` again. -/
theorem history_remembered_twice :
    let line (text : List UInt8) (h : ∀ c ∈ text, c ≠ 0) (hlt : text.length < kLineCapacity) :
        EnteredLine := ⟨_, text, .ofList h, hlt⟩
    let b := line [0x62] (by simp) (by decide)
    (([line [0x61] (by simp) (by decide), line [] (by simp) (by decide), b, b].foldl
      (fun h line => h.push line.buffer) ({} : History)).count) = 2 :=
  (history_remembered _).1

end IanOS.InitShell
