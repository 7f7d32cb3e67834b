import Mathlib.Tactic
import Mathlib.Data.List.DropRight

/-!
# Names made of segments

A name in a tree of directories is a list of segments.  It is written with a separator before every
segment, and the root is written as the separator alone (`render`).  Segments that do not contain
the separator can be read back from the written name, so written names are equal, or one lies below
the other, exactly as the lists of segments say.
-/

namespace IanOS.SlashPath

open List

variable {α : Type*} {sep : α} {l l' d : List (List α)} {s : List α}

/-- The segments, each after a separator. -/
def body (sep : α) (l : List (List α)) : List α := l.flatMap (sep :: ·)

/-- A name as it is written. -/
def render (sep : α) (l : List (List α)) : List α := if l = [] then [sep] else body sep l

@[simp] lemma body_nil : body sep ([] : List (List α)) = [] := rfl

@[simp] lemma body_cons : body sep (s :: l) = sep :: (s ++ body sep l) := by
  rfl

lemma body_append : body sep (l ++ l') = body sep l ++ body sep l' := by
  rw [body, flatMap_append]
  rfl

lemma body_concat : body sep (l ++ [s]) = body sep l ++ sep :: s := by
  rw [body_append, body_cons, body_nil, append_nil]

@[simp] lemma render_nil : render sep ([] : List (List α)) = [sep] := rfl

lemma render_of_ne_nil (h : l ≠ []) : render sep l = body sep l := if_neg h

lemma render_concat : render sep (l ++ [s]) = body sep l ++ sep :: s := by
  rw [render_of_ne_nil (by simp), body_concat]

/-- Every written name begins with the separator. -/
lemma exists_render_eq_cons (sep : α) (l : List (List α)) : ∃ rest, render sep l = sep :: rest := by
  cases l with
  | nil => exact ⟨[], rfl⟩
  | cons s l => exact ⟨_, by rw [render_of_ne_nil (cons_ne_nil _ _), body_cons]⟩

/-- What follows the last separator is the last segment. -/
lemma rdropWhile_concat [DecidableEq α] (hs : sep ∉ s) :
    (render sep (l ++ [s])).rdropWhile (· ≠ sep) = body sep l ++ [sep] := by
  rw [render_concat]
  induction s using reverseRecOn with
  | nil => exact rdropWhile_concat_neg _ _ _ (by simp)
  | append_singleton s a ih =>
    rw [mem_append, mem_singleton, not_or] at hs
    rw [← cons_append, ← append_assoc, rdropWhile_concat_pos, ih hs.1]
    simpa using fun h => hs.2 h.symm

/-- Segments that may stand in a name. -/
def Clean (sep : α) (l : List (List α)) : Prop := ∀ s ∈ l, s ≠ [] ∧ sep ∉ s

lemma Clean.notMem (h : Clean sep l) : ∀ s ∈ l, sep ∉ s := fun s hs => (h s hs).2

lemma Clean.body_ne_singleton (h : Clean sep l) : body sep l ≠ [sep] := by
  cases l with
  | nil => exact (cons_ne_nil _ _).symm
  | cons s l =>
    intro heq
    have hs : s = [] := (append_eq_nil_iff.1 (cons.inj heq).2).1
    exact (h s mem_cons_self).1 hs

lemma Clean.render_eq_singleton (h : Clean sep l) : render sep l = [sep] ↔ l = [] := by
  constructor
  · intro heq
    by_contra hne
    rw [render_of_ne_nil hne] at heq
    exact h.body_ne_singleton heq
  · rintro rfl
    rfl

section Reading

variable [DecidableEq α]

lemma splitOn_append_cons (sep : α) (a b : List α) : splitOn sep (a ++ sep :: b) =
    splitOn sep a ++ splitOn sep b :=
  splitOnP_append_cons a b (beq_self_eq_true sep)

/-- What is read contains no separator. -/
lemma notMem_of_mem_splitOn {t : List α} (hs : s ∈ splitOn sep t) : sep ∉ s := by
  induction t generalizing s with
  | nil =>
    rw [splitOn_nil, mem_singleton] at hs
    rw [hs]
    exact not_mem_nil
  | cons a t ih =>
    by_cases ha : a = sep
    · have hsplit := splitOn_append_cons sep [] t
      rw [nil_append] at hsplit
      rw [ha, hsplit] at hs
      obtain rfl | hs := mem_cons.1 hs
      · exact not_mem_nil
      · exact ih hs
    · obtain ⟨b, rest, hrest⟩ := exists_cons_of_ne_nil (splitOn_ne_nil sep t)
      have hsplit : splitOn sep (a :: t) = (a :: b) :: rest := by
        rw [splitOn, splitOnP_cons_eq_if_modifyHead, if_neg (by simpa using ha),
          ← splitOn, hrest, modifyHead_cons]
      rw [hsplit] at hs
      rw [hrest] at ih
      obtain rfl | hs := mem_cons.1 hs
      · rw [mem_cons, not_or]
        exact ⟨fun h => ha h.symm, ih mem_cons_self⟩
      · exact ih (mem_cons_of_mem _ hs)

/-- The segments are read back. -/
lemma splitOn_body (hl : ∀ s ∈ l, sep ∉ s) : splitOn sep (body sep l) = [] :: l := by
  induction l using reverseRecOn with
  | nil => exact splitOn_nil sep
  | append_singleton l s ih =>
    rw [body_concat, splitOn_append_cons, ih fun t ht => hl t (mem_append_left _ ht),
      splitOn_eq_singleton (hl s (by simp)), cons_append]

/-- A written name continues another one at a separator exactly if it lies below it. -/
lemma Clean.exists_body_eq (h : Clean sep l) (hd : Clean sep d) :
    (∃ rest, body sep l = body sep d ++ sep :: rest) ↔ ∃ t, t ≠ [] ∧ l = d ++ t := by
  constructor
  · rintro ⟨rest, heq⟩
    have hsplit := congrArg (splitOn sep) heq
    rw [splitOn_body h.notMem, splitOn_append_cons, splitOn_body hd.notMem] at hsplit
    exact ⟨_, splitOn_ne_nil sep rest, (cons.inj hsplit).2⟩
  · rintro ⟨t, hne, rfl⟩
    obtain ⟨s, t, rfl⟩ := exists_cons_of_ne_nil hne
    exact ⟨s ++ body sep t, by rw [body_append, body_cons]⟩

end Reading

end IanOS.SlashPath
