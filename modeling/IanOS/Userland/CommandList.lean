import Mathlib.Tactic

/-!
# Command lists

`run_line` of `sh` and `run_shell_line` of the shell in `init` cut a line at `;`, `&&` and `||`, and
run a segment if the connector before it and the status so far allow it.  A segment that is not run
leaves the status as it is.  This evaluates the list from the left (`runs_from_left`).
-/

namespace IanOS.CommandList

open List

inductive Connector
  | always
  | and
  | or

/-- Whether the segment behind the connector is to be run. -/
def Connector.admits (status : ℕ) : Connector → Bool
  | always => true
  | and => status = 0
  | or => status ≠ 0

/-! ## The code -/

/-- The inner loop: the segment, the connector behind it and the rest of the line. -/
def cutSegment : List UInt8 → List UInt8 × Connector × List UInt8
  | [] => ([], .always, [])
  | c :: rest =>
    if c = 0x3b then ([], .always, rest)
    else if c = 0x26 ∧ rest.head? = some 0x26 then ([], .and, rest.tail)
    else if c = 0x7c ∧ rest.head? = some 0x7c then ([], .or, rest.tail)
    else (c :: (cutSegment rest).1, (cutSegment rest).2)

lemma length_cutSegment (line : List UInt8) : (cutSegment line).2.2.length ≤ line.length - 1 := by
  induction line with
  | nil => exact le_rfl
  | cons c rest ih =>
    rw [cutSegment]
    split_ifs
    · exact le_rfl
    · simp
    · simp
    · exact ih.trans (by simp)

/-- Blank, tab and semicolon. -/
def isSkipped (c : UInt8) : Bool := c ∈ [0x20, 0x09, 0x3b]

variable {σ : Type*}

/-- The loop.  `run` runs a segment: it gives a status and may change the rest of the system.  In
`sh` a segment that begins with `#` ends the line. -/
def runFrom (comments : Bool) (run : List UInt8 → ℕ × σ → ℕ × σ) (connector : Connector)
    (line : List UInt8) (s : ℕ × σ) : ℕ × σ :=
  match _h : line.dropWhile isSkipped with
  | [] => s
  | c :: rest =>
    if comments ∧ c = 0x23 then s
    else
      let cut := cutSegment (c :: rest)
      runFrom comments run cut.2.1 cut.2.2 (if connector.admits s.1 then run cut.1 s else s)
termination_by line.length
decreasing_by
  have hcut := length_cutSegment (c :: rest)
  have hdrop := (dropWhile_suffix isSkipped (l := line)).length_le
  rw [_h] at hdrop
  simp only [length_cons] at *
  omega

def runLine (run : List UInt8 → ℕ × σ → ℕ × σ) : List UInt8 → ℕ × σ → ℕ × σ :=
  runFrom true run .always

def runShellLine (run : List UInt8 → ℕ × σ → ℕ × σ) : List UInt8 → ℕ × σ → ℕ × σ :=
  runFrom false run .always

/-! ## Lists of commands -/

def Connector.text : Connector → List UInt8
  | always => [0x3b]
  | and => [0x26, 0x26]
  | or => [0x7c, 0x7c]

def Separates (text : List UInt8) : Prop :=
  [0x3b] <+: text ∨ [0x26, 0x26] <+: text ∨ [0x7c, 0x7c] <+: text
  deriving Decidable

/-- The segment is not blank and no comment, and no separator begins in it. -/
def IsSegment (segment after : List UInt8) : Prop :=
  (∃ c ∈ (segment.dropWhile isSkipped).head?, c ≠ 0x23) ∧
    ∀ text ∈ segment.tails, text ≠ [] → ¬Separates (text ++ after)
  deriving Decidable

/-- The text of a segment and of what follows it. -/
def textOf (first : List UInt8) : List (Connector × List UInt8) → List UInt8
  | [] => first
  | (connector, segment) :: rest => first ++ (connector.text ++ textOf segment rest)

def WellFormed (first : List UInt8) : List (Connector × List UInt8) → Prop
  | [] => IsSegment first []
  | (connector, segment) :: rest =>
    IsSegment first (connector.text ++ textOf segment rest) ∧ WellFormed segment rest

/-- Segments with connectors between them. -/
structure CommandLine where
  first : List UInt8
  rest : List (Connector × List UInt8)
  wellFormed : WellFormed first rest

/-- Each segment, without the blanks before it, is run if the connector before it admits it. -/
def evaluate (run : List UInt8 → ℕ × σ → ℕ × σ) (commands : List (Connector × List UInt8))
    (s : ℕ × σ) :
    ℕ × σ :=
  commands.foldl (fun s (connector, segment) =>
    if connector.admits s.1 then run (segment.dropWhile isSkipped) s else s) s

variable {segment after : List UInt8}

lemma cutSegment_text (connector : Connector) (after : List UInt8) :
    cutSegment (connector.text ++ after) = ([], connector, after) := by
  cases connector <;> rfl

/-- The inner loop goes over a segment. -/
lemma cutSegment_append (h : ∀ text ∈ segment.tails, text ≠ [] → ¬Separates (text ++ after)) :
    cutSegment (segment ++ after) = (segment ++ (cutSegment after).1, (cutSegment after).2) := by
  induction segment with
  | nil => rfl
  | cons c segment ih =>
    rw [tails_cons, forall_mem_cons] at h
    have hno := h.1 (by simp)
    have hpair (b : UInt8) (hb : (segment ++ after).head? = some b) :
        [c, b] ++ (segment ++ after).tail = c :: segment ++ after := by
      rw [cons_append, singleton_append, cons_head?_tail hb, cons_append]
    rw [cons_append, cutSegment, if_neg, if_neg, if_neg, ih h.2]
    · rfl
    · rintro ⟨rfl, hb⟩
      exact hno (.inr (.inr ⟨_, hpair _ hb⟩))
    · rintro ⟨rfl, hb⟩
      exact hno (.inr (.inl ⟨_, hpair _ hb⟩))
    · rintro rfl
      exact hno (.inl ⟨_, rfl⟩)

section

variable (comments : Bool) (run : List UInt8 → ℕ × σ → ℕ × σ) (connector : Connector) (s : ℕ × σ)

lemma IsSegment.round (h : IsSegment segment after) (hafter : (cutSegment after).1 = []) :
    runFrom comments run connector (segment ++ after) s =
      runFrom comments run (cutSegment after).2.1 (cutSegment after).2.2
        (if connector.admits s.1 then run (segment.dropWhile isSkipped) s else s) := by
  obtain ⟨⟨c, hc, hcomment⟩, hwhole⟩ := h
  have hfirst := cons_head?_tail hc
  have hdrop : (segment ++ after).dropWhile isSkipped = segment.dropWhile isSkipped ++ after := by
    rw [dropWhile_append, if_neg]
    rw [← hfirst]
    simp
  have hcut : cutSegment (segment.dropWhile isSkipped ++ after) = _ :=
    cutSegment_append fun text htext =>
    hwhole text ((mem_tails _ _).2 (((mem_tails _ _).1 htext).trans (dropWhile_suffix _)))
  rw [hafter, append_nil] at hcut
  rw [runFrom]
  split
  · next hnil =>
    rw [hdrop, ← hfirst] at hnil
    cases hnil
  · next b rest hrest =>
    rw [hdrop] at hrest
    have hb : b = c := by
      rw [← hfirst] at hrest
      exact (cons.inj hrest).1.symm
    rw [if_neg fun h => hcomment (hb ▸ h.2), ← hrest, hcut]

lemma WellFormed.evaluates {first : List UInt8} {rest : List (Connector × List UInt8)}
    (h : WellFormed first rest) :
    runFrom comments run connector (textOf first rest) s = evaluate run
      ((connector, first) :: rest) s := by
  induction rest generalizing first connector s with
  | nil =>
    have hlast := IsSegment.round comments run connector s h rfl
    rw [append_nil] at hlast
    rw [textOf, hlast, runFrom]
    rfl
  | cons next rest ih =>
    rw [textOf, h.1.round comments run connector s (by rw [cutSegment_text]),
      cutSegment_text, ih _ _ h.2]
    rfl

end

/-- Both shells run the segments that evaluation from the left prescribes. -/
theorem runs_from_left (line : CommandLine) (run : List UInt8 → ℕ × σ → ℕ × σ) (s : ℕ × σ) :
    runLine run (textOf line.first line.rest) s = evaluate run
      ((.always, line.first) :: line.rest) s ∧
    runShellLine run (textOf line.first line.rest) s =
      evaluate run ((.always, line.first) :: line.rest) s :=
  ⟨line.wellFormed.evaluates true run .always s, line.wellFormed.evaluates false run .always s⟩

/-- In `a && b||c` with an `a` that fails, `b` is not run and `c` is. -/
theorem runs_from_left_or :
    let run (segment : List UInt8) (s : ℕ × List (List UInt8)) :=
      (if segment = [0x63] then 0 else 1, s.2 ++ [segment])
    runLine run [0x61, 0x26, 0x26, 0x20, 0x62, 0x7c, 0x7c, 0x63] (0, []) =
      (0, [[0x61], [0x63]]) := by
  intro run
  have hline : WellFormed [0x61] [(.and, [0x20, 0x62]), (.or, [0x63])] :=
    ⟨by decide, by decide, (by decide : IsSegment [0x63] [])⟩
  exact (runs_from_left ⟨_, _, hline⟩ run (0, [])).1

end IanOS.CommandList
