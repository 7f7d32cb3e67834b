import IanOS.Console.Console

/-!
# What is written to a console

What is written to a console is a document: rows of characters with a place where the next character
goes.  `Document` says how each operation changes it, with no ring, no viewport and no pixels.  The
ring of a console holds the rows of the document that are kept, `Console.Holds`.
-/

namespace IanOS

open Screen Function

/-- The operations of a console. -/
inductive Console.Op where
  | write (text : List UInt8)
  | scrollView (amount : ℤ)
  | scrollToBottom
  | resetInputLine

/-! ## The document -/

/-- The text that was written.  Rows that have left the scroll-back are blank, as are those not yet
begun. -/
structure Document where
  row : ℕ := 0
  col : ℕ := 0
  text : ℕ → ℕ → UInt8 := fun _ _ => 0x20

namespace Document

variable (columns : ℕ) (d : Document)

/-- A row is begun, and the oldest one is lost. -/
def newline : Document where
  row := d.row + 1
  text := fun r c => if r = d.row + 1 ∨ r + kScrollbackRows = d.row + 1 then 0x20 else d.text r c

/-- The place before the cursor. -/
def before : ℕ × ℕ := if d.col = 0 then (d.row - 1, columns - 1) else (d.row, d.col - 1)

def backspace : Document :=
  if d.col = 0 ∧ d.row = 0 then d
  else
    { row := (d.before columns).1
      col := (d.before columns).2
      text := setCell d.text (d.before columns).1 (d.before columns).2 0x20 }

def putChar (c : UInt8) : Document :=
  let d' := { d with text := setCell d.text d.row d.col c, col := d.col + 1 }
  if d'.col ≥ columns then d'.newline else d'

def put (c : UInt8) : Document :=
  if c = 0x0a then d.newline
  else if c = 0x0d then d
  else if c = 0x0c then {}
  else if c = 0x08 then d.backspace columns
  else d.putChar columns c

/-- The row of the cursor is emptied. -/
def resetLine : Document where
  row := d.row
  text := fun r c => if r = d.row then 0x20 else d.text r c

/-- To scroll changes nothing. -/
def step (d : Document) : Console.Op → Document
  | .write text => (text.takeWhile fun c => c ≠ 0).foldl (put columns) d
  | .scrollView _ => d
  | .scrollToBottom => d
  | .resetInputLine => d.resetLine

/-- The character at a place, blank outside the rows that are kept. -/
def shown (r c : ℕ) : UInt8 :=
  if d.row < r ∨ r + kScrollbackRows ≤ d.row then 0x20 else d.text r c

end Document

namespace Console

/-! ## The ring of rows -/

/-- The ring holds the rows of a text that are kept. -/
structure Holds (columns : ℕ) (cells : ℕ → ℕ → UInt8) (row : ℕ) (text : ℕ → ℕ → UInt8) : Prop where
  cell : ∀ r c, row < r + kScrollbackRows → r ≤ row → c < columns →
    cells (r % kScrollbackRows) c = text r c
  ne_zero : ∀ r c, text r c ≠ 0
  outside : ∀ r c, row < r ∨ r + kScrollbackRows ≤ row → c < columns → text r c = 0x20

lemma kScrollbackRows_pos : 0 < kScrollbackRows := by decide

namespace Holds

variable {columns : ℕ} {cells : ℕ → ℕ → UInt8} {row : ℕ} {text : ℕ → ℕ → UInt8} {r : ℕ}

/-- Two rows that are kept do not share a place in the ring. -/
lemma slot_ne {r' : ℕ} (hlt : r < r') (hkept : r' < r + kScrollbackRows) :
    r % kScrollbackRows ≠ r' % kScrollbackRows := by
  rw [kScrollbackRows] at *
  omega

lemma slot_eq_iff (hkept : row < r + kScrollbackRows) (hle : r ≤ row) :
    r % kScrollbackRows = row % kScrollbackRows ↔ r = row := by
  refine ⟨fun heq => ?_, fun heq => by rw [heq]⟩
  by_contra hne
  exact slot_ne (lt_of_le_of_ne hle hne) hkept heq

lemma newline (h : Holds columns cells row text) :
    Holds columns (update cells ((row + 1) % kScrollbackRows) fun _ => 0x20) (row + 1)
      fun r c => if r = row + 1 ∨ r + kScrollbackRows = row + 1 then 0x20 else text r c where
  cell := by
    intro r c hkept hle hc
    rw [update_apply]
    by_cases hr : r = row + 1
    · rw [if_pos (by rw [hr]), if_pos (.inl hr)]
    · rw [if_neg ((slot_eq_iff hkept hle).not.2 hr), if_neg (by omega)]
      exact h.cell r c (by omega) (by omega) hc
  ne_zero := by
    intro r c
    split_ifs
    · decide
    · exact h.ne_zero r c
  outside := by
    intro r c hr hc
    split_ifs with hedge
    · rfl
    · exact h.outside r c (by omega) hc

lemma setCell (h : Holds columns cells row text) (col : ℕ) {c : UInt8} (hc : c ≠ 0) :
    Holds columns (update cells (row % kScrollbackRows)
      (update (cells (row % kScrollbackRows)) col c)) row (Screen.setCell text row col c) where
  cell := by
    intro r j hkept hle hj
    rw [update_apply, Screen.setCell]
    by_cases hr : r = row
    · rw [if_pos (by rw [hr]), update_apply, hr, h.cell row j (by omega) le_rfl hj]
      simp only [true_and]
    · rw [if_neg ((slot_eq_iff hkept hle).not.2 hr), if_neg fun hcell => hr hcell.1]
      exact h.cell r j hkept hle hj
  ne_zero := by
    intro r j
    rw [Screen.setCell]
    split_ifs
    · exact hc
    · exact h.ne_zero r j
  outside := by
    intro r j hr hj
    have hpos := kScrollbackRows_pos
    rw [Screen.setCell, if_neg fun hcell => by omega]
    exact h.outside r j hr hj

/-- The cursor goes back from a row that is empty. -/
lemma back (h : Holds columns cells (row + 1) text)
    (hblank : ∀ c < columns, text (row + 1) c = 0x20) :
    Holds columns cells row text where
  cell := by
    intro r c hkept hle hc
    rcases Nat.lt_or_ge (row + 1) (r + kScrollbackRows) with hlt | hge
    · exact h.cell r c hlt (by omega) hc
    -- the row shares its place in the ring with the row the cursor leaves
    have hslot : r % kScrollbackRows = (row + 1) % kScrollbackRows := by
      have heq : row + 1 = r + kScrollbackRows := by omega
      rw [heq, Nat.add_mod_right]
    rw [hslot, h.cell (row + 1) c (by omega) le_rfl hc, hblank c hc, h.outside r c (.inr hge) hc]
  ne_zero := h.ne_zero
  outside := by
    intro r c hr hc
    rcases eq_or_ne r (row + 1) with rfl | hne
    · exact hblank c hc
    · exact h.outside r c (by omega) hc

lemma resetLine (h : Holds columns cells row text) :
    Holds columns (update cells (row % kScrollbackRows) fun _ => 0x20) row
      fun r c => if r = row then 0x20 else text r c where
  cell := by
    intro r c hkept hle hc
    rw [update_apply]
    by_cases hr : r = row
    · rw [if_pos (by rw [hr]), if_pos hr]
    · rw [if_neg ((slot_eq_iff hkept hle).not.2 hr), if_neg hr]
      exact h.cell r c hkept hle hc
  ne_zero := by
    intro r c
    split_ifs
    · decide
    · exact h.ne_zero r c
  outside := by
    intro r c hr hc
    have hpos := kScrollbackRows_pos
    rw [if_neg (by omega)]
    exact h.outside r c hr hc

lemma blank : Holds columns (fun _ _ => 0x20) 0 fun _ _ => 0x20 :=
  ⟨fun _ _ _ _ _ => rfl, fun _ _ => by decide, fun _ _ _ _ => rfl⟩

lemma shows_render {s : Console} (h : Holds s.fb.columns s.cells s.cursorRow text)
    (hrows : 0 < s.fb.rows)
    (hcols : 0 < s.fb.columns) :
    Shows s.fb s.render.pixels fun i j => text (s.top + i) j := by
  refine (Console.shows_render hrows hcols).congr fun i _ j hj => ?_
  have hold : s.top + i < s.oldestRow ↔ s.top + i + kScrollbackRows ≤ s.cursorRow := by
    rw [oldestRow]
    split_ifs <;> omega
  split_ifs with hout
  · exact h.outside _ j (hout.symm.imp_right hold.1) hj
  · have hcell := h.cell (s.top + i) j (by omega) (by omega) hj
    rw [hcell, shownCell, if_neg (h.ne_zero _ _)]

end Holds

end Console
end IanOS
