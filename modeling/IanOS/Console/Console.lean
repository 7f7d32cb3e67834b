import IanOS.Console.Screen

/-!
# The console

`Console` of `kernel/src/console.cpp`.  The last rows of output are kept in a ring of rows; the
screen shows some of them, those that end with the row `viewport_bottom_`.  Output changes the ring
and, when the console follows the output, the pixels of a single cell; `render` draws the whole
screen from the ring.

The statistics are left out.
-/

namespace IanOS

open Screen List

def kScrollbackRows : ℕ := 512

structure Console where
  fb : Framebuffer
  cursorX : ℕ := 0
  cursorRow : ℕ := 0
  viewportBottom : ℕ := 0
  followTail : Bool := true
  cells : ℕ → ℕ → UInt8
  pixels : ℕ → Colour

namespace Console

variable (s : Console)

/-- The row at the top of the screen. -/
def top : ℕ :=
  if s.viewportBottom ≥ s.fb.rows - 1 then s.viewportBottom - (s.fb.rows - 1) else 0

def clear : Console where
  fb := s.fb
  cells := fun _ _ => 0x20
  pixels := s.fb.clearPixels s.pixels

def clearHistoryRow (absoluteRow : ℕ) : Console :=
  { s with cells := Function.update s.cells (absoluteRow % kScrollbackRows) fun _ => 0x20 }

/-- A cell of the ring is written. -/
def setHistory (row col : ℕ) (c : UInt8) : Console :=
  { s with
    cells := Function.update s.cells (row % kScrollbackRows)
      (Function.update (s.cells (row % kScrollbackRows)) col c) }

def oldestRow : ℕ :=
  if s.cursorRow ≥ kScrollbackRows then s.cursorRow - kScrollbackRows + 1 else 0

/-- The inner loop of `render`. -/
def renderRow (row : ℕ → UInt8) (screenRow : ℕ) (pixels : ℕ → Colour) : ℕ → Colour :=
  (range s.fb.columns).foldl (fun pixels col =>
    if row col ≠ 0 ∧ row col ≠ 0x20 then
      s.fb.drawChar (row col) (col * 8) (screenRow * 16) fg pixels
    else pixels) pixels

def render : Console :=
  if s.fb.rows = 0 ∨ s.fb.columns = 0 ∨ s.fb.base = 0 then s
  else
    { s with
      pixels := (range s.fb.rows).foldl (fun pixels screenRow =>
        let absoluteRow := s.top + screenRow
        if absoluteRow < s.oldestRow ∨ absoluteRow > s.cursorRow then pixels
        else s.renderRow (s.cells (absoluteRow % kScrollbackRows)) screenRow pixels)
        (s.fb.clearPixels s.pixels) }

def newline : Console :=
  let s := { s with cursorX := 0, cursorRow := s.cursorRow + 1 }
  let s := s.clearHistoryRow s.cursorRow
  if s.followTail then
    let s := { s with viewportBottom := s.cursorRow }
    if s.cursorRow ≥ s.fb.rows then s.render else s
  else s

def clearCell (cellX cellY : ℕ) : Console :=
  if s.fb.columns = 0 ∨ s.fb.rows = 0 then s
  else
    let absoluteRow := s.top + cellY
    let s' :=
      if cellX < s.fb.columns ∧ absoluteRow ≤ s.cursorRow ∧ absoluteRow ≥ s.oldestRow then
        s.setHistory absoluteRow cellX 0x20
      else s
    { s' with pixels := s.fb.clearPixelCell cellX cellY s'.pixels }

/-- The difference of two row numbers as a 32-bit number, which it is converted to. -/
def screenRowOf (row top : ℕ) : ℕ := (row + 2 ^ 64 - top) % 2 ^ 32

def backspace : Console :=
  if s.fb.columns = 0 then s
  else if s.cursorX = 0 ∧ s.cursorRow = 0 then s
  else
    let s :=
      if s.cursorX = 0 then { s with cursorRow := s.cursorRow - 1, cursorX := s.fb.columns - 1 }
      else { s with cursorX := s.cursorX - 1 }
    if s.followTail then s.clearCell s.cursorX (screenRowOf s.cursorRow s.top)
    else (s.setHistory s.cursorRow s.cursorX 0x20).render

def updateViewToTail : Console :=
  ({ s with viewportBottom := s.cursorRow, followTail := true } : Console).render

def scrollView (amount : ℤ) : Console :=
  if s.fb.rows = 0 then s
  else
    let minimumBottom := s.oldestRow + (if s.fb.rows > 0 then s.fb.rows - 1 else 0)
    let minimumBottom := if minimumBottom > s.cursorRow then s.cursorRow else minimumBottom
    let delta := amount.natAbs
    let viewportBottom :=
      if amount < 0 then
        if s.viewportBottom ≤ minimumBottom ∨
        delta > s.viewportBottom - minimumBottom then minimumBottom
        else s.viewportBottom - delta
      else if amount > 0 then
        if s.viewportBottom ≥ s.cursorRow ∨ s.cursorRow - s.viewportBottom < delta then s.cursorRow
        else s.viewportBottom + delta
      else s.viewportBottom
    ({ s with
        viewportBottom := viewportBottom
        followTail := viewportBottom = s.cursorRow } : Console).render

def scrollToBottom : Console := s.updateViewToTail

def clearPixelRow (cellY : ℕ) : Console :=
  { s with
    pixels := (range s.fb.columns).foldl (fun pixels x => s.fb.clearPixelCell x cellY pixels)
      s.pixels }

def resetInputLine : Console :=
  let s := s.scrollToBottom
  if s.fb.rows = 0 then s
  else
    let screenRow := screenRowOf s.cursorRow s.top
    let s := { s.clearHistoryRow s.cursorRow with cursorX := 0 }
    if screenRow < s.fb.rows then s.clearPixelRow screenRow else s

/-- A character is drawn at the cursor, if the console follows the output and the row is on the
screen. -/
def drawAtCursor (c : UInt8) : Console :=
  if s.followTail = true ∧ s.fb.rows ≠ 0 ∧ s.cursorRow ≥ s.top ∧
  s.cursorRow < s.top + s.fb.rows then
    { s with pixels := s.fb.drawChar c (s.cursorX * 8) ((s.cursorRow - s.top) * 16) fg s.pixels }
  else s

/-- The part of `put` for a character that is shown. -/
def putChar (c : UInt8) : Console :=
  if s.fb.columns = 0 then s
  else
    let s := (s.setHistory s.cursorRow s.cursorX c).drawAtCursor c
    let s := { s with cursorX := s.cursorX + 1 }
    if s.cursorX ≥ s.fb.columns then s.newline else s

def put (c : UInt8) : Console :=
  if c = 0x0a then s.newline
  else if c = 0x0d then s
  else if c = 0x0c then s.clear
  else if c = 0x08 then s.backspace
  else s.putChar c

def write (text : List UInt8) : Console := (text.takeWhile fun c => c ≠ 0).foldl put s

/-- The console after `initialize`, whatever is in the memory of the framebuffer. -/
def initializeWith (fb : Framebuffer) (cells : ℕ → ℕ → UInt8) (pixels : ℕ → Colour) : Console :=
  ({ fb := fb, cells := cells, pixels := pixels } : Console).clear

/-! ## What `render` shows -/

/-- A cell with no character is blank. -/
def shownCell (c : UInt8) : UInt8 := if c = 0 then 0x20 else c

variable {s}

lemma shows_renderRow {pixels : ℕ → Colour} {d : ℕ → ℕ → UInt8} (h : Shows s.fb pixels d)
    (row : ℕ → UInt8) {screenRow : ℕ} (hblank : ∀ col, d screenRow col = 0x20) :
    Shows s.fb (s.renderRow row screenRow pixels)
      fun i j => if i = screenRow then shownCell (row j) else d i j := by
  -- after `n` columns
  have hloop (n : ℕ) : Shows s.fb ((range n).foldl (fun pixels col =>
      if row col ≠ 0 ∧ row col ≠ 0x20 then
        s.fb.drawChar (row col) (col * 8) (screenRow * 16) fg pixels
      else pixels) pixels) fun i j => if i = screenRow ∧ j < n then shownCell (row j)
        else d i j := by
    induction n with
    | zero => exact h.congr fun i _ j _ => if_neg fun hlt => Nat.not_lt_zero j hlt.2
    | succ n ih =>
      rw [range_succ, foldl_append]
      dsimp only [foldl_cons, foldl_nil]
      split_ifs with hdraw
      · refine (Framebuffer.shows_drawChar ih (row n) screenRow n).congr fun i _ j _ => ?_
        rw [setCell]
        by_cases hij : i = screenRow ∧ j = n
        · rw [if_pos hij, if_pos ⟨hij.1, by omega⟩, hij.2, shownCell, if_neg hdraw.1]
        · rw [if_neg hij]
          exact if_congr (by omega) rfl rfl
      · refine ih.congr fun i _ j _ => ?_
        by_cases hij : i = screenRow ∧ j = n
        · obtain ⟨rfl, rfl⟩ := hij
          rw [if_pos ⟨rfl, Nat.lt_succ_self j⟩, if_neg fun hlt => Nat.lt_irrefl j hlt.2, hblank,
            shownCell]
          split_ifs with hzero
          · rfl
          · exact not_not.1 fun hne => hdraw ⟨hzero, hne⟩
        · exact if_congr (by omega) rfl rfl
  refine (hloop s.fb.columns).congr fun i _ j hj => ?_
  exact if_congr (by simp [hj]) rfl rfl

/-- The screen after `render`. -/
lemma shows_render (hrows : 0 < s.fb.rows) (hcols : 0 < s.fb.columns) :
    Shows s.fb s.render.pixels fun i j =>
      if s.top + i < s.oldestRow ∨ s.top + i > s.cursorRow then 0x20
      else shownCell (s.cells ((s.top + i) % kScrollbackRows) j) := by
  rw [render, if_neg (by simp [hrows.ne', hcols.ne', s.fb.base_ne])]
  -- after `n` rows
  have hloop (n : ℕ) : Shows s.fb ((range n).foldl (fun pixels screenRow =>
      if s.top + screenRow < s.oldestRow ∨ s.top + screenRow > s.cursorRow then pixels
      else s.renderRow (s.cells ((s.top + screenRow) % kScrollbackRows)) screenRow pixels)
      (s.fb.clearPixels s.pixels)) fun i j =>
        if ¬i < n ∨ s.top + i < s.oldestRow ∨ s.top + i > s.cursorRow then 0x20
        else shownCell (s.cells ((s.top + i) % kScrollbackRows) j) := by
    induction n with
    | zero =>
      exact (s.fb.shows_clearPixels s.pixels).congr fun i _ j _ => if_pos (.inl (Nat.not_lt_zero i))
    | succ n ih =>
      rw [range_succ, foldl_append]
      dsimp only [foldl_cons]
      split_ifs with hskip
      · refine ih.congr fun i _ j _ => ?_
        rcases eq_or_ne i n with rfl | hne
        · rw [if_pos (.inr hskip), if_pos (.inr hskip)]
        · exact if_congr (or_congr_left (by omega)) rfl rfl
      · refine (shows_renderRow ih _ fun col => if_pos (.inl (Nat.lt_irrefl n))).congr
          fun i _ j _ => ?_
        rcases eq_or_ne i n with rfl | hne
        · rw [if_pos rfl, if_neg (not_or.2 ⟨not_not.2 (Nat.lt_succ_self i), hskip⟩)]
        · rw [if_neg hne]
          exact if_congr (or_congr_left (by omega)) rfl rfl
  refine (hloop s.fb.rows).congr fun i hi j _ => ?_
  exact if_congr (by simp [hi]) rfl rfl

end Console
end IanOS
