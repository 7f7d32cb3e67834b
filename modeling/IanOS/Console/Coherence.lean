import IanOS.Console.Document
import IanOS.Lib.Run
import Mathlib.Data.List.TakeWhile

/-!
# The screen shows the document

The screen of a console is to show the rows of the document from the top of the viewport on.

The console draws as little as it can, and sometimes too little.  It does not draw a character while
the view is scrolled back, does not erase one that a backspace reaches above the top of the screen,
and does not draw the screen anew when a line is begun after backspaces have taken the cursor back
into the first screenful.  `Orderly` says that a character does none of these; in a run of such
operations the screen shows the document, `display_coherent`.
-/

namespace IanOS

open Screen

/-! ## Orderly operations -/

namespace Console

variable {s : Console} {row : ℕ} {pixels : ℕ → Colour} {text : ℕ → ℕ → UInt8}

def step (s : Console) : Op → Console
  | .write text => s.write text
  | .scrollView amount => s.scrollView amount
  | .scrollToBottom => s.scrollToBottom
  | .resetInputLine => s.resetInputLine

/-- A row is on the screen. -/
def Visible (s : Console) (row : ℕ) : Prop := s.top ≤ row ∧ row < s.top + s.fb.rows
  deriving Decidable

/-- A line may be begun: in the first screenful the screen has not moved yet, and while the view is
scrolled back the row that is lost is not on the screen. -/
def NewlineOrderly (s : Console) : Prop :=
  (s.followTail = true → s.cursorRow + 1 < s.fb.rows → s.viewportBottom < s.fb.rows) ∧
    (s.followTail = false → kScrollbackRows ≤ s.cursorRow + 1 →
      ¬s.Visible (s.cursorRow + 1 - kScrollbackRows))
  deriving Decidable

/-- A backspace does not go above the top of the screen. -/
def BackspaceOrderly (s : Console) : Prop :=
  s.followTail = true → ¬(s.cursorX = 0 ∧ s.cursorRow = 0) →
    s.top ≤ if s.cursorX = 0 then s.cursorRow - 1 else s.cursorRow
  deriving Decidable

/-- While the view is scrolled back the row of the cursor is not on the screen. -/
def PutOrderly (s : Console) : Prop :=
  (s.followTail = false → ¬s.Visible s.cursorRow) ∧
  (s.cursorX + 1 ≥ s.fb.columns → s.NewlineOrderly)
  deriving Decidable

def Orderly (s : Console) (c : UInt8) : Prop :=
  if c = 0x0a then s.NewlineOrderly
  else if c = 0x0d ∨ c = 0x0c then True
  else if c = 0x08 then s.BackspaceOrderly
  else s.PutOrderly

/-- Each character of a text is `Orderly` in the state it finds. -/
def Op.Orderly (s : Console) : Op → Prop
  | .write text => Run.Allowed put Console.Orderly s (text.takeWhile fun c => c ≠ 0)
  | _ => True

instance (s : Console) (c : UInt8) : Decidable (s.Orderly c) :=
  inferInstanceAs (Decidable (ite _ _ _))

instance (s : Console) (op : Op) : Decidable (op.Orderly s) :=
  match op with
  | .write _ => inferInstanceAs (Decidable (Run.Allowed _ _ _ _))
  | .scrollView _ | .scrollToBottom | .resetInputLine => inferInstanceAs (Decidable True)

/-! ## Coherence -/

section Frame

variable (s : Console)

lemma render_eq : s.render = { s with pixels := s.render.pixels } := by
  rw [render]
  split_ifs <;> rfl

/-- The state of `newline` before anything is drawn. -/
def beginLine (bottom : ℕ) : Console :=
  { s.clearHistoryRow (s.cursorRow + 1) with
    cursorX := 0
    cursorRow := s.cursorRow + 1
    viewportBottom := bottom }

lemma newline_eq : s.newline = if s.followTail = true then
      if s.cursorRow + 1 ≥ s.fb.rows then (s.beginLine (s.cursorRow + 1)).render
      else s.beginLine (s.cursorRow + 1)
    else s.beginLine s.viewportBottom := rfl

/-- The state of `putChar` before a line is begun. -/
def advance (c : UInt8) (pixels : ℕ → Colour) : Console :=
  { s.setHistory s.cursorRow s.cursorX c with
    pixels := pixels
    cursorX := s.cursorX + 1 }

variable {s}

lemma putChar_eq {c : UInt8} {pixels : ℕ → Colour} (hcolumns : 0 < s.fb.columns)
    (hpixels : (s.setHistory s.cursorRow s.cursorX c).drawAtCursor c =
      { s.setHistory s.cursorRow s.cursorX c with pixels := pixels }) :
    s.putChar c =
      if s.cursorX + 1 ≥ s.fb.columns then (s.advance c pixels).newline
      else s.advance c pixels := by
  rw [putChar, if_neg hcolumns.ne', hpixels]
  rfl

lemma viewportBottom_lt (hrows : 0 < s.fb.rows) : s.viewportBottom < s.top + s.fb.rows := by
  rw [top]
  split_ifs <;> omega

lemma top_eq_zero (h : s.viewportBottom < s.fb.rows) : s.top = 0 := by
  rw [top]
  split_ifs <;> omega

lemma screenRowOf_eq {row top : ℕ} (hle : top ≤ row) (hlt : row < top + 2 ^ 32) :
    screenRowOf row top = row - top := by
  rw [screenRowOf]
  omega

end Frame

/-- The ring of a console holds the document, and the screen shows it. -/
structure Coherent (fb : Framebuffer) (s : Console) (d : Document) : Prop where
  fb_eq : s.fb = fb
  row : s.cursorRow = d.row
  col : s.cursorX = d.col
  col_lt : d.col < fb.columns
  holds : Holds fb.columns s.cells d.row d.text
  /-- nothing is written after the cursor -/
  rest : ∀ c, d.col ≤ c → c < fb.columns → d.text d.row c = 0x20
  follows : s.followTail = true → d.row ≤ s.viewportBottom
  shows : Shows fb s.pixels fun i j => d.text (s.top + i) j

/-- A row that is not on the screen may change. -/
lemma shows_setCell (h : Shows s.fb pixels fun i j => text (s.top + i) j) (hrow : ¬s.Visible row)
    (col : ℕ) (c : UInt8) : Shows s.fb pixels fun i j => setCell text row col c (s.top + i) j := by
  refine h.congr fun i hi j _ => ?_
  rw [setCell, if_neg]
  rintro ⟨rfl, -⟩
  exact hrow ⟨Nat.le_add_right _ _, by omega⟩

lemma Shows.of_setCell {col : ℕ} {c : UInt8} (hle : s.top ≤ row)
    (h : Shows s.fb pixels (setCell (fun i j => text (s.top + i) j) (row - s.top) col c)) :
    Shows s.fb pixels fun i j => setCell text row col c (s.top + i) j := by
  refine h.congr fun i _ j _ => ?_
  exact if_congr (by omega) rfl rfl

/-! ## Steps -/

section Steps

variable {fb : Framebuffer} {s : Console} {d : Document} {c : UInt8}

lemma width_lt (hrows : 0 < fb.rows) : fb.width < 2 ^ 32 := by
  have hheight : 0 < fb.height := by
    rw [Framebuffer.rows] at hrows
    omega
  have hle : fb.pixelsPerScanline ≤ fb.height * fb.pixelsPerScanline :=
    Nat.le_mul_of_pos_left _ hheight
  exact (fb.width_le.trans hle).trans_lt fb.fits

lemma Coherent.drawAtCursor (h : Coherent fb s d) (hrows : 0 < fb.rows) (c : UInt8)
    (hok : s.followTail = false → ¬s.Visible s.cursorRow) :
    ∃ pixels, (s.setHistory s.cursorRow s.cursorX c).drawAtCursor c =
        { s.setHistory s.cursorRow s.cursorX c with pixels := pixels } ∧
      Shows fb pixels fun i j => setCell d.text d.row d.col c (s.top + i) j := by
  have hfb := h.fb_eq
  subst hfb
  rw [Console.drawAtCursor]
  split_ifs with hdraw
  · refine ⟨_, rfl, ?_⟩
    have hdrawn := Framebuffer.shows_drawChar h.shows c (s.cursorRow - s.top) s.cursorX
    rw [← h.row, ← h.col]
    exact Shows.of_setCell hdraw.2.2.1 hdrawn
  · refine ⟨_, rfl, shows_setCell h.shows (fun hvisible => ?_) _ _⟩
    rw [← h.row] at hvisible
    rcases hfollow : s.followTail with _ | _
    · exact hok hfollow hvisible
    · exact hdraw ⟨hfollow, hrows.ne', hvisible⟩

/-- The cursor is on the cell before, which is not erased yet. -/
def moveBack (s : Console) : Console :=
  if s.cursorX = 0 then { s with cursorRow := s.cursorRow - 1, cursorX := s.fb.columns - 1 }
  else { s with cursorX := s.cursorX - 1 }

lemma backspace_eq (s : Console) : s.backspace =
    if s.fb.columns = 0 then s
    else if s.cursorX = 0 ∧ s.cursorRow = 0 then s
    else if s.moveBack.followTail = true then
      s.moveBack.clearCell s.moveBack.cursorX (screenRowOf s.moveBack.cursorRow s.moveBack.top)
    else (s.moveBack.setHistory s.moveBack.cursorRow s.moveBack.cursorX 0x20).render := rfl

lemma clearCell_eq (hcolumns : 0 < s.fb.columns) (hrows : 0 < s.fb.rows)
    (hcol : s.cursorX < s.fb.columns)
    (htop : s.top ≤ s.cursorRow) (hrow : s.cursorRow < s.top + s.fb.rows)
    (hfits : s.fb.rows ≤ 2 ^ 32) :
    s.clearCell s.cursorX (screenRowOf s.cursorRow s.top) =
      { s.setHistory s.cursorRow s.cursorX 0x20 with
        pixels := s.fb.clearPixelCell s.cursorX (s.cursorRow - s.top) s.pixels } := by
  have hold : s.oldestRow ≤ s.cursorRow := by
    rw [oldestRow, kScrollbackRows]
    split_ifs <;> omega
  rw [clearCell, if_neg (not_or.2 ⟨hcolumns.ne', hrows.ne'⟩), screenRowOf_eq htop (by omega)]
  dsimp only
  rw [Nat.add_sub_cancel' htop, if_pos ⟨hcol, le_rfl, hold⟩]
  rfl

lemma Coherent.moveBack (h : Coherent fb s d) (hcolumns : 0 < fb.columns)
    (horigin : ¬(d.col = 0 ∧ d.row = 0)) :
    s.moveBack = { s with
      cursorRow := (d.before fb.columns).1, cursorX := (d.before fb.columns).2 } ∧
      (d.before fb.columns).2 < fb.columns ∧ (d.before fb.columns).1 ≤ d.row ∧
      Holds fb.columns s.cells (d.before fb.columns).1 d.text ∧
      ∀ c, (d.before fb.columns).2 < c → c < fb.columns →
      d.text (d.before fb.columns).1 c = 0x20 := by
  obtain ⟨row, col, text⟩ := d
  obtain ⟨rfl, hrow, hcol, hlt, hholds, hrest, -, -⟩ := h
  dsimp only at hlt hrest horigin
  subst hrow hcol
  rw [Console.moveBack, Document.before]
  split_ifs with hstart
  · obtain ⟨row, hrow⟩ : ∃ row, s.cursorRow = row + 1 := Nat.exists_eq_succ_of_ne_zero (by omega)
    rw [hstart] at hrest
    rw [hrow] at hholds hrest ⊢
    refine ⟨rfl, by dsimp only; omega, by dsimp only; omega, ?_, fun c hc hc' => ?_⟩
    · exact hholds.back fun c hc => hrest c (Nat.zero_le c) hc
    · omega
  · refine ⟨rfl, by dsimp only; omega, le_rfl, hholds, fun c hc hc' => ?_⟩
    dsimp only at hc
    exact hrest c (by omega) hc'

lemma shows_clearPixelRow {pixels : ℕ → Colour} {e : ℕ → ℕ → UInt8} (h : Shows fb pixels e)
    (hrows : 0 < fb.rows) {row : ℕ} (hrow : row < fb.rows) :
    Shows fb ((List.range fb.columns).foldl (fun pixels x => fb.clearPixelCell x row pixels) pixels)
      fun i j => if i = row then 0x20 else e i j := by
  -- after `n` columns
  have hloop (n : ℕ) (hn : n ≤ fb.columns) :
      Shows fb ((List.range n).foldl (fun pixels x => fb.clearPixelCell x row pixels) pixels)
        fun i j => if i = row ∧ j < n then 0x20 else e i j := by
    induction n with
    | zero => exact h.congr fun i _ j _ => if_neg fun hlt => Nat.not_lt_zero j hlt.2
    | succ n ih =>
      rw [List.range_succ, List.foldl_append, List.foldl_cons, List.foldl_nil]
      refine (Framebuffer.shows_clearPixelCell (ih (by omega)) (width_lt hrows) hrow hn).congr
        fun i _ j _ => ?_
      rw [setCell]
      by_cases hcell : i = row ∧ j = n
      · rw [if_pos hcell, if_pos ⟨hcell.1, by omega⟩]
      · rw [if_neg hcell]
        exact if_congr (by omega) rfl rfl
  exact (hloop fb.columns le_rfl).congr fun i _ j hj => if_congr (by simp [hj]) rfl rfl

lemma coherent_clear (hcolumns : 0 < s.fb.columns) : Coherent s.fb s.clear {} :=
  ⟨rfl, rfl, rfl, hcolumns, .blank, fun _ _ _ => rfl, fun _ => le_rfl,
    s.fb.shows_clearPixels s.pixels⟩

lemma Coherent.shows_shown (h : Coherent fb s d) :
    Shows fb s.pixels fun i j => d.shown (s.top + i) j := by
  refine h.shows.congr fun i _ j hj => ?_
  rw [Document.shown]
  split_ifs with hout
  · exact (h.holds.outside _ j hout hj).symm
  · rfl

variable (hrows : 0 < fb.rows) (hcolumns : 0 < fb.columns)
include hrows hcolumns

/-- What is left to show when the screen is drawn anew. -/
lemma coherent_render (hfb : s.fb = fb)
    (hrow : s.cursorRow = d.row) (hcol : s.cursorX = d.col) (hlt : d.col < fb.columns)
    (hholds : Holds fb.columns s.cells d.row d.text)
    (hrest : ∀ c, d.col ≤ c → c < fb.columns → d.text d.row c = 0x20)
    (hfollows : s.followTail = true → d.row ≤ s.viewportBottom) : Coherent fb s.render d := by
  subst hfb
  have hshows : Shows s.fb s.render.pixels fun i j => d.text (s.top + i) j :=
    Holds.shows_render (by rwa [hrow]) hrows hcolumns
  rw [render_eq]
  exact ⟨rfl, hrow, hcol, hlt, hholds, hrest, hfollows, hshows⟩

lemma Coherent.updateViewToTail (h : Coherent fb s d) : Coherent fb s.updateViewToTail d :=
  coherent_render hrows hcolumns h.fb_eq h.row h.col h.col_lt h.holds h.rest fun _ => h.row.ge

lemma Coherent.scrollView (h : Coherent fb s d) (amount : ℤ) :
    Coherent fb (s.scrollView amount) d := by
  rw [Console.scrollView, if_neg (by rw [h.fb_eq]; exact hrows.ne')]
  refine coherent_render hrows hcolumns h.fb_eq h.row h.col h.col_lt h.holds h.rest
    fun hfollow => ?_
  rw [← h.row]
  exact (of_decide_eq_true hfollow).ge

variable (hkept : fb.rows ≤ kScrollbackRows)
include hkept

/-- A line is begun.  The cursor may be at the end of a full row. -/
lemma coherent_newline
    (hfb : s.fb = fb) (hrow : s.cursorRow = d.row) (hholds : Holds fb.columns s.cells d.row d.text)
    (hshows : Shows fb s.pixels fun i j => d.text (s.top + i) j) (hok : s.NewlineOrderly) :
    Coherent fb s.newline d.newline := by
  subst hfb
  obtain ⟨row, col, text⟩ := d
  dsimp only at hholds
  subst hrow
  have hring := hholds.newline
  have hrest : ∀ c, 0 ≤ c → c < s.fb.columns →
    (Document.mk s.cursorRow col text).newline.text (s.cursorRow + 1) c = 0x20 :=
    fun c _ _ => if_pos (.inl rfl)
  -- the pixels stay as they are unless one of the two rows that change is on the screen
  have hstay {top : ℕ} (hlost : ∀ i < s.fb.rows, top + i + kScrollbackRows ≠ s.cursorRow + 1)
      (h : Shows s.fb s.pixels fun i j => text (top + i) j) :
      Shows s.fb s.pixels fun i j =>
        (Document.mk s.cursorRow col text).newline.text (top + i) j := by
    refine h.congr fun i hi j hj => ?_
    rw [Document.newline]
    dsimp only
    split_ifs with hedge
    · rcases hedge with hnext | hold
      · exact (hholds.outside _ j (.inl (by omega)) hj).symm
      · exact absurd hold (hlost i hi)
    · rfl
  rw [newline_eq]
  split
  · next hfollow =>
    split_ifs with hbelow
    · exact coherent_render hrows hcolumns rfl rfl rfl hcolumns hring hrest fun _ => le_rfl
    refine ⟨rfl, rfl, rfl, hcolumns, hring, hrest, fun _ => le_rfl, ?_⟩
    have hlt : s.cursorRow + 1 < s.fb.rows := Nat.lt_of_not_le hbelow
    rw [top_eq_zero (hok.1 hfollow hlt)] at hshows
    have htop : (s.beginLine (s.cursorRow + 1)).top = 0 := top_eq_zero hlt
    rw [htop]
    exact hstay (fun i hi => by omega) hshows
  · next hfollow =>
    refine ⟨rfl, rfl, rfl, hcolumns, hring, hrest, fun hf => absurd hf hfollow, ?_⟩
    refine hstay (fun i hi hlost => ?_) hshows
    have hplace : s.cursorRow + 1 = s.top + i + kScrollbackRows := hlost.symm
    refine hok.2 (Bool.eq_false_iff.2 hfollow) (by omega) ?_
    rw [hplace, Nat.add_sub_cancel]
    exact ⟨Nat.le_add_right _ _, by omega⟩

section

variable (h : Coherent fb s d)
include h

lemma Coherent.newline (hok : s.NewlineOrderly) : Coherent fb s.newline d.newline :=
  coherent_newline hrows hcolumns hkept h.fb_eq h.row h.holds h.shows hok

lemma Coherent.putChar (hc : c ≠ 0) (hok : s.PutOrderly) :
    Coherent fb (s.putChar c) (d.putChar fb.columns c) := by
  obtain ⟨pixels, hpixels, hshows⟩ := h.drawAtCursor hrows c hok.1
  obtain ⟨row, col, text⟩ := d
  obtain ⟨rfl, hrow, hcol, hlt, hholds, hrest, hfollows, -⟩ := h
  dsimp only at hrest
  subst hrow hcol
  have hring := hholds.setCell s.cursorX hc
  rw [putChar_eq hcolumns hpixels, Document.putChar]
  split_ifs with hwrap
  · exact coherent_newline hrows hcolumns hkept rfl rfl hring hshows (hok.2 hwrap)
  refine ⟨rfl, rfl, rfl, Nat.lt_of_not_le hwrap, hring, fun j hj hj' => ?_, hfollows, hshows⟩
  dsimp only at hj ⊢
  rw [setCell, if_neg (by omega)]
  exact hrest j (by omega) hj'

lemma Coherent.backspace (hok : s.BackspaceOrderly) :
    Coherent fb s.backspace (d.backspace fb.columns) := by
  have hfb := h.fb_eq
  subst hfb
  rw [backspace_eq, if_neg hcolumns.ne', Document.backspace, ← h.row, ← h.col]
  by_cases horigin : s.cursorX = 0 ∧ s.cursorRow = 0
  · rwa [if_pos horigin, if_pos horigin]
  have hmove := h.moveBack hcolumns (by rwa [← h.row, ← h.col])
  have hreach :
      (d.before s.fb.columns).1 = if s.cursorX = 0 then s.cursorRow - 1 else s.cursorRow := by
    rw [Document.before, h.row, h.col]
    split_ifs <;> rfl
  generalize d.before s.fb.columns = place at hmove hreach
  obtain ⟨row, col⟩ := place
  dsimp only at hreach
  obtain ⟨hmoved, hlt, hle, hholds, hrest⟩ := hmove
  have hring := hholds.setCell col (by decide : (0x20 : UInt8) ≠ 0)
  have hrest' : ∀ c, col ≤ c → c < s.fb.columns → setCell d.text row col 0x20 row c = 0x20 := by
    intro c hc hc'
    rw [setCell]
    split_ifs with hcell
    · rfl
    · exact hrest c (by omega) hc'
  rw [hmoved]
  split_ifs with hfollow
  · have htop : s.top ≤ row := by
      rw [hreach]
      exact hok hfollow horigin
    have hbelow := (hle.trans (h.follows hfollow)).trans_lt (viewportBottom_lt hrows)
    have hclear :=
      clearCell_eq (s := { s with cursorRow := row, cursorX := col }) hcolumns hrows hlt htop
      hbelow (hkept.trans (by decide))
    rw [hclear]
    refine ⟨rfl, rfl, rfl, hlt, hring, hrest', fun _ => hle.trans (h.follows hfollow), ?_⟩
    have hcleared := Framebuffer.shows_clearPixelCell h.shows (width_lt hrows)
      (show row - s.top < s.fb.rows by omega) hlt
    exact Shows.of_setCell htop hcleared
  · exact coherent_render hrows hcolumns rfl rfl rfl hlt hring hrest' fun hf => absurd hf hfollow

lemma Coherent.resetInputLine : Coherent fb s.resetInputLine d.resetLine := by
  have htail := h.updateViewToTail hrows hcolumns
  have hbottom : s.updateViewToTail.viewportBottom = s.updateViewToTail.cursorRow := by
    rw [Console.updateViewToTail, render_eq]
  rw [Console.resetInputLine, scrollToBottom]
  generalize s.updateViewToTail = s' at htail hbottom
  obtain ⟨row, col, text⟩ := d
  obtain ⟨rfl, hrow, hcol, hlt, hholds, hrest, hfollows, hshows⟩ := htail
  subst hrow hcol
  have htop : s'.top ≤ s'.cursorRow := by
    rw [top]
    split_ifs <;> omega
  have hbelow : s'.cursorRow - s'.top < s'.fb.rows := by
    have hlt := viewportBottom_lt hrows
    omega
  have hplace : screenRowOf s'.cursorRow s'.top = s'.cursorRow - s'.top := by
    rw [kScrollbackRows] at hkept
    exact screenRowOf_eq htop (by omega)
  rw [if_neg hrows.ne', hplace]
  rw [if_pos (show _ < (s'.clearHistoryRow s'.cursorRow).fb.rows from hbelow)]
  refine ⟨rfl, rfl, rfl, hcolumns, hholds.resetLine, fun c _ _ => if_pos rfl, hfollows, ?_⟩
  refine (shows_clearPixelRow hshows hrows hbelow).congr fun i _ j _ => ?_
  have hiff : s'.top + i = s'.cursorRow ↔ i = s'.cursorRow - s'.top := by omega
  exact if_congr hiff rfl rfl

lemma Coherent.put (hc : c ≠ 0) (hok : s.Orderly c) :
    Coherent fb (s.put c) (d.put fb.columns c) := by
  rw [Orderly] at hok
  refine Run.ite_rel (fun hline => ?_) fun hline => ?_
  · rw [if_pos hline] at hok
    exact h.newline hrows hcolumns hkept hok
  rw [if_neg hline] at hok
  refine Run.ite_rel (fun _ => h) fun hreturn => ?_
  refine Run.ite_rel (fun _ => ?_) fun hform => ?_
  · rw [← h.fb_eq] at hcolumns ⊢
    exact coherent_clear hcolumns
  rw [if_neg (not_or.2 ⟨hreturn, hform⟩)] at hok
  refine Run.ite_rel (fun hback => ?_) fun hback => ?_
  · rw [if_pos hback] at hok
    exact h.backspace hrows hcolumns hkept hok
  rw [if_neg hback] at hok
  exact h.putChar hrows hcolumns hkept hc hok

lemma Coherent.write {text : List UInt8}
    (hok : Run.Allowed Console.put Orderly s (text.takeWhile fun c => c ≠ 0)) :
    Coherent fb (s.write text)
      ((text.takeWhile fun c => c ≠ 0).foldl (Document.put fb.columns) d) := by
  have hchars : ∀ c ∈ text.takeWhile fun c => c ≠ 0, c ≠ 0 := by
    intro c hc
    simpa using List.mem_takeWhile_imp hc
  exact (hok.and_forall hchars).foldl_rel
    (fun s d c h hok => h.put hrows hcolumns hkept hok.2 hok.1) h

lemma Coherent.step {op : Op} (hok : op.Orderly s) :
    Coherent fb (s.step op) (d.step fb.columns op) := by
  cases op with
  | write => exact h.write hrows hcolumns hkept hok
  | scrollView => exact h.scrollView hrows hcolumns _
  | scrollToBottom => exact h.updateViewToTail hrows hcolumns
  | resetInputLine => exact h.resetInputLine hrows hcolumns hkept

end

end Steps

/-! ## Runs -/

/-- In a run of orderly operations from a fresh console, each cell of the screen shows the character
of the document at that column of the row that many rows below the top of the viewport. -/
theorem display_coherent (fb : Framebuffer) (hrows : 0 < fb.rows) (hcolumns : 0 < fb.columns)
    (hkept : fb.rows ≤ kScrollbackRows) (cells : ℕ → ℕ → UInt8) (pixels : ℕ → Colour)
    (ops : List Op)
    (hops : Run.Allowed step (fun s op => op.Orderly s) (initializeWith fb cells pixels) ops) :
    Shows fb (ops.foldl step (initializeWith fb cells pixels)).pixels fun row col =>
      (ops.foldl (Document.step fb.columns) {}).shown
        ((ops.foldl step (initializeWith fb cells pixels)).top + row) col := by
  have hstart : Coherent fb (initializeWith fb cells pixels) {} :=
    coherent_clear (s := { fb := fb, cells := cells, pixels := pixels }) hcolumns
  have hstep : ∀ s d op, Coherent fb s d → Op.Orderly s op →
      Coherent fb (step s op) (Document.step fb.columns d op) :=
    fun s d op h hok => h.step hrows hcolumns hkept hok
  have hend := hops.foldl_rel hstep hstart
  exact hend.shows_shown

/-- A screen of two rows of three cells. -/
def wideScreen : Framebuffer where
  base := 0x80000000
  width := 24
  height := 32
  pixelsPerScanline := 32
  base_ne := by decide
  width_le := by decide
  fits := by decide

/-- Four characters and a backspace are written, with a line begun after the third, the view is
scrolled and a line is begun. -/
theorem display_coherent_wide :
    let ops := [Op.write [0x61, 0x62, 0x63, 0x64, 0x08, 0x0a, 0x65], .scrollView (-1),
      .resetInputLine]
    let console := ops.foldl step (initializeWith wideScreen (fun _ _ => 0) fun _ => 0)
    Shows wideScreen console.pixels fun row col =>
      (ops.foldl (Document.step 3) {}).shown (console.top + row) col :=
  display_coherent wideScreen (by decide) (by decide) (by decide) _ _ _ (by decide +kernel)

/-- A screen of one cell. -/
def smallScreen : Framebuffer where
  base := 0x80000000
  width := 8
  height := 16
  pixelsPerScanline := 8
  base_ne := by decide
  width_le := le_rfl
  fits := by decide

/-- A character fills the only row of the screen, so a line is begun and the character scrolls away.
A backspace goes back to it but does not erase it: it is seen again when the view goes to the
cursor. -/
theorem display_backspace_above :
    ¬Shows smallScreen
      ([Op.write [0x61, 0x08], .scrollToBottom].foldl step
        (initializeWith smallScreen (fun _ _ => 0) fun _ => 0)).pixels fun row col =>
      ([Op.write [0x61, 0x08], .scrollToBottom].foldl (Document.step 1) {}).shown
        (([Op.write [0x61, 0x08], .scrollToBottom].foldl step
          (initializeWith smallScreen (fun _ _ => 0) fun _ => 0)).top + row) col := by
  intro h
  have hpixel := h 0 (by decide) 0 (by decide) 4 (by decide) 2 (by decide)
  revert hpixel
  decide +kernel

end Console

end IanOS
