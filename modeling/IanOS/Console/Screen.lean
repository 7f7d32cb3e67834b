import Mathlib.Tactic
import Mathlib.Data.List.ProdSigma

/-!
# The screen

A framebuffer is an array of pixels, one scanline after the other.  The console divides it into
cells of eight by sixteen pixels and draws the glyphs of the table in `kernel/src/console.cpp` into
them, each row of a glyph twice.  `Shows` says which characters can be seen; the functions that draw
are described by what they do to it.
-/

namespace IanOS.Screen

open List Nat

abbrev Colour := BitVec 32

def fg : Colour := 0x00d6dee7
def bg : Colour := 0x00101820

/-- The glyphs of the characters from the space on, a byte for each row. -/
def font : List (List UInt8) :=
  [[0, 0, 0, 0, 0, 0, 0, 0], [24, 24, 24, 24, 24, 0, 24, 0],
   [54, 54, 36, 0, 0, 0, 0, 0], [54, 54, 127, 54, 127, 54, 54, 0],
   [24, 62, 96, 60, 6, 124, 24, 0], [98, 102, 12, 24, 48, 102, 70, 0],
   [56, 108, 56, 118, 220, 204, 118, 0], [24, 24, 48, 0, 0, 0, 0, 0],
   [12, 24, 48, 48, 48, 24, 12, 0], [48, 24, 12, 12, 12, 24, 48, 0],
   [0, 102, 60, 255, 60, 102, 0, 0], [0, 24, 24, 126, 24, 24, 0, 0],
   [0, 0, 0, 0, 0, 24, 24, 48], [0, 0, 0, 126, 0, 0, 0, 0],
   [0, 0, 0, 0, 0, 24, 24, 0], [2, 6, 12, 24, 48, 96, 64, 0],
   [60, 102, 110, 118, 102, 102, 60, 0], [24, 56, 24, 24, 24, 24, 126, 0],
   [60, 102, 6, 12, 48, 96, 126, 0], [60, 102, 6, 28, 6, 102, 60, 0],
   [12, 28, 60, 108, 126, 12, 12, 0], [126, 96, 124, 6, 6, 102, 60, 0],
   [28, 48, 96, 124, 102, 102, 60, 0], [126, 6, 12, 24, 48, 48, 48, 0],
   [60, 102, 102, 60, 102, 102, 60, 0], [60, 102, 102, 62, 6, 12, 56, 0],
   [0, 24, 24, 0, 0, 24, 24, 0], [0, 24, 24, 0, 0, 24, 24, 48],
   [12, 24, 48, 96, 48, 24, 12, 0], [0, 0, 126, 0, 126, 0, 0, 0],
   [48, 24, 12, 6, 12, 24, 48, 0], [60, 102, 6, 12, 24, 0, 24, 0],
   [60, 102, 110, 110, 110, 96, 62, 0], [24, 60, 102, 102, 126, 102, 102, 0],
   [124, 102, 102, 124, 102, 102, 124, 0], [60, 102, 96, 96, 96, 102, 60, 0],
   [120, 108, 102, 102, 102, 108, 120, 0], [126, 96, 96, 124, 96, 96, 126, 0],
   [126, 96, 96, 124, 96, 96, 96, 0], [60, 102, 96, 110, 102, 102, 60, 0],
   [102, 102, 102, 126, 102, 102, 102, 0], [126, 24, 24, 24, 24, 24, 126, 0],
   [30, 12, 12, 12, 12, 108, 56, 0], [102, 108, 120, 112, 120, 108, 102, 0],
   [96, 96, 96, 96, 96, 96, 126, 0], [99, 119, 127, 107, 99, 99, 99, 0],
   [102, 118, 126, 126, 110, 102, 102, 0], [60, 102, 102, 102, 102, 102, 60, 0],
   [124, 102, 102, 124, 96, 96, 96, 0], [60, 102, 102, 102, 110, 60, 14, 0],
   [124, 102, 102, 124, 120, 108, 102, 0], [60, 102, 96, 60, 6, 102, 60, 0],
   [126, 24, 24, 24, 24, 24, 24, 0], [102, 102, 102, 102, 102, 102, 60, 0],
   [102, 102, 102, 102, 102, 60, 24, 0], [99, 99, 99, 107, 127, 119, 99, 0],
   [102, 102, 60, 24, 60, 102, 102, 0], [102, 102, 102, 60, 24, 24, 24, 0],
   [126, 6, 12, 24, 48, 96, 126, 0], [60, 48, 48, 48, 48, 48, 60, 0],
   [64, 96, 48, 24, 12, 6, 2, 0], [60, 12, 12, 12, 12, 12, 60, 0],
   [24, 60, 102, 0, 0, 0, 0, 0], [0, 0, 0, 0, 0, 0, 0, 255],
   [48, 24, 12, 0, 0, 0, 0, 0], [0, 0, 60, 6, 62, 102, 62, 0],
   [96, 96, 124, 102, 102, 102, 124, 0], [0, 0, 60, 102, 96, 102, 60, 0],
   [6, 6, 62, 102, 102, 102, 62, 0], [0, 0, 60, 102, 126, 96, 60, 0],
   [28, 54, 48, 120, 48, 48, 48, 0], [0, 0, 62, 102, 102, 62, 6, 124],
   [96, 96, 124, 102, 102, 102, 102, 0], [24, 0, 56, 24, 24, 24, 60, 0],
   [6, 0, 6, 6, 6, 102, 102, 60], [96, 96, 102, 108, 120, 108, 102, 0],
   [56, 24, 24, 24, 24, 24, 60, 0], [0, 0, 102, 127, 107, 99, 99, 0],
   [0, 0, 124, 102, 102, 102, 102, 0], [0, 0, 60, 102, 102, 102, 60, 0],
   [0, 0, 124, 102, 102, 124, 96, 96], [0, 0, 62, 102, 102, 62, 6, 6],
   [0, 0, 108, 118, 96, 96, 96, 0], [0, 0, 62, 96, 60, 6, 124, 0],
   [48, 48, 120, 48, 48, 54, 28, 0], [0, 0, 102, 102, 102, 102, 62, 0],
   [0, 0, 102, 102, 102, 60, 24, 0], [0, 0, 99, 99, 107, 127, 54, 0],
   [0, 0, 102, 60, 24, 60, 102, 0], [0, 0, 102, 102, 102, 62, 6, 124],
   [0, 0, 126, 12, 24, 48, 126, 0], [14, 24, 24, 112, 24, 24, 14, 0],
   [24, 24, 24, 0, 24, 24, 24, 0], [112, 24, 24, 14, 24, 24, 112, 0],
   [118, 220, 0, 0, 0, 0, 0, 0], [0, 16, 56, 108, 198, 198, 254, 0]]

/-- `FramebufferInfo`.  A scanline has room for a row of pixels, and the number of a pixel is a
32-bit number. -/
structure Framebuffer where
  base : ℕ
  width : ℕ
  height : ℕ
  pixelsPerScanline : ℕ
  base_ne : base ≠ 0
  width_le : width ≤ pixelsPerScanline
  fits : height * pixelsPerScanline < 2 ^ 32

/-- A pixel and the colour it gets. -/
structure Dot where
  y : ℕ
  x : ℕ
  colour : Colour

def kMaxColumns : ℕ := 160

namespace Framebuffer

variable (fb : Framebuffer)

def columns : ℕ := if fb.width / 8 > kMaxColumns then kMaxColumns else fb.width / 8

def rows : ℕ := fb.height / 16

/-- The number of a pixel. -/
def index (y x : ℕ) : ℕ := y * fb.pixelsPerScanline + x

/-- A pixel outside the screen is not drawn. -/
def setPixel (pixels : ℕ → Colour) (d : Dot) : ℕ → Colour :=
  if d.x < fb.width ∧ d.y < fb.height then Function.update pixels (fb.index d.y d.x) d.colour
  else pixels

def paint (dots : List Dot) (pixels : ℕ → Colour) : ℕ → Colour := dots.foldl fb.setPixel pixels

def clearPixels (pixels : ℕ → Colour) : ℕ → Colour :=
  fb.paint ((range fb.height ×ˢ range fb.width).map fun k => ⟨k.1, k.2, bg⟩) pixels

/-- The coordinates are 32-bit numbers. -/
def clearPixelCell (cellX cellY : ℕ) (pixels : ℕ → Colour) : ℕ → Colour :=
  fb.paint ((range 16 ×ˢ range 8).map fun k =>
    ⟨(cellY * 16 + k.1) % 2 ^ 32, (cellX * 8 + k.2) % 2 ^ 32, bg⟩) pixels

end Framebuffer

/-- The character drawn for `c`. -/
def drawable (c : UInt8) : UInt8 := if c < 32 ∨ c > 127 then 0x3f else c

/-- Whether the glyph of a character has a dot. -/
def hasDot (c : UInt8) (row col : ℕ) : Prop :=
  (((font.getD ((drawable c).toNat - 32) []).getD row 0).toNat.testBit (7 - col)) = true
  deriving Decidable

def Framebuffer.drawChar (fb : Framebuffer) (c : UInt8) (x y : ℕ) (colour : Colour)
    (pixels : ℕ → Colour) : ℕ → Colour :=
  fb.paint ((range 8 ×ˢ range 8).flatMap fun k =>
    let out := if hasDot c k.1 k.2 then colour else bg
    [⟨y + k.1 * 2, x + k.2, out⟩, ⟨y + k.1 * 2 + 1, x + k.2, out⟩]) pixels

/-! ## Pixels -/

namespace Framebuffer

variable {fb : Framebuffer} {pixels : ℕ → Colour} {y x : ℕ}

lemma index_inj {y' x' : ℕ} (hx : x < fb.width) (hx' : x' < fb.width) :
    fb.index y x = fb.index y' x' ↔ y = y' ∧ x = x' := by
  have hlt := hx.trans_le fb.width_le
  have hlt' := hx'.trans_le fb.width_le
  refine ⟨fun heq => ?_, fun heq => by rw [heq.1, heq.2]⟩
  have hpos : 0 < fb.pixelsPerScanline := by omega
  rw [index, index] at heq
  have hy := congrArg (· / fb.pixelsPerScanline) heq
  simp only [add_comm _ x, add_comm _ x', add_mul_div_right _ _ hpos,
    div_eq_of_lt hlt, div_eq_of_lt hlt', zero_add] at hy
  rw [hy] at heq
  exact ⟨hy, add_left_cancel heq⟩

lemma setPixel_index (hy : y < fb.height) (hx : x < fb.width) (d : Dot) :
    fb.setPixel pixels d (fb.index y x) = if d.y = y ∧ d.x = x then d.colour
    else pixels (fb.index y x) := by
  rw [setPixel]
  split
  · next hd =>
    rw [Function.update_apply]
    simp only [index_inj hx hd.1, eq_comm]
  · next hd =>
    rw [if_neg]
    rintro ⟨rfl, rfl⟩
    exact hd ⟨hx, hy⟩

/-- If the colour of a dot depends on its place only, the order of the dots does not matter. -/
lemma paint_index {g : ℕ → ℕ → Colour} (hy : y < fb.height) (hx : x < fb.width) (dots : List Dot)
    (hg : ∀ d ∈ dots, d.colour = g d.y d.x) (pixels : ℕ → Colour) :
    fb.paint dots pixels (fb.index y x) =
      if ∃ d ∈ dots, d.y = y ∧ d.x = x then g y x else pixels (fb.index y x) := by
  induction dots generalizing pixels with
  | nil => simp [paint]
  | cons d dots ih =>
    have hrest : fb.paint (d :: dots) pixels = fb.paint dots (fb.setPixel pixels d) := rfl
    rw [hrest, ih (fun e he => hg e (mem_cons_of_mem d he)), setPixel_index hy hx]
    by_cases hlater : ∃ e ∈ dots, e.y = y ∧ e.x = x
    · rw [if_pos hlater, if_pos (hlater.imp fun e he => ⟨mem_cons_of_mem d he.1, he.2⟩)]
    rw [if_neg hlater]
    by_cases hd : d.y = y ∧ d.x = x
    · rw [if_pos hd, if_pos ⟨d, mem_cons_self, hd⟩, hg d mem_cons_self, hd.1, hd.2]
    rw [if_neg hd, if_neg]
    rintro ⟨e, he, hplace⟩
    rcases mem_cons.1 he with rfl | he
    · exact hd hplace
    · exact hlater ⟨e, he, hplace⟩

end Framebuffer

/-! ## Cells -/

/-- The colour of a pixel of a cell that shows a character. -/
def glyphPixel (c : UInt8) (dy dx : ℕ) : Colour := if hasDot c (dy / 2) dx then fg else bg

/-- In each cell of the screen the character given by `d` can be seen. -/
def Shows (fb : Framebuffer) (pixels : ℕ → Colour) (d : ℕ → ℕ → UInt8) : Prop :=
  ∀ row < fb.rows, ∀ col < fb.columns, ∀ dy < 16, ∀ dx < 8,
    pixels (fb.index (row * 16 + dy) (col * 8 + dx)) = glyphPixel (d row col) dy dx

/-- One cell of the screen changes. -/
def setCell (d : ℕ → ℕ → UInt8) (row col : ℕ) (c : UInt8) (i j : ℕ) : UInt8 :=
  if i = row ∧ j = col then c else d i j

lemma not_hasDot_space (row col : ℕ) : ¬hasDot 0x20 row col := by
  have hzero : (font.getD ((drawable 0x20).toNat - 32) []) = replicate 8 0 := by decide
  have hbyte : (replicate 8 (0 : UInt8)).getD row 0 = 0 := by
    rw [getD_eq_getElem?_getD, getElem?_replicate]
    split_ifs <;> rfl
  rw [hasDot, hzero, hbyte]
  simp

lemma glyphPixel_space (dy dx : ℕ) : glyphPixel 0x20 dy dx = bg := if_neg (not_hasDot_space _ _)

namespace Framebuffer

variable {fb : Framebuffer} {pixels : ℕ → Colour} {d : ℕ → ℕ → UInt8} {row col dy dx : ℕ}

lemma y_lt (hrow : row < fb.rows) (hdy : dy < 16) : row * 16 + dy < fb.height := by
  rw [rows] at hrow
  omega

lemma x_lt (hcol : col < fb.columns) (hdx : dx < 8) : col * 8 + dx < fb.width := by
  rw [columns] at hcol
  split_ifs at hcol <;> omega

lemma shows_clearPixels (fb : Framebuffer) (pixels : ℕ → Colour) :
    Shows fb (fb.clearPixels pixels) fun _ _ => 0x20 := by
  intro row hrow col hcol dy hdy dx hdx
  have hy := y_lt hrow hdy
  have hx := x_lt hcol hdx
  rw [clearPixels, paint_index (g := fun _ _ => bg) hy hx, glyphPixel_space, if_pos]
  · refine ⟨⟨_, _, bg⟩, mem_map.2 ⟨(_, _), ?_, rfl⟩, rfl, rfl⟩
    exact mem_product.2 ⟨mem_range.2 hy, mem_range.2 hx⟩
  · intro e he
    obtain ⟨k, -, rfl⟩ := mem_map.1 he
    rfl

lemma shows_clearPixelCell (h : Shows fb pixels d) (hwidth : fb.width < 2 ^ 32)
    (hrow : row < fb.rows)
    (hcol : col < fb.columns) :
    Shows fb (fb.clearPixelCell col row pixels) (setCell d row col 0x20) := by
  intro row' hrow' col' hcol' dy hdy dx hdx
  have hy := y_lt hrow' hdy
  have hx := x_lt hcol' hdx
  have hwrap {k : ℕ × ℕ} (hk : k ∈ range 16 ×ˢ range 8) :
      (row * 16 + k.1) % 2 ^ 32 = row * 16 + k.1 ∧ (col * 8 + k.2) % 2 ^ 32 = col * 8 + k.2 := by
    obtain ⟨hk1, hk2⟩ := mem_product.1 hk
    have hy' := fb.y_lt hrow (mem_range.1 hk1)
    have hx' := fb.x_lt hcol (mem_range.1 hk2)
    have hle := fb.width_le
    have hfits := fb.fits
    have hheight : fb.height ≤ fb.height * fb.pixelsPerScanline :=
      Nat.le_mul_of_pos_right _ (by omega)
    exact ⟨Nat.mod_eq_of_lt (by omega), Nat.mod_eq_of_lt (by omega)⟩
  rw [clearPixelCell, paint_index (g := fun _ _ => bg) hy hx, setCell]
  · by_cases hcell : row' = row ∧ col' = col
    · rw [if_pos hcell, glyphPixel_space, if_pos]
      obtain ⟨rfl, rfl⟩ := hcell
      have hk : (dy, dx) ∈ range 16 ×ˢ range 8 :=
        mem_product.2 ⟨mem_range.2 hdy, mem_range.2 hdx⟩
      exact ⟨_, mem_map.2 ⟨(dy, dx), hk, rfl⟩, (hwrap hk).1, (hwrap hk).2⟩
    rw [if_neg hcell, if_neg]
    · exact h row' hrow' col' hcol' dy hdy dx hdx
    rintro ⟨e, he, hey, hex⟩
    obtain ⟨k, hk, rfl⟩ := mem_map.1 he
    obtain ⟨hk1, hk2⟩ := mem_product.1 hk
    rw [mem_range] at hk1 hk2
    dsimp only at hey hex
    rw [(hwrap hk).1] at hey
    rw [(hwrap hk).2] at hex
    exact hcell ⟨by omega, by omega⟩
  · intro e he
    obtain ⟨k, -, rfl⟩ := mem_map.1 he
    rfl

lemma shows_drawChar (h : Shows fb pixels d) (c : UInt8) (row col : ℕ) :
    Shows fb (fb.drawChar c (col * 8) (row * 16) fg pixels) (setCell d row col c) := by
  intro row' hrow' col' hcol' dy hdy dx hdx
  have hy := y_lt hrow' hdy
  have hx := x_lt hcol' hdx
  have hg : ∀ e ∈ (range 8 ×ˢ range 8).flatMap fun k =>
      let out := if hasDot c k.1 k.2 then fg else bg
      [Dot.mk (row * 16 + k.1 * 2) (col * 8 + k.2) out,
        ⟨row * 16 + k.1 * 2 + 1, col * 8 + k.2, out⟩],
      e.colour = glyphPixel c (e.y - row * 16) (e.x - col * 8) := by
    intro e he
    obtain ⟨k, -, hk⟩ := mem_flatMap.1 he
    have hdown : (row * 16 + k.1 * 2 - row * 16) / 2 = k.1 ∧
        (row * 16 + k.1 * 2 + 1 - row * 16) / 2 = k.1 ∧ col * 8 + k.2 - col * 8 = k.2 := by omega
    rcases mem_pair.1 hk with rfl | rfl
    · rw [glyphPixel, hdown.1, hdown.2.2]
    · rw [glyphPixel, hdown.2.1, hdown.2.2]
  rw [drawChar,
    paint_index (g := fun y x => glyphPixel c (y - row * 16) (x - col * 8)) hy hx _ hg, setCell]
  by_cases hcell : row' = row ∧ col' = col
  · rw [if_pos hcell]
    obtain ⟨rfl, rfl⟩ := hcell
    rw [Nat.add_sub_cancel_left, Nat.add_sub_cancel_left, if_pos]
    have hk : (dy / 2, dx) ∈ range 8 ×ˢ range 8 :=
      mem_product.2 ⟨mem_range.2 (by omega), mem_range.2 hdx⟩
    rcases mod_two_eq_zero_or_one dy with heven | hodd
    · exact ⟨_, mem_flatMap.2 ⟨_, hk, mem_pair.2 (.inl rfl)⟩, by dsimp only; omega, rfl⟩
    · exact ⟨_, mem_flatMap.2 ⟨_, hk, mem_pair.2 (.inr rfl)⟩, by dsimp only; omega, rfl⟩
  · rw [if_neg hcell, if_neg]
    · exact h row' hrow' col' hcol' dy hdy dx hdx
    rintro ⟨e, he, hey, hex⟩
    obtain ⟨k, hk, hdot⟩ := mem_flatMap.1 he
    obtain ⟨hk1, hk2⟩ := mem_product.1 hk
    rw [mem_range] at hk1 hk2
    rcases mem_pair.1 hdot with rfl | rfl
    · dsimp only at hey hex
      exact hcell ⟨by omega, by omega⟩
    · dsimp only at hey hex
      exact hcell ⟨by omega, by omega⟩

end Framebuffer

/-- Cells that show the same may be described in another way. -/
lemma Shows.congr {fb : Framebuffer} {pixels : ℕ → Colour} {d d' : ℕ → ℕ → UInt8}
    (h : Shows fb pixels d)
    (hsame : ∀ row < fb.rows, ∀ col < fb.columns, d' row col = d row col) : Shows fb pixels d' := by
  intro row hrow col hcol dy hdy dx hdx
  rw [hsame row hrow col hcol]
  exact h row hrow col hcol dy hdy dx hdx

end IanOS.Screen
