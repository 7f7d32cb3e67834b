import IanOS.Userland.LineEditor
import Mathlib.Data.List.DropRight
import Mathlib.Data.List.Infix

/-!
# The reference editor

The reference editor has the text before the cursor and the text after it.  A key adds to the first,
removes from one of the two, or moves the border between them.  `Editor.Refines` relates the shell's
editor to it: the buffer spells the text, the length and the cursor agree, and the ring of the
history holds the remembered lines.  The functions that edit a line are described by what they do to
the two texts.
-/

namespace IanOS.InitShell

open Text List Function Nat

/-! ## The reference editor -/

structure Reference where
  before : List UInt8 := []
  after : List UInt8 := []
  draft : List UInt8 := []
  view : ℕ := 0
  /-- the lines of the history, the oldest first -/
  entries : List (List UInt8) := []
  exited : Bool := false

namespace Reference

variable (r : Reference)

def content : List UInt8 := r.before ++ r.after

/-- As much of a text as there is room for is inserted at the cursor. -/
def insertText (text : List UInt8) : Reference :=
  { r with before := r.before ++ text.take (kLineCapacity - 1 - r.content.length) }

def moveTo (place : ℕ) : Reference :=
  { r with before := r.content.take place, after := r.content.drop place }

def replace (text : List UInt8) : Reference := { r with before := text, after := [] }

/-- The text to be inserted when the word before the cursor is completed: what the only match has
after the word, and a space after the name of a command. -/
def completion (vfs : Vfs) : List UInt8 :=
  if r.before.all fun c => !isBlank c then
    match commandNames.filter fun name => r.before <+: name with
    | [name] => name.drop r.before.length ++ [0x20]
    | _ => []
  else
    let token := r.before.rtakeWhile fun c => !isBlank c
    if token = [] then []
    else
      match (vfs.paths.map Subtype.val).filter fun path => token <+: path with
      | [path] => path.drop token.length
      | _ => []

/-- A line is remembered unless it is empty or the same as the last. -/
def record (entries : List (List UInt8)) (text : List UInt8) : List (List UInt8) :=
  if text = [] ∨ entries.getLast? = some text then entries
  else (entries ++ [text]).drop ((entries ++ [text]).length - kHistoryCapacity)

def enter : Reference where
  entries := record r.entries r.content
  view := (record r.entries r.content).length
  exited := r.exited

def earlier : Reference :=
  if r.entries ≠ [] ∧ r.view ≠ 0 then
    { r.replace (r.entries.getD (r.view - 1) []) with
      draft := if r.view = r.entries.length then r.content else r.draft
      view := r.view - 1 }
  else r

def later : Reference :=
  if r.view < r.entries.length then
    { r.replace (if r.view + 1 = r.entries.length then r.draft
      else r.entries.getD (r.view + 1) []) with
      view := r.view + 1 }
  else r

def type (c : UInt8) : Reference :=
  { r with before := r.before ++ [c], draft := r.before ++ c :: r.after, view := r.entries.length }

def press (input : Input) : Reference :=
  let c := input.key
  if c = 0x11 ∨ c = 0x12 then r
  else if c = 0x0d ∨ c = 0x0a then r.enter
  else if c = 0x10 then r.earlier
  else if c = 0x0e then r.later
  else if c = 0x04 then
    if r.content = [] then { r with exited := true } else { r with after := r.after.tail }
  else if c = 0x0c then r
  else if c = 0x01 then r.moveTo 0
  else if c = 0x05 then r.moveTo r.content.length
  else if c = 0x02 then r.moveTo (r.before.length - 1)
  else if c = 0x06 then r.moveTo (r.before.length + 1)
  else if c = 0x7f then { r with after := r.after.tail }
  else if c = 0x09 then r.insertText (r.completion input.vfs)
  else if c = 0x08 then { r with before := r.before.dropLast }
  else if c ≥ 32 ∧ c < 127 ∧ r.content.length + 1 < kLineCapacity then r.type c
  else r

def step (input : Input) : Reference := if r.exited then r else r.press input

end Reference

/-! ## The relation -/

/-- The line of an editor, with its cursor. -/
structure Editor.At (s : Editor) (before after : List UInt8) : Prop where
  spells : Spells s.line (before ++ after)
  length : s.length = before.length + after.length
  cursor : s.cursor = before.length
  fits : s.length < kLineCapacity

/-- The history keeps the lines, the oldest first; the newest is in the place before `next`. -/
structure History.Keeps (h : History) (entries : List (List UInt8)) : Prop where
  count : h.count = entries.length
  le : entries.length ≤ kHistoryCapacity
  next_lt : h.next < kHistoryCapacity
  next : entries.length < kHistoryCapacity → h.next = entries.length
  spells : ∀ i (hi : i < entries.length),
    Spells (h.lines ((h.next + (kHistoryCapacity - entries.length) + i) % kHistoryCapacity))
      entries[i]
  fits : ∀ text ∈ entries, text.length < kLineCapacity

/-- What an editor has besides its line. -/
structure Editor.Remembers (s : Editor) (r : Reference) : Prop where
  draft : Spells s.draft r.draft
  draft_fits : r.draft.length < kLineCapacity
  view : s.historyView = r.view
  view_le : r.view ≤ r.entries.length
  history : s.history.Keeps r.entries
  exited : s.exited = r.exited

structure Editor.Refines (s : Editor) (r : Reference) : Prop where
  line : s.At r.before r.after
  memory : s.Remembers r

/-! ## The history -/

namespace History.Keeps

variable {h : History} {entries : List (List UInt8)} {i : ℕ} {line : Buffer} {text : List UInt8}

lemma empty : ({} : History).Keeps [] :=
  ⟨rfl, zero_le _, by decide, fun _ => rfl, fun i hi => absurd hi (not_lt_zero i), by simp⟩

section

variable (hk : h.Keeps entries)
include hk

lemma entry_eq (hi : i < entries.length) :
    h.entry i = h.lines
      ((h.next + (kHistoryCapacity - entries.length) + i) % kHistoryCapacity) := by
  have hle := hk.le
  rw [History.entry, if_neg (by rw [hk.count]; omega), hk.count]
  dsimp only
  split_ifs with hfull
  · rw [hfull, Nat.sub_self, Nat.add_zero]
  · have hnext := hk.next (lt_of_le_of_ne hle hfull)
    have hslot : h.next + (kHistoryCapacity - entries.length) + i = i + kHistoryCapacity := by omega
    rw [hslot, zero_add, add_mod_right]

lemma spells_getD (hi : i < entries.length) :
    Spells (h.entry i) (entries.getD i []) ∧ (entries.getD i []).length < kLineCapacity := by
  rw [getD_eq_getElem _ _ hi, hk.entry_eq hi]
  exact ⟨hk.spells i hi, hk.fits _ (getElem_mem hi)⟩

/-- The last entry is where the code looks for it. -/
lemma spells_last (hne : entries ≠ []) :
    Spells (h.lines ((h.next + kHistoryCapacity - 1) % kHistoryCapacity))
      (entries.getLast hne) := by
  have hpos := length_pos_of_ne_nil hne
  have hle := hk.le
  have hlast := hk.spells (entries.length - 1) (by omega)
  have hslot : h.next + (kHistoryCapacity - entries.length) + (entries.length - 1) =
      h.next + kHistoryCapacity - 1 := by omega
  rw [hslot] at hlast
  rwa [getLast_eq_getElem]

/-- A line is added; the oldest is lost if there is no room. -/
lemma add (hline : Spells line text) (hfits : text.length < kLineCapacity) :
    History.Keeps
      { lines := update h.lines h.next line
        next := (h.next + 1) % kHistoryCapacity
        count := if h.count < kHistoryCapacity then h.count + 1 else h.count }
      ((entries ++ [text]).drop ((entries ++ [text]).length - kHistoryCapacity)) := by
  have hle := hk.le
  have hlt := hk.next_lt
  -- every line but the one that is overwritten stays where it is
  have hplace : ∀ k (hk' : k < (entries ++ [text]).length), entries.length < k + kHistoryCapacity →
      Spells (update h.lines h.next line
        ((h.next + (kHistoryCapacity - entries.length) + k) % kHistoryCapacity))
          (entries ++ [text])[k] := by
    intro k hlen hkept
    rw [length_append, length_singleton] at hlen
    rcases lt_or_ge k entries.length with hold | hnew
    · rw [getElem_append_left hold, update_of_ne]
      · exact hk.spells k hold
      · rw [kHistoryCapacity] at *
        omega
    obtain rfl : k = entries.length := by omega
    have hslot :
      (h.next + (kHistoryCapacity - entries.length) + entries.length) % kHistoryCapacity =
        h.next := by
      rw [kHistoryCapacity] at *
      omega
    rw [hslot, update_self, getElem_concat_length]
    · exact hline
    · rfl
  have hdrop : (entries ++ [text]).length - kHistoryCapacity =
      if entries.length < kHistoryCapacity then 0 else 1 := by
    rw [length_append, length_singleton]
    split_ifs <;> omega
  have hlen : ((entries ++ [text]).drop ((entries ++ [text]).length - kHistoryCapacity)).length =
      if entries.length < kHistoryCapacity then entries.length + 1 else entries.length := by
    rw [length_drop, length_append, length_singleton]
    split_ifs <;> omega
  refine ⟨?_, ?_, mod_lt _ (by decide), ?_, ?_, ?_⟩
  · rw [hlen, hk.count]
  · rw [hlen]
    split_ifs <;> omega
  · rw [hlen]
    intro hroom
    by_cases hless : entries.length < kHistoryCapacity
    · rw [if_pos hless] at hroom ⊢
      rw [hk.next hless, mod_eq_of_lt hroom]
    · rw [if_neg hless] at hroom
      exact absurd hroom hless
  · intro i hi
    rw [getElem_drop]
    have hi' := hi
    rw [hlen] at hi' ⊢
    have hspells := hplace ((entries ++ [text]).length - kHistoryCapacity + i)
      (by rw [length_drop] at hi; omega) (by rw [hdrop]; split_ifs <;> omega)
    have hslot : ((h.next + 1) % kHistoryCapacity +
          (kHistoryCapacity - if entries.length < kHistoryCapacity then entries.length + 1
            else entries.length) +
          i) % kHistoryCapacity =
        (h.next + (kHistoryCapacity - entries.length) +
          ((entries ++ [text]).length - kHistoryCapacity + i)) % kHistoryCapacity := by
      rw [hdrop]
      rw [kHistoryCapacity] at *
      split_ifs <;> omega
    rwa [hslot]
  · intro e he
    rcases mem_append.1 (mem_of_mem_drop he) with hold | hnew
    · exact hk.fits e hold
    · rwa [mem_singleton.1 hnew]

lemma repeats_iff (hline : Spells line text) :
    ((if h.count = 0 then kHistoryCapacity
      else (h.next + kHistoryCapacity - 1) % kHistoryCapacity) ≠
        kHistoryCapacity ∧
      same (h.lines (if h.count = 0 then kHistoryCapacity
        else (h.next + kHistoryCapacity - 1) % kHistoryCapacity)) line kLineCapacity 0 = true) ↔
      entries.getLast? = some text := by
  by_cases hnone : entries = []
  · have hcount : h.count = 0 := by rw [hk.count, hnone, length_nil]
    rw [if_pos hcount, hnone, getLast?_nil]
    simp
  have hcount : h.count ≠ 0 := by
    rw [hk.count]
    exact (length_pos_of_ne_nil hnone).ne'
  have hindex : (h.next + kHistoryCapacity - 1) % kHistoryCapacity ≠ kHistoryCapacity :=
    (mod_lt _ (by decide)).ne
  have hshort : (entries.getLast hnone).length < 0 + kLineCapacity := by
    rw [zero_add]
    exact hk.fits _ (getLast_mem hnone)
  have hsame := same_iff (hk.spells_last hnone) hline (zero_le _) (zero_le _) hshort
  rw [if_neg hcount, getLast?_eq_some_getLast hnone, hsame, Option.some.injEq]
  exact and_iff_right hindex

lemma push (hline : Spells line text) (hfits : text.length < kLineCapacity) :
    (h.push line).Keeps (Reference.record entries text) := by
  rw [History.push, Reference.record]
  by_cases hempty : text = []
  · have hzero : line 0 = 0 := (hline.get_eq_zero_iff (zero_le _)).2 (by rw [hempty, length_nil])
    rwa [if_pos hzero, if_pos (.inl hempty)]
  rw [if_neg (hline.get_ne_zero (length_pos_of_ne_nil hempty))]
  by_cases hrepeat : entries.getLast? = some text
  · rwa [if_pos ((hk.repeats_iff hline).2 hrepeat), if_pos (.inr hrepeat)]
  · rw [if_neg ((hk.repeats_iff hline).not.2 hrepeat), if_neg (not_or.2 ⟨hempty, hrepeat⟩)]
    exact hk.add (hline.copy_of_lt hfits) hfits

end

end History.Keeps

/-! ## Editing the line -/

namespace Editor.At

variable {s : Editor} {before after : List UInt8} {text : List UInt8}

section

variable (h : s.At before after)
include h

lemma cursor_le : s.cursor ≤ s.length := by
  rw [h.cursor, h.length]
  omega

/-- The text of the line stays when the cursor moves. -/
lemma redrawInput (target : ℕ) :
    (s.redrawInput target).At ((before ++ after).take target) ((before ++ after).drop target) := by
  have hlen := h.length
  refine ⟨?_, ?_, ?_, h.fits⟩
  · rw [take_append_drop]
    exact h.spells
  · rw [length_take, length_drop, length_append, Editor.redrawInput]
    dsimp only
    omega
  · rw [length_take, length_append, Editor.redrawInput]
    dsimp only
    split_ifs <;> omega

lemma redrawInput_cursor : (s.redrawInput s.cursor).At before after := by
  have hmoved := h.redrawInput s.cursor
  rw [h.cursor] at hmoved ⊢
  rwa [take_left, drop_left] at hmoved

lemma insert {c : UInt8} (hc : c ≠ 0) (hroom : s.length + 1 < kLineCapacity) :
    Editor.At { s with line := s.insertAtCursor c, cursor := s.cursor + 1, length := s.length + 1 }
      (before ++ [c]) after := by
  have hlen := h.length
  have hcursor := h.cursor
  refine ⟨?_, ?_, ?_, hroom⟩
  · rw [append_assoc, singleton_append]
    have hgap := h.spells.insert hc (n := s.length + 1 - s.cursor) (by omega)
    refine Spells.update_length ?_ ?_
    · rw [hcursor] at hgap ⊢
      exact hgap
    · rw [length_append, length_cons]
      omega
  · rw [length_append, length_singleton]
    dsimp only
    omega
  · rw [length_append, length_singleton]
    dsimp only
    omega

/-- As much of a text as there is room for is inserted, letter by letter. -/
lemma appendCompletionSuffix {found : Buffer} (hfound : Spells found text)
    {n i : ℕ} (hi : i ≤ text.length) (hn : kLineCapacity ≤ s.length + 1 + n) :
    (s.appendCompletionSuffix found n i).At
      (before ++ (text.drop i).take (kLineCapacity - 1 - s.length)) after := by
  induction n generalizing s before i with
  | zero =>
    have hfull : kLineCapacity - 1 - s.length = 0 := by omega
    rwa [Editor.appendCompletionSuffix, hfull, take_zero, append_nil]
  | succ n ih =>
    rw [Editor.appendCompletionSuffix]
    split_ifs with hmore
    · have hlt : i < text.length := lt_of_le_of_ne hi ((hfound.get_eq_zero_iff hi).not.1 hmore.1)
      have hrest := ih (h.insert hmore.1 hmore.2) hlt (by dsimp only; omega)
      obtain ⟨k, hk⟩ : ∃ k, kLineCapacity - 1 - s.length = k + 1 :=
        ⟨kLineCapacity - 2 - s.length, by omega⟩
      have hk' : kLineCapacity - 1 - (s.length + 1) = k := by omega
      rw [hk'] at hrest
      rw [hfound.drop_eq hlt, hk, take_succ_cons]
      rwa [append_assoc, singleton_append] at hrest
    · have hnothing : (text.drop i).take (kLineCapacity - 1 - s.length) = [] := by
        by_cases hend : found i = 0
        · rw [drop_eq_nil_of_le ((hfound.get_eq_zero_iff hi).1 hend).ge, take_nil]
        have hfull : kLineCapacity - 1 - s.length = 0 := by
          have hno : ¬s.length + 1 < kLineCapacity := fun hroom => hmore ⟨hend, hroom⟩
          omega
        rw [hfull, take_zero]
      rwa [hnothing, append_nil]

lemma deleteAtCursor : s.deleteAtCursor.At before after.tail := by
  have hlen := h.length
  have hcursor := h.cursor
  have hfits := h.fits
  rw [Editor.deleteAtCursor]
  cases after with
  | nil =>
    rw [length_nil] at hlen
    rwa [if_neg (by omega)]
  | cons a after =>
    rw [length_cons] at hlen
    rw [if_pos (by omega), tail_cons]
    have hline := h.spells.remove (n := s.length - s.cursor) (by omega)
    refine redrawInput_cursor ?_
    refine ⟨?_, ?_, hcursor, ?_⟩
    · rw [hcursor] at hline ⊢
      exact hline
    · dsimp only
      omega
    · dsimp only
      omega

/-- The letter before the cursor is removed. -/
lemma backspace : s.backspace.At before.dropLast after := by
  have hlen := h.length
  have hcursor := h.cursor
  have hfits := h.fits
  rw [Editor.backspace]
  rcases eq_nil_or_concat' before with rfl | ⟨before, a, rfl⟩
  · rw [if_neg (by rw [hcursor]; simp)]
    exact h
  rw [length_append, length_singleton] at hlen hcursor
  rw [if_pos (by omega), dropLast_concat]
  have hspells := h.spells
  rw [append_assoc, singleton_append] at hspells
  have hline := hspells.remove (n := s.length - (s.cursor - 1)) (by omega)
  have htarget : s.cursor - 1 = before.length := by omega
  refine redrawInput_cursor ?_
  refine ⟨?_, ?_, htarget, ?_⟩
  · rw [htarget] at hline ⊢
    exact hline
  · dsimp only
    omega
  · dsimp only
    omega

end

lemma replaceInput {buffer : Buffer} (hbuffer : Spells buffer text)
    (hfits : text.length < kLineCapacity) : (s.replaceInput buffer).At text [] := by
  have hline := hbuffer.copy_of_lt hfits
  have hlen := lengthUpTo_eq_length hline hfits.le
  rw [Editor.replaceInput, hlen]
  refine redrawInput_cursor
    (s := { s with line := _, length := text.length, cursor := text.length }) ?_
  exact ⟨by rwa [append_nil], rfl, rfl, hfits⟩

end Editor.At

end IanOS.InitShell
