import IanOS.Lib.Run
import IanOS.Userland.EditorReference

/-!
# The line editor edits at the cursor

The buffer of the shell's editor spells the text of the reference editor, and length and cursor
agree with it, after every sequence of keys, `line_editor_refines`.

The space that follows a completed command name is written over what is after the cursor, without a
gap being made for it.  `CompletesInPlace` says that this does not happen: the cursor is at the end,
or no name is completed, or there is no room for the space.
-/

namespace IanOS.InitShell

open Text List Reference Editor Run
open Function (update update_self)

/-! ## Completion -/

/-- The space after a completed name is not written over a letter. -/
def Editor.CompletesInPlace (s : Editor) : Prop :=
  s.cursor = s.length ∨ ((range s.cursor).any fun i => isBlank (s.line i)) = true ∨
    (matching commandNames (s.tokenFrom 0)).length ≠ 1 ∨
      ∀ name ∈ matching commandNames (s.tokenFrom 0),
        kLineCapacity ≤ s.length + (name.length - s.cursor) + 1
  deriving Decidable

/-- A key that is pressed in a state: only Tab has a condition. -/
def Input.Orderly (s : Editor) (input : Input) : Prop := input.key = 0x09 → s.CompletesInPlace
  deriving Decidable

/-- Two editors that differ in their lines only. -/
structure Editor.SameMemory (s s' : Editor) : Prop where
  draft : s'.draft = s.draft
  view : s'.historyView = s.historyView
  history : s'.history = s.history
  exited : s'.exited = s.exited

lemma Editor.Refines.of_line {s s' : Editor} {r : Reference} {before after : List UInt8}
    (h : s.Refines r) (hline : s'.At before after) (hsame : s.SameMemory s') :
    s'.Refines { r with before := before, after := after } := by
  obtain ⟨hdraft, hfits, hview, hle, hhist, hexit⟩ := h.memory
  exact ⟨hline, by rwa [hsame.draft], hfits, by rwa [hsame.view], hle, by rwa [hsame.history],
    by rwa [hsame.exited]⟩

lemma Editor.sameMemory_appendCompletionSuffix (s : Editor) (found : Buffer) (n i : ℕ) :
    s.SameMemory (s.appendCompletionSuffix found n i) := by
  induction n generalizing s i with
  | zero => exact ⟨rfl, rfl, rfl, rfl⟩
  | succ n ih =>
    rw [appendCompletionSuffix]
    split_ifs
    · obtain ⟨hdraft, hview, hhist, hexit⟩ :=
        ih { s with
          line := s.insertAtCursor (found i), cursor := s.cursor + 1, length := s.length + 1 }
          (i + 1)
      exact ⟨hdraft, hview, hhist, hexit⟩
    · exact ⟨rfl, rfl, rfl, rfl⟩

lemma commandNames_ne_zero : ∀ name ∈ commandNames, ∀ c ∈ name, c ≠ 0 := by
  have hall : (commandNames.all fun name => name.all (· != 0)) = true := by decide +kernel
  simpa using hall

lemma matching_eq {names : List (List UInt8)} {buffer : Buffer} {token : List UInt8}
    (hnames : ∀ name ∈ names, ∀ c ∈ name, c ≠ 0) (hbuffer : Spells buffer token)
    (hfits : token.length < kLineCapacity) :
    matching names buffer = names.filter fun name => token <+: name := by
  refine filter_congr fun name hname => ?_
  have hstarts :=
    startsWith_iff (Spells.ofList (hnames name hname)) hbuffer (Nat.zero_le _) (Nat.zero_le _)
    (n := kLineCapacity) (by omega)
  rwa [Bool.eq_iff_iff, decide_eq_true_iff]

lemma of_mem_found {names : List (List UInt8)} (token : List UInt8)
    (hnames : ∀ name ∈ names, ∀ c ∈ name, c ≠ 0) :
    ∀ name ∈ names.filter fun name => token <+: name, token <+: name ∧ ∀ c ∈ name, c ≠ 0 := by
  intro name hname
  obtain ⟨hin, hstarts⟩ := mem_filter.1 hname
  exact ⟨of_decide_eq_true hstarts, hnames name hin⟩

namespace Editor.At

variable {s : Editor} {before after : List UInt8}

lemma get_before (h : s.At before after) {i : ℕ} (hi : i < before.length) :
    s.line i = before[i] := by
  rw [h.spells.get_lt (by rw [length_append]; omega), getElem_append_left hi]

lemma tokenFrom (h : s.At before after) {start : ℕ} (hstart : start ≤ before.length) :
    Spells (s.tokenFrom start) (before.drop start) := by
  have hlen := h.length
  have hfits := h.fits
  refine ⟨fun c hc => h.spells.ne_zero c (mem_append_left _ (mem_of_mem_drop hc)), fun i hi => ?_⟩
  rw [Editor.tokenFrom, h.cursor]
  split_ifs with hin
  · rw [h.get_before hin.1, getD_eq_getElem _ _ (by rw [List.length_drop]; omega), getElem_drop]
  · rw [getD_eq_default]
    rw [List.length_drop]
    omega

lemma all_not_blank (h : s.At before after) :
    ((range s.cursor).all fun i => !isBlank (s.line i)) = before.all fun c => !isBlank c := by
  rw [Bool.eq_iff_iff, all_eq_true, all_eq_true, h.cursor]
  constructor
  · intro hall c hc
    obtain ⟨i, hi, rfl⟩ := getElem_of_mem hc
    rw [← h.get_before hi]
    exact hall i (mem_range.2 hi)
  · intro hall i hi
    rw [h.get_before (mem_range.1 hi)]
    exact hall _ (getElem_mem _)

end Editor.At

/-- The token before a place is the text after the last blank. -/
lemma tokenStart_spec {line : Buffer} {before : List UInt8}
    (hline : ∀ i (hi : i < before.length), line i = before[i]) :
    tokenStart line before.length ≤ before.length ∧
      before.drop (tokenStart line before.length) = before.rtakeWhile fun c => !isBlank c := by
  induction before using reverseRecOn with
  | nil => exact ⟨le_rfl, rfl⟩
  | append_singleton before c ih =>
    have hlast : line before.length = c := by
      rw [hline before.length (by simp), getElem_concat_length rfl]
    obtain ⟨hle, hdrop⟩ := ih fun i hi => by
      rw [hline i (by rw [length_append]; omega), getElem_append_left hi]
    rw [length_append, length_singleton, tokenStart, hlast, rtakeWhile_concat]
    by_cases hblank : isBlank c = true
    · rw [if_pos hblank, if_neg (by simp [hblank])]
      exact ⟨le_rfl, drop_eq_nil_of_le (by simp)⟩
    · rw [if_neg hblank, if_pos (by simp [hblank]), ← hdrop]
      exact ⟨by omega, drop_append_of_le_length hle⟩

/-- What a completion has done: a text was inserted, if the count of matches is one. -/
structure Editor.Completed (s : Editor) (before after text : List UInt8) (result : ℕ × Editor) :
    Prop where
  line : result.2.At (before ++ text.take (kLineCapacity - 1 - s.length)) after
  memory : s.SameMemory result.2

namespace Editor.At

variable {s : Editor} {before after : List UInt8}

/-- Nothing is inserted. -/
lemma completed_nil (h : s.At before after) (count : ℕ) :
    s.Completed before after [] (count, s) := by
  refine ⟨?_, rfl, rfl, rfl, rfl⟩
  rwa [take_nil, append_nil]

lemma writeSpace (h : s.At before []) (hroom : s.length + 1 < kLineCapacity) : Editor.At { s with
        line := update (update s.line s.cursor 0x20) (s.length + 1) 0
        cursor := s.cursor + 1
        length := s.length + 1 } (before ++ [0x20]) [] := by
  have hlen := h.length
  have hcursor := h.cursor
  rw [length_nil, Nat.add_zero] at hlen
  have hspells := h.spells
  rw [append_nil] at hspells
  refine ⟨?_, ?_, ?_, hroom⟩
  · rw [append_nil, hlen, hcursor]
    exact hspells.concat (by decide)
  · rw [length_append, length_singleton, length_nil]
    dsimp only
    omega
  · rw [length_append, length_singleton]
    dsimp only
    omega

lemma completeCommandToken (h : s.At before after)
    (htoken : (before.all fun c => !isBlank c) = true) (hok : s.CompletesInPlace) :
    s.Completed before after (match commandNames.filter fun name => before <+: name with
        | [name] => name.drop before.length ++ [0x20]
        | _ => []) s.completeCommandToken := by
  have hfits := h.fits
  have hlen := h.length
  have hcursor := h.cursor
  have hfound :
    matching commandNames (s.tokenFrom 0) = commandNames.filter fun name => before <+: name :=
    matching_eq commandNames_ne_zero (h.tokenFrom (Nat.zero_le _)) (by omega)
  rw [Editor.completeCommandToken, hfound]
  rw [Editor.CompletesInPlace, hfound] at hok
  have hmem := of_mem_found before commandNames_ne_zero
  generalize (commandNames.filter fun name => before <+: name) = found at hok hmem
  match found with
  | [] => exact h.completed_nil _
  | _ :: _ :: _ => exact h.completed_nil _
  | [name] =>
    obtain ⟨hstarts, hname⟩ := hmem name (mem_singleton.2 rfl)
    have hle := hstarts.length_le
    have hline :=
      h.appendCompletionSuffix (Spells.ofList hname) (n := kLineCapacity) (i := s.cursor)
      (by omega) (by omega)
    have hmemory := s.sameMemory_appendCompletionSuffix (ofList name) kLineCapacity s.cursor
    dsimp only
    generalize s.appendCompletionSuffix (ofList name) kLineCapacity s.cursor = s' at hline hmemory
    have hlength' := hline.length
    rw [length_append, length_take, List.length_drop] at hlength'
    rw [hcursor] at hline hlength'
    by_cases hroom : s'.length + 1 < kLineCapacity
    · -- there is room for the space, so the cursor is at the end
      rw [if_pos hroom]
      have hend : after = [] := by
        rcases hok with hend | hblank | hmany | hfull
        · exact eq_nil_of_length_eq_zero (by omega)
        · have hall := h.all_not_blank
          rw [htoken, all_eq_not_any_not] at hall
          simp [hblank] at hall
        · exact absurd rfl hmany
        · have hno := hfull name (mem_singleton.2 rfl)
          omega
      subst hend
      refine ⟨?_, hmemory.draft, hmemory.view, hmemory.history, hmemory.exited⟩
      have hspace := hline.writeSpace hroom
      have htake : (name.drop before.length ++ [0x20]).take (kLineCapacity - 1 - s.length) =
          name.drop before.length ++ [0x20] := by
        refine take_of_length_le ?_
        rw [length_append, length_singleton, List.length_drop]
        omega
      have htake' : (name.drop before.length).take (kLineCapacity - 1 - s.length) =
          name.drop before.length := by
        refine take_of_length_le ?_
        rw [List.length_drop]
        omega
      rw [htake'] at hspace
      rwa [htake, ← append_assoc]
    · rw [if_neg hroom]
      refine ⟨?_, hmemory⟩
      have htake : (name.drop before.length ++ [0x20]).take (kLineCapacity - 1 - s.length) =
          (name.drop before.length).take (kLineCapacity - 1 - s.length) := by
        refine take_append_of_le_length ?_
        rw [List.length_drop]
        omega
      rwa [htake]

lemma completePathToken (h : s.At before after) (vfs : Vfs) :
    s.Completed before after (if (before.rtakeWhile fun c => !isBlank c) = [] then [] else
          match (vfs.paths.map Subtype.val).filter fun path =>
              (before.rtakeWhile fun c => !isBlank c) <+: path with
          | [path] => path.drop (before.rtakeWhile fun c => !isBlank c).length
          | _ => []) (s.completePathToken vfs) := by
  have hfits := h.fits
  have hlen := h.length
  have hcursor := h.cursor
  obtain ⟨hle, hdrop⟩ := tokenStart_spec fun i hi => h.get_before hi
  have htoken := h.tokenFrom hle
  rw [hdrop] at htoken
  have hsize := congrArg List.length hdrop
  rw [List.length_drop] at hsize
  rw [Editor.completePathToken, hcursor]
  generalize (before.rtakeWhile fun c => !isBlank c) = token at htoken hsize
  by_cases hempty : token = []
  · rw [if_pos hempty,
      if_pos ((htoken.get_eq_zero_iff (Nat.zero_le _)).2 (by rw [hempty, length_nil]))]
    exact h.completed_nil 0
  rw [if_neg hempty, if_neg (htoken.get_ne_zero (length_pos_of_ne_nil hempty))]
  have hpaths : ∀ path ∈ vfs.paths.map Subtype.val, ∀ c ∈ path, c ≠ 0 := by
    intro path hpath
    obtain ⟨p, -, rfl⟩ := mem_map.1 hpath
    exact p.2
  rw [matching_eq hpaths htoken (by omega)]
  have hmem := of_mem_found token hpaths
  generalize ((vfs.paths.map Subtype.val).filter fun path => token <+: path) = found at hmem
  match found with
  | [] => exact h.completed_nil _
  | _ :: _ :: _ => exact h.completed_nil _
  | [path] =>
    obtain ⟨hstarts, hpath⟩ := hmem path (mem_singleton.2 rfl)
    have hshort := hstarts.length_le
    refine ⟨?_, s.sameMemory_appendCompletionSuffix _ _ _⟩
    rw [hsize]
    have hline :=
      h.appendCompletionSuffix ((Spells.ofList hpath).copy kLineCapacity) (n := kLineCapacity)
      (i := token.length) (by rw [length_take]; omega) (by omega)
    -- what the copy of the path has lost does not fit into the line either
    rwa [drop_take, take_take, Nat.min_eq_left (by omega)] at hline

end Editor.At

/-! ## Keys -/

namespace Editor

variable {s : Editor} {r : Reference} {input : Input}

lemma Refines.content_length (h : s.Refines r) : s.length = r.content.length := by
  rw [content, length_append]
  exact h.line.length

/-- The end of `complete_input`. -/
lemma Completed.finish {before after text : List UInt8} {result : ℕ × Editor}
    (h : s.Completed before after text result) :
    s.Completed before after text (result.1, if result.1 = 0 then result.2 else
          let s' := { result.2 with line := update result.2.line result.2.length 0 }
          if result.1 = 1 then s'.redrawInput s'.cursor else s') := by
  obtain ⟨hline, hdraft, hview, hhist, hexit⟩ := h
  have hsealed : Editor.At { result.2 with line := update result.2.line result.2.length 0 }
      (before ++ text.take (kLineCapacity - 1 - s.length)) after := by
    refine ⟨hline.spells.update_length ?_, hline.length, hline.cursor, hline.fits⟩
    rw [hline.length, ← length_append]
  split_ifs
  · exact ⟨hline, hdraft, hview, hhist, hexit⟩
  · exact ⟨hsealed.redrawInput_cursor, hdraft, hview, hhist, hexit⟩
  · exact ⟨hsealed, hdraft, hview, hhist, hexit⟩

section

variable (h : s.Refines r)
include h

lemma Refines.completeInput (vfs : Vfs) (hok : s.CompletesInPlace) :
    (s.completeInput vfs).Refines (r.insertText (r.completion vfs)) := by
  have hdone : s.Completed r.before r.after (r.completion vfs)
      (if ((range s.cursor).all fun i => !isBlank (s.line i)) = true then s.completeCommandToken
        else s.completePathToken vfs) := by
    rw [h.line.all_not_blank, completion]
    split_ifs with htoken
    · exact h.line.completeCommandToken htoken hok
    · exact h.line.completePathToken vfs
  obtain ⟨hline, hmemory⟩ := hdone.finish
  rw [h.content_length] at hline
  exact h.of_line hline hmemory

lemma Refines.moveTo (target : ℕ) : (s.redrawInput target).Refines (r.moveTo target) :=
  h.of_line (h.line.redrawInput target) ⟨rfl, rfl, rfl, rfl⟩

/-- The cursor is at the place already. -/
lemma Refines.stay {target : ℕ}
    (htarget : target = s.cursor ∨ s.cursor = s.length ∧ s.length ≤ target) :
    s.Refines (r.moveTo target) := by
  refine h.of_line ?_ ⟨rfl, rfl, rfl, rfl⟩
  have hlen := h.line.length
  have hcursor := h.line.cursor
  have hmoved := h.line.redrawInput target
  refine ⟨hmoved.spells, hmoved.length, ?_, h.line.fits⟩
  rw [length_take, content, length_append]
  omega

lemma Refines.delete : s.deleteAtCursor.Refines { r with after := r.after.tail } := by
  refine h.of_line h.line.deleteAtCursor ?_
  rw [deleteAtCursor]
  split_ifs <;> exact ⟨rfl, rfl, rfl, rfl⟩

lemma Refines.backspace : s.backspace.Refines { r with before := r.before.dropLast } := by
  refine h.of_line h.line.backspace ?_
  rw [Editor.backspace]
  split_ifs <;> exact ⟨rfl, rfl, rfl, rfl⟩

lemma Refines.enter (rest : Buffer) : (s.enter rest).Refines r.enter := by
  have hspells := h.line.spells
  have hfits := h.line.fits
  have hlen := h.content_length
  have hsealed : Spells (update s.line s.length 0) r.content := hspells.update_length hlen
  have hkeeps := h.memory.history.push hsealed (by omega)
  have hcap : 0 < kLineCapacity := by decide
  have hempty (buffer : Buffer) : Spells (update buffer 0 0) [] :=
    Spells.nil (update_self 0 0 buffer)
  exact ⟨⟨hempty rest, rfl, rfl, hcap⟩, hempty s.draft, hcap, hkeeps.count, le_rfl, hkeeps,
    h.memory.exited⟩

lemma Refines.earlier : s.earlier.Refines r.earlier := by
  obtain ⟨hline, hdraft, hdraftFits, hview, hle, hhist, hexit⟩ := h
  have hcount := hhist.count
  rw [Editor.earlier, Reference.earlier]
  by_cases hmove : r.entries ≠ [] ∧ r.view ≠ 0
  · have hpos := length_pos_of_ne_nil hmove.1
    rw [if_pos hmove, if_pos (by rw [hcount, hview]; exact ⟨hpos.ne', hmove.2⟩), hview]
    obtain ⟨hspells, hfits⟩ := hhist.spells_getD (i := r.view - 1) (by omega)
    refine ⟨Editor.At.replaceInput hspells hfits, ?_, ?_,
      rfl, by dsimp only [Reference.replace]; omega,
      hhist, hexit⟩
    · rw [hcount]
      split_ifs
      · exact hline.spells.copy_of_lt (by rw [length_append, ← hline.length]; exact hline.fits)
      · exact hdraft
    · split_ifs
      · rw [content, length_append, ← hline.length]
        exact hline.fits
      · exact hdraftFits
  · rw [if_neg hmove, if_neg]
    · exact ⟨hline, hdraft, hdraftFits, hview, hle, hhist, hexit⟩
    · rw [hcount, hview]
      rintro ⟨hsome, hearlier⟩
      exact hmove ⟨ne_nil_of_length_pos (Nat.pos_of_ne_zero hsome), hearlier⟩

lemma Refines.later : s.later.Refines r.later := by
  obtain ⟨hline, hdraft, hdraftFits, hview, hle, hhist, hexit⟩ := h
  have hcount := hhist.count
  rw [Editor.later, Reference.later, hcount, hview]
  split
  · next hmove =>
    refine ⟨?_, hdraft, hdraftFits, rfl, hmove, hhist, hexit⟩
    dsimp only [Reference.replace]
    split_ifs
    · exact Editor.At.replaceInput hdraft hdraftFits
    · obtain ⟨hspells, hfits⟩ := hhist.spells_getD (i := r.view + 1) (by omega)
      exact Editor.At.replaceInput hspells hfits
  · exact ⟨hline, hdraft, hdraftFits, hview, hle, hhist, hexit⟩

lemma Refines.type {c : UInt8} (hc : c ≠ 0) (hroom : s.length + 1 < kLineCapacity) :
    (s.type c).Refines (r.type c) := by
  obtain ⟨hline, hdraft, hdraftFits, hview, hle, hhist, hexit⟩ := h
  have hnew := hline.insert hc hroom
  have hspells := hnew.spells
  rw [append_assoc, singleton_append] at hspells
  have hlen := hnew.length
  rw [length_append, length_singleton] at hlen
  dsimp only at hspells hlen
  have hfits : (r.before ++ c :: r.after).length < kLineCapacity := by
    rw [length_append, length_cons]
    omega
  have hmoved := hnew.redrawInput_cursor
  exact ⟨⟨hmoved.spells, hmoved.length, hmoved.cursor, hmoved.fits⟩,
    hspells.copy_of_lt hfits, hfits,
    hhist.count, le_rfl, hhist, hexit⟩

lemma Refines.press (hok : input.Orderly s) : (s.press input).Refines (r.press input) := by
  have hlen := h.content_length
  have hcursor := h.line.cursor
  have hle := h.line.cursor_le
  rw [Editor.press, Reference.press]
  refine ite_rel (fun _ => h) fun _ => ?_
  refine ite_rel (fun _ => h.enter input.rest) fun _ => ?_
  refine ite_rel (fun _ => h.earlier) fun _ => ?_
  refine ite_rel (fun _ => h.later) fun _ => ?_
  refine ite_rel (fun _ => ?_) fun _ => ?_
  · by_cases hempty : s.length = 0
    · rw [if_pos hempty, if_pos (eq_nil_of_length_eq_zero (hlen.symm.trans hempty))]
      exact ⟨⟨h.line.1, h.line.2, h.line.3, h.line.4⟩, h.memory.1, h.memory.2,
        h.memory.3, h.memory.4,
        h.memory.5, rfl⟩
    · rw [if_neg hempty, if_neg fun hnil => hempty (hlen.trans (by rw [hnil, length_nil]))]
      exact h.delete
  refine ite_rel (fun _ => h.of_line h.line.redrawInput_cursor ⟨rfl, rfl, rfl, rfl⟩) fun _ => ?_
  refine ite_rel (fun _ => h.moveTo 0) fun _ => ?_
  refine ite_rel (fun _ => ?_) fun _ => ?_
  · rw [hlen]
    exact h.moveTo _
  refine ite_rel (fun _ => ?_) fun _ => ?_
  · rw [← hcursor]
    split_ifs with hmoves
    · exact h.moveTo _
    · exact h.stay (.inl (by omega))
  refine ite_rel (fun _ => ?_) fun _ => ?_
  · rw [← hcursor]
    split_ifs with hmoves
    · exact h.moveTo _
    · exact h.stay (.inr (by omega))
  refine ite_rel (fun _ => h.delete) fun _ => ?_
  refine ite_rel (fun htab => h.completeInput input.vfs (hok htab)) fun _ => ?_
  refine ite_rel (fun _ => h.backspace) fun _ => ?_
  rw [← hlen]
  refine ite_rel (fun htype => h.type (fun hzero => ?_) htype.2.2) fun _ => h
  rw [hzero] at htype
  exact absurd htype.1 (by decide)

lemma Refines.step (hok : input.Orderly s) : (s.step input).Refines (r.step input) := by
  rw [Editor.step, Reference.step, h.memory.exited]
  split_ifs
  · exact h
  · exact h.press hok

end

lemma refines_start (line draft : Buffer) {history : History} {entries : List (List UInt8)}
    (hhist : history.Keeps entries) :
    (Editor.start line draft history).Refines { entries := entries, view := entries.length } := by
  have hcap : 0 < kLineCapacity := by decide
  have hempty (buffer : Buffer) : Spells (update buffer 0 0) [] :=
    Spells.nil (update_self 0 0 buffer)
  exact ⟨⟨hempty line, rfl, rfl, hcap⟩, hempty draft, hcap, hhist.count, le_rfl, hhist, rfl⟩

/-! ## Sessions -/

/-- For every sequence of keys, if no completion of a command name is made in front of a letter, the
buffer spells the text of the reference editor, and length and cursor are those of the reference
editor.  There is no zero before the end, and the cursor and the length stay in their bounds. -/
theorem line_editor_refines (line draft : Buffer) (history : History) (entries : List (List UInt8))
    (hhistory : history.Keeps entries) (inputs : List Input)
    (hinputs : Run.Allowed step (fun s input => input.Orderly s)
      (start line draft history) inputs) :
    let s := inputs.foldl step (start line draft history)
    let r := inputs.foldl Reference.step { entries := entries, view := entries.length }
    Spells s.line r.content ∧ s.length = r.content.length ∧ s.cursor = r.before.length ∧
      (∀ i < s.length, s.line i ≠ 0) ∧ s.cursor ≤ s.length ∧ s.length < kLineCapacity := by
  have hstep : ∀ s r input, Editor.Refines s r → input.Orderly s →
      Editor.Refines (step s input) (Reference.step r input) := fun s r input h hok => h.step hok
  have hend := hinputs.foldl_rel hstep (refines_start line draft hhistory)
  refine ⟨hend.line.spells, hend.content_length, hend.line.cursor, fun i hi => ?_,
    hend.line.cursor_le,
    hend.line.fits⟩
  exact hend.line.spells.get_ne_zero (hi.trans_eq hend.content_length)

end Editor

/-- A key, while the kernel has no files to tell of. -/
def key (c : UInt8) : Input := ⟨c, ⟨none, fun _ => none⟩, fun _ => 0⟩

/-- `hostn`, completed at the end of the line, a letter removed and the line entered and fetched
again. -/
def completedInputs : List Input :=
  [0x68, 0x6f, 0x73, 0x74, 0x6e, 0x09, 0x02, 0x08, 0x0d, 0x10].map key

theorem line_editor_refines_hostname :
    let s := completedInputs.foldl Editor.step (Editor.start (fun _ => 1) (fun _ => 1) {})
    let r := completedInputs.foldl Reference.step { entries := [], view := 0 }
    Spells s.line r.content ∧ s.length = r.content.length ∧ s.cursor = r.before.length ∧
      (∀ i < s.length, s.line i ≠ 0) ∧ s.cursor ≤ s.length ∧ s.length < kLineCapacity :=
  Editor.line_editor_refines _ _ {} [] .empty _ (by decide +kernel)

/-- `hostnZ` with the cursor before the last letter: Tab inserts `ame`, writes the space over the
letter and leaves a zero after it, inside the line. -/
theorem completion_before_letter :
    let s := ([0x68, 0x6f, 0x73, 0x74, 0x6e, 0x5a, 0x02, 0x09].map key).foldl Editor.step
      (Editor.start (fun _ => 0) (fun _ => 0) {})
    s.length = 10 ∧ s.line 8 = 0x20 ∧ s.line 9 = 0 := by
  decide +kernel

end IanOS.InitShell
