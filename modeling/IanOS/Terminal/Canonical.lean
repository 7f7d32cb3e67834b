import IanOS.Terminal.Input
import IanOS.Lib.Run
import Mathlib.Data.List.TakeWhile

/-!
# Canonical mode

What the terminal should do with a stream of bytes is said by `cook`: erase keys remove the last
byte of the line, a newline commits the line, any other byte is added to it.  The terminal follows
it as long as no control character is typed, no line is too long, and the ring buffer has room for
every line that is committed.

A control character goes past the line buffer, so that it is delivered before the line it was typed
in. A byte for which the line buffer has no room is lost and not counted.  Every other byte can be
accounted for.
-/

namespace IanOS.Terminal

open List State

/-! ## The reference -/

/-- The lines committed so far, one behind the other, and the line that is being typed. -/
structure Cooked where
  committed : List UInt8
  line : List UInt8
  deriving DecidableEq, Repr

def Cooked.type (s : Cooked) (c : UInt8) : Cooked :=
  if State.IsErase c then { s with line := s.line.dropLast }
  else if newlineOf c = 0x0a then ⟨s.committed ++ s.line ++ [0x0a], []⟩
  else { s with line := s.line ++ [c] }

def cook (typed : List UInt8) : Cooked := typed.foldl Cooked.type ⟨[], []⟩

/-! ## Sessions -/

/-- The terminal, all bytes typed, those of them that erase keys have removed, and all bytes read. -/
structure Session where
  terminal : State
  typed : List UInt8 := []
  removed : List UInt8 := []
  delivered : List UInt8 := []

inductive Op
  | push (c : UInt8)
  | inject (data : List UInt8)
  | read (length : ℕ)
  | readKey (length : ℕ)
  deriving DecidableEq, Repr

namespace Session

/-- A byte is put into the terminal. -/
def put (s : Session) (c : UInt8) : Session :=
  { s with
    terminal := s.terminal.input c
    typed := s.typed ++ [c]
    removed := s.removed ++ if IsErase c then s.terminal.line.getLast?.toList else [] }

def step (s : Session) : Op → Session
  | .push c => { (if c = 0 then s else s.put c) with terminal := s.terminal.pushInput c }
  | .inject data =>
    let r := s.terminal.injectInput data
    { (data.take r.1).foldl put s with terminal := r.2 }
  | .read length =>
    let r := s.terminal.readInput length
    { s with terminal := r.2, delivered := s.delivered ++ r.1 }
  | .readKey length => { s with terminal := (s.terminal.readKey length).2 }

/-- A session in canonical mode begins. -/
def start (t : State) : Session where
  terminal := t.setInputMode .canonical

end Session

/-! ## One byte after the other -/

/-- The bytes of a call that are put into the terminal. -/
def taken : Op → List UInt8
  | .push c => if c = 0 then [] else [c]
  | .inject data =>
    if data.length = 0 ∨ data.length > 4096 then [] else data.takeWhile fun c => c ≠ 0
  | _ => []

lemma taken_ne_zero {op : Op} {c : UInt8} (hc : c ∈ taken op) : c ≠ 0 := by
  cases op with
  | push c' =>
    rw [taken] at hc
    split_ifs at hc with hzero
    · exact absurd hc not_mem_nil
    · exact mem_singleton.1 hc ▸ hzero
  | inject data =>
    rw [taken] at hc
    split_ifs at hc
    · exact absurd hc not_mem_nil
    · simpa using mem_takeWhile_imp hc
  | read | readKey => exact absurd hc not_mem_nil

lemma injectLoop_eq (data : List UInt8) (r : ℕ × State) :
    injectLoop data r = (r.1 + (data.takeWhile fun c => c ≠ 0).length,
      (data.takeWhile fun c => c ≠ 0).foldl input r.2) := by
  induction data generalizing r with
  | nil => rfl
  | cons c data ih =>
    rw [injectLoop]
    split_ifs with hzero
    · rw [takeWhile_cons_of_neg (by simpa using hzero)]
      rfl
    · rw [ih, takeWhile_cons_of_pos (by simpa using hzero), length_cons, foldl_cons]
      exact Prod.ext (by dsimp only; omega) rfl

lemma terminal_foldl_put (s : Session) (bytes : List UInt8) :
    (bytes.foldl Session.put s).terminal = bytes.foldl input s.terminal :=
  (foldl_hom Session.terminal fun _ _ => rfl).symm

/-- A call that puts bytes into the terminal puts in one after the other. -/
lemma step_typing (s : Session) {op : Op} (hop : (∃ c, op = .push c) ∨ ∃ data, op = .inject data) :
    s.step op = (taken op).foldl .put s := by
  obtain ⟨c, rfl⟩ | ⟨data, rfl⟩ := hop
  · rw [Session.step, taken, pushInput]
    split_ifs <;> rfl
  rw [Session.step, taken, injectInput]
  split_ifs with hbad
  · rfl
  have htake : data.take (data.takeWhile fun c => decide (c ≠ 0)).length =
      data.takeWhile fun c => decide (c ≠ 0) :=
    (prefix_iff_eq_take.1 ( takeWhile_prefix _)).symm
  rw [injectLoop_eq]
  rw [Nat.zero_add, htake, ← terminal_foldl_put]

/-! ## The ring buffer of canonical mode -/

variable {s s' : State} {c : UInt8} {bytes lost : List UInt8}

/-- Bytes are put behind those in the ring buffer; some at the front may be lost, and are counted.
-/
structure Pushes (s : State) (bytes lost : List UInt8) (s' : State) : Prop where
  contents : s.cooked.contents ++ bytes = lost ++ s'.cooked.contents
  dropped : s'.stats.droppedInputBytes = s.stats.droppedInputBytes + .ofNat 64 lost.length
  line : s'.line = s.line
  mode : s'.mode = s.mode

lemma Pushes.refl (s : State) : Pushes s [] [] s :=
  ⟨append_nil _, (BitVec.add_zero _).symm, rfl, rfl⟩

lemma Pushes.trans {s'' : State} {bytes' lost' : List UInt8} (h : Pushes s bytes lost s')
    (h' : Pushes s' bytes' lost' s'') : Pushes s (bytes ++ bytes') (lost ++ lost') s'' where
  contents := by rw [← append_assoc, h.contents, append_assoc, h'.contents, append_assoc]
  dropped := by rw [h'.dropped, h.dropped, length_append, BitVec.ofNat_add, BitVec.add_assoc]
  line := h'.line.trans h.line
  mode := h'.mode.trans h.mode

lemma updateHighWatermark_frame (s : State) : s.updateHighWatermark.cooked = s.cooked ∧
    s.updateHighWatermark.line = s.line ∧ s.updateHighWatermark.mode = s.mode ∧
    s.updateHighWatermark.stats.droppedInputBytes = s.stats.droppedInputBytes := by
  rw [updateHighWatermark]
  split_ifs <;> exact ⟨rfl, rfl, rfl, rfl⟩

/-- What is lost when a byte is stored. -/
def lostAtPush (q : InputQueue) : List UInt8 := if q.Full then q.contents.take 1 else []

lemma contents_push_eq (q : InputQueue) (c : UInt8) :
    q.contents ++ [c] = lostAtPush q ++ (q.push c).contents := by
  rw [InputQueue.contents_push, lostAtPush]
  split_ifs
  · rw [← append_assoc, ← drop_one, take_append_drop]
  · rfl

lemma length_lostAtPush (q : InputQueue) : (lostAtPush q).length = if q.Full then 1 else 0 := by
  rw [lostAtPush]
  split_ifs with hfull
  · have hpos : min 1 q.count = 1 := by
      rw [hfull]
      decide
    rw [length_take, InputQueue.length_contents, hpos]
  · rfl

lemma pushes_pushCooked (s : State) (c : UInt8) :
    Pushes s [c] (lostAtPush s.cooked) (s.pushCooked c) := by
  obtain ⟨hcooked, hline, hmode, hdrop⟩ :=
    updateHighWatermark_frame { s.countDrop s.cooked with cooked := s.cooked.push c }
  have hcount : (s.countDrop s.cooked).line = s.line ∧ (s.countDrop s.cooked).mode = s.mode := by
    rw [countDrop]
    split_ifs <;> exact ⟨rfl, rfl⟩
  refine ⟨?_, ?_, hline.trans hcount.1, hmode.trans hcount.2⟩
  · rw [contents_push_eq, pushCooked, hcooked]
  · rw [pushCooked, hdrop, countDrop, length_lostAtPush]
    split_ifs <;> simp

lemma pushes_foldl (bytes : List UInt8) (s : State) :
    ∃ lost, Pushes s bytes lost (bytes.foldl pushCooked s) := by
  induction bytes generalizing s with
  | nil => exact ⟨[], .refl s⟩
  | cons c bytes ih =>
    obtain ⟨lost, hrest⟩ := ih (s.pushCooked c)
    exact ⟨_, (pushes_pushCooked s c).trans hrest⟩

/-- Nothing is lost if there is room. -/
lemma pushes_foldl_room (bytes : List UInt8) (s : State)
    (hroom : s.cooked.count + bytes.length ≤ kInputBufferSize) :
    Pushes s bytes [] (bytes.foldl pushCooked s) := by
  induction bytes generalizing s with
  | nil => exact .refl s
  | cons c bytes ih =>
    rw [length_cons] at hroom
    have hlost : lostAtPush s.cooked = [] := by
      refine if_neg fun hfull => ?_
      rw [InputQueue.Full] at hfull
      omega
    have hfirst := pushes_pushCooked s c
    rw [hlost] at hfirst
    have hcount : (s.pushCooked c).cooked.count = s.cooked.count + 1 := by
      have hlen := congrArg length hfirst.contents
      simpa using hlen.symm
    exact hfirst.trans (ih _ (by omega))

/-! ## What a byte does -/

lemma newlineOf_of_ne (h : newlineOf c ≠ 0x0a) : newlineOf c = c := by
  rw [newlineOf] at h ⊢
  split_ifs at h ⊢
  · exact absurd rfl h
  · rfl

lemma newlineOf_of_isErase (h : IsErase c) : newlineOf c = c := by
  obtain rfl | rfl := h <;> decide

lemma isErase_newlineOf : IsErase (newlineOf c) ↔ IsErase c := by
  rw [newlineOf]
  split_ifs with hc
  · subst hc
    decide
  · rfl

/-- The byte is stored in the line buffer, if it can be. -/
def IsPlain (c : UInt8) : Prop := ¬IsErase c ∧ newlineOf c ≠ 0x0a ∧ ¬(1 ≤ c ∧ c < 32)
  deriving Decidable

lemma canonicalInput_erase (s : State) (h : IsErase c) :
    s.canonicalInput c = { s with line := s.line.dropLast } := by
  have hne : c ≠ 0 := by
    rintro rfl
    exact absurd h (by decide)
  rw [canonicalInput, if_neg hne]
  exact if_pos (isErase_newlineOf.2 h)

lemma canonicalInput_newline (s : State) (h : newlineOf c = 0x0a) :
    (s.canonicalInput c).cooked = ((s.line ++ [0x0a]).foldl pushCooked s).cooked ∧
      (s.canonicalInput c).stats.droppedInputBytes =
        ((s.line ++ [0x0a]).foldl pushCooked s).stats.droppedInputBytes ∧
      (s.canonicalInput c).line = [] ∧
      (s.canonicalInput c).mode = ((s.line ++ [0x0a]).foldl pushCooked s).mode := by
  have hne : c ≠ 0 := by
    rintro rfl
    exact absurd h (by decide)
  rw [canonicalInput, if_neg hne, h, foldl_append]
  exact ⟨rfl, rfl, rfl, rfl⟩

lemma canonicalInput_control (s : State) (herase : ¬IsErase c) (hline : newlineOf c ≠ 0x0a)
    (hcontrol : 1 ≤ c ∧ c < 32) : s.canonicalInput c = s.pushCooked c := by
  have hne : c ≠ 0 := by
    rintro rfl
    exact absurd hcontrol (by decide)
  rw [canonicalInput, if_neg hne]
  rw [if_neg (mt isErase_newlineOf.1 herase), if_neg hline, newlineOf_of_ne hline, if_pos hcontrol]

lemma canonicalInput_plain (s : State) (hne : c ≠ 0) (hplain : IsPlain c)
    (hroom : s.line.length + 1 < kLineBufferSize) :
    s.canonicalInput c = { s with line := s.line ++ [c] } := by
  obtain ⟨herase, hline, hcontrol⟩ := hplain
  rw [canonicalInput, if_neg hne]
  rw [if_neg (mt isErase_newlineOf.1 herase), if_neg hline, newlineOf_of_ne hline, if_neg hcontrol,
    if_pos hroom]

variable {w : Session} {dropped₀ : BitVec 64}

lemma put_eq (hmode : w.terminal.mode = .canonical) : w.put c = { w with
    terminal := w.terminal.canonicalInput c
    typed := w.typed ++ [c]
    removed := w.removed ++ if IsErase c then w.terminal.line.getLast?.toList else [] } := by
  rw [Session.put, State.input, hmode]

/-! ## Accounting -/

/-- Each byte typed has been delivered, or is in the ring buffer or in the line, or is an erase key,
or has been removed by one, or has been dropped and is counted. -/
def Accounted (dropped₀ : BitVec 64) (s : Session) : Prop :=
  s.removed.length ≤ (s.typed.filter fun c => IsErase c).length ∧ ∃ dropped : List UInt8,
    s.terminal.stats.droppedInputBytes = dropped₀ + .ofNat 64 dropped.length ∧
    (s.typed.map newlineOf).Perm (s.delivered ++ s.terminal.cooked.contents ++ s.terminal.line ++
      (s.typed.filter fun c => IsErase c) ++ s.removed ++ dropped)

/-- The line buffer has room for the byte, if it needs it. -/
def Fits (s : State) (c : UInt8) : Prop := IsPlain c → s.line.length + 1 < kLineBufferSize
  deriving Decidable

/-- Bytes are pushed into the ring buffer. -/
lemma Accounted.pushes {line : List UInt8} (h : Accounted dropped₀ w)
    (hpushes : Pushes w.terminal bytes lost s') (herase : ¬IsErase c)
    (hline : w.terminal.line ++ [newlineOf c] = line ++ bytes ∨
      w.terminal.line ++ [newlineOf c] = bytes ++ line) :
    Accounted dropped₀
      { w with terminal := { s' with line := line }, typed := w.typed ++ [c] } := by
  obtain ⟨hremoved, dropped, hcount, hperm⟩ := h
  have hlast : [c].filter (fun c => IsErase c) = [] := by simp [herase]
  refine ⟨by rwa [filter_append, hlast, append_nil], dropped ++ lost, ?_, ?_⟩
  · rw [length_append, BitVec.ofNat_add, ← BitVec.add_assoc, ← hcount]
    exact hpushes.dropped
  rw [perm_iff_count] at hperm ⊢
  intro a
  have ha := hperm a
  have hcont := congrArg (count a) hpushes.contents
  have hcounts : count a w.terminal.line + count a [newlineOf c] =
      count a line + count a bytes := by
    obtain hline | hline := hline
    · simpa only [count_append] using congrArg (count a) hline
    · have hswap := congrArg (count a) hline
      simp only [count_append] at hswap
      omega
  simp only [count_append, map_append, filter_append, map_singleton, hlast, count_nil] at ha hcont ⊢
  omega

lemma dropLast_append_toList (l : List UInt8) : l.dropLast ++ l.getLast?.toList = l := by
  rcases eq_nil_or_concat l with rfl | ⟨front, last, rfl⟩
  · rfl
  · simp

lemma Accounted.erase (h : Accounted dropped₀ w) (hc : IsErase c) :
    Accounted dropped₀ { w with
      terminal := { w.terminal with line := w.terminal.line.dropLast }
      typed := w.typed ++ [c]
      removed := w.removed ++ w.terminal.line.getLast?.toList } := by
  obtain ⟨hremoved, dropped, hcount, hperm⟩ := h
  have hkey : [c].filter (fun c => IsErase c) = [c] := by simp [hc]
  refine ⟨?_, dropped, hcount, ?_⟩
  · have hone : w.terminal.line.getLast?.toList.length ≤ 1 := by
      cases w.terminal.line.getLast? <;> simp
    rw [filter_append, hkey, length_append, length_append, length_singleton]
    omega
  rw [perm_iff_count] at hperm ⊢
  intro a
  have ha := hperm a
  have hline := congrArg (count a) (dropLast_append_toList w.terminal.line)
  simp only [count_append, map_append, filter_append, map_singleton, hkey,
    newlineOf_of_isErase hc] at ha hline ⊢
  omega

lemma Accounted.put (h : Accounted dropped₀ w) (hmode : w.terminal.mode = .canonical)
    (hne : c ≠ 0) (hfits : Fits w.terminal c) : Accounted dropped₀ (w.put c) := by
  rw [put_eq hmode]
  by_cases herase : IsErase c
  · rw [canonicalInput_erase _ herase, if_pos herase]
    exact h.erase herase
  rw [if_neg herase, append_nil]
  by_cases hline : newlineOf c = 0x0a
  · obtain ⟨lost, hpushes⟩ := pushes_foldl (w.terminal.line ++ [0x0a]) w.terminal
    obtain ⟨hcooked, hdrop, hempty, -⟩ := canonicalInput_newline w.terminal hline
    have hpushed := h.pushes hpushes herase (.inr (by rw [hline, append_nil]))
    rw [Accounted] at hpushed ⊢
    rwa [hcooked, hdrop, hempty]
  by_cases hcontrol : 1 ≤ c ∧ c < 32
  · rw [canonicalInput_control _ herase hline hcontrol]
    have hpushes := pushes_pushCooked w.terminal c
    have hpushed := h.pushes hpushes herase (.inl (by rw [newlineOf_of_ne hline]))
    rwa [← hpushes.line] at hpushed
  · have hplain : IsPlain c := ⟨herase, hline, hcontrol⟩
    rw [canonicalInput_plain _ hne hplain (hfits hplain)]
    exact h.pushes (.refl _) herase (.inl (by rw [newlineOf_of_ne hline, append_nil]))

/-! ## Order -/

/-- What is delivered and what is in the ring buffer are the lines committed, and the line buffer
has the line that is being typed. -/
def Follows (s : Session) : Prop :=
  s.delivered ++ s.terminal.cooked.contents = (cook s.typed).committed ∧
    s.terminal.line = (cook s.typed).line

/-- The byte is an erase key, or a newline when the ring buffer has room for the line, or another
byte that is not a control character when the line buffer has room for it. -/
def Orderly (s : State) (c : UInt8) : Prop :=
  IsErase c ∨ newlineOf c = 0x0a ∧ s.cooked.count + s.line.length + 1 ≤ kInputBufferSize ∨
    IsPlain c ∧ s.line.length + 1 < kLineBufferSize
  deriving Decidable

lemma Follows.put (h : Follows w) (hmode : w.terminal.mode = .canonical) (hne : c ≠ 0)
    (horderly : Orderly w.terminal c) : Follows (w.put c) := by
  obtain ⟨hcommitted, hcur⟩ := h
  rw [put_eq hmode, Follows]
  dsimp only
  rw [cook, foldl_append, ← cook, foldl_cons, foldl_nil, Cooked.type, ← hcommitted, ← hcur]
  generalize w.terminal = s at *
  by_cases herase : IsErase c
  · rw [canonicalInput_erase s herase, if_pos herase]
    exact ⟨rfl, rfl⟩
  rw [if_neg herase]
  obtain hno | ⟨hline, hroom⟩ | ⟨hplain, hroom⟩ := horderly
  · exact absurd hno herase
  · have hpushes := pushes_foldl_room (s.line ++ [0x0a]) s (by simpa [Nat.add_assoc] using hroom)
    obtain ⟨hcooked, -, hempty, -⟩ := canonicalInput_newline s hline
    have hcont : s.cooked.contents ++ (s.line ++ [0x0a]) = _ := hpushes.contents
    rw [if_pos hline, hcooked, hempty]
    refine ⟨?_, rfl⟩
    rw [nil_append] at hcont
    rw [← hcont]
    simp
  · rw [canonicalInput_plain s hne hplain hroom, if_neg hplain.2.1]
    exact ⟨rfl, rfl⟩

/-! ## Reading -/

lemma takeLoop_eq (length : ℕ) (q : InputQueue) :
    q.contents = (takeLoop length q).1 ++ (takeLoop length q).2.contents := by
  induction length generalizing q with
  | zero => rfl
  | succ length ih =>
    obtain ⟨hpop, hempty⟩ | ⟨c, hpop, hcont⟩ := q.pop_eq
    · rw [takeLoop, hpop]
      rfl
    · rw [takeLoop, hpop, hcont, ih q.drop]
      rfl

/-- Some bytes at the front of the ring buffer are read. -/
structure Reads (s : State) (bytes : List UInt8) (s' : State) : Prop where
  contents : s.cooked.contents = bytes ++ s'.cooked.contents
  dropped : s'.stats.droppedInputBytes = s.stats.droppedInputBytes
  line : s'.line = s.line
  mode : s'.mode = s.mode

lemma reads_readInput (hmode : s.mode = .canonical) (length : ℕ) :
    Reads s (s.readInput length).1 (s.readInput length).2 := by
  rw [readInput]
  split_ifs
  · exact ⟨rfl, rfl, rfl, rfl⟩
  · simp only [hmode]
    exact ⟨takeLoop_eq length s.cooked, rfl, rfl, hmode.symm⟩

section

variable (hreads : Reads w.terminal bytes s')
include hreads

lemma Accounted.read (h : Accounted dropped₀ w) :
    Accounted dropped₀
      { w with terminal := s', delivered := w.delivered ++ bytes } := by
  rw [Accounted, hreads.contents] at h
  rwa [Accounted, hreads.dropped, hreads.line, append_assoc w.delivered]

lemma Follows.read (h : Follows w) :
    Follows { w with terminal := s', delivered := w.delivered ++ bytes } := by
  rw [Follows, hreads.contents] at h
  rwa [Follows, hreads.line, append_assoc]

end

/-! ## Whole sessions -/

lemma mode_canonicalInput (s : State) (c : UInt8) : (s.canonicalInput c).mode = s.mode := by
  by_cases hne : c = 0
  · rw [canonicalInput, if_pos hne]
  by_cases herase : IsErase c
  · rw [canonicalInput_erase s herase]
  by_cases hline : newlineOf c = 0x0a
  · obtain ⟨lost, hpushes⟩ := pushes_foldl (s.line ++ [0x0a]) s
    exact (canonicalInput_newline s hline).2.2.2.trans hpushes.mode
  by_cases hcontrol : 1 ≤ c ∧ c < 32
  · rw [canonicalInput_control s herase hline hcontrol]
    exact (pushes_pushCooked s c).mode
  by_cases hroom : s.line.length + 1 < kLineBufferSize
  · rw [canonicalInput_plain s hne ⟨herase, hline, hcontrol⟩ hroom]
  · rw [canonicalInput, if_neg hne]
    rw [if_neg (mt isErase_newlineOf.1 herase), if_neg hline, newlineOf_of_ne hline,
      if_neg hcontrol,
      if_neg hroom]

section Invariant

variable {P : Session → Prop} {ok : State → UInt8 → Prop}

/-- The bytes of a call meet the condition, each in the state it finds. -/
def Session.Meets (ok : State → UInt8 → Prop) (s : Session) (op : Op) : Prop :=
  Run.Allowed input ok s.terminal (taken op)

instance [∀ s c, Decidable (ok s c)] (s : Session) (op : Op) : Decidable (s.Meets ok op) :=
  inferInstanceAs (Decidable (Run.Allowed _ _ _ _))

section

variable (hput : ∀ s : Session, ∀ c, P s → s.terminal.mode = .canonical → c ≠ 0 →
  ok s.terminal c → P (s.put c))
include hput

/-- What every byte keeps, every call keeps. -/
lemma input_run (hne : ∀ c ∈ bytes, c ≠ 0) (hmode : w.terminal.mode = .canonical)
    (hok : Run.Allowed input ok w.terminal bytes) (h : P w) :
    P (bytes.foldl .put w) ∧ (bytes.foldl .put w).terminal.mode = .canonical := by
  induction bytes generalizing w with
  | nil => exact ⟨h, hmode⟩
  | cons c bytes ih =>
    obtain ⟨hfirst, hrest⟩ := hok
    have hnext : (w.put c).terminal.mode = .canonical := by
      rw [put_eq hmode]
      exact (mode_canonicalInput _ c).trans hmode
    exact ih (fun d hd => hne d (mem_cons_of_mem c hd)) hnext hrest
      (hput w c h hmode (hne c mem_cons_self) hfirst)

/-- What every byte and every read keeps, every session keeps. -/
lemma session_run
    (hread : ∀ (s : Session) s' bytes, Reads s.terminal bytes s' → P s →
      P { s with terminal := s', delivered := s.delivered ++ bytes })
    {t : State} {ops : List Op} (hok : Run.Allowed Session.step (Session.Meets ok) (.start t) ops)
    (h : P (.start t)) : P (ops.foldl Session.step (.start t)) := by
  refine (hok.foldl (P := fun s => P s ∧ s.terminal.mode = .canonical)
    (fun s op hs hmeets => ?_) ⟨h, rfl⟩).1
  obtain ⟨hs, hmode⟩ := hs
  have htyping (hop : (∃ c, op = .push c) ∨ ∃ data, op = .inject data) :
      P (s.step op) ∧ (s.step op).terminal.mode = .canonical := by
    rw [step_typing s hop]
    exact input_run hput (fun c hc => taken_ne_zero hc) hmode hmeets hs
  cases op with
  | push => exact htyping (.inl ⟨_, rfl⟩)
  | inject => exact htyping (.inr ⟨_, rfl⟩)
  | read length =>
    have hreads := reads_readInput hmode length
    exact ⟨hread s _ _ hreads hs, hreads.mode.trans hmode⟩
  | readKey length =>
    have hreads : Reads s.terminal [] (s.terminal.readKey length).2 := by
      rw [readKey]
      split_ifs <;> exact ⟨rfl, rfl, rfl, rfl⟩
    have hnext := hread s _ _ hreads hs
    rw [append_nil] at hnext
    exact ⟨hnext, hreads.mode.trans hmode⟩

end

end Invariant

/-- In every session in canonical mode, with any interleaving of input and reads: if every byte
fits, then every byte is accounted for; if moreover no control character is typed and every line
finds room in the ring buffer, then what is delivered and still pending are the committed lines, in
order. -/
theorem canonical_delivery (t : State) (ops : List Op) :
    let s := ops.foldl Session.step (.start t)
    (Run.Allowed Session.step (Session.Meets Fits) (.start t) ops →
      Accounted t.stats.droppedInputBytes s) ∧
    (Run.Allowed Session.step (Session.Meets Orderly) (.start t) ops → Follows s) := by
  constructor
  · intro hfits
    exact session_run (fun _ _ h hmode hne hok => h.put hmode hne hok)
      (fun _ _ _ hreads h => h.read hreads) hfits
      ⟨le_rfl, [], (BitVec.add_zero _).symm, .refl _⟩
  · intro horderly
    exact session_run (fun _ _ h hmode hne hok => h.put hmode hne hok)
      (fun _ _ _ hreads h => h.read hreads) horderly ⟨rfl, rfl⟩

/-- The terminal as the kernel starts. -/
def initial : State where
  raw := .clear
  cooked := .clear
  line := []
  mode := .raw
  stats := ⟨0, 0, 0, 0, 0⟩

/-- A line with an erased byte, read in two parts. -/
theorem canonical_delivery_line :
    let s := [Op.inject [0x61, 0x62, 0x08, 0x63], .push 0x0d, .read 2, .read 2].foldl Session.step
      (.start initial)
    s.delivered = [0x61, 0x63, 0x0a] ∧ s.removed = [0x62] ∧ Accounted 0 s ∧ Follows s := by
  intro s
  obtain ⟨hfits, horderly⟩ := canonical_delivery initial
    [Op.inject [0x61, 0x62, 0x08, 0x63], .push 0x0d, .read 2, .read 2]
  exact ⟨by decide +kernel, by decide +kernel, hfits (by decide +kernel),
    horderly (by decide +kernel)⟩

/-- A control character in a line is delivered before the line; and of 128 bytes without a newline
one is lost and not counted. -/
theorem control_before_line :
    let run (ops : List Op) := ops.foldl Session.step (.start initial)
    let s := run [.inject [0x61, 0x03, 0x62, 0x0a], .read 4]
    (s.delivered = [0x03, 0x61, 0x62, 0x0a] ∧
      (cook s.typed).committed = [0x61, 0x03, 0x62, 0x0a] ∧ ¬Follows s) ∧
    ¬Accounted 0 (run [.inject (replicate 128 0x61)]) := by
  intro run s
  have hdelivered : s.delivered = [0x03, 0x61, 0x62, 0x0a] := by decide +kernel
  have hcommitted : (cook s.typed).committed = [0x61, 0x03, 0x62, 0x0a] := by decide +kernel
  refine ⟨⟨hdelivered, hcommitted, fun hfollows => ?_⟩, ?_⟩
  · have horder := hfollows.1
    exact absurd (cons.inj horder).1 (by decide)
  · rintro ⟨-, dropped, hdropped, hperm⟩
    have hlen := hperm.length_eq
    rw [length_append] at hlen
    have hone : dropped.length = 1 := Nat.add_left_cancel (hlen.symm.trans (by decide +kernel))
    rw [hone] at hdropped
    exact absurd hdropped (by decide +kernel)

end IanOS.Terminal
