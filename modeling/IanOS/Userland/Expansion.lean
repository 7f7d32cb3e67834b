import Mathlib.Data.List.TakeWhile
import Mathlib.Tactic

/-!
# Variables in command lines

`expand_shell_variables` of `sh` and of the shell in `init` are the same code.  It is one
substitution from left to right, whose rules are those of `Piece`: what it inserts is not looked at
again.
-/

namespace IanOS.Expansion

open List

/-- A variable as the kernel stores it. -/
structure EnvironmentInfo where
  key : List UInt8
  value : List UInt8
  nonempty : key ≠ []
  keyFits : key.length < 24
  valueFits : value.length < 80

/-! ## The code -/

def appendChar (capacity : ℕ) (out : List UInt8) (c : UInt8) : List UInt8 :=
  if out.length + 1 ≥ capacity then out else out ++ [c]

def appendText (capacity : ℕ) (out text : List UInt8) : List UInt8 :=
  text.foldl (appendChar capacity) out

/-- The loop of `append_decimal`, with room for so many digits.  The last digit comes first. -/
def digits : ℕ → ℕ → List UInt8
  | 0, _ => []
  | room + 1, value =>
    UInt8.ofNat (0x30 + value % 10) :: if value / 10 ≠ 0 then digits room (value / 10) else []

def variableNameChar (first : Bool) (c : UInt8) : Bool :=
  (0x61 ≤ c ∧ c ≤ 0x7a) ∨ (0x41 ≤ c ∧ c ≤ 0x5a) ∨ c = 0x5f ∨ ¬first ∧ 0x30 ≤ c ∧ c ≤ 0x39

variable (env : List EnvironmentInfo) (status : UInt64)

def environmentValue (key : List UInt8) : List UInt8 := (env.find? (·.key = key)).elim [] (·.value)

/-- What `append_environment_value` appends. -/
def appendedValue (key : List UInt8) : List UInt8 :=
  if key = [] ∨ key.length ≥ 24 then [] else (environmentValue env key).take 79

/-- One round of the loop, at `c`: what is appended, and where it goes on. -/
def readPiece (c : UInt8) : List UInt8 → List UInt8 × List UInt8
  | [] => ([c], [])
  | next :: rest =>
    if c ≠ 0x24 then ([c], next :: rest)
    else if next = 0x3f then ((digits 20 status.toNat).reverse, rest)
    else if next = 0x7b ∧ 0x7d ∈ rest then
      (appendedValue env (rest.takeWhile (· ≠ 0x7d)), (rest.dropWhile (· ≠ 0x7d)).tail)
    else if variableNameChar true next then
      (appendedValue env (next :: rest.takeWhile (variableNameChar false)),
        rest.dropWhile (variableNameChar false))
    else ([0x24], next :: rest)

lemma length_readPiece (c : UInt8) (rest : List UInt8) :
    (readPiece env status c rest).2.length ≤ rest.length := by
  rw [readPiece.eq_def]
  split
  · exact le_rfl
  next next rest =>
    have hdrop (p : UInt8 → Bool) : (rest.dropWhile p).length ≤ (next :: rest).length :=
      (dropWhile_suffix p).length_le.trans (Nat.le_succ _)
    split_ifs
    · exact le_rfl
    · exact Nat.le_succ _
    · exact (tail_suffix _).length_le.trans (hdrop _)
    · exact hdrop _
    · exact le_rfl

/-- The loop, at the rest of the input. -/
def expandFrom (capacity : ℕ) (out : List UInt8) : List UInt8 → List UInt8
  | [] => out
  | c :: rest =>
    let piece := readPiece env status c rest
    expandFrom capacity (appendText capacity out piece.1) piece.2
termination_by rest => rest.length
decreasing_by exact Nat.lt_succ_of_le (length_readPiece env status c rest)

def expandShellVariables (capacity : ℕ) : List UInt8 → List UInt8 :=
  expandFrom env status capacity []

/-! ## The substitution -/

def decimal (n : ℕ) : List UInt8 :=
  if n = 0 then [0x30] else ((Nat.digits 10 n).map fun d => UInt8.ofNat (0x30 + d)).reverse

/-- The beginning of a text, what it becomes, and the text behind it. -/
inductive Piece : List UInt8 → List UInt8 → List UInt8 → Prop
  | literal {c : UInt8} {rest : List UInt8} (hc : c ≠ 0x24) : Piece (c :: rest) [c] rest
  | status {rest : List UInt8} : Piece (0x24 :: 0x3f :: rest) (decimal status.toNat) rest
  | braces {name rest : List UInt8} (hname : 0x7d ∉ name) :
      Piece (0x24 :: 0x7b :: (name ++ 0x7d :: rest)) (environmentValue env name) rest
  | name {c : UInt8} {name rest : List UInt8} (hc : variableNameChar true c)
      (hname : ∀ b ∈ name, variableNameChar false b)
      (hlongest : ∀ b ∈ rest.head?, ¬variableNameChar false b) :
      Piece (0x24 :: c :: (name ++ rest)) (environmentValue env (c :: name)) rest
  | dollar {rest : List UInt8} (hother : ∀ next after, rest = next :: after → next ≠ 0x3f ∧
      ¬(next = 0x7b ∧ 0x7d ∈ after) ∧ ¬variableNameChar true next) :
        Piece (0x24 :: rest) [0x24] rest

/-- A text and what it becomes. -/
inductive Expands : List UInt8 → List UInt8 → Prop
  | nil : Expands [] []
  | cons {input text rest out : List UInt8} (hpiece : Piece env status input text rest)
      (hrest : Expands rest out) : Expands input (text ++ out)

lemma digits_eq {room n : ℕ} (h : n < 10 ^ (room + 1)) :
    (digits (room + 1) n).reverse = decimal n := by
  have hloop : digits (room + 1) n =
      if n = 0 then [0x30] else (Nat.digits 10 n).map fun d => UInt8.ofNat (0x30 + d) := by
    induction room generalizing n with
    | zero => interval_cases n <;> simp [digits]
    | succ room ih =>
      have hrest : n / 10 < 10 ^ (room + 1) := Nat.div_lt_of_lt_mul (by rwa [← pow_succ'])
      rw [digits, ih hrest]
      by_cases hn : n / 10 = 0
      · have hlt : n < 10 := by omega
        interval_cases n <;> simp
      · have hpos : 0 < n := by omega
        simp [hn, hpos.ne', Nat.digits_def' (by norm_num : 1 < 10) hpos]
  rw [hloop, decimal]
  split <;> rfl

/-- The buffers for a name and a value hold every variable there can be. -/
lemma appendedValue_eq (key : List UInt8) : appendedValue env key = environmentValue env key := by
  rw [appendedValue, environmentValue]
  cases hfind : env.find? (·.key = key) with
  | none => simp
  | some info =>
    have hkey : info.key = key := by simpa using find?_some hfind
    have hfits : ¬(key = [] ∨ key.length ≥ 24) := by
      rw [← hkey, not_or, not_le]
      exact ⟨info.nonempty, info.keyFits⟩
    have hvalue := info.valueFits
    rw [if_neg hfits, Option.elim_some, take_of_length_le (by omega)]

/-- A round of the loop follows the rules. -/
lemma piece_readPiece (c : UInt8) (input : List UInt8) :
    Piece env status (c :: input) (readPiece env status c input).1
      (readPiece env status c input).2 := by
  by_cases hc : c = 0x24
  swap
  · cases input with
    | nil => exact .literal hc
    | cons =>
      rw [readPiece, if_pos hc]
      exact .literal hc
  subst hc
  cases input with
  | nil => exact .dollar (by simp)
  | cons next input =>
    rw [readPiece, if_neg (not_not.2 rfl)]
    split_ifs with hstatus hbraces hname
    · rw [hstatus, digits_eq (status.toNat_lt.trans (by norm_num))]
      exact .status
    · obtain ⟨rfl, hmem⟩ := hbraces
      obtain ⟨name, rest, rfl, hname⟩ := eq_append_cons_of_mem hmem
      have hne : ∀ b ∈ name, decide (b ≠ 0x7d) = true := fun b hb =>
        decide_eq_true fun h => hname (h ▸ hb)
      rw [appendedValue_eq, takeWhile_append_of_pos hne, dropWhile_append_of_pos hne]
      simpa using .braces hname
    · have hlongest (b : UInt8) (hb : b ∈ (input.dropWhile (variableNameChar false)).head?) :
          ¬variableNameChar false b := by
        have hend := head?_dropWhile_not (variableNameChar false) input
        rw [hb] at hend
        simpa using hend
      have hpiece : Piece env status (0x24 :: next :: (input.takeWhile (variableNameChar false) ++
          input.dropWhile (variableNameChar false))) _ _ :=
        .name hname (fun _ => mem_takeWhile_imp) hlongest
      rw [takeWhile_append_dropWhile] at hpiece
      rwa [appendedValue_eq]
    · refine .dollar ?_
      rintro _ _ ⟨rfl, rfl⟩
      exact ⟨hstatus, hbraces, hname⟩

/-- The rules exclude one another: they say what a round of the loop does. -/
lemma Piece.readPiece_eq {c : UInt8} {input text rest : List UInt8}
    (h : Piece env status (c :: input) text rest) : readPiece env status c input = (text, rest) := by
  generalize hinput : c :: input = whole at h
  cases h with
  | literal hc =>
    obtain ⟨rfl, rfl⟩ := cons.inj hinput
    cases input with
    | nil => rfl
    | cons => rw [readPiece, if_pos hc]
  | status =>
    obtain ⟨rfl, rfl⟩ := cons.inj hinput
    rw [readPiece, if_neg (not_not.2 rfl), if_pos rfl,
      digits_eq (status.toNat_lt.trans (by norm_num))]
  | @braces name rest hname =>
    obtain ⟨rfl, rfl⟩ := cons.inj hinput
    have hne : ∀ b ∈ name, decide (b ≠ 0x7d) = true := fun b hb =>
      decide_eq_true fun h => hname (h ▸ hb)
    rw [readPiece, if_neg (not_not.2 rfl), if_neg (by decide), if_pos (by simp), appendedValue_eq,
      takeWhile_append_of_pos hne, dropWhile_append_of_pos hne]
    simp
  | @name next name rest hnext hname hlongest =>
    obtain ⟨rfl, rfl⟩ := cons.inj hinput
    have hstatus : next ≠ 0x3f := by
      rintro rfl
      cases hnext
    have hbrace : next ≠ 0x7b := by
      rintro rfl
      cases hnext
    have hend : rest.takeWhile (variableNameChar false) = [] ∧
        rest.dropWhile (variableNameChar false) = rest := by
      cases rest with
      | nil => exact ⟨rfl, rfl⟩
      | cons b rest => simp [hlongest b rfl]
    rw [readPiece, if_neg (not_not.2 rfl), if_neg hstatus, if_neg fun h => hbrace h.1, if_pos hnext,
      appendedValue_eq, takeWhile_append_of_pos hname, dropWhile_append_of_pos hname, hend.1, hend.2,
      append_nil]
  | dollar hother =>
    obtain ⟨rfl, rfl⟩ := cons.inj hinput
    cases input with
    | nil => rfl
    | cons next input =>
      obtain ⟨hstatus, hbraces, hname⟩ := hother next input rfl
      rw [readPiece, if_neg (not_not.2 rfl), if_neg hstatus, if_neg hbraces, if_neg hname]

lemma Expands.unique {input text other : List UInt8} (h : Expands env status input text)
    (h' : Expands env status input other) : other = text := by
  induction h generalizing other with
  | nil =>
    cases h' with
    | nil => rfl
    | cons hpiece => cases hpiece
  | @cons input text rest out hpiece _ ih =>
    cases h' with
    | nil => cases hpiece
    | cons hpiece' hrest' =>
      cases input with
      | nil => cases hpiece
      | cons c input =>
        obtain ⟨rfl, rfl⟩ := Prod.mk.inj (hpiece.readPiece_eq.symm.trans hpiece'.readPiece_eq)
        rw [ih hrest']

lemma appendText_eq {capacity : ℕ} {out : List UInt8} (hout : out.length < capacity)
    (text : List UInt8) :
    appendText capacity out text = (out ++ text).take (capacity - 1) := by
  induction text generalizing out with
  | nil =>
    rw [append_nil, take_of_length_le (by omega)]
    rfl
  | cons c text ih =>
    rw [appendText, foldl_cons, ← appendText, appendChar]
    split
    · have hlast : out.length = capacity - 1 := by omega
      rw [ih hout, ← hlast, take_left, take_left]
    · rw [ih (by rw [length_append, length_singleton]; omega), append_assoc, singleton_append]

/-- The loop appends an expansion of the rest of the input. -/
lemma exists_expands (input : List UInt8) : ∃ text, Expands env status input text ∧
    ∀ capacity out, expandFrom env status capacity out input = appendText capacity out text := by
  induction hn : input.length using Nat.strong_induction_on generalizing input with
  | _ n ih =>
    cases input with
    | nil => exact ⟨[], .nil, fun _ _ => by rw [expandFrom]; rfl⟩
    | cons c input =>
      have hlen : _ < (c :: input).length := Nat.lt_succ_of_le (length_readPiece env status c input)
      obtain ⟨text, hrest, hout⟩ := ih _ (hn ▸ hlen) _ rfl
      refine ⟨_, .cons (piece_readPiece env status c input) hrest, fun capacity out => ?_⟩
      rw [expandFrom, hout, appendText, appendText, appendText, foldl_append]

/-- The rules make one text of the input, and the output is as much of it as fits. -/
theorem expansion_correct (input : List UInt8) : ∃ text, Expands env status input text ∧
    (∀ other, Expands env status input other → other = text) ∧
    ∀ room, expandShellVariables env status (room + 1) input = text.take room := by
  obtain ⟨text, h, hout⟩ := exists_expands env status input
  refine ⟨text, h, fun other => h.unique env status, fun room => ?_⟩
  rw [expandShellVariables, hout, appendText_eq (Nat.succ_pos room)]
  rfl

end IanOS.Expansion
