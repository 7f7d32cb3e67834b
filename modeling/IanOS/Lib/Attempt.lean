import Mathlib.Tactic

/-!
# Loops that stop at the first failure

`attempt step n i s` runs `step i`, `step (i + 1)`, ... for `n` rounds on the state `s`, and stops
after the first round that fails.  The rules take an invariant that may depend on the round; they
differ in what is known about failing rounds.
-/

namespace IanOS

variable {σ : Type*}

def attempt (step : ℕ → σ → Bool × σ) : ℕ → ℕ → σ → Bool × σ
  | 0, _, s => (true, s)
  | n + 1, i, s =>
    let r := step i s
    if r.1 then attempt step n (i + 1) r.2 else r

namespace Attempt

variable {step : ℕ → σ → Bool × σ} {P : ℕ → σ → Prop} {Q : σ → Prop} {n i : ℕ} {s : σ}

lemma succ_of_true (h : (step i s).1 = true) :
    attempt step (n + 1) i s = attempt step n (i + 1) (step i s).2 :=
  if_pos h

lemma succ_of_false (h : (step i s).1 = false) : attempt step (n + 1) i s = step i s :=
  if_neg (by simp [h])

section

variable (hs : P i s)
  (hpass : ∀ k s, i ≤ k → k < i + n → P k s → (step k s).1 = true → P (k + 1) (step k s).2)
include hs hpass

/-- The general rule: a round that succeeds keeps the invariant, a round that fails gives `Q`. -/
theorem rule
    (hfail : ∀ k s, i ≤ k → k < i + n → P k s → (step k s).1 = false → Q (step k s).2) :
    ((attempt step n i s).1 = true → P (i + n) (attempt step n i s).2) ∧
      ((attempt step n i s).1 = false → Q (attempt step n i s).2) := by
  induction n generalizing i s with
  | zero => exact ⟨fun _ => hs, fun h => nomatch h⟩
  | succ n ih =>
    cases hround : (step i s).1 with
    | false =>
      rw [succ_of_false hround]
      refine ⟨fun h => ?_, fun _ => hfail i s le_rfl (by omega) hs hround⟩
      rw [hround] at h
      cases h
    | true =>
      rw [succ_of_true hround, show i + (n + 1) = i + 1 + n by omega]
      exact ih (hpass i s le_rfl (by omega) hs hround)
        (fun k s hk hlt => hpass k s (by omega) (by omega))
        fun k s hk hlt => hfail k s (by omega) (by omega)

/-- A loop that succeeds has kept the invariant in all its rounds. -/
theorem passed
    (hok : (attempt step n i s).1 = true) : P (i + n) (attempt step n i s).2 :=
  (rule (Q := fun _ => True) hs hpass fun _ _ _ _ _ _ => trivial).1 hok

end

/-- What every round keeps, whether it fails or not, the loop keeps. -/
theorem invariant (hs : Q s)
    (hround : ∀ k s, i ≤ k → k < i + n → Q s → Q (step k s).2) : Q (attempt step n i s).2 := by
  have h : ((attempt step n i s).1 = true → Q (attempt step n i s).2) ∧
      ((attempt step n i s).1 = false → Q (attempt step n i s).2) :=
    rule hs (fun k s hk hlt hq _ => hround k s hk hlt hq) fun k s hk hlt hq _ =>
      hround k s hk hlt hq
  cases hok : (attempt step n i s).1 with
  | false => exact h.2 hok
  | true => exact h.1 hok

/-- If every round succeeds, then so does the loop. -/
theorem succeeds (hs : P i s)
    (hpass : ∀ k s, i ≤ k → k < i + n → P k s → (step k s).1 = true ∧ P (k + 1) (step k s).2) :
    (attempt step n i s).1 = true := by
  by_contra hok
  rw [Bool.not_eq_true] at hok
  refine (rule (Q := fun _ => False) hs (fun k s hk hlt hp _ => (hpass k s hk hlt hp).2) ?_).2 hok
  intro k s hk hlt hp hfalse
  rw [(hpass k s hk hlt hp).1] at hfalse
  cases hfalse

/-- If each round that succeeds is matched by a round of another loop, then so is the whole loop. -/
theorem simulated {τ : Type*} {step' : ℕ → τ → Bool × τ} {R : σ → τ → Prop} {t : τ}
    (hround : ∀ k s t, R s t → (step k s).1 = true → (step' k t).1 = true ∧
      R (step k s).2 (step' k t).2)
    (h : R s t) (hok : (attempt step n i s).1 = true) :
    (attempt step' n i t).1 = true ∧ R (attempt step n i s).2 (attempt step' n i t).2 := by
  induction n generalizing i s t with
  | zero => exact ⟨rfl, h⟩
  | succ n ih =>
    cases hfirst : (step i s).1 with
    | false =>
      rw [succ_of_false hfirst, hfirst] at hok
      cases hok
    | true =>
      rw [succ_of_true hfirst] at hok ⊢
      obtain ⟨hmatched, hrel⟩ := hround i s t h hfirst
      rw [succ_of_true hmatched]
      exact ih hrel hok

/-! ## The states in which the rounds begin -/

/-- One round more at the end. -/
lemma succ_last : attempt step (n + 1) i s =
    if (attempt step n i s).1 then step (i + n) (attempt step n i s).2 else attempt step n i s := by
  induction n generalizing i s with
  | zero =>
    cases hround : (step i s).1 with
    | false => simp [attempt, hround]
    | true => simp [attempt, ← hround]
  | succ n ih =>
    cases hround : (step i s).1 with
    | false => simp [succ_of_false hround, hround]
    | true =>
      rw [succ_of_true hround, ih, succ_of_true hround, show i + 1 + n = i + (n + 1) by omega]

/-- An invariant that each round keeps in the state it finds. -/
theorem reached (hs : Q s)
    (hround : ∀ k < n, (attempt step k i s).1 = true → Q (attempt step k i s).2 →
      Q (step (i + k) (attempt step k i s).2).2) : Q (attempt step n i s).2 := by
  induction n with
  | zero => exact hs
  | succ n ih =>
    have hbefore := ih fun k hk => hround k (by omega)
    rw [succ_last]
    split_ifs with hok
    · exact hround n (by omega) hok hbefore
    · exact hbefore

section

variable (hback : ∀ k s, Q (step k s).2 → Q s) (h : Q (attempt step n i s).2)
include hback h

/-- If no round makes good what was broken, then what holds at the end held at the beginning. -/
theorem of_last : Q s := by
  induction n with
  | zero => exact h
  | succ n ih =>
    rw [succ_last] at h
    split_ifs at h
    · exact ih (hback _ _ h)
    · exact ih h

/-- It also holds after each round that is reached. -/
theorem reached_of_last {k : ℕ} (hk : k < n) (hreached : (attempt step k i s).1 = true) :
    Q (step (i + k) (attempt step k i s).2).2 := by
  induction n with
  | zero => omega
  | succ n ih =>
    rw [succ_last] at h
    rcases Nat.lt_succ_iff_lt_or_eq.1 hk with hlt | rfl
    · refine ih ?_ hlt
      split_ifs at h
      · exact hback _ _ h
      · exact h
    · rwa [if_pos hreached] at h

end

/-- The loop succeeds if each round does in the state it finds. -/
lemma fst_eq_true_iff : (attempt step n i s).1 = true ↔
    ∀ k < n, (step (i + k) (attempt step k i s).2).1 = true := by
  induction n with
  | zero => simp [attempt]
  | succ n ih =>
    rw [succ_last, Nat.forall_lt_succ_right, ← ih]
    split_ifs with hok
    · exact (and_iff_right hok).symm
    · exact iff_of_false hok fun h => hok h.1

end Attempt
end IanOS
