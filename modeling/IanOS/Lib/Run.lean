import Mathlib.Tactic

/-!
# Runs of a step function

A component whose operations are a function `step : σ → α → σ` is run on a list of operations by
`List.foldl step`.  Operations may come with a condition on the state they are applied to; a run is
`Allowed` when each of its operations meets the condition in the state it finds.  `Allowed.foldl`
is the invariant rule: a property every allowed step preserves holds after every allowed run.
-/

namespace IanOS.Run

variable {σ α : Type*} (step : σ → α → σ) (ok : σ → α → Prop) {s : σ} {ops : List α}

/-- Every operation of the list meets the condition in the state it is applied to. -/
def Allowed : σ → List α → Prop
  | _, [] => True
  | s, a :: ops => ok s a ∧ Allowed (step s a) ops

instance decidableAllowed [∀ s a, Decidable (ok s a)] :
    ∀ (s : σ) (ops : List α), Decidable (Allowed step ok s ops)
  | _, [] => .isTrue trivial
  | s, a :: ops =>
    have := decidableAllowed (step s a) ops
    inferInstanceAs (Decidable (_ ∧ _))

variable {step ok}

/-- The invariant rule. -/
theorem Allowed.foldl {P : σ → Prop} (hstep : ∀ s a, P s → ok s a → P (step s a)) {s : σ}
    {ops : List α} (hops : Allowed step ok s ops) (hs : P s) : P (ops.foldl step s) := by
  induction ops generalizing s with
  | nil => exact hs
  | cons a ops ih => exact ih hops.2 (hstep s a hs hops.1)

/-- The simulation rule: two systems that run the same operations stay related, if every allowed
step of the first keeps them so. -/
theorem Allowed.foldl_rel {τ : Type*} {step' : τ → α → τ} {R : σ → τ → Prop}
    (hstep : ∀ s t a, R s t → ok s a → R (step s a) (step' t a)) {s : σ} {t : τ} {ops : List α}
    (hops : Allowed step ok s ops) (hs : R s t) : R (ops.foldl step s) (ops.foldl step' t) := by
  induction ops generalizing s t with
  | nil => exact hs
  | cons a ops ih => exact ih hops.2 (hstep s t a hs hops.1)

/-- Two conditionals are related if their branches are. -/
lemma ite_rel {τ : Type*} {R : σ → τ → Prop} {c : Prop} [Decidable c] {s s' : σ} {t t' : τ}
    (hthen : c → R s t) (helse : ¬c → R s' t') : R (if c then s else s') (if c then t else t') := by
  split_ifs with hc
  · exact hthen hc
  · exact helse hc

/-- A condition that does not look at the state need only hold of every operation. -/
lemma allowed_of_forall {ok : α → Prop} (hops : ∀ a ∈ ops, ok a) :
    Allowed step (fun _ a => ok a) s ops := by
  induction ops generalizing s with
  | nil => trivial
  | cons a ops ih =>
    exact ⟨hops a List.mem_cons_self, ih fun b hb => hops b (List.mem_cons_of_mem _ hb)⟩

lemma Allowed.and_forall {p : α → Prop} (hops : Allowed step ok s ops) (hp : ∀ a ∈ ops, p a) :
    Allowed step (fun s a => ok s a ∧ p a) s ops := by
  induction ops generalizing s with
  | nil => trivial
  | cons a ops ih =>
    exact ⟨⟨hops.1, hp a List.mem_cons_self⟩,
      ih hops.2 fun b hb => hp b (List.mem_cons_of_mem _ hb)⟩

lemma allowed_append {ops' : List α} :
    Allowed step ok s (ops ++ ops') ↔
      Allowed step ok s ops ∧ Allowed step ok (ops.foldl step s) ops' := by
  induction ops generalizing s with
  | nil => simp [Allowed]
  | cons a ops ih => simp [Allowed, ih, and_assoc]

/-! ## Passes that count what they do -/

variable {count : σ → ℕ}

lemma le_foldl (hstep : ∀ s a, step s a = s ∨ count s < count (step s a)) (s : σ) (as : List α) :
    count s ≤ count (as.foldl step s) := by
  induction as generalizing s with
  | nil => exact le_rfl
  | cons a as ih =>
    refine le_trans ?_ (ih (step s a))
    obtain hsame | hmore := hstep s a
    · rw [hsame]
    · exact hmore.le

/-- A pass that counted nothing did nothing at any of its elements. -/
lemma foldl_idle (hstep : ∀ s a, step s a = s ∨ count s < count (step s a)) {as : List α}
    (h : count (as.foldl step s) = count s) : as.foldl step s = s ∧ ∀ a ∈ as, step s a = s := by
  induction as with
  | nil => simp
  | cons a as ih =>
    have hfirst : step s a = s := by
      obtain hsame | hmore := hstep s a
      · exact hsame
      · have hle := le_foldl hstep (step s a) as
        rw [List.foldl_cons] at h
        omega
    rw [List.foldl_cons, hfirst] at h ⊢
    obtain ⟨hrest, heach⟩ := ih h
    refine ⟨hrest, fun b hb => ?_⟩
    obtain rfl | hb := List.mem_cons.1 hb
    · exact hfirst
    · exact heach b hb

end IanOS.Run
