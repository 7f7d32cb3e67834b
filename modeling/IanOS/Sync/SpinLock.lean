import Mathlib.Tactic

/-!
# The spin lock

`SpinLock` and `LockGuard` (`kernel/src/sync/spinlock.cpp`) on any number of processors.  A step is
one access of one of them to shared memory.  Each update of the data under the lock is a load and a
store, so that without the lock one could overwrite another.
-/

namespace IanOS.SpinLock

open Function

variable {ι δ : Type*} [DecidableEq ι]

/-- Where a processor is, with the updates that it is still to carry out under the lock. -/
inductive Stage (δ : Type*)
  | outside
  | exchange (updates : List (δ → δ))
  | spin (updates : List (δ → δ))
  | inside (updates : List (δ → δ))
  | store (loaded : δ) (update : δ → δ) (updates : List (δ → δ))

def Stage.Holds : Stage δ → Prop
  | inside _ | store _ _ _ => True
  | _ => False

structure State (ι δ : Type*) where
  /-- `value_` is not zero. -/
  value : Bool
  data : δ
  stage : ι → Stage δ
  /-- The data if every update were one step; nothing in the code sees it. -/
  atomic : δ

/-- The next access of processor `i`; outside it begins to lock, for these updates. -/
def step (s : State ι δ) (i : ι) (updates : List (δ → δ)) : State ι δ :=
  match s.stage i with
  | .outside => { s with stage := update s.stage i (.exchange updates) }
  | .exchange fs =>
    { s with value := true, stage := update s.stage i (if s.value then .spin fs else .inside fs) }
  | .spin fs => { s with stage := update s.stage i (if s.value then .spin fs else .exchange fs) }
  | .inside [] => { s with value := false, stage := update s.stage i .outside }
  | .inside (f :: fs) => { s with stage := update s.stage i (.store s.data f fs) }
  | .store d f fs =>
    { s with data := f d, stage := update s.stage i (.inside fs), atomic := f s.atomic }

/-- The lock is taken exactly while one processor holds it, what that one has loaded is current, and
no update is lost. -/
structure Inv (s : State ι δ) : Prop where
  taken : s.value = true ↔ ∃ i, (s.stage i).Holds
  unique : ∀ i j, (s.stage i).Holds → (s.stage j).Holds → i = j
  loaded : ∀ i d f fs, s.stage i = .store d f fs → d = s.data
  atomic : s.data = s.atomic

lemma Inv.step {s : State ι δ} (h : Inv s) (i : ι) (updates : List (δ → δ)) :
    Inv (step s i updates) := by
  obtain ⟨htaken, hunique, hloaded, hatomic⟩ := h
  -- an exchange takes the lock only from nobody, and only the one holder stores or gives it back
  have hfree : s.value = false → ∀ j, ¬(s.stage j).Holds := fun hvalue j hj => by
    simp [htaken.2 ⟨j, hj⟩] at hvalue
  have halone : (s.stage i).Holds → ∀ j, (s.stage j).Holds → j = i :=
    fun hi j hj => hunique j i hj hi
  rw [SpinLock.step]
  split
  all_goals
    next hstage =>
    refine ⟨?_, ?_, ?_, ?_⟩ <;> simp only [update_apply] <;> grind [Stage.Holds]

/-- In every interleaving at most one processor holds the lock and no update of the data is lost. -/
theorem no_update_lost (d : δ) (steps : List (ι × List (δ → δ))) :
    Inv (steps.foldl (fun s a => step s a.1 a.2) ⟨false, d, fun _ => .outside, d⟩) := by
  refine List.foldlRecOn steps _ ⟨?_, ?_, ?_, rfl⟩ fun s hs a _ => hs.step a.1 a.2
  all_goals simp [Stage.Holds]

end IanOS.SpinLock
