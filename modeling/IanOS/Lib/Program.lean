import IanOS.Lib.Run

/-!
# Programs over an interface of operations

A component offers operations `O β`, each with a result of type `β`, on a state `σ`.  Code that
works on the state only through these operations is a `Program`: it may look at the state, call an
operation and continue with its result.  `run` executes a program, and `trace` lists the operations
it performs from a given state.  A program is in particular a run of operations, `run_state`: what
holds of every run of operations holds of every program.
-/

namespace IanOS

/-- A program that uses the operations `O` on the state `σ` and returns an `α`. -/
inductive Program (O : Type → Type) (σ : Type) (α : Type) : Type 1
  | done (a : α)
  | look (k : σ → Program O σ α)
  | call {β : Type} (o : O β) (k : β → Program O σ α)

namespace Program

variable {O : Type → Type} {σ α β : Type}

def bind : Program O σ α → (α → Program O σ β) → Program O σ β
  | done a, f => f a
  | look k, f => look fun s => (k s).bind f
  | call o k, f => call o fun b => (k b).bind f

instance : Monad (Program O σ) where
  pure := done
  bind := bind

/-- The present state. -/
def get : Program O σ σ := look done

/-- One operation. -/
def op (o : O α) : Program O σ α := call o done

variable (exec : ∀ {β : Type}, O β → σ → β × σ)

def run : Program O σ α → σ → α × σ
  | done a, s => (a, s)
  | look k, s => (k s).run s
  | call o k, s => (k (exec o s).1).run (exec o s).2

/-- The operations performed, in order. -/
def trace : Program O σ α → σ → List (Σ β, O β)
  | done _, _ => []
  | look k, s => (k s).trace s
  | call o k, s => ⟨_, o⟩ :: (k (exec o s).1).trace (exec o s).2

/-- The effect of one operation on the state. -/
def step (s : σ) (o : Σ β, O β) : σ := (exec o.2 s).2

/-- A program is a run of the operations it performs. -/
theorem run_state (p : Program O σ α) (s : σ) :
    (run exec p s).2 = (trace exec p s).foldl (step exec) s := by
  induction p generalizing s with
  | done a => rfl
  | look k ih => exact ih s s
  | call o k ih => exact ih _ _

end Program
end IanOS
