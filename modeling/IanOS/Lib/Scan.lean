import IanOS.Lib.WordStack

/-!
# Programs that read memory

Memory maps 64-bit addresses to bytes.  A `Scan` is a program that reads little-endian numbers from
memory and computes with them.  It has a value and a list of the runs of bytes it reads, both of
which depend on the memory, but only on the bytes that are read (`value_congr`, `reads_congr`).

A program that works on a buffer must read nothing outside the buffer.  Addresses wrap, so what
counts is the distance from the start of the buffer (`Extent.inside_of_le`).
-/

namespace IanOS

/-- A run of bytes: the address of the first and their number. -/
structure Extent where
  start : Word64
  length : ℕ
  deriving DecidableEq, Repr

namespace Extent

/-- The address of byte `k`. -/
def address (e : Extent) (k : ℕ) : Word64 := e.start + BitVec.ofNat 64 k

/-- Every byte is one of the `size` bytes from `base` on. -/
def Inside (base : Word64) (size : ℕ) (e : Extent) : Prop :=
  ∀ k < e.length, (e.address k - base).toNat < size

instance (base : Word64) (size : ℕ) (e : Extent) : Decidable (e.Inside base size) :=
  inferInstanceAs (Decidable (∀ k < _, _))

variable {base offset : Word64} {size : ℕ} {e : Extent}

lemma toNat_address_sub (e : Extent) (k : ℕ) :
    (e.address k - base).toNat = ((e.start - base).toNat + k) % 2 ^ 64 := by
  have hcomm : e.address k - base = (e.start - base) + BitVec.ofNat 64 k := by
    rw [address, BitVec.sub_eq_add_neg, BitVec.sub_eq_add_neg, BitVec.add_assoc,
      BitVec.add_comm (BitVec.ofNat 64 k), ← BitVec.add_assoc]
  rw [hcomm, BitVec.toNat_add, BitVec.toNat_ofNat, Nat.add_mod_mod]

/-- The whole run is inside if it ends inside, counted from the start of the buffer. -/
lemma inside_of_le (hsize : size ≤ 2 ^ 64) (h : (e.start - base).toNat + e.length ≤ size) :
    e.Inside base size := by
  intro k hk
  rw [toNat_address_sub, Nat.mod_eq_of_lt (by omega)]
  omega

lemma inside_offset {n : ℕ} (hsize : size ≤ 2 ^ 64) (h : offset.toNat + n ≤ size) :
    (Extent.mk (base + offset) n).Inside base size := by
  apply inside_of_le hsize
  rwa [BitVec.add_comm base, BitVec.add_sub_cancel]

end Extent

/-- The number in the `n` bytes from `a` on, the lowest byte first. -/
def readLe (mem : Word64 → UInt8) (a : Word64) : ℕ → ℕ
  | 0 => 0
  | n + 1 => (mem a).toNat + 256 * readLe mem (a + 1) n

lemma address_succ (a : Word64) (n k : ℕ) :
    (Extent.mk (a + 1) n).address k = (Extent.mk a (n + 1)).address (k + 1) := by
  show a + 1 + BitVec.ofNat 64 k = a + BitVec.ofNat 64 (k + 1)
  rw [BitVec.ofNat_add, BitVec.add_assoc, BitVec.add_comm (1 : Word64), BitVec.ofNat_eq_ofNat]

lemma readLe_congr {mem mem' : Word64 → UInt8} {a : Word64} {n : ℕ}
    (h : ∀ k < n, mem' ((Extent.mk a n).address k) = mem ((Extent.mk a n).address k)) :
    readLe mem' a n = readLe mem a n := by
  induction n generalizing a with
  | zero => rw [readLe, readLe]
  | succ n ih =>
    have hfirst : mem' a = mem a := by simpa [Extent.address] using h 0 (Nat.succ_pos n)
    rw [readLe, readLe, hfirst, ih fun k hk => ?_]
    rw [address_succ]
    exact h (k + 1) (by omega)

lemma readLe_lt (mem : Word64 → UInt8) (a : Word64) (n : ℕ) : readLe mem a n < 256 ^ n := by
  induction n generalizing a with
  | zero => simp [readLe]
  | succ n ih =>
    have hbyte := (mem a).toNat_lt
    have hrest := ih (a + 1)
    rw [readLe]
    omega

/-- A program that reads numbers from memory and returns an `α`. -/
inductive Scan (α : Type) : Type
  | done (a : α)
  | read (e : Extent) (k : Word64 → Scan α)

namespace Scan

variable {α β : Type} {mem mem' : Word64 → UInt8} {c : Prop}

def bind : Scan α → (α → Scan β) → Scan β
  | done a, f => f a
  | read e k, f => read e fun w => (k w).bind f

instance : Monad Scan where
  pure := done
  bind := bind

/-- Read a number of at most eight bytes. -/
def field (a : Word64) (n : ℕ) : Scan Word64 := read ⟨a, n⟩ done

/-- What a read returns. -/
def word (mem : Word64 → UInt8) (e : Extent) : Word64 :=
  BitVec.ofNat 64 (readLe mem e.start e.length)

def value : Scan α → (Word64 → UInt8) → α
  | done a, _ => a
  | read e k, mem => (k (word mem e)).value mem

/-- The runs of bytes that are read, in order. -/
def reads : Scan α → (Word64 → UInt8) → List Extent
  | done _, _ => []
  | read e k, mem => e :: (k (word mem e)).reads mem

@[simp] lemma value_pure (a : α) : (pure a : Scan α).value mem = a := rfl

@[simp] lemma reads_pure (a : α) : (pure a : Scan α).reads mem = [] := rfl

@[simp] lemma value_field (a : Word64) (n : ℕ) :
    (field a n).value mem = BitVec.ofNat 64 (readLe mem a n) := rfl

@[simp] lemma reads_field (a : Word64) (n : ℕ) : (field a n).reads mem = [⟨a, n⟩] := rfl

@[simp] lemma value_bind (m : Scan α) (f : α → Scan β) :
    (m >>= f).value mem = (f (m.value mem)).value mem := by
  show (m.bind f).value mem = _
  induction m with
  | done a => rw [bind, value]
  | read e k ih => exact ih _

lemma value_ite [Decidable c] (m m' : Scan α) :
    (if c then m else m').value mem = if c then m.value mem else m'.value mem :=
  apply_ite (fun m => m.value mem) c m m'

@[simp] lemma reads_bind (m : Scan α) (f : α → Scan β) :
    (m >>= f).reads mem = m.reads mem ++ (f (m.value mem)).reads mem := by
  show (m.bind f).reads mem = _
  induction m with
  | done a => simp [bind, value, reads]
  | read e k ih => exact congrArg (List.cons e) (ih _)

/-! ## Bounds on what is read -/

/-- Everything that is read satisfies `P`. -/
def Within (P : Extent → Prop) (m : Scan α) (mem : Word64 → UInt8) : Prop := ∀ e ∈ m.reads mem, P e

variable {P : Extent → Prop}

@[simp] lemma within_pure (a : α) : Within P (pure a : Scan α) mem := by
  simp [Within]

@[simp] lemma within_field {a : Word64} {n : ℕ} : Within P (field a n) mem ↔ P ⟨a, n⟩ := by
  simp [Within]

@[simp] lemma within_bind {m : Scan α} {f : α → Scan β} :
    Within P (m >>= f) mem ↔ Within P m mem ∧ Within P (f (m.value mem)) mem := by
  simp only [Within, reads_bind, List.mem_append]
  exact ⟨fun h => ⟨fun e he => h e (.inl he), fun e he => h e (.inr he)⟩,
    fun h e he => he.elim (h.1 e) (h.2 e)⟩

lemma within_ite [Decidable c] {m m' : Scan α} :
    Within P (if c then m else m') mem ↔ (c → Within P m mem) ∧ (¬c → Within P m' mem) := by
  split_ifs with hc <;> simp [hc]

/-! ## What the result depends on -/

/-- The memories agree on the bytes of all these runs. -/
def Agree (mem mem' : Word64 → UInt8) (es : List Extent) : Prop :=
  ∀ e ∈ es, ∀ k < e.length, mem' (e.address k) = mem (e.address k)

/-- A program sees nothing of memory but what it reads. -/
lemma value_congr (m : Scan α) (h : Agree mem mem' (m.reads mem)) :
    m.value mem' = m.value mem ∧ m.reads mem' = m.reads mem := by
  induction m with
  | done a => exact ⟨rfl, rfl⟩
  | read e k ih =>
    have hword : word mem' e = word mem e := by
      rw [word, word, readLe_congr (h e List.mem_cons_self)]
    rw [value, reads, reads, hword]
    obtain ⟨hvalue, hreads⟩ := ih _ fun d hd => h d (List.mem_cons_of_mem e hd)
    exact ⟨hvalue, by rw [hreads]⟩

end Scan
end IanOS
