import IanOS.Lib.LinkTree
import IanOS.Mm.AddressSpace
import IanOS.Mm.PmmSpec

/-!
# What mapping a page does to translation

The tables of an address space are a tree linked through physical memory: the entries that are
present link a table to the tables below it, and `translate` is a walk of four links.  The tables of
the lower half are pages that `map_page` got from the allocator, so they are all different, and a
page the allocator hands out is none of them.  Hence a table that is hung in adds no translation,
and the entry written at the end adds the translation of its own page.

The upper half is shared with the kernel, whose tables `map_page` neither owns nor writes.  That it
does not get them from the allocator either is the assumption `KernelTablesUsed`.
-/

namespace IanOS.Paging

open List Option Nat

open LinkTree (walk Tree Within OnlyCell)

variable {x v : Word64}

/-! ## Entries and addresses -/

lemma getLsbD_kAddrMask {i : ℕ} (hi : i < 64) : kAddrMask.getLsbD i = decide (12 ≤ i ∧ i < 52) := by
  have hall : ∀ i < 64, kAddrMask.getLsbD i = decide (12 ≤ i ∧ i < 52) := by decide
  exact hall i hi

/-- A word without bits outside the mask. -/
lemma and_kAddrMask (hlow : ∀ i < 12, x.getLsbD i = false)
    (hhigh : ∀ i, 52 ≤ i → x.getLsbD i = false) : x &&& kAddrMask = x := by
  apply BitVec.eq_of_getLsbD_eq
  intro i hi
  rw [BitVec.getLsbD_and, getLsbD_kAddrMask hi]
  by_cases hl : i < 12
  · simp [hlow i hl]
  by_cases hh : 52 ≤ i
  · simp [hhigh i hh]
  · have hmid : 12 ≤ i ∧ i < 52 := by omega
    simp [hmid]

lemma getLsbD_high (hx : x.toNat < 2 ^ 52) (i : ℕ) (hi : 52 ≤ i) : x.getLsbD i = false := by
  rw [BitVec.getLsbD, testBit_lt_two_pow]
  exact lt_of_lt_of_le hx (Nat.pow_le_pow_right (by norm_num) hi)

lemma toNat_and_fff (x : Word64) : (x &&& 0xfff).toNat = x.toNat % kPageSize := by
  have hmask : (0xfff : Word64).toNat = 2 ^ 12 - 1 := by decide
  rw [BitVec.toNat_and, hmask, and_two_pow_sub_one_eq_mod]
  rfl

/-- An address that is aligned and not too large is what the mask leaves of it. -/
lemma and_kAddrMask_of_aligned (halign : x.toNat % kPageSize = 0) (hx : x.toNat < 2 ^ 52) :
    x &&& kAddrMask = x := by
  refine and_kAddrMask (fun i hi => ?_) (getLsbD_high hx)
  have hbit : (x.toNat % 2 ^ 12).testBit i = x.toNat.testBit i := by
    rw [testBit_mod_two_pow]
    simp [hi]
  have hzero : x.toNat % 2 ^ 12 = 0 := halign
  rw [BitVec.getLsbD, ← hbit, hzero, zero_testBit]

lemma table_mod (x : Word64) : table x % kPageSize = 0 := by
  have hnone : x &&& kAddrMask &&& 0xfff = 0#64 := by
    rw [BitVec.and_assoc, show kAddrMask &&& 0xfff = 0#64 by decide, BitVec.and_zero]
  rw [table, ← toNat_and_fff, hnone]
  rfl

lemma ofNat_table (x : Word64) : BitVec.ofNat 64 (table x) = x &&& kAddrMask := by
  rw [table, BitVec.ofNat_toNat, BitVec.setWidth_eq]

/-- Flags outside the mask do not change the table an entry points to. -/
lemma table_or {y : Word64} (hx : x &&& kAddrMask = x) (hy : y &&& kAddrMask = 0#64) :
    table (x ||| y) = x.toNat := by
  rw [table, BitVec.and_comm, BitVec.and_or_distrib_left, BitVec.and_comm, hx, BitVec.and_comm, hy,
    BitVec.or_zero]

/-- Different cells of tables are at different addresses. -/
lemma cell_eq_iff {m n : ℕ} (hm : m % kPageSize = 0) (hn : n % kPageSize = 0) (i j : Fin 512) :
    m + 8 * (j : ℕ) = n + 8 * (i : ℕ) ↔ m = n ∧ j = i := by
  simp only [kPageSize] at hm hn
  constructor
  · intro h
    have hmn : m = n := by omega
    exact ⟨hmn, Fin.ext (by omega)⟩
  · rintro ⟨rfl, rfl⟩
    rfl

namespace State

variable {s s' : State} {m n g root page : ℕ} {i j : Fin 512} {e flags : Word64}

lemma entry_setEntry (hm : m % kPageSize = 0) (hn : n % kPageSize = 0) :
    (s.setEntry n i e).entry m j = if m = n ∧ j = i then e else s.entry m j := by
  show Function.update s.words (n + 8 * i) e (m + 8 * j) = _
  rw [Function.update_apply]
  exact if_congr (cell_eq_iff hm hn i j) rfl rfl

lemma entry_clearPage (hm : m % kPageSize = 0) (hg : g % kPageSize = 0) :
    (s.clearPage g).entry m j = if m = g then 0 else s.entry m j := by
  rw [clearPage, entry]
  refine if_congr ?_ rfl rfl
  simp only [kPageSize] at hm hg ⊢
  omega

/-! ## Walks -/

/-- The table behind an entry, if the entry is present. -/
def link (s : State) (n : ℕ) (i : Fin 512) : Option ℕ :=
  if s.entry n i &&& PagePresent = 0 then none else some (table (s.entry n i))

lemma link_mod (h : s.link n i = some m) : m % kPageSize = 0 := by
  rw [link] at h
  split at h
  · cases h
  · rw [← some.inj h]
    exact table_mod _

lemma link_congr (h : s'.entry m j = s.entry n i) : s'.link m j = s.link n i := by
  rw [link, link, h]

end State

/-- The indices of an address. -/
def path (v : Word64) : List (Fin 512) := [pml4Index v, pdptIndex v, pdIndex v, ptIndex v]

/-- The number of the page of an address, of which translation looks at 36 bits. -/
def pageNumber (v : Word64) : ℕ := v.toNat / kPageSize % 2 ^ 36

lemma path_eq_iff {w : Word64} : path v = path w ↔ pageNumber v = pageNumber w := by
  have hshift (x : Word64) (k : ℕ) : (x >>> k).toNat = x.toNat / 2 ^ k := by
    rw [BitVec.toNat_ushiftRight, shiftRight_eq_div_pow]
  simp only [path, pml4Index, pdptIndex, pdIndex, ptIndex, cons.injEq, Fin.ext_iff,
    Fin.val_ofNat, hshift, pageNumber, kPageSize, and_true]
  omega

/-- The addresses that are translated through the lower half of the root. -/
def LowerHalf (v : Word64) : Prop := (pml4Index v).val < 256
  deriving Decidable

lemma lowerHalf_iff : LowerHalf v ↔ v.toNat % 2 ^ 48 < 2 ^ 47 := by
  rw [LowerHalf, pml4Index, Fin.val_ofNat, BitVec.toNat_ushiftRight, shiftRight_eq_div_pow]
  omega

lemma lowerHalf_of_lt (hv : v.toNat < 2 ^ 47) : LowerHalf v :=
  lowerHalf_iff.2 (lt_of_le_of_lt (mod_le _ _) hv)

lemma translate_eq {s : State} {pml4 : Word64} (h : pml4 ≠ 0) :
    s.translate pml4 v = (walk s.link (table pml4) (path v)).elim 0 fun f =>
      BitVec.ofNat 64 f + (v &&& 0xfff) := by
  simp only [State.translate, if_neg h, path, walk, State.link]
  split_ifs <;> simp only [*, if_true, if_false, bind_some, bind_none,
    elim_some, elim_none, ofNat_table]

/-! ## The tables of an address space -/

/-- The paths of the tables in the lower half, and of the root. -/
def Low (p : List (Fin 512)) : Prop := p.length ≤ 3 ∧ ∀ i ∈ p.head?, i.val < 256

/-- The paths of the tables in the upper half. -/
def High (p : List (Fin 512)) : Prop := p.length ≤ 3 ∧ ∃ i ∈ p.head?, 256 ≤ i.val

lemma Low.within {p : List (Fin 512)} (h : Low p) : Within Low p := by
  rintro a i b rfl
  obtain ⟨hlen, hhead⟩ := h
  rw [length_append, length_cons] at hlen
  refine ⟨by omega, fun j hj => hhead j ?_⟩
  cases a with
  | nil => cases hj
  | cons k a => exact hj

lemma low_nil : Low [] := ⟨by simp, by simp⟩

namespace State

variable {s s' : State} {m n g root page : ℕ} {i j : Fin 512} {e flags : Word64}
  {p q : List (Fin 512)} {K : Prop} {phys pml4 virt : Word64}

/-- The tables of the lower half are different pages in use.  If the kernel's tables are in use,
which is what `K` stands for, then so are the tables of the upper half, and they are none of the
others. -/
structure Tables (K : Prop) (s : State) (root : ℕ) : Prop where
  aligned : root % kPageSize = 0
  tree : Tree s.link root Low
  used : ∀ p n, Low p → walk s.link root p = some n → n / kPageSize ∉ s.pmm.freeSet
  kernel : K → ∀ p n, High p → walk s.link root p = some n →
    n / kPageSize ∉ s.pmm.freeSet ∧ ∀ q, Low q → walk s.link root q ≠ some n

/-- The paths of addresses whose translation depends only on tables known to be in use. -/
def Owned (K : Prop) (p : List (Fin 512)) : Prop :=
  p.length = 4 ∧ ((∀ i ∈ p.head?, i.val < 256) ∨ K)

lemma walk_mod (hroot : root % kPageSize = 0) (h : walk s.link root p = some n) :
    n % kPageSize = 0 := by
  obtain rfl | ⟨a, i, rfl⟩ := eq_nil_or_concat p
  · rwa [← some.inj h]
  rw [concat_eq_append, LinkTree.walk_append] at h
  obtain ⟨m, -, hm⟩ := bind_eq_some_iff.1 h
  obtain ⟨k, hk, hn⟩ := bind_eq_some_iff.1 hm
  rw [← some.inj hn]
  exact link_mod hk

/-- Pages may have been taken from the allocator, and of the pages that were in use only one cell
has been written. -/
structure Written (s s' : State) (n : ℕ) (i : Fin 512) : Prop where
  free : s'.pmm.freeSet ⊆ s.pmm.freeSet
  entry : ∀ m j, m % kPageSize = 0 → m / kPageSize ∉ s.pmm.freeSet → m ≠ n ∨ j ≠ i →
    s'.entry m j = s.entry m j

namespace Tables

variable {K : Prop}

section Written

variable (h : Tables K s root) (hw : Written s s' n i)
include h hw

lemma onlyCell : OnlyCell s.link s'.link root Low n i := by
  intro p m j hp hm hne
  exact link_congr (hw.entry m j (walk_mod h.aligned hm) (h.used p m hp hm) hne)

/-- A write to a table of the lower half does not show in the upper half. -/
lemma walk_high (hK : K) (hp : Low p) (hi : p = [] → i.val < 256)
    (hn : walk s.link root p = some n) (hj : q.head? = some j) (hhead : 256 ≤ j.val)
    (hlength : q.length ≤ 4) : walk s'.link root q = walk s.link root q := by
  refine LinkTree.walk_congr fun a k b hab m hm => link_congr ?_
  rw [hab] at hj
  cases a with
  | nil =>
    obtain rfl : root = m := some.inj hm
    obtain rfl : k = j := some.inj hj
    refine hw.entry root k h.aligned (h.used [] root low_nil rfl) ?_
    -- a write to the root is to its lower half
    by_contra hcell
    rw [not_or, not_not, not_not] at hcell
    obtain ⟨rfl, rfl⟩ := hcell
    have hlt := hi (h.tree p [] root hp low_nil hn rfl)
    omega
  | cons k' a =>
    have hhigh : High (k' :: a) := by
      have hlen := congrArg length hab
      rw [length_append, length_cons, length_cons] at hlen
      exact ⟨by rw [length_cons]; omega, j, hj, hhead⟩
    obtain ⟨hused, hother⟩ := h.kernel hK _ m hhigh hm
    refine hw.entry m k (walk_mod h.aligned hm) hused (.inl fun hmn => ?_)
    exact hother p hp (hmn ▸ hn)

/-- What is left to show after a write that keeps the lower half a tree. -/
lemma of_written (hp : Low p) (hi : p = [] → i.val < 256) (hn : walk s.link root p = some n)
    (htree : Tree s'.link root Low)
    (hnodes : ∀ q m, Low q → walk s'.link root q = some m → walk s.link root q = some m ∨
      m / kPageSize ∈ s.pmm.freeSet ∧ m / kPageSize ∉ s'.pmm.freeSet) : Tables K s' root where
  aligned := h.aligned
  tree := htree
  used q m hq hm := by
    obtain hold | ⟨-, hnew⟩ := hnodes q m hq hm
    · exact fun hfree => h.used q m hq hold (hw.free hfree)
    · exact hnew
  kernel hK q m hq hm := by
    obtain ⟨hlen, j, hj, hhead⟩ := hq
    rw [h.walk_high hw hK hp hi hn hj hhead (by omega)] at hm
    obtain ⟨hused, hother⟩ := h.kernel hK q m ⟨hlen, j, hj, hhead⟩ hm
    refine ⟨fun hfree => hused (hw.free hfree), fun r hr hrm => ?_⟩
    obtain hold | ⟨hfree, -⟩ := hnodes r m hr hrm
    · exact hother r hr hold
    · exact hused hfree

/-- A write changes only walks through its cell. -/
lemma walk_of_written (hp : Low p) (hi : p = [] → i.val < 256) (hn : walk s.link root p = some n)
    (hq : Owned K q) (hlow : Within Low q → walk s'.link root q = walk s.link root q) :
    walk s'.link root q = walk s.link root q := by
  obtain ⟨hlen, howned⟩ := hq
  by_cases hhead : ∀ j ∈ q.head?, j.val < 256
  · refine hlow fun a j b hab => ?_
    subst hab
    rw [length_append, length_cons] at hlen
    refine ⟨by omega, fun k hk => hhead k ?_⟩
    cases a with
    | nil => cases hk
    | cons k' a => exact hk
  · have hK : K := howned.resolve_left hhead
    push Not at hhead
    obtain ⟨j, hj, hge⟩ := hhead
    exact h.walk_high hw hK hp hi hn hj hge hlen.le

/-- A new table below a table of the lower half. -/
lemma attach (hp : Low (p ++ [i])) (hn : walk s.link root p = some n) (hempty : s.link n i = none)
    (hnew : s'.link n i = some g)
    (hbare : ∀ j, s'.link g j = none) (hfree : g / kPageSize ∈ s.pmm.freeSet)
    (htaken : g / kPageSize ∉ s'.pmm.freeSet) :
    Tables K s' root ∧ walk s'.link root (p ++ [i]) = some g ∧
      (∀ q, Within Low q → q ≠ p ++ [i] → walk s'.link root q = walk s.link root q) ∧
      ∀ q, Owned K q → walk s'.link root q = walk s.link root q := by
  have hlow : Low p := hp.within p i [] rfl
  have hi : p = [] → i.val < 256 := by
    rintro rfl
    exact hp.2 i rfl
  have honly := h.onlyCell hw
  have hfresh (q : List (Fin 512)) (hq : Low q) : walk s.link root q ≠ some g :=
    fun hg => h.used q g hq hg hfree
  have hg : walk s'.link root (p ++ [i]) = some g := by
    rw [LinkTree.walk_cell (h.tree.walk_node hlow hn honly hlow.within), hnew]
    rfl
  have hold (q : List (Fin 512)) (hq : Within Low q) (hne : q ≠ p ++ [i]) :
      walk s'.link root q = walk s.link root q :=
    h.tree.walk_attach hlow hlow.within hn honly hempty hnew hbare hq hne
  have htree : Tree s'.link root Low :=
    h.tree.attach (fun q hq => hq.within) hlow hn honly hempty hnew hbare hfresh
  refine ⟨h.of_written hw hlow hi hn htree fun q m hq hm => ?_, hg, hold, fun q hq => ?_⟩
  · by_cases hqi : q = p ++ [i]
    · rw [hqi, hg] at hm
      rw [← some.inj hm]
      exact .inr ⟨hfree, htaken⟩
    · rw [hold q hq.within hqi] at hm
      exact .inl hm
  · refine h.walk_of_written hw hlow hi hn hq fun hwithin => hold q hwithin ?_
    rintro rfl
    have hlen := hp.1
    have hfour := hq.1
    omega

/-- An entry of a table at the lowest level. -/
lemma leaf (hp : Low p) (hlen : p.length = 3) (hn : walk s.link root p = some n) :
    Tables K s' root ∧ walk s'.link root (p ++ [i]) = s'.link n i ∧
      (∀ q, Low q → walk s'.link root q = walk s.link root q) ∧
      ∀ q, Owned K q → q ≠ p ++ [i] → walk s'.link root q = walk s.link root q := by
  have hi : p = [] → i.val < 256 := by
    rintro rfl
    cases hlen
  have honly := h.onlyCell hw
  have hnode := h.tree.walk_node hp hn honly hp.within
  have hinner (q : List (Fin 512)) (hq : Low q) : walk s'.link root q = walk s.link root q := by
    refine h.tree.walk_of_ne hp hn honly hq.within ?_
    rintro r rfl
    have hle := hq.1
    rw [length_append, length_cons] at hle
    omega
  refine ⟨h.of_written hw hp hi hn (h.tree.congr hinner) fun q m hq hm => ?_, ?_, hinner, ?_⟩
  · rw [hinner q hq] at hm
    exact .inl hm
  · rw [LinkTree.walk_cell hnode]
    exact bind_fun_some _
  intro q hq hne
  refine h.walk_of_written hw hp hi hn hq fun hwithin => ?_
  refine h.tree.walk_of_ne hp hn honly hwithin ?_
  rintro r rfl
  -- the path ends at the cell
  have hfour := hq.1
  rw [length_append, length_cons, hlen] at hfour
  obtain rfl : r = [] := eq_nil_of_length_eq_zero (by omega)
  exact hne rfl

end Written

/-- Taking pages from the allocator writes nothing. -/
lemma of_words (h : Tables K s root) (s' : State) (hwords : s'.words = s.words)
    (hfree : s'.pmm.freeSet ⊆ s.pmm.freeSet) :
    Tables K s' root ∧ ∀ q, walk s'.link root q = walk s.link root q := by
  have hwalk (q : List (Fin 512)) : walk s'.link root q = walk s.link root q :=
    LinkTree.walk_congr fun _ _ _ _ _ _ => link_congr (by rw [entry, entry, hwords])
  refine ⟨⟨h.aligned, h.tree.congr fun q _ => hwalk q, ?_, ?_⟩, hwalk⟩
  · intro q n hq hn hmem
    exact h.used q n hq (hwalk q ▸ hn) (hfree hmem)
  · intro hK q n hq hn
    obtain ⟨hused, hother⟩ := h.kernel hK q n hq (hwalk q ▸ hn)
    exact ⟨fun hmem => hused (hfree hmem), fun r hr hrn => hother r hr (hwalk r ▸ hrn)⟩

end Tables

/-! ## A table is made -/

/-- A page from the allocator. -/
structure Fresh (s : State) (g : ℕ) : Prop where
  aligned : g % kPageSize = 0
  small : g < 2 ^ 52
  free : g / kPageSize ∈ s.pmm.freeSet
  taken : g / kPageSize ∉ s.pmm.allocatePage.1.freeSet

lemma freeSet_allocatePage : s.pmm.allocatePage.1.freeSet ⊆ s.pmm.freeSet := by
  obtain ⟨page, -, -, hfree⟩ | ⟨-, hfree⟩ := s.pmm.allocatePage_taken
  · rw [hfree]
    exact Finset.erase_subset _ _
  · rw [hfree]

lemma fresh_allocatePage (h : s.pmm.allocatePage.2 ≠ 0) : Fresh s s.pmm.allocatePage.2 := by
  obtain ⟨page, hpage, hvalue, hfree⟩ | ⟨hzero, -⟩ := s.pmm.allocatePage_taken
  · have hlt := PhysicalMemoryManager.lt_of_mem_freeSet hpage
    have hdiv : page * kPageSize / kPageSize = page := Nat.mul_div_cancel page (by decide)
    rw [hvalue]
    refine ⟨Nat.mul_mod_left _ _, ?_, by rwa [hdiv], ?_⟩
    · simp only [kPmmBitmapPages, kPageSize] at hlt ⊢
      omega
    · rw [hdiv, hfree]
      exact Finset.notMem_erase _ _
  · exact absurd hzero h

/-- A page in use is not the page handed out. -/
lemma Fresh.ne (h : Fresh s g) (hm : m / kPageSize ∉ s.pmm.freeSet) : m ≠ g := by
  rintro rfl
  exact hm h.free

lemma Fresh.toNat_ofNat (hg : Fresh s g) : (BitVec.ofNat 64 g).toNat = g := by
  rw [BitVec.toNat_ofNat]
  exact mod_eq_of_lt (lt_trans hg.small (by norm_num))

lemma Fresh.and_kAddrMask (hg : Fresh s g) :
    BitVec.ofNat 64 g &&& kAddrMask = BitVec.ofNat 64 g := by
  apply and_kAddrMask_of_aligned
  · rw [hg.toNat_ofNat]
    exact hg.aligned
  · rw [hg.toNat_ofNat]
    exact hg.small

lemma table_entry (hg : Fresh s g) :
    table (BitVec.ofNat 64 g ||| PagePresent ||| PageWrite ||| (flags &&& PageUser)) = g := by
  have hflags : (PagePresent ||| PageWrite ||| (flags &&& PageUser)) &&& kAddrMask = 0#64 := by
    rw [BitVec.and_comm, BitVec.and_or_distrib_left, BitVec.and_comm flags, ← BitVec.and_assoc,
      show kAddrMask &&& (PagePresent ||| PageWrite) = 0#64 by decide,
      show kAddrMask &&& PageUser = 0#64 by decide, BitVec.zero_and, BitVec.or_zero]
  rw [BitVec.or_assoc, BitVec.or_assoc, ← BitVec.or_assoc PagePresent,
    table_or hg.and_kAddrMask hflags, hg.toNat_ofNat]

/-- A word with the lowest bit is not zero under the mask of that bit. -/
lemma present_ne_zero {x : Word64} (h : x.getLsbD 0 = true) : x &&& PagePresent ≠ 0 := by
  intro hzero
  have hbit := congrArg (fun y => y.getLsbD 0) hzero
  rw [BitVec.getLsbD_and, h] at hbit
  exact absurd hbit (by decide)

/-- The state after a new table has been hung in at cell `i` of `n`. -/
def hang (s : State) (n : ℕ) (i : Fin 512) (flags : Word64) : State :=
  (State.clearPage { s with pmm := s.pmm.allocatePage.1 } s.pmm.allocatePage.2).setEntry n i
    (BitVec.ofNat 64 s.pmm.allocatePage.2 ||| PagePresent ||| PageWrite ||| (flags &&& PageUser))

lemma ensureTable_cases (s : State) (n : ℕ) (i : Fin 512) (flags : Word64) :
    (s.link n i = none ∧ s.pmm.allocatePage.2 = 0 ∧
      s.ensureTable n i flags = (none, { s with pmm := s.pmm.allocatePage.1 })) ∨
    (s.link n i = none ∧ s.pmm.allocatePage.2 ≠ 0 ∧
      s.ensureTable n i flags = (some (table ((s.hang n i flags).entry n i)), s.hang n i flags)) ∨
    ∃ m, s.link n i = some m ∧ s.ensureTable n i flags = (some m, s) := by
  by_cases hpres : s.entry n i &&& PagePresent = 0
  · rw [link, if_pos hpres, ensureTable, if_pos hpres]
    by_cases hzero : s.pmm.allocatePage.2 = 0
    · exact .inl ⟨rfl, hzero, if_pos hzero⟩
    · exact .inr (.inl ⟨rfl, hzero, if_neg hzero⟩)
  · rw [link, if_neg hpres, ensureTable, if_neg hpres]
    exact .inr (.inr ⟨_, rfl, rfl⟩)

lemma entry_hang (hg : Fresh s s.pmm.allocatePage.2) (hn : n % kPageSize = 0)
    (hm : m % kPageSize = 0) :
    (s.hang n i flags).entry m j = if m = n ∧ j = i then
        BitVec.ofNat 64 s.pmm.allocatePage.2 ||| PagePresent ||| PageWrite ||| (flags &&& PageUser)
      else if m = s.pmm.allocatePage.2 then 0 else s.entry m j := by
  rw [hang, entry_setEntry hm hn, entry_clearPage hm hg.aligned]
  rfl

lemma written_hang (hg : Fresh s s.pmm.allocatePage.2) (hn : n % kPageSize = 0) :
    Written s (s.hang n i flags) n i where
  free := s.freeSet_allocatePage
  entry m j hm hused hne := by
    rw [entry_hang hg hn hm, if_neg (hg.ne hused), if_neg]
    rwa [not_and_or]

/-- A new table is hung in below a table of the lower half. -/
lemma Tables.hang (flags : Word64) (h : Tables K s root) (hp : Low (p ++ [i]))
    (hn : walk s.link root p = some n) (hempty : s.link n i = none)
    (hpage : s.pmm.allocatePage.2 ≠ 0) :
    Tables K (s.hang n i flags) root ∧
      walk (s.hang n i flags).link root (p ++ [i]) = some s.pmm.allocatePage.2 ∧
      (∀ q, Within Low q → q ≠ p ++ [i] →
        walk (s.hang n i flags).link root q = walk s.link root q) ∧
      ∀ q, Owned K q → walk (s.hang n i flags).link root q = walk s.link root q := by
  have hmod : n % kPageSize = 0 := walk_mod h.aligned hn
  have hg := fresh_allocatePage hpage
  have hne : n ≠ s.pmm.allocatePage.2 := hg.ne (h.used p n (hp.within p i [] rfl) hn)
  have hcell : (s.hang n i flags).entry n i = BitVec.ofNat 64 s.pmm.allocatePage.2 |||
      PagePresent ||| PageWrite ||| (flags &&& PageUser) := by
    rw [entry_hang hg hmod hmod, if_pos ⟨rfl, rfl⟩]
  have hpres : (s.hang n i flags).entry n i &&& PagePresent ≠ 0 := by
    rw [hcell]
    apply present_ne_zero
    simp [PagePresent]
  have hnew : (s.hang n i flags).link n i = some s.pmm.allocatePage.2 := by
    rw [link, if_neg hpres, hcell, table_entry hg]
  have hbare (j : Fin 512) : (s.hang n i flags).link s.pmm.allocatePage.2 j = none := by
    have hzero : (s.hang n i flags).entry s.pmm.allocatePage.2 j = 0 := by
      rw [entry_hang hg hmod hg.aligned, if_neg fun hc => hne hc.1.symm, if_pos rfl]
    rw [link, hzero, if_pos (by decide)]
  exact h.attach (written_hang hg hmod) hp hn hempty hnew hbare hg.free hg.taken

/-! ## The steps of a call -/

/-- What `map_page` may do to the tables on the way to an address: find no memory for a table, or
hang one in. -/
inductive TableStep (root : ℕ) (v flags : Word64) : State → State → Prop
  | starve (s : State) (hpage : s.pmm.allocatePage.2 = 0) :
      TableStep root v flags s { s with pmm := s.pmm.allocatePage.1 }
  | hang (s : State) (p : List (Fin 512)) (i : Fin 512) (n : ℕ) (hpath : p ++ [i] <+: path v)
      (hlength : p.length ≤ 2) (hn : walk s.link root p = some n) (hempty : s.link n i = none)
      (hpage : s.pmm.allocatePage.2 ≠ 0) : TableStep root v flags s (s.hang n i flags)

/-- Steps on the way to an address. -/
abbrev TableSteps (root : ℕ) (v flags : Word64) : State → State → Prop :=
  Relation.ReflTransGen (TableStep root v flags)

lemma low_of_isPrefix {v : Word64} {p : List (Fin 512)} (hv : LowerHalf v) (hp : p <+: path v)
    (hlen : p.length ≤ 3) : Low p := by
  refine ⟨hlen, fun i hi => ?_⟩
  obtain ⟨q, hq⟩ := hp
  cases p with
  | nil => cases hi
  | cons k p =>
    obtain rfl : k = i := some.inj hi
    obtain rfl : k = pml4Index v := (cons.inj hq).1
    exact hv

section Steps

variable {K : Prop} {v : Word64}

lemma low_leaf (hv : LowerHalf v) : Low [pml4Index v, pdptIndex v, pdIndex v] :=
  low_of_isPrefix hv ⟨[ptIndex v], rfl⟩ (by simp)

lemma low_concat (hv : LowerHalf v) (hp : p ++ [i] <+: path v) (hlen : p.length ≤ 2) :
    Low (p ++ [i]) :=
  low_of_isPrefix hv hp (by simp; omega)

lemma TableStep.tables (hv : LowerHalf v) (h : Tables K s root) (hs : TableStep root v flags s s') :
    Tables K s' root ∧ ∀ q, Owned K q → walk s'.link root q = walk s.link root q := by
  cases hs with
  | starve hpage =>
    obtain ⟨htables, hwalk⟩ := h.of_words { s with pmm := s.pmm.allocatePage.1 } rfl
      s.freeSet_allocatePage
    exact ⟨htables, fun q _ => hwalk q⟩
  | hang p i n hpath hlen hn hempty hpage =>
    have hp := low_concat hv hpath hlen
    obtain ⟨htables, -, -, hkeep⟩ := h.hang flags hp hn hempty hpage
    exact ⟨htables, hkeep⟩

lemma TableSteps.tables (hv : LowerHalf v) (h : Tables K s root)
    (hs : TableSteps root v flags s s') :
    Tables K s' root ∧ ∀ q, Owned K q → walk s'.link root q = walk s.link root q := by
  induction hs with
  | refl => exact ⟨h, fun _ _ => rfl⟩
  | tail _ hstep ih =>
    obtain ⟨htables, hkeep⟩ := hstep.tables hv ih.1
    exact ⟨htables, fun q hq => (hkeep q hq).trans (ih.2 q hq)⟩

/-- `ensure_table` on the way to an address takes such steps, and finds the table it returns. -/
lemma ensureTable_steps (flags : Word64) (hv : LowerHalf v) (h : Tables K s root)
    (hpath : p ++ [i] <+: path v) (hlen : p.length ≤ 2) (hn : walk s.link root p = some n) :
    TableSteps root v flags s (s.ensureTable n i flags).2 ∧
      ∀ m ∈ (s.ensureTable n i flags).1,
        walk (s.ensureTable n i flags).2.link root (p ++ [i]) = some m := by
  obtain ⟨-, hpage, heq⟩ | ⟨hempty, hpage, heq⟩ | ⟨m, hm, heq⟩ := s.ensureTable_cases n i flags
  · rw [heq]
    exact ⟨.single (.starve s hpage), fun m hm => nomatch hm⟩
  · rw [heq]
    refine ⟨.single (.hang s p i n hpath hlen hn hempty hpage), fun m hm => ?_⟩
    have hg := fresh_allocatePage hpage
    have hmod : n % kPageSize = 0 := walk_mod h.aligned hn
    have hp := low_concat hv hpath hlen
    obtain ⟨-, hwalk, -, -⟩ := h.hang flags hp hn hempty hpage
    rw [entry_hang hg hmod hmod, if_pos ⟨rfl, rfl⟩, table_entry hg] at hm
    rw [hwalk, some.inj hm]
  · rw [heq]
    refine ⟨.refl, fun m' hm' => ?_⟩
    rw [LinkTree.walk_cell hn, hm, some.inj hm']
    rfl

end Steps

/-! ## A page is mapped -/

/-- The entry `map_page` writes for a page. -/
def leafEntry (phys flags : Word64) : Word64 :=
  (phys &&& kAddrMask) ||| (flags &&& ~~~kAddrMask) ||| PagePresent

/-- The entry `map_page` writes points to its frame. -/
lemma table_leaf (halign : phys &&& 0xfff = 0) (hphys : phys.toNat < 2 ^ 52) :
    table (leafEntry phys flags) = phys.toNat := by
  have hmod : phys.toNat % kPageSize = 0 := by
    rw [← toNat_and_fff, halign]
    rfl
  have haddr : phys &&& kAddrMask = phys := and_kAddrMask_of_aligned hmod hphys
  have hflags : ((flags &&& ~~~kAddrMask) ||| PagePresent) &&& kAddrMask = 0#64 := by
    rw [BitVec.and_comm, BitVec.and_or_distrib_left, BitVec.and_comm flags, ← BitVec.and_assoc,
      BitVec.and_not_self, BitVec.ofNat_eq_ofNat, BitVec.zero_and, BitVec.zero_or]
    decide
  rw [leafEntry, haddr, BitVec.or_assoc, table_or haddr hflags]

lemma written_setEntry (hn : n % kPageSize = 0) : Written s (s.setEntry n i e) n i where
  free := Finset.Subset.refl _
  entry m j hm _ hne := by
    rw [entry_setEntry hm hn, if_neg]
    rwa [not_and_or]

/-- What `map_page` does to the walks of an address space. -/
structure MapSpec (K : Prop) (s : State) (pml4 virt phys : Word64) (r : MappingResult × State) :
    Prop where
  tables : Tables K r.2 (table pml4)
  keep : ∀ q, Owned K q → r.1.ok = false ∨ q ≠ path virt →
    walk r.2.link (table pml4) q = walk s.link (table pml4) q
  maps : r.1.ok = true → virt &&& 0xfff = 0 ∧ phys &&& 0xfff = 0 ∧
    walk r.2.link (table pml4) (path virt) = some phys.toNat

lemma MapSpec.failed {error : String} (h : Tables K s' (table pml4))
    (hkeep : ∀ q, Owned K q → walk s'.link (table pml4) q = walk s.link (table pml4) q) :
    MapSpec K s pml4 virt phys (⟨false, error⟩, s') where
  tables := h
  keep q hq _ := hkeep q hq
  maps hok := nomatch hok

/-- How a call of `map_page` may end. -/
inductive MapOutcome (s : State) (pml4 virt phys flags : Word64) : MappingResult × State → Prop
  | failed (t : State) (error : String) (hsteps : TableSteps (table pml4) virt flags s t) :
      MapOutcome s pml4 virt phys flags (⟨false, error⟩, t)
  | mapped (t : State) (pt : ℕ) (hsteps : TableSteps (table pml4) virt flags s t)
      (hvirt : virt &&& 0xfff = 0) (hphys : phys &&& 0xfff = 0)
      (hn : walk t.link (table pml4) [pml4Index virt, pdptIndex virt, pdIndex virt] = some pt)
      (hempty : t.link pt (ptIndex virt) = none) :
      MapOutcome s pml4 virt phys flags
        (⟨true, "ok"⟩, t.setEntry pt (ptIndex virt) (leafEntry phys flags))

lemma mapPage_outcome (phys flags : Word64) (h : Tables K s (table pml4)) (hvirt : LowerHalf virt) :
    MapOutcome s pml4 virt phys flags (s.mapPage pml4 virt phys flags) := by
  rw [mapPage]
  split_ifs with hzero halign
  · exact .failed s _ .refl
  · exact .failed s _ .refl
  push Not at halign
  obtain ⟨hsteps1, hpdpt⟩ := ensureTable_steps (p := []) flags hvirt h ⟨_, rfl⟩ (by simp) rfl
  generalize s.ensureTable (table pml4) (pml4Index virt) flags = r1 at hsteps1 hpdpt ⊢
  obtain ⟨_ | pdpt, s1⟩ := r1
  · exact .failed s1 _ hsteps1
  dsimp only at hsteps1 hpdpt ⊢
  obtain ⟨hsteps2, hpd⟩ := ensureTable_steps flags hvirt
    (hsteps1.tables hvirt h).1 ⟨_, rfl⟩ (by simp) (hpdpt pdpt rfl)
  replace hsteps2 : TableSteps (table pml4) virt flags s _ := hsteps1.trans hsteps2
  generalize s1.ensureTable pdpt (pdptIndex virt) flags = r2 at hsteps2 hpd ⊢
  obtain ⟨_ | pd, s2⟩ := r2
  · exact .failed s2 _ hsteps2
  dsimp only at hsteps2 hpd ⊢
  obtain ⟨hsteps3, hpt⟩ := ensureTable_steps flags hvirt
    (hsteps2.tables hvirt h).1 ⟨_, rfl⟩ (by simp) (hpd pd rfl)
  replace hsteps3 : TableSteps (table pml4) virt flags s _ := hsteps2.trans hsteps3
  generalize s2.ensureTable pd (pdIndex virt) flags = r3 at hsteps3 hpt ⊢
  obtain ⟨_ | pt, s3⟩ := r3
  · exact .failed s3 _ hsteps3
  dsimp only at hsteps3 hpt ⊢
  split_ifs with hpres
  · exact .failed s3 _ hsteps3
  · refine .mapped s3 pt hsteps3 halign.1 halign.2 (hpt pt rfl) ?_
    rw [link, if_pos (not_not.1 hpres)]

lemma tables_mapPage (h : Tables K s (table pml4)) (hvirt : LowerHalf virt) :
    Tables K (s.mapPage pml4 virt phys flags).2 (table pml4) := by
  have hout := mapPage_outcome phys flags h hvirt
  generalize s.mapPage pml4 virt phys flags = r at hout ⊢
  cases hout with
  | failed t error hsteps => exact (hsteps.tables hvirt h).1
  | mapped t pt hsteps hv hp hn hempty =>
    have htables := (hsteps.tables hvirt h).1
    exact (htables.leaf (written_setEntry (walk_mod htables.aligned hn))
      (low_leaf hvirt) rfl hn).1

lemma mapPage_spec (h : Tables K s (table pml4)) (hvirt : LowerHalf virt)
    (hphys : phys.toNat < 2 ^ 52) :
    MapSpec K s pml4 virt phys (s.mapPage pml4 virt phys flags) := by
  have hout := mapPage_outcome phys flags h hvirt
  generalize s.mapPage pml4 virt phys flags = r at hout ⊢
  cases hout with
  | failed t error hsteps =>
    obtain ⟨htables, hkeep⟩ := hsteps.tables hvirt h
    exact .failed htables hkeep
  | mapped t pt hsteps hv hp hn hempty =>
    obtain ⟨htables, hkeep⟩ := hsteps.tables hvirt h
    have hmod : pt % kPageSize = 0 := walk_mod htables.aligned hn
    have hlow := low_leaf hvirt
    obtain ⟨hafter, hleaf, -, hother⟩ := htables.leaf (written_setEntry hmod) hlow rfl hn
    refine ⟨hafter, fun q hq hne => ?_, fun _ => ⟨hv, hp, hleaf.trans ?_⟩⟩
    · rw [hother q hq (hne.resolve_left (by simp)), hkeep q hq]
    have hcell := entry_setEntry (s := t) (i := ptIndex virt) (j := ptIndex virt)
      (e := leafEntry phys flags) hmod hmod
    rw [if_pos ⟨rfl, rfl⟩] at hcell
    rw [link, hcell, if_neg (present_ne_zero (by simp [leafEntry, PagePresent])),
      table_leaf hp hphys]

end State
end IanOS.Paging
