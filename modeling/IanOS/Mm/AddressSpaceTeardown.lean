import IanOS.Mm.AddressSpaceCells
import IanOS.Mm.BootMap

/-!
# Taking an address space down

`destroy_address_space` keeps no record of the pages an address space took.  It walks the tables of
the lower half and releases each of them, and the root last.  This gives back exactly what was
taken, because of an invariant of `create_address_space` and `map_page`, `Accounted`: a page that
was free when the address space was made is still free, or it is one of the tables.  Calls that fail
keep it too, since a table that was hung in before the failure stays in the tree.

The invariant has a place for pages that the owner of the address space has taken for itself, which
`destroy_address_space` does not release.
-/

namespace IanOS.Paging

open List PhysicalMemoryManager

open LinkTree (walk Within)

namespace State

variable {s s' t : State} {root m n k : ℕ} {i j : Fin 512} {p q : List (Fin 512)} {K : Prop}
  {v flags phys pml4 active : Word64} {start : PhysicalMemoryManager} {owned : Finset ℕ} {page : ℕ}

/-! ## Where the pages are -/

/-- The page holds the root or a table of the lower half. -/
def TablePage (s : State) (root page : ℕ) : Prop :=
  ∃ q, Low q ∧ walk s.link root q = some (page * kPageSize)

/-- Every page that was free at the start is free, or holds a table, or belongs to the owner. -/
structure Accounted (start : PhysicalMemoryManager) (owned : Finset ℕ) (s : State) (root : ℕ) :
    Prop where
  inv : s.pmm.Inv
  total : s.pmm.totalPages = start.totalPages
  pages : ∀ page, page ∈ start.freeSet ↔
    page ∈ s.pmm.freeSet ∨ TablePage s root page ∨ page ∈ owned

lemma tablePage_congr (h : ∀ q, Low q → walk s'.link root q = walk s.link root q) (page : ℕ) :
    TablePage s' root page ↔ TablePage s root page := by
  refine exists_congr fun q => and_congr_right fun hq => ?_
  rw [h q hq]

lemma allocatePage_of_inv (h : s.pmm.Inv) :
    s.pmm.allocatePage.1.Inv ∧ s.pmm.allocatePage.1.totalPages = s.pmm.totalPages ∧
      (s.pmm.allocatePage.2 = 0 → s.pmm.allocatePage.1.freeSet = s.pmm.freeSet) ∧
      (s.pmm.allocatePage.2 ≠ 0 → ∃ page ∈ s.pmm.freeSet,
        s.pmm.allocatePage.2 = page * kPageSize ∧
        s.pmm.allocatePage.1.freeSet = s.pmm.freeSet.erase page) := by
  have htotal := s.pmm.totalPages_allocatePage
  obtain ⟨page, hpage, hvalue, hfree, hinv⟩ | ⟨-, hvalue, hfree, hinv⟩ :=
    allocatePage_cases h
  · refine ⟨hinv, htotal, fun hzero => ?_, fun _ => ⟨page, hpage, hvalue, hfree⟩⟩
    have hlow := (h.free_range page hpage).1
    rw [hvalue] at hzero
    simp only [kPageSize] at hzero
    omega
  · exact ⟨hinv, htotal, fun _ => hfree, fun hne => absurd hvalue hne⟩

lemma tablePage_hang {g : ℕ} (h : Tables K s root) (hp : Low (p ++ [i]))
    (hn : walk s.link root p = some n) (hempty : s.link n i = none)
    (hpage : s.pmm.allocatePage.2 ≠ 0) (hvalue : s.pmm.allocatePage.2 = g * kPageSize) :
    TablePage (s.hang n i flags) root page ↔ TablePage s root page ∨ page = g := by
  obtain ⟨-, hnew, hold, -⟩ := h.hang flags hp hn hempty hpage
  rw [hvalue] at hnew
  constructor
  · rintro ⟨q, hq, hwalk⟩
    by_cases hqi : q = p ++ [i]
    · rw [hqi, hnew, Option.some.injEq] at hwalk
      exact .inr (Nat.eq_of_mul_eq_mul_right (by decide) hwalk).symm
    · rw [hold q hq.within hqi] at hwalk
      exact .inl ⟨q, hq, hwalk⟩
  · rintro (⟨q, hq, hwalk⟩ | rfl)
    · refine ⟨q, hq, ?_⟩
      have hqi : q ≠ p ++ [i] := by
        rintro rfl
        rw [walk_concat, if_neg ((link_eq_none_iff hn).1 hempty)] at hwalk
        cases hwalk
      rwa [hold q hq.within hqi]
    · exact ⟨p ++ [i], hp, hnew⟩

namespace Accounted

section

variable (ha : Accounted start owned s root) (hv : LowerHalf v) (h : Tables K s root)
include ha hv h

lemma step (hs : TableStep root v flags s s') : Accounted start owned s' root := by
  obtain ⟨hinv, htotal, hzero, htaken⟩ := allocatePage_of_inv ha.inv
  cases hs with
  | starve hpage =>
    obtain ⟨-, hwalk⟩ :=
      h.of_words { s with pmm := s.pmm.allocatePage.1 } rfl s.freeSet_allocatePage
    refine ⟨hinv, htotal.trans ha.total, fun page => ?_⟩
    rw [ha.pages, ← hzero hpage, tablePage_congr fun q _ => hwalk q]
  | hang p i n hpath hlen hn hempty hpage =>
    have hp := low_concat hv hpath hlen
    obtain ⟨g, hg, hvalue, hfree⟩ := htaken hpage
    refine ⟨hinv, htotal.trans ha.total, fun page => ?_⟩
    have hpmm : (s.hang n i flags).pmm.freeSet = s.pmm.freeSet.erase g := hfree
    rw [ha.pages, tablePage_hang h hp hn hempty hpage hvalue, hpmm, Finset.mem_erase]
    grind

lemma steps (hs : TableSteps root v flags s s') : Accounted start owned s' root := by
  induction hs with
  | refl => exact ha
  | tail hbefore hstep ih => exact ih.step hv (TableSteps.tables hv h hbefore).1 hstep

end

section

variable (ha : Accounted start owned s (table pml4)) (h : Tables K s (table pml4))
include ha h

/-- `map_page` keeps every page accounted for, whether it succeeds or not. -/
lemma mapPage {virt : Word64}
    (hv : LowerHalf virt) :
    Accounted start owned (s.mapPage pml4 virt phys flags).2 (table pml4) := by
  have hout := mapPage_outcome phys flags h hv
  generalize s.mapPage pml4 virt phys flags = r at hout ⊢
  cases hout with
  | failed t error hsteps => exact ha.steps hv h hsteps
  | mapped t pt hsteps hvirt hphys hn hempty =>
    have htables := (hsteps.tables hv h).1
    obtain ⟨hinv, htotal, hpages⟩ := ha.steps hv h hsteps
    obtain ⟨-, -, hinner, -⟩ := htables.leaf
      (written_setEntry (walk_mod htables.aligned hn))
      (low_leaf hv) rfl hn
    refine ⟨hinv, htotal, fun page => ?_⟩
    rw [hpages, tablePage_congr hinner]
    rfl

lemma mapAll {calls : List MapCall}
    (hcalls : ∀ c ∈ calls, LowerHalf c.virt) :
    Accounted start owned (s.mapAll pml4 calls) (table pml4) := by
  induction calls using reverseRecOn with
  | nil => exact ha
  | append_singleton calls c ih =>
    have hinit := (forall_mem_append.1 hcalls).1
    rw [mapAll_concat]
    exact (ih hinit).mapPage (tables_mapAll h hinit) (hcalls c (by simp))

end

end Accounted

lemma Bare.tablePage_iff (h : Bare s root) : TablePage s root page ↔ root = page * kPageSize := by
  constructor
  · rintro ⟨q, hq, hwalk⟩
    by_cases hne : q = []
    · rwa [hne, walk, Option.some.injEq] at hwalk
    · rw [h q hq hne] at hwalk
      cases hwalk
  · rintro rfl
    exact ⟨[], low_nil, by rw [walk]⟩

/-- If the root is the only page that has been taken, then the pages are accounted for. -/
lemma Bare.accounted (h : Bare s root) (hinv : s.pmm.Inv)
    (htotal : s.pmm.totalPages = start.totalPages) (hroot : root = page * kPageSize)
    (hfree : start.freeSet = insert page s.pmm.freeSet) : Accounted start ∅ s root := by
  refine ⟨hinv, htotal, fun other => ?_⟩
  have hsame : root = other * kPageSize ↔ other = page := by
    rw [hroot, Nat.mul_left_inj (by decide), eq_comm]
  rw [h.tablePage_iff, hsame, hfree, Finset.mem_insert, or_comm]
  simp only [Finset.notMem_empty, or_false]

/-- The new root is the only page `create_address_space` takes. -/
lemma accounted_createAddressSpace (hinv : s.pmm.Inv)
    (hroot : (s.createAddressSpace active).1 ≠ 0) :
    Accounted s.pmm ∅ (s.createAddressSpace active).2 (table (s.createAddressSpace active).1) := by
  have hpage : s.pmm.allocatePage.2 ≠ 0 := fun hzero => hroot (createAddressSpace_of_none hzero)
  obtain ⟨hinv', htotal, -, htaken⟩ := allocatePage_of_inv hinv
  obtain ⟨g, hg, hvalue, hfree⟩ := htaken hpage
  have hpmm : (s.createAddressSpace active).2.pmm = s.pmm.allocatePage.1 := by
    rw [createAddressSpace_of_page hpage]
    exact pmm_copyEntries _ _ _ _
  have htable : table (s.createAddressSpace active).1 = g * kPageSize := by
    rw [createAddressSpace_of_page hpage, (fresh_allocatePage hpage).table_ofNat, hvalue]
  rw [← hpmm] at hinv' htotal hfree
  exact (bare_createAddressSpace hroot).accounted hinv' htotal htable
    (by rw [hfree, Finset.insert_erase hg])

/-! ## What the walk releases -/

/-- `s'` is `s` with the pages in `P` released. -/
structure Releases (s : State) (P : ℕ → Prop) (s' : State) : Prop where
  words : s'.words = s.words
  inv : s'.pmm.Inv
  total : s'.pmm.totalPages = s.pmm.totalPages
  free : ∀ page, page ∈ s'.pmm.freeSet ↔ page ∈ s.pmm.freeSet ∨ P page

/-- The page is one the allocator may release. -/
def Managed (s : State) (page : ℕ) : Prop := 0x100 ≤ page ∧ page < s.pmm.totalPages

namespace Releases

variable {P Q : ℕ → Prop}

lemma refl (hinv : s.pmm.Inv) : Releases s (fun _ => False) s :=
  ⟨rfl, hinv, rfl, by simp⟩

lemma trans (h : Releases s P s') (h' : Releases s' Q t) :
    Releases s (fun page => P page ∨ Q page) t where
  words := h'.words.trans h.words
  inv := h'.inv
  total := h'.total.trans h.total
  free page := by rw [h'.free, h.free, or_assoc]

lemma congr (h : Releases s P s') (hPQ : ∀ page, P page ↔ Q page) : Releases s Q s' where
  words := h.words
  inv := h.inv
  total := h.total
  free page := by rw [h.free, hPQ]

lemma freePage (hinv : s.pmm.Inv) (hn : n % kPageSize = 0) (hmanaged : Managed s (n / kPageSize)) :
    Releases s (fun page => n = page * kPageSize) (s.freePage n) := by
  obtain ⟨hlo, hhi⟩ := hmanaged
  have hmul : n / kPageSize * kPageSize = n := Nat.div_mul_cancel (Nat.dvd_of_mod_eq_zero hn)
  obtain ⟨hinv', hfree⟩ := freePage_managed hinv hlo hhi
  rw [hmul] at hinv' hfree
  refine ⟨rfl, hinv', s.pmm.totalPages_freePage n, fun page => ?_⟩
  have hpmm : (s.freePage n).pmm.freeSet = insert (n / kPageSize) s.pmm.freeSet := hfree
  have hpage : page = n / kPageSize ↔ n = page * kPageSize := by
    constructor
    · rintro rfl
      exact hmul.symm
    · rintro rfl
      exact (Nat.mul_div_cancel page (by decide)).symm
  rw [hpmm, Finset.mem_insert, hpage, or_comm]

/-- A loop each of whose rounds releases some pages. -/
lemma foldl {ι : Type} {f : State → ι → State} {R : ι → ℕ → Prop} {l : List ι} (hinv : s.pmm.Inv)
    (hround : ∀ i ∈ l, ∀ t, t.words = s.words → t.pmm.Inv → t.pmm.totalPages = s.pmm.totalPages →
      Releases t (R i) (f t i)) :
    Releases s (fun page => ∃ i ∈ l, R i page) (l.foldl f s) := by
  induction l generalizing s with
  | nil => exact (refl hinv).congr (by simp)
  | cons i l ih =>
    have hfirst := hround i mem_cons_self s rfl hinv rfl
    have hrest := ih hfirst.inv fun k hk t hwords hinv' htotal =>
      hround k (mem_cons_of_mem i hk) t (hwords.trans hfirst.words) hinv'
        (htotal.trans hfirst.total)
    exact (hfirst.trans hrest).congr (by simp)

end Releases

/-- The page holds `n` or a table at most `k` links below it. -/
def Below (s : State) (n k page : ℕ) : Prop :=
  ∃ q : List (Fin 512), q.length ≤ k ∧ walk s.link n q = some (page * kPageSize)

lemma below_zero_iff : Below s n 0 page ↔ n = page * kPageSize := by
  constructor
  · rintro ⟨q, hq, hwalk⟩
    obtain rfl := eq_nil_of_length_eq_zero (Nat.le_zero.1 hq)
    exact Option.some.inj hwalk
  · rintro rfl
    exact ⟨[], by simp, by simp [walk]⟩

lemma below_succ_iff : Below s n (k + 1) page ↔
    (∃ i m, s.link n i = some m ∧ Below s m k page) ∨ n = page * kPageSize := by
  constructor
  · rintro ⟨_ | ⟨i, q⟩, hq, hwalk⟩
    · exact .inr (Option.some.inj hwalk)
    · rw [walk, Option.bind_eq_some_iff] at hwalk
      obtain ⟨m, hm, hwalk⟩ := hwalk
      exact .inl ⟨i, m, hm, q, by simpa using hq, hwalk⟩
  · rintro (⟨i, m, hm, q, hq, hwalk⟩ | rfl)
    · exact ⟨i :: q, by simpa using hq, by rw [walk, hm]; exact hwalk⟩
    · exact ⟨[], by simp, by simp [walk]⟩

lemma link_of_words (h : t.words = s.words) : t.link = s.link := by
  funext n i
  exact link_congr (by rw [entry, entry, h])

/-- The nested loops of `destroy_address_space`, by the number of levels below a table. -/
def destroyTree : ℕ → State → ℕ → State
  | 0, s, n => s.freePage n
  | k + 1, s, n =>
    ((range 512).foldl (fun s i =>
      let e := s.entry n (Fin.ofNat 512 i)
      if e &&& PagePresent = 0 then s else destroyTree k s (table e)) s).freePage n

/-- One loop over the first entries of a table, each round of which takes down what is below. -/
lemma releases_loop {N : ℕ} (down : State → ℕ → State) (hinv : s.pmm.Inv)
    (hdown : ∀ i ∈ range N, ∀ m t, s.link n (Fin.ofNat 512 i) = some m → t.words = s.words →
      t.pmm.Inv → t.pmm.totalPages = s.pmm.totalPages → Releases t (Below s m k) (down t m)) :
    Releases s (fun page => ∃ i ∈ range N, ∃ m, s.link n (Fin.ofNat 512 i) = some m ∧
        Below s m k page)
      ((range N).foldl (fun s i =>
        let e := s.entry n (Fin.ofNat 512 i)
        if e &&& PagePresent = 0 then s else down s (table e)) s) := by
  refine Releases.foldl hinv fun i hi t hwords hinv' htotal => ?_
  have hlink : t.link n (Fin.ofNat 512 i) = s.link n (Fin.ofNat 512 i) := by
    rw [link_of_words hwords]
  by_cases habsent : t.entry n (Fin.ofNat 512 i) &&& PagePresent = 0
  · rw [link, if_pos habsent] at hlink
    rw [if_pos habsent]
    refine (Releases.refl hinv').congr fun page => ?_
    rw [← hlink]
    simp
  · rw [link, if_neg habsent] at hlink
    rw [if_neg habsent]
    refine (hdown i hi _ t hlink.symm hwords hinv' htotal).congr fun page => ?_
    rw [← hlink]
    simp

lemma ofNat_val (i : Fin 512) : Fin.ofNat 512 i.val = i := by
  simp

/-- The tables below `n` are the same in states with the same words. -/
lemma below_congr (h : t.words = s.words) (n k page : ℕ) : Below t n k page ↔ Below s n k page := by
  rw [Below, Below, link_of_words h]

lemma below_self (hn : n % kPageSize = 0) (k : ℕ) : Below s n k (n / kPageSize) :=
  ⟨[], by simp, by rw [walk, Nat.div_mul_cancel (Nat.dvd_of_mod_eq_zero hn)]⟩

lemma releases_destroyTree (k : ℕ) (hinv : s.pmm.Inv) (hn : n % kPageSize = 0)
    (hmanaged : ∀ page, Below s n k page → Managed s page) :
    Releases s (Below s n k) (destroyTree k s n) := by
  induction k generalizing s n with
  | zero =>
    have hself := hmanaged _ (below_self hn 0)
    exact (Releases.freePage hinv hn hself).congr fun page => below_zero_iff.symm
  | succ k ih =>
    have hloop := releases_loop (k := k) (N := 512) (n := n) (destroyTree k) hinv ?_
    · have hself : Managed _ (n / kPageSize) := hmanaged _ (below_self hn (k + 1))
      have hlast := Releases.freePage hloop.inv hn ⟨hself.1, by rw [hloop.total]; exact hself.2⟩
      refine (hloop.trans hlast).congr fun page => ?_
      rw [below_succ_iff]
      refine or_congr_left ⟨?_, ?_⟩
      · rintro ⟨i, -, m, hm, hbelow⟩
        exact ⟨_, m, hm, hbelow⟩
      · rintro ⟨i, m, hm, hbelow⟩
        exact ⟨i, mem_range.2 i.isLt, m, by rwa [ofNat_val], hbelow⟩
    · intro i _ m t hm hwords hinv' htotal
      refine (ih hinv' (link_mod hm) fun page hpage => ?_).congr (below_congr hwords m k)
      rw [below_congr hwords] at hpage
      obtain ⟨hlo, hhi⟩ := hmanaged page (below_succ_iff.2 (.inl ⟨_, m, hm, hpage⟩))
      exact ⟨hlo, by rwa [htotal]⟩

/-! ## The whole life of an address space -/

lemma destroyAddressSpace_eq (hpml4 : pml4 ≠ 0) : s.destroyAddressSpace pml4 =
    (0, ((range 256).foldl (fun s i =>
      let e := s.entry (table pml4) (Fin.ofNat 512 i)
      if e &&& PagePresent = 0 then s else destroyTree 2 s (table e)) s).freePage pml4.toNat) := by
  rw [destroyAddressSpace, if_neg hpml4]
  rfl

lemma tablePage_iff : TablePage s root page ↔
    (∃ i ∈ range 256, ∃ m, s.link root (Fin.ofNat 512 i) = some m ∧ Below s m 2 page) ∨
      root = page * kPageSize := by
  constructor
  · rintro ⟨_ | ⟨i, q⟩, ⟨hlen, hhead⟩, hwalk⟩
    · exact .inr (Option.some.inj hwalk)
    rw [walk, Option.bind_eq_some_iff] at hwalk
    obtain ⟨m, hm, hwalk⟩ := hwalk
    rw [length_cons] at hlen
    exact .inl ⟨i, mem_range.2 (hhead i rfl), m, by rwa [ofNat_val], q, by omega, hwalk⟩
  · rintro (⟨i, hi, m, hm, q, hq, hwalk⟩ | rfl)
    · refine ⟨Fin.ofNat 512 i :: q, ⟨by rw [length_cons]; omega, fun j hj => ?_⟩, ?_⟩
      · obtain rfl : Fin.ofNat 512 i = j := Option.some.inj hj
        have hlt := mem_range.1 hi
        rwa [Fin.val_ofNat, Nat.mod_eq_of_lt (by omega)]
      · rwa [walk, hm]
    · exact ⟨[], low_nil, by simp [walk]⟩

lemma releases_destroyAddressSpace (hpml4 : pml4 ≠ 0) (hroot : table pml4 = pml4.toNat)
    (hinv : s.pmm.Inv) (hmanaged : ∀ page, TablePage s (table pml4) page → Managed s page) :
    Releases s (TablePage s (table pml4)) (s.destroyAddressSpace pml4).2 := by
  have hmod : table pml4 % kPageSize = 0 := table_mod pml4
  have hself : Managed s (table pml4 / kPageSize) :=
    hmanaged _ ⟨[], low_nil, by rw [walk, Nat.div_mul_cancel (Nat.dvd_of_mod_eq_zero hmod)]⟩
  have hloop := releases_loop (k := 2) (N := 256) (n := table pml4) (destroyTree 2) hinv ?_
  · have hlast := Releases.freePage hloop.inv hmod ⟨hself.1, by rw [hloop.total]; exact hself.2⟩
    rw [destroyAddressSpace_eq hpml4, ← hroot]
    exact (hloop.trans hlast).congr fun page => tablePage_iff.symm
  · intro i hi m t hm hwords hinv' htotal
    refine (releases_destroyTree 2 hinv' (link_mod hm) fun page hpage => ?_).congr
      (below_congr hwords m 2)
    rw [below_congr hwords] at hpage
    obtain ⟨hlo, hhi⟩ := hmanaged page (tablePage_iff.2 (.inl ⟨i, hi, m, hm, hpage⟩))
    exact ⟨hlo, by rwa [htotal]⟩

/-- The tables of an address space are pages the allocator may release, since it handed them out. -/
lemma Accounted.managed (ha : Accounted start owned s root) (hstart : start.Inv)
    (hpage : TablePage s root page) : Managed s page := by
  obtain ⟨hlo, hhi⟩ := hstart.free_range page ((ha.pages page).2 (.inr (.inl hpage)))
  exact ⟨hlo, by rwa [ha.total]⟩

lemma table_createAddressSpace (hroot : (s.createAddressSpace active).1 ≠ 0) :
    table (s.createAddressSpace active).1 = (s.createAddressSpace active).1.toNat := by
  have hpage : s.pmm.allocatePage.2 ≠ 0 := fun hzero => hroot (createAddressSpace_of_none hzero)
  have hg := fresh_allocatePage hpage
  rw [createAddressSpace_of_page hpage, hg.table_ofNat, hg.toNat_ofNat]

lemma mapAll_zero (s : State) (calls : List MapCall) : s.mapAll 0 calls = s := by
  induction calls with
  | nil => simp [mapAll]
  | cons c calls ih =>
    rw [mapAll_cons, call, mapPage, if_pos rfl]
    exact ih

/-- If there is no page for the root, then nothing is taken. -/
lemma freeSet_createAddressSpace_of_zero (hinv : s.pmm.Inv)
    (hroot : (s.createAddressSpace active).1 = 0) :
    (s.createAddressSpace active).2.pmm.freeSet = s.pmm.freeSet := by
  by_cases hpage : s.pmm.allocatePage.2 = 0
  · rw [createAddressSpace, if_pos hpage]
    exact (allocatePage_of_inv hinv).2.2.1 hpage
  rw [createAddressSpace_of_page hpage] at hroot
  have hzero := congrArg BitVec.toNat hroot
  rw [(fresh_allocatePage hpage).toNat_ofNat] at hzero
  exact absurd hzero hpage

/-- An address space is made, any calls of `map_page` on lower-half addresses are made in it,
whether they succeed or fail, and it is destroyed.  Then the free pages are those that were free
before.  And the frame of a page that was mapped, if it is not itself one of the tables, is free
afterwards only if it was free before the address space was destroyed. -/
theorem teardown_releases_exactly (s : State) (active : Word64) (calls : List MapCall)
    (hinv : s.pmm.Inv) (hcalls : ∀ c ∈ calls, LowerHalf c.virt) :
    let space := s.createAddressSpace active
    let mapped := space.2.mapAll space.1 calls
    let after := (mapped.destroyAddressSpace space.1).2
    after.pmm.freeSet = s.pmm.freeSet ∧
      ∀ before c, SucceedsAt space.2 space.1 calls before c →
        ¬TablePage mapped (table space.1) (table c.phys / kPageSize) →
        (table c.phys / kPageSize ∈ after.pmm.freeSet ↔
          table c.phys / kPageSize ∈ mapped.pmm.freeSet) := by
  intro space mapped after
  by_cases hroot : space.1 = 0
  · -- without a root nothing is taken, mapped or released
    have hmapped : space.2.mapAll space.1 calls = space.2 := by rw [hroot, mapAll_zero]
    have hafter : after = mapped := by
      show (mapped.destroyAddressSpace space.1).2 = mapped
      rw [hroot, destroyAddressSpace, if_pos rfl]
    rw [hafter]
    refine ⟨?_, fun _ _ _ _ => Iff.rfl⟩
    show (space.2.mapAll space.1 calls).pmm.freeSet = s.pmm.freeSet
    rw [hmapped]
    exact freeSet_createAddressSpace_of_zero hinv hroot
  · have htables : Tables _ space.2 (table space.1) := tables_createAddressSpace hroot
    have haccount : Accounted s.pmm ∅ mapped (table space.1) :=
      (accounted_createAddressSpace hinv hroot).mapAll htables hcalls
    have hrelease : Releases mapped (TablePage mapped (table space.1)) after :=
      releases_destroyAddressSpace hroot (table_createAddressSpace hroot) haccount.inv
        fun page hpage => haccount.managed hinv hpage
    refine ⟨Finset.ext fun page => ?_, fun before c _ hleaf => ?_⟩
    · rw [hrelease.free, haccount.pages]
      simp
    · rw [hrelease.free]
      simp [hleaf]

/-- A memory map with eight free pages. -/
def smallBoot : BootInfo where
  address := 0
  rsdp := 0
  framebuffer := ⟨0, 0, 0, 0⟩
  memoryMap := 0
  regions := [⟨0x100000, 0x8000, .usable⟩]
  memoryMapDescriptorSize := 0
  kernelPhysicalBase := 0
  kernelPhysicalEnd := 0
  userInitBase := 0
  userInitSize := 0
  bootModules := 0
  modules := []

/-- Memory that holds only zeros. -/
def blankMemory (pmm : PhysicalMemoryManager) : State := ⟨pmm, fun _ => 0⟩

@[simp] lemma pmm_blankMemory (pmm : PhysicalMemoryManager) : (blankMemory pmm).pmm = pmm := by
  rw [blankMemory]

def smallMachine : State := blankMemory (initializeFromBoot smallBoot)

lemma inv_smallMachine : smallMachine.pmm.Inv := by
  rw [smallMachine, pmm_blankMemory]
  exact inv_initializeFromBoot smallBoot

/-- Two pages of one region, and a second call for the first of them. -/
def threeCalls : List MapCall :=
  [⟨0x400000, 0x200000, 7⟩, ⟨0x400000, 0x300000, 7⟩, ⟨0x401000, 0x300000, 7⟩]

/-- The root and three tables are taken and given back. -/
theorem teardown_releases_exactly_small :
    let space := smallMachine.createAddressSpace 0x1000
    let mapped := space.2.mapAll space.1 threeCalls
    mapped.pmm.freePages = 4 ∧
      (mapped.destroyAddressSpace space.1).2.pmm.freeSet = smallMachine.pmm.freeSet := by
  have hcount : ((smallMachine.createAddressSpace 0x1000).2.mapAll
      (smallMachine.createAddressSpace 0x1000).1 threeCalls).pmm.freePages = 4 := by decide +kernel
  have hfree :=
    teardown_releases_exactly smallMachine 0x1000 threeCalls inv_smallMachine (by decide)
  generalize smallMachine = s at hcount hfree ⊢
  exact ⟨hcount, hfree.1⟩

end State
end IanOS.Paging
