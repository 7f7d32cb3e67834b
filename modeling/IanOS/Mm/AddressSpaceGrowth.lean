import IanOS.Mm.AddressSpaceTeardown

/-!
# How an address space grows

While an address space is built, its owner takes frames from the allocator, fills them and maps
them. Each of these actions keeps what is already there (`Grows`): the entries that are present, and
the contents of all pages that are neither free nor tables.  So what has been shown of a page when
it was mapped still holds when the address space is complete.
-/

namespace IanOS.Paging

open Finset
namespace State

open LinkTree (walk Within)

variable {s s' s'' : State} {root page g : ℕ} {j : Fin 512} {q : List (Fin 512)} {K : Prop}
  {v flags pml4 : Word64} {start : PhysicalMemoryManager} {owned : Finset ℕ}
  {n : ℕ} {virt phys : Word64}

/-- The page has the same contents in both states. -/
def SamePage (s s' : State) (page : ℕ) : Prop :=
  ∀ j : Fin 512, s'.entry (page * kPageSize) j = s.entry (page * kPageSize) j

lemma SamePage.refl (s : State) (page : ℕ) : SamePage s s page := fun _ => rfl

lemma SamePage.trans (h : SamePage s s' page) (h' : SamePage s' s'' page) : SamePage s s'' page :=
  fun j => (h' j).trans (h j)

/-- No free page appears, entries that are present stay, new tables are pages that were free, and
the pages that are neither free nor tables keep their contents. -/
structure Grows (root : ℕ) (s s' : State) : Prop where
  free : s'.pmm.freeSet ⊆ s.pmm.freeSet
  cells : ∀ q j, Low q → Present (s.cellAt root q j) → s'.cellAt root q j = s.cellAt root q j
  tables : ∀ page, TablePage s' root page → TablePage s root page ∨ page ∈ s.pmm.freeSet
  frames : ∀ page, page ∉ s.pmm.freeSet → ¬TablePage s root page → SamePage s s' page

lemma Grows.refl (root : ℕ) (s : State) : Grows root s s :=
  ⟨Finset.Subset.refl _, fun _ _ _ _ => rfl, fun _ h => .inl h, fun page _ _ => .refl s page⟩

lemma Grows.not_tablePage (h : Grows root s s') (hused : page ∉ s.pmm.freeSet)
    (hpage : ¬TablePage s root page) : ¬TablePage s' root page := fun htable =>
  (h.tables page htable).elim hpage hused

lemma Grows.trans (h : Grows root s s') (h' : Grows root s' s'') : Grows root s s'' where
  free := h'.free.trans h.free
  cells q j hq hpres := by
    have hsame := h.cells q j hq hpres
    rw [h'.cells q j hq (by rwa [hsame]), hsame]
  tables page hpage := by
    rcases h'.tables page hpage with htable | hfree
    · exact h.tables page htable
    · exact .inr (h.free hfree)
  frames page hused hpage :=
    (h.frames page hused hpage).trans
      (h'.frames page (fun hfree => hused (h.free hfree)) (h.not_tablePage hused hpage))

/-! ## Mapping a page -/

lemma mul_div_page (page : ℕ) : page * kPageSize / kPageSize = page :=
  Nat.mul_div_cancel page (by decide)

lemma ne_of_not_tablePage {p : List (Fin 512)} (hpage : ¬TablePage s root page) (hp : Low p)
    (hn : walk s.link root p = some n) : page * kPageSize ≠ n := by
  rintro rfl
  exact hpage ⟨p, hp, hn⟩

lemma TableStep.grows (hv : LowerHalf v) (h : Tables K s root) (hs : TableStep root v flags s s') :
    Grows root s s' := by
  cases hs with
  | starve hpage =>
    obtain ⟨-, hwalk⟩ :=
      h.of_words { s with pmm := s.pmm.allocatePage.1 } rfl s.freeSet_allocatePage
    refine ⟨s.freeSet_allocatePage, fun q j _ _ => ?_, fun page htable => ?_, fun _ _ _ _ => rfl⟩
    · rw [cellAt, cellAt, hwalk]
      simp [entry]
    · exact .inl htable
  | hang p i n hpath hlen hn hempty hpage =>
    have hp := low_concat hv hpath hlen
    have hg := fresh_allocatePage hpage
    refine ⟨s.freeSet_allocatePage, fun q j hq hpres => ?_, fun page htable => ?_,
      fun page hused hnot j => ?_⟩
    · rw [cellAt_hang h hp hn hempty hpage hq, if_neg]
      rintro ⟨rfl, rfl⟩
      exact (link_eq_none_iff hn).1 hempty hpres
    · rw [tablePage_hang h hp hn hempty hpage
        (Nat.div_mul_cancel (Nat.dvd_of_mod_eq_zero hg.aligned)).symm] at htable
      rcases htable with hold | rfl
      · exact .inl hold
      · exact .inr hg.free
    · have hne := ne_of_not_tablePage hnot (hp.within p i [] rfl) hn
      rw [entry_hang hg (walk_mod h.aligned hn) (Nat.mul_mod_left _ _), if_neg fun hc => hne hc.1,
        if_neg (hg.ne (by rwa [mul_div_page]))]

lemma TableSteps.grows (hv : LowerHalf v) (h : Tables K s root)
    (hs : TableSteps root v flags s s') : Grows root s s' := by
  induction hs with
  | refl => exact .refl root s
  | tail hbefore hstep ih => exact ih.trans (hstep.grows hv (TableSteps.tables hv h hbefore).1)

/-- `map_page` lets the address space grow, whether it succeeds or not. -/
lemma grows_mapPage (h : Tables K s (table pml4)) (hv : LowerHalf virt) :
    Grows (table pml4) s (s.mapPage pml4 virt phys flags).2 := by
  have hcells : MapCells s (table pml4) virt phys flags _ _ := mapPage_cells h hv
  have hout := mapPage_outcome phys flags h hv
  generalize s.mapPage pml4 virt phys flags = r at hcells hout ⊢
  cases hout with
  | failed t error hsteps => exact hsteps.grows hv h
  | mapped t pt hsteps hvirt hphys hn hempty =>
    have htables := (hsteps.tables hv h).1
    have hgrows := hsteps.grows hv h
    have hmod := walk_mod htables.aligned hn
    have hlow := low_leaf hv
    obtain ⟨-, -, hinner, -⟩ := htables.leaf (written_setEntry hmod) hlow rfl hn
    refine ⟨hgrows.free, fun q j hq => hcells.keeps hq, fun page htable => ?_,
      fun page hused hnot j => ?_⟩
    · rw [tablePage_congr hinner] at htable
      exact hgrows.tables page htable
    · have hne := ne_of_not_tablePage (hgrows.not_tablePage hused hnot) hlow hn
      rw [entry_setEntry (Nat.mul_mod_left _ _) hmod, if_neg fun hc => hne hc.1]
      exact hgrows.frames page hused hnot j

/-! ## Taking a frame -/

/-- A frame has been taken from the allocator, and nothing but its contents has changed. -/
structure Fills (s s' : State) : Prop where
  page : s.pmm.allocatePage.2 ≠ 0
  pmm : s'.pmm = s.pmm.allocatePage.1
  same : ∀ page, page ≠ s.pmm.allocatePage.2 / kPageSize → SamePage s s' page

namespace Fills

section

variable (hf : Fills s s')
include hf

/-- Pages in use keep their contents. -/
lemma entry_eq {m : ℕ} (hm : m % kPageSize = 0)
    (hused : m / kPageSize ∉ s.pmm.freeSet) : s'.entry m j = s.entry m j := by
  have hsame := hf.same (m / kPageSize) (by
    rintro heq
    exact hused (heq ▸ (fresh_allocatePage hf.page).free)) j
  rwa [Nat.div_mul_cancel (Nat.dvd_of_mod_eq_zero hm)] at hsame

lemma walk_eq (h : Tables K s root) (hq : Within Low q) :
    walk s'.link root q = walk s.link root q := by
  refine LinkTree.walk_congr fun p i r hpath m hm => link_congr ?_
  exact hf.entry_eq (walk_mod h.aligned hm) (h.used p m (hq p i r hpath) hm)

lemma cellAt_eq (h : Tables K s root) (hq : Low q) : s'.cellAt root q j = s.cellAt root q j := by
  cases hm : walk s.link root q with
  | none => rw [cellAt_of_none hm, cellAt_of_none ((hf.walk_eq h hq.within).trans hm)]
  | some m =>
    rw [cellAt_of_walk hm, cellAt_of_walk ((hf.walk_eq h hq.within).trans hm)]
    exact hf.entry_eq (walk_mod h.aligned hm) (h.used q m hq hm)

lemma free : s'.pmm.freeSet ⊆ s.pmm.freeSet := by
  rw [hf.pmm]
  exact s.freeSet_allocatePage

section

variable (h : Tables K s root)
include h

lemma tables : Tables False s' root where
  aligned := h.aligned
  tree := h.tree.congr fun q hq => hf.walk_eq h hq.within
  used p n hp hn := by
    rw [hf.walk_eq h hp.within] at hn
    exact fun hfree => h.used p n hp hn (hf.free hfree)
  kernel hfalse := hfalse.elim

lemma tablePage_iff : TablePage s' root page ↔ TablePage s root page :=
  tablePage_congr (fun _ hq => hf.walk_eq h hq.within) page

lemma grows : Grows root s s' where
  free := hf.free
  cells _ _ hq _ := hf.cellAt_eq h hq
  tables _ htable := .inl ((hf.tablePage_iff h).1 htable)
  frames page hused _ := hf.same page fun heq =>
    hused (heq ▸ (fresh_allocatePage hf.page).free)

/-- The frame belongs to the owner of the address space. -/
lemma accounted (ha : Accounted start owned s root) :
    Accounted start (insert (s.pmm.allocatePage.2 / kPageSize) owned) s' root := by
  obtain ⟨hinv, htotal, -, htaken⟩ := allocatePage_of_inv ha.inv
  obtain ⟨g, hg, hvalue, hfree⟩ := htaken hf.page
  rw [← hf.pmm] at hinv htotal hfree
  refine ⟨hinv, htotal.trans ha.total, fun page => ?_⟩
  rw [ha.pages, hf.tablePage_iff h, hvalue, mul_div_page]
  grind

end

end

end Fills

/-- What does not ask for the kernel's tables holds without them. -/
lemma Tables.lower (h : Tables K s root) : Tables False s root :=
  ⟨h.aligned, h.tree, h.used, fun hfalse => hfalse.elim⟩

lemma samePage_createAddressSpace {active : Word64} (hused : page ∉ s.pmm.freeSet) :
    SamePage s (s.createAddressSpace active).2 page := by
  intro j
  by_cases hpage : s.pmm.allocatePage.2 = 0
  · rw [createAddressSpace, if_pos hpage]
    simp [entry]
  have hg := fresh_allocatePage hpage
  have hne : page * kPageSize ≠ s.pmm.allocatePage.2 := hg.ne (by rwa [mul_div_page])
  have hentry := entry_created active j hg rfl (Nat.mul_mod_left page kPageSize)
  rw [if_neg fun hc => hne hc.1, if_neg hne] at hentry
  rw [createAddressSpace_of_page hpage]
  generalize s.bareRoot.copyEntries (table active) s.pmm.allocatePage.2 (List.range' 256 256) = t
    at hentry ⊢
  exact hentry

/-! ## When there are enough pages -/

/-- A page may have been taken, but no more than `n`. -/
structure Room (n : ℕ) (s s' : State) : Prop where
  inv : s'.pmm.Inv
  card : s.pmm.freeSet.card ≤ s'.pmm.freeSet.card + n

lemma Room.trans {m : ℕ} (h : Room n s s') (h' : Room m s' s'') : Room (n + m) s s'' :=
  ⟨h'.inv, by have := h.card; have := h'.card; omega⟩

/-- The allocator refuses only when its set is empty. -/
lemma allocatePage_eq_zero_iff (hinv : s.pmm.Inv) :
    s.pmm.allocatePage.2 = 0 ↔ s.pmm.freeSet = ∅ := by
  obtain ⟨page, hpage, hvalue, -⟩ | ⟨hempty, hvalue, -⟩ :=
    PhysicalMemoryManager.allocatePage_cases hinv
  · have hlow := (hinv.free_range page hpage).1
    refine iff_of_false ?_ (ne_empty_of_mem hpage)
    rw [hvalue]
    simp only [kPageSize]
    omega
  · exact iff_of_true hvalue hempty

/-- If there is a free page, then the table behind an entry is found. -/
lemma ensureTable_room {i : Fin 512} (flags : Word64) (hinv : s.pmm.Inv)
    (hfree : 0 < s.pmm.freeSet.card) :
    (∃ m, (s.ensureTable n i flags).1 = some m) ∧ Room 1 s (s.ensureTable n i flags).2 := by
  obtain ⟨hinv', -, -, htaken⟩ := allocatePage_of_inv hinv
  obtain ⟨-, hpage, -⟩ | ⟨-, hpage, heq⟩ | ⟨m, -, heq⟩ := s.ensureTable_cases n i flags
  · rw [allocatePage_eq_zero_iff hinv] at hpage
    rw [hpage] at hfree
    cases hfree
  · rw [heq]
    obtain ⟨g, hg, -, hset⟩ := htaken hpage
    refine ⟨⟨_, rfl⟩, hinv', ?_⟩
    show s.pmm.freeSet.card ≤ s.pmm.allocatePage.1.freeSet.card + 1
    rw [hset, card_erase_of_mem hg]
    omega
  · rw [heq]
    exact ⟨⟨m, rfl⟩, hinv, Nat.le_succ _⟩

/-- If there are three free pages, then `map_page` maps a page that is not mapped yet. -/
lemma mapPage_room (flags : Word64) (h : Tables K s (table pml4)) (hv : LowerHalf virt)
    (hroot : pml4 ≠ 0) (hvirt : virt &&& 0xfff = 0) (hphys : phys &&& 0xfff = 0) (hempty : ¬Present
      (s.cellAt (table pml4) [pml4Index virt, pdptIndex virt, pdIndex virt] (ptIndex virt)))
    (hinv : s.pmm.Inv) (hfree : 3 ≤ s.pmm.freeSet.card) :
    (s.mapPage pml4 virt phys flags).1.ok = true ∧ Room 3 s (s.mapPage pml4 virt phys flags).2 := by
  have hlow := low_leaf hv
  rw [mapPage, if_neg hroot, if_neg (not_or.2 ⟨not_not.2 hvirt, not_not.2 hphys⟩)]
  obtain ⟨⟨pdpt, hsome1⟩, hroom1⟩ := ensureTable_room flags hinv (by omega)
  obtain ⟨hsteps1, hpdpt⟩ := ensureTable_steps (p := []) flags hv h ⟨_, rfl⟩ (by simp) rfl
  generalize s.ensureTable (table pml4) (pml4Index virt) flags = r1 at *
  obtain ⟨_, s1⟩ := r1
  obtain rfl := hsome1
  dsimp only at *
  have hcard1 := hroom1.card
  obtain ⟨⟨pd, hsome2⟩, hroom2⟩ := ensureTable_room flags hroom1.inv (by omega)
  obtain ⟨hsteps2, hpd⟩ := ensureTable_steps flags hv
    (hsteps1.tables hv h).1 ⟨_, rfl⟩ (by simp) (hpdpt pdpt rfl)
  replace hsteps2 : TableSteps (table pml4) virt flags s _ := hsteps1.trans hsteps2
  generalize s1.ensureTable pdpt (pdptIndex virt) flags = r2 at *
  obtain ⟨_, s2⟩ := r2
  obtain rfl := hsome2
  dsimp only at *
  have hcard2 := hroom2.card
  obtain ⟨⟨pt, hsome3⟩, hroom3⟩ := ensureTable_room flags hroom2.inv (by omega)
  obtain ⟨hsteps3, hpt⟩ := ensureTable_steps flags hv
    (hsteps2.tables hv h).1 ⟨_, rfl⟩ (by simp) (hpd pd rfl)
  replace hsteps3 : TableSteps (table pml4) virt flags s _ := hsteps2.trans hsteps3
  generalize s2.ensureTable pd (pdIndex virt) flags = r3 at *
  obtain ⟨_, s3⟩ := r3
  obtain rfl := hsome3
  dsimp only at *
  -- the steps on the way leave the last entry as it was
  have hlast := hsteps3.lowest (j := ptIndex virt) hv h hlow rfl
  have hwalk : walk s3.link (table pml4) [pml4Index virt, pdptIndex virt, pdIndex virt] = some pt :=
    hpt pt rfl
  rw [cellAt_of_walk hwalk] at hlast
  have habsent : s3.entry pt (ptIndex virt) &&& PagePresent = 0 := by
    rw [hlast]
    exact not_not.1 hempty
  rw [if_neg (not_not.2 habsent)]
  exact ⟨rfl, ((hroom1.trans hroom2).trans hroom3).inv, ((hroom1.trans hroom2).trans hroom3).card⟩

end State
end IanOS.Paging
