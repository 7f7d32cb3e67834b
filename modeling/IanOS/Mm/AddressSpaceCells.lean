import IanOS.Mm.AddressSpaceRun

/-!
# The entries of an address space by their paths

An entry of an address space is named by the path of its table and its index there.  Seen this way
the lower half is a function from paths to entries, `cellAt`, in which a table that does not exist
has only empty entries.  What `map_page` does is then plain: it fills in entries that were empty, on
the way to its address and nowhere else, and never changes an entry that is present.

The free pages are accounted for in the same terms: what `create_address_space` and `map_page` took
from the allocator is what the entries point to.
-/

namespace IanOS.Paging

open List Option

open LinkTree (walk Within)

/-- The present bit of an entry. -/
def Present (e : Word64) : Prop := e &&& PagePresent ≠ 0
  deriving Decidable

lemma not_present_iff {e : Word64} : ¬Present e ↔ e &&& PagePresent = 0 := not_not

@[simp] lemma not_present_zero : ¬Present 0 := by decide

namespace State

variable {s s' t : State} {root m n : ℕ} {i j : Fin 512} {p q : List (Fin 512)} {K : Prop}
  {v flags phys pml4 : Word64} {virt : Word64} {ok : Bool}

/-- Entry `i` of the table at the path `p`; 0 if there is no such table. -/
def cellAt (s : State) (root : ℕ) (p : List (Fin 512)) (i : Fin 512) : Word64 :=
  (walk s.link root p).elim 0 fun n => s.entry n i

lemma link_eq :
    s.link n i = if Present (s.entry n i) then some (table (s.entry n i)) else none := by
  by_cases hpres : Present (s.entry n i)
  · rw [link, if_neg hpres, if_pos hpres]
  · rw [link, if_pos (not_present_iff.1 hpres), if_neg hpres]

lemma cellAt_of_walk (hn : walk s.link root p = some n) : s.cellAt root p i = s.entry n i := by
  rw [cellAt, hn, elim_some]

lemma cellAt_of_none (hn : walk s.link root p = none) : s.cellAt root p i = 0 := by
  rw [cellAt, hn, elim_none]

/-- The walks can be read off the entries. -/
lemma walk_concat : walk s.link root (p ++ [i]) =
    if Present (s.cellAt root p i) then some (table (s.cellAt root p i)) else none := by
  cases hn : walk s.link root p with
  | none => rw [LinkTree.walk_append, hn, cellAt_of_none hn, if_neg not_present_zero, bind_none]
  | some n =>
    rw [LinkTree.walk_cell hn, cellAt_of_walk hn, ← link_eq]
    exact bind_fun_some _

lemma link_eq_none_iff (hn : walk s.link root p = some n) :
    s.link n i = none ↔ ¬Present (s.cellAt root p i) := by
  rw [link_eq, cellAt_of_walk hn]
  simp

/-- An entry of a table that exists. -/
lemma exists_walk_of_present (h : Present (s.cellAt root p i)) :
    ∃ n, walk s.link root p = some n := by
  cases hn : walk s.link root p with
  | none => exact absurd h (by rw [cellAt_of_none hn]; exact not_present_zero)
  | some n => exact ⟨n, rfl⟩

/-! ## One step -/

/-- The entry `ensure_table` writes for a new table. -/
def tableEntry (g : ℕ) (flags : Word64) : Word64 :=
  BitVec.ofNat 64 g ||| PagePresent ||| PageWrite ||| (flags &&& PageUser)

lemma present_tableEntry (g : ℕ) (flags : Word64) : Present (tableEntry g flags) :=
  present_ne_zero (by simp [tableEntry, PagePresent])

lemma present_leafEntry (phys flags : Word64) : Present (leafEntry phys flags) :=
  present_ne_zero (by simp [leafEntry, PagePresent])

/-- Two paths of the lower half lead to one table only if they are the same. -/
lemma Tables.cell_iff (h : Tables K s root) (hq : Low q) (hp : Low p)
    (hm : walk s.link root q = some m) (hn : walk s.link root p = some n) :
    m = n ∧ j = i ↔ q = p ∧ j = i := by
  refine and_congr_left fun _ => ⟨fun hmn => h.tree q p n hq hp (hmn ▸ hm) hn, fun hqp => ?_⟩
  rw [hqp, hn] at hm
  exact (some.inj hm).symm

lemma ne_of_walk_none (hm : walk s.link root q = none) (hn : walk s.link root p = some n) :
    q ≠ p := by
  rintro rfl
  rw [hn] at hm
  cases hm

lemma cellAt_hang (h : Tables K s root) (hp : Low (p ++ [i])) (hn : walk s.link root p = some n)
    (hempty : s.link n i = none) (hpage : s.pmm.allocatePage.2 ≠ 0) (hq : Low q) :
    (s.hang n i flags).cellAt root q j =
      if q = p ∧ j = i then tableEntry s.pmm.allocatePage.2 flags else s.cellAt root q j := by
  obtain ⟨-, hnew, hold, -⟩ := h.hang flags hp hn hempty hpage
  have hg := fresh_allocatePage hpage
  have hmod : n % kPageSize = 0 := walk_mod h.aligned hn
  have hlow : Low p := hp.within p i [] rfl
  by_cases hqi : q = p ++ [i]
  · subst hqi
    have hne : p ++ [i] ≠ p := by simp
    have hused : n ≠ s.pmm.allocatePage.2 := hg.ne (h.used p n hlow hn)
    have hnone : walk s.link root (p ++ [i]) = none := by
      rw [walk_concat, if_neg ((link_eq_none_iff hn).1 hempty)]
    rw [if_neg fun hc => hne hc.1, cellAt_of_none hnone, cellAt_of_walk hnew,
      entry_hang hg hmod hg.aligned, if_neg fun hc => hused hc.1.symm, if_pos rfl]
  · have hsame := hold q hq.within hqi
    cases hm : walk s.link root q with
    | none =>
      rw [cellAt_of_none hm, cellAt_of_none (hsame.trans hm),
        if_neg fun hc => ne_of_walk_none hm hn hc.1]
    | some m =>
      have hmne : m ≠ s.pmm.allocatePage.2 := hg.ne (h.used q m hq hm)
      rw [cellAt_of_walk hm, cellAt_of_walk (hsame.trans hm),
        entry_hang hg hmod (walk_mod h.aligned hm), if_neg hmne]
      exact if_congr (h.cell_iff hq hlow hm hn) rfl rfl

/-- Writing an entry at the lowest level changes that entry. -/
lemma cellAt_setEntry {e : Word64} (h : Tables K s root) (hp : Low p) (hlen : p.length = 3)
    (hn : walk s.link root p = some n) (hq : Low q) :
    (s.setEntry n i e).cellAt root q j = if q = p ∧ j = i then e else s.cellAt root q j := by
  have hmod : n % kPageSize = 0 := walk_mod h.aligned hn
  obtain ⟨-, -, hinner, -⟩ := h.leaf (written_setEntry hmod) hp hlen hn
  have hsame := hinner q hq
  cases hm : walk s.link root q with
  | none =>
    rw [cellAt_of_none hm, cellAt_of_none (hsame.trans hm),
      if_neg fun hc => ne_of_walk_none hm hn hc.1]
  | some m =>
    rw [cellAt_of_walk hm, cellAt_of_walk (hsame.trans hm),
      entry_setEntry (walk_mod h.aligned hm) hmod]
    exact if_congr (h.cell_iff hq hp hm hn) rfl rfl

/-! ## Steps -/

/-- An entry is as it was, or it has been filled in on the way to `v`. -/
def FilledIn (root : ℕ) (v flags : Word64) (s s' : State) (q : List (Fin 512)) (j : Fin 512) :
    Prop :=
  s'.cellAt root q j = s.cellAt root q j ∨
    (¬Present (s.cellAt root q j) ∧ q ++ [j] <+: path v ∧ q.length ≤ 2 ∧
      ∃ g, (g % kPageSize = 0 ∧ g < 2 ^ 52) ∧ s'.cellAt root q j = tableEntry g flags)

lemma TableStep.filledIn (hv : LowerHalf v) (h : Tables K s root)
    (hs : TableStep root v flags s s') (hq : Low q) : FilledIn root v flags s s' q j := by
  cases hs with
  | starve hpage =>
    obtain ⟨-, hwalk⟩ :=
      h.of_words { s with pmm := s.pmm.allocatePage.1 } rfl s.freeSet_allocatePage
    left
    rw [cellAt, cellAt, hwalk]
    simp [entry]
  | hang p i n hpath hlen hn hempty hpage =>
    have hp := low_concat hv hpath hlen
    rw [FilledIn, cellAt_hang h hp hn hempty hpage hq]
    by_cases hcell : q = p ∧ j = i
    · obtain ⟨rfl, rfl⟩ := hcell
      rw [if_pos ⟨rfl, rfl⟩]
      have hg := fresh_allocatePage hpage
      exact .inr ⟨(link_eq_none_iff hn).1 hempty, hpath, hlen, _, ⟨hg.aligned, hg.small⟩, rfl⟩
    · rw [if_neg hcell]
      exact .inl rfl

lemma TableSteps.filledIn (hv : LowerHalf v) (h : Tables K s root)
    (hs : TableSteps root v flags s s') (hq : Low q) : FilledIn root v flags s s' q j := by
  induction hs with
  | refl => exact .inl rfl
  | tail hbefore hstep ih =>
    obtain hsame | ⟨hempty, hpath, hlen, g, hg⟩ :=
      hstep.filledIn hv (TableSteps.tables hv h hbefore).1 hq
    · rw [FilledIn, hsame]
      exact ih
    obtain hold | ⟨-, -, -, g', -, hg'⟩ := ih
    · rw [hold] at hempty
      exact .inr ⟨hempty, hpath, hlen, g, hg⟩
    · rw [hg'] at hempty
      exact absurd (present_tableEntry g' flags) hempty

/-- What `map_page` does to the entries of the lower half. -/
structure MapCells (s : State) (root : ℕ) (virt phys flags : Word64) (ok : Bool) (s' : State) :
    Prop where
  upper : ∀ q j, Low q → q.length ≤ 2 → FilledIn root virt flags s s' q j
  lowest : ∀ q j, Low q → q.length = 3 → s'.cellAt root q j =
    if ok = true ∧ q ++ [j] = path virt then leafEntry phys flags else s.cellAt root q j
  absent : ok = true →
    ¬Present (s.cellAt root [pml4Index virt, pdptIndex virt, pdIndex virt] (ptIndex virt))
  present : ok = true → ∀ q j, q ++ [j] <+: path virt → Present (s'.cellAt root q j)

/-- The entries before the end of a walk are present. -/
lemma present_of_walk (hn : walk s.link root p = some n) (hq : q ++ [j] <+: p) :
    Present (s.cellAt root q j) := by
  obtain ⟨r, rfl⟩ := hq
  rw [LinkTree.walk_append, walk_concat] at hn
  by_contra hempty
  rw [if_neg hempty] at hn
  cases hn

lemma low_of_concat (hv : LowerHalf v) (hq : q ++ [j] <+: path v) : Low q := by
  have hlen := hq.length_le
  simp only [length_append, path, length_cons] at hlen
  exact low_of_isPrefix hv ((prefix_append q [j]).trans hq) (by omega)

lemma append_eq_path_iff : q ++ [j] = path v ↔
    q = [pml4Index v, pdptIndex v, pdIndex v] ∧ j = ptIndex v := by
  rw [show path v = [pml4Index v, pdptIndex v, pdIndex v].concat (ptIndex v) from rfl,
    ← concat_eq_append, concat_inj]

/-- Below the third level the steps on the way change nothing. -/
lemma TableSteps.lowest (hv : LowerHalf v) (h : Tables K s root)
    (hs : TableSteps root v flags s s') (hq : Low q) (hlen : q.length = 3) :
    s'.cellAt root q j = s.cellAt root q j := by
  obtain hsame | ⟨-, -, hle, -⟩ := hs.filledIn hv h hq
  · exact hsame
  · omega

lemma mapPage_cells (h : Tables K s (table pml4)) (hv : LowerHalf virt) :
    MapCells s (table pml4) virt phys flags (s.mapPage pml4 virt phys flags).1.ok
      (s.mapPage pml4 virt phys flags).2 := by
  have hout := mapPage_outcome phys flags h hv
  generalize s.mapPage pml4 virt phys flags = r at hout ⊢
  cases hout with
  | failed t error hsteps =>
    refine ⟨fun q j hq _ => hsteps.filledIn hv h hq, fun q j hq hlength => ?_, ?_, ?_⟩
    · exact hsteps.lowest hv h hq hlength
    · simp
    · simp
  | mapped t pt hsteps hvirt hphys hn hempty =>
    have htables := (hsteps.tables hv h).1
    have hlow := low_leaf hv
    have hcell (q : List (Fin 512)) (j : Fin 512) (hq : Low q) :
        (t.setEntry pt (ptIndex virt) (leafEntry phys flags)).cellAt (table pml4) q j =
          if q ++ [j] = path virt then leafEntry phys flags else t.cellAt (table pml4) q j := by
      rw [cellAt_setEntry htables hlow rfl hn hq]
      exact if_congr append_eq_path_iff.symm rfl rfl
    refine ⟨fun q j hq hle => ?_, fun q j hq hlength => ?_, fun _ => ?_, fun _ q j hq => ?_⟩
    · have hne : q ++ [j] ≠ path virt := by
        intro heq
        have hlen := congrArg length heq
        simp only [length_append, path, length_cons] at hlen
        omega
      rw [FilledIn, hcell q j hq, if_neg hne]
      exact hsteps.filledIn hv h hq
    · rw [hcell q j hq, hsteps.lowest hv h hq hlength]
      exact if_congr (by simp) rfl rfl
    · rw [← hsteps.lowest hv h hlow rfl]
      exact (link_eq_none_iff hn).1 hempty
    · rw [hcell q j (low_of_concat hv hq)]
      split_ifs with hpath
      · exact present_leafEntry phys flags
      -- the entries on the way lead to the table that was found
      have hthree : q ++ [j] <+: [pml4Index virt, pdptIndex virt, pdIndex virt] := by
        have hconcat : q ++ [j] <+: [pml4Index virt, pdptIndex virt, pdIndex virt] ++
            [ptIndex virt] := hq
        obtain heq | hpre := prefix_concat_iff.1 hconcat
        · exact absurd heq hpath
        · exact hpre
      exact present_of_walk hn hthree

/-- The last entry on the way to a page that has been mapped. -/
lemma MapCells.leaf (h : MapCells s root virt phys flags ok s') (hv : LowerHalf virt)
    (hok : ok = true) (hq : q ++ [j] <+: path virt) (hlen : 2 < q.length) :
    s'.cellAt root q j = leafEntry phys flags := by
  have hlow := low_of_concat hv hq
  have hle := hlow.1
  have hpath : q ++ [j] = path virt := hq.eq_of_length (by simp [path]; omega)
  rw [h.lowest q j hlow (by omega), if_pos ⟨hok, hpath⟩]

/-- An entry that is present stays as it is. -/
lemma MapCells.keeps (h : MapCells s root virt phys flags ok s') (hq : Low q)
    (hpres : Present (s.cellAt root q j)) : s'.cellAt root q j = s.cellAt root q j := by
  by_cases hlen : q.length ≤ 2
  · obtain hsame | ⟨hempty, -⟩ := h.upper q j hq hlen
    · exact hsame
    · exact absurd hpres hempty
  · have hle := hq.1
    rw [h.lowest q j hq (by omega), if_neg]
    rintro ⟨hok, hpath⟩
    obtain ⟨rfl, rfl⟩ := append_eq_path_iff.1 hpath
    exact h.absent hok hpres

/-! ## Sequences of calls -/

variable {calls before : List MapCall} {c : MapCall}

lemma mapAll_append (s : State) (pml4 : Word64) (calls later : List MapCall) :
    s.mapAll pml4 (calls ++ later) = (s.mapAll pml4 calls).mapAll pml4 later := by
  rw [mapAll, mapAll, mapAll, foldl_append]

lemma mapAll_cons (s : State) (pml4 : Word64) (c : MapCall) (later : List MapCall) :
    s.mapAll pml4 (c :: later) = (s.call pml4 c).2.mapAll pml4 later := by
  rw [mapAll, mapAll, foldl_cons]

lemma mapAll_concat (s : State) (pml4 : Word64) (calls : List MapCall) (c : MapCall) :
    s.mapAll pml4 (calls ++ [c]) = ((s.mapAll pml4 calls).call pml4 c).2 := by
  simp [mapAll]

lemma call_cells (h : Tables K s (table pml4)) (hc : LowerHalf c.virt) :
    MapCells s (table pml4) c.virt c.phys c.flags (s.call pml4 c).1.ok (s.call pml4 c).2 :=
  mapPage_cells h hc

/-- An entry that is present stays as it is through all later calls. -/
lemma cellAt_mapAll (h : Tables K s (table pml4)) (hcalls : ∀ c ∈ calls, LowerHalf c.virt)
    (hq : Low q) (hpres : Present (s.cellAt (table pml4) q j)) :
    (s.mapAll pml4 calls).cellAt (table pml4) q j = s.cellAt (table pml4) q j := by
  induction calls generalizing s with
  | nil => simp [mapAll]
  | cons c calls ih =>
    have hc := hcalls c mem_cons_self
    have hkeep := (call_cells h hc).keeps hq hpres
    have hafter : Tables K (s.call pml4 c).2 (table pml4) := tables_mapPage h hc
    rw [mapAll_cons, ih hafter (fun d hd => hcalls d (mem_cons_of_mem c hd)), hkeep]
    rwa [hkeep]

/-- The call `c`, made after the calls `before`, succeeds. -/
def SucceedsAt (s : State) (pml4 : Word64) (calls before : List MapCall) (c : MapCall) : Prop :=
  (∃ later, calls = before ++ c :: later) ∧ ((s.mapAll pml4 before).call pml4 c).1.ok = true

lemma SucceedsAt.append {later : List MapCall} (h : SucceedsAt s pml4 calls before c) :
    SucceedsAt s pml4 (calls ++ later) before c := by
  obtain ⟨⟨rest, rfl⟩, hok⟩ := h
  exact ⟨⟨rest ++ later, by simp⟩, hok⟩

/-- An entry at the lowest level is as it was, or it was written by a call for its page. -/
lemma lowest_mapAll (h : Tables K s (table pml4)) (hcalls : ∀ c ∈ calls, LowerHalf c.virt)
    (hq : Low q) (hlen : q.length = 3) :
    (s.mapAll pml4 calls).cellAt (table pml4) q j = s.cellAt (table pml4) q j ∨
      ∃ before c, SucceedsAt s pml4 calls before c ∧ q ++ [j] = path c.virt ∧
        (s.mapAll pml4 calls).cellAt (table pml4) q j = leafEntry c.phys c.flags := by
  induction calls using reverseRecOn with
  | nil => exact .inl (by simp [mapAll])
  | append_singleton calls c ih =>
    have hinit := (forall_mem_append.1 hcalls).1
    have hcells := (call_cells (tables_mapAll h hinit) (hcalls c (by simp))).lowest q j hq hlen
    rw [mapAll_concat, hcells]
    split_ifs with hcell
    · exact .inr ⟨calls, c, ⟨⟨[], rfl⟩, hcell.1⟩, hcell.2, rfl⟩
    · obtain hold | ⟨before, d, hd, hpath, heq⟩ := ih hinit
      · exact .inl hold
      · exact .inr ⟨before, d, hd.append, hpath, heq⟩

/-! ## A new address space -/

/-- The only table in the lower half is the root itself. -/
def Bare (s : State) (root : ℕ) : Prop := ∀ q, Low q → q ≠ [] → walk s.link root q = none

lemma bare_createAddressSpace {active : Word64} (h : (s.createAddressSpace active).1 ≠ 0) :
    Bare (s.createAddressSpace active).2 (table (s.createAddressSpace active).1) :=
  fun _ hq hne => walk_createAddressSpace h hq hne

/-- A root whose entries of the lower half are empty. -/
lemma bare_of_entries (h : ∀ i : Fin 512, i.val < 256 → ¬Present (s.entry root i)) :
    Bare s root := by
  rintro (_ | ⟨i, q⟩) hq hne
  · exact absurd rfl hne
  · have hempty : s.link root i = none := by rw [link_eq, if_neg (h i (hq.2 i rfl))]
    rw [walk, hempty, bind_none]

lemma Bare.tables (h : Bare s root) (halign : root % kPageSize = 0)
    (hused : root / kPageSize ∉ s.pmm.freeSet) : Tables False s root := by
  have honly {q : List (Fin 512)} {m : ℕ} (hq : Low q) (hm : walk s.link root q = some m) :
      q = [] := by
    by_contra hne
    rw [h q hq hne] at hm
    cases hm
  refine ⟨halign, fun p q m hp hq hpm hqm => ?_, fun p m hp hpm => ?_, False.elim⟩
  · rw [honly hp hpm, honly hq hqm]
  · rw [honly hp hpm, walk, some.injEq] at hpm
    rwa [← hpm]

/-- Then all entries of the lower half are empty. -/
lemma Bare.not_present (h : Bare s root) (hv : LowerHalf v) (hq : q ++ [j] <+: path v) :
    ¬Present (s.cellAt root q j) := by
  by_cases hlen : q.length ≤ 2
  · have hnone := h (q ++ [j])
      (low_of_isPrefix hv hq (by simp only [length_append, length_singleton]; omega))
      (by simp)
    rw [walk_concat] at hnone
    intro hpres
    rw [if_pos hpres] at hnone
    cases hnone
  · have hne : q ≠ [] := by
      rintro rfl
      simp at hlen
    rw [cellAt_of_none (h q (low_of_concat hv hq) hne)]
    exact not_present_zero

end State
end IanOS.Paging
