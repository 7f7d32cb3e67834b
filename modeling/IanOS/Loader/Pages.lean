import IanOS.Loader.Frames
import IanOS.Mm.AddressSpacePermissions

/-!
# Adding pages to a process

`addPage` takes a frame, fills it, maps it and tracks it.  Between two such steps the new address
space is in order (`Built`): every page that was free at the start is free, a table, or a tracked
frame; the user pages are those that were added; and the tables above them are open to user code,
since only user pages have been mapped so far.
-/

namespace IanOS.Loader

open Paging List BitVec
open Paging.State
open LinkTree (walk)

variable {s s' : State} {b b' : Building} {root virt phys flags v w : Word64} {page : ℕ}
  {start : PhysicalMemoryManager} {owned : List OwnedPage} {o : OwnedPage}

/-! ## Frames -/

/-- The pages of the tracked frames. -/
def ownedPages (owned : List OwnedPage) : Finset ℕ :=
  (owned.map fun o => o.phys.toNat / kPageSize).toFinset

/-- The frame is a page in use that holds no table. -/
structure IsFrame (s : State) (root phys : Word64) : Prop where
  aligned : phys.toNat % kPageSize = 0
  small : phys.toNat < 2 ^ 52
  used : phys.toNat / kPageSize ∉ s.pmm.freeSet
  noTable : ¬TablePage s (table root) (phys.toNat / kPageSize)

lemma IsFrame.grows (h : IsFrame s root phys) (hg : Grows (table root) s s') :
    IsFrame s' root phys :=
  ⟨h.aligned, h.small, fun hfree => h.used (hg.free hfree), hg.not_tablePage h.used h.noTable⟩

lemma isFrame_of_fills (hf : Fills s s') (h : Tables False s (table root)) :
    IsFrame s' root (BitVec.ofNat 64 s.pmm.allocatePage.2) := by
  have hg := fresh_allocatePage hf.page
  refine ⟨by rw [hg.toNat_ofNat]; exact hg.aligned, by rw [hg.toNat_ofNat]; exact hg.small, ?_, ?_⟩
  · rw [hg.toNat_ofNat, hf.pmm]
    exact hg.taken
  · rw [hg.toNat_ofNat, hf.tablePage_iff h]
    rintro ⟨q, hq, hwalk⟩
    exact h.used q _ hq hwalk (by rw [mul_div_page]; exact hg.free)

/-- Every page that was free at the start is free, a table, or the frame of a tracked page. -/
structure Sound (start : PhysicalMemoryManager) (root : Word64) (owned : List OwnedPage)
    (s : State) :
    Prop where
  tables : Tables False s (table root)
  accounted : Accounted start (ownedPages owned) s (table root)
  frames : ∀ o ∈ owned, IsFrame s root o.phys

namespace Sound

/-- A frame is taken and tracked. -/
lemma fill (h : Sound start root owned s) (hf : Fills s s') (virt : Word64) :
    Sound start root (owned ++ [⟨virt, BitVec.ofNat 64 s.pmm.allocatePage.2⟩]) s' := by
  refine ⟨hf.tables h.tables, ?_, fun o ho => ?_⟩
  · have haccount := hf.accounted h.tables h.accounted
    have hpages : ownedPages (owned ++ [⟨virt, BitVec.ofNat 64 s.pmm.allocatePage.2⟩]) =
        insert (s.pmm.allocatePage.2 / kPageSize) (ownedPages owned) := by
      simp [ownedPages, (fresh_allocatePage hf.page).toNat_ofNat]
    rwa [hpages]
  · rcases mem_append.1 ho with hold | hnew
    · exact (h.frames o hold).grows (hf.grows h.tables)
    · rw [mem_singleton.1 hnew]
      exact isFrame_of_fills hf h.tables

lemma mapPage (h : Sound start root owned s) (hv : LowerHalf virt) :
    Sound start root owned (s.mapPage root virt phys flags).2 where
  tables := tables_mapPage h.tables hv
  accounted := h.accounted.mapPage h.tables hv
  frames o ho := (h.frames o ho).grows (grows_mapPage h.tables hv)

end Sound

/-! ## The entries of user pages -/

/-- The last entry on the way to an address. -/
def leafOf (s : State) (root v : Word64) : Word64 :=
  s.cellAt (table root) [pml4Index v, pdptIndex v, pdIndex v] (ptIndex v)

lemma leafOf_grows (hg : Grows (table root) s s') (hv : LowerHalf v)
    (hpres : Present (leafOf s root v)) : leafOf s' root v = leafOf s root v :=
  hg.cells _ _ (low_leaf hv) hpres

lemma leafOf_mapPage (h : Tables False s (table root)) (hvirt : LowerHalf virt) (hv : LowerHalf v)
    (hok : (s.mapPage root virt phys flags).1.ok = true) :
    leafOf (s.mapPage root virt phys flags).2 root v =
      if path v = path virt then leafEntry phys flags else leafOf s root v := by
  have hcells : MapCells s (table root) virt phys flags _ _ := mapPage_cells h hvirt
  rw [leafOf, hcells.lowest _ _ (low_leaf hv) rfl]
  exact if_congr (by simp [hok, path]) rfl rfl

lemma and_fff_eq_zero : v &&& 0xfff = 0 ↔ v.toNat % kPageSize = 0 := by
  rw [← toNat_and_fff]
  exact ⟨fun h => by rw [h]; rfl, fun h => eq_of_toNat_eq h⟩

lemma entries_congr (h : path v = path w) : s.entries root v = s.entries root w := by
  simp only [path, cons.injEq, and_true] at h
  rw [entries, entries, h.1, h.2.1, h.2.2.1, h.2.2.2]

/-- Only aligned addresses are mapped. -/
lemma aligned_of_mapPage (h : Tables False s (table root)) (hv : LowerHalf virt)
    (hok : (s.mapPage root virt phys flags).1.ok = true) : virt &&& 0xfff = 0 := by
  have hout := mapPage_outcome phys flags h hv
  generalize s.mapPage root virt phys flags = r at hout hok
  cases hout with
  | failed t error hsteps => cases hok
  | mapped t pt hsteps hvirt => exact hvirt

/-- The bit of an entry that forbids to execute. -/
def NoExecute (e : Word64) : Prop := e &&& PageNoExecute ≠ 0
  deriving Decidable

lemma noExecute_iff {e : Word64} : NoExecute e ↔ e.getLsbD 63 = true := by
  exact and_twoPow_ne_zero (by norm_num)

/-- An entry that forbids nothing to user code. -/
structure UserTable (e : Word64) : Prop where
  user : User e
  writable : Writable e
  executable : ¬NoExecute e

lemma userTable_tableEntry {g : ℕ} (hg : g % kPageSize = 0 ∧ g < 2 ^ 52) (huser : User flags) :
    UserTable (tableEntry g flags) := by
  refine ⟨(user_tableEntry hg.1).2 huser, writable_tableEntry g flags, ?_⟩
  have hbit : (BitVec.ofNat 64 g).getLsbD 63 = false := by
    rw [BitVec.getLsbD_ofNat, Nat.testBit_lt_two_pow (by omega)]
    rfl
  rw [noExecute_iff, tableEntry, getLsbD_or, getLsbD_or, getLsbD_or, hbit]
  simp [PagePresent, PageWrite, PageUser]

lemma noExecute_leafEntry (phys flags : Word64) :
    NoExecute (leafEntry phys flags) ↔ NoExecute flags := by
  have hmask : kAddrMask[63] = false := by decide
  rw [noExecute_iff, noExecute_iff, leafEntry]
  simp [hmask, PagePresent]

/-- The entries above the last that are present forbid nothing to user code. -/
def UserOpen (s : State) (root : Word64) : Prop :=
  ∀ v, LowerHalf v → ∀ q j, q ++ [j] <+: path v → q.length ≤ 2 →
    Present (s.cellAt (table root) q j) → UserTable (s.cellAt (table root) q j)

lemma UserOpen.fills (h : UserOpen s root) (hf : Fills s s') (ht : Tables False s (table root)) :
    UserOpen s' root := by
  intro v hv q j hq hlen hpres
  rw [hf.cellAt_eq ht (low_of_concat hv hq)] at hpres ⊢
  exact h v hv q j hq hlen hpres

/-- Mapping a user page leaves the entries above open. -/
lemma UserOpen.mapPage (h : UserOpen s root) (ht : Tables False s (table root))
    (hvirt : LowerHalf virt) (huser : User flags) :
    UserOpen (s.mapPage root virt phys flags).2 root := by
  intro v hv q j hq hlen hpres
  have hcells : MapCells s (table root) virt phys flags _ _ := mapPage_cells ht hvirt
  obtain hsame | ⟨-, -, -, g, hg, hnew⟩ := hcells.upper q j (low_of_concat hv hq) hlen
  · rw [hsame] at hpres ⊢
    exact h v hv q j hq hlen hpres
  · rw [hnew]
    exact userTable_tableEntry hg huser

/-- A page that has been mapped for user code with the given flags. -/
structure IsUserPage (s : State) (root : Word64) (o : OwnedPage) (flags : Word64) : Prop where
  lower : LowerHalf o.virt
  aligned : o.virt &&& 0xfff = 0
  user : User flags
  leaf : leafOf s root o.virt = leafEntry o.phys flags
  upper : ∀ q j, q ++ [j] <+: path o.virt → q.length ≤ 2 →
    Present (s.cellAt (table root) q j) ∧ UserTable (s.cellAt (table root) q j)

namespace IsUserPage

section

variable (h : IsUserPage s root o flags)
include h

lemma grows (hg : Grows (table root) s s') : IsUserPage s' root o flags := by
  refine ⟨h.lower, h.aligned, h.user, ?_, fun q j hq hlen => ?_⟩
  · rw [leafOf_grows hg h.lower (by rw [h.leaf]; exact present_leafEntry _ _), h.leaf]
  · obtain ⟨hpres, htable⟩ := h.upper q j hq hlen
    rw [hg.cells q j (low_of_concat h.lower hq) hpres]
    exact ⟨hpres, htable⟩

/-- The last entry is the one of the page, and the others are those above it. -/
lemma entry_cases {q : List (Fin 512)} {j : Fin 512} (hq : q ++ [j] <+: path o.virt) :
    Present (s.cellAt (table root) q j) ∧ UserTable (s.cellAt (table root) q j) ∨
      s.cellAt (table root) q j = leafEntry o.phys flags := by
  by_cases hlen : q.length ≤ 2
  · exact .inl (h.upper q j hq hlen)
  right
  rw [concat_isPrefix_path_iff] at hq
  rcases hq with ⟨rfl, -⟩ | ⟨rfl, -⟩ | ⟨rfl, -⟩ | ⟨rfl, rfl⟩
  · simp at hlen
  · simp at hlen
  · simp at hlen
  · exact h.leaf

lemma leaf_mem : leafEntry o.phys flags ∈ s.entries root o.virt := by
  rw [← h.leaf]
  simp [entries, leafOf]

lemma userAccessible : s.UserAccessible root o.virt := by
  rw [UserAccessible, forall_mem_entries]
  intro q j hq
  rcases h.entry_cases hq with ⟨hpres, htable⟩ | hleaf
  · exact ⟨hpres, htable.user⟩
  · rw [hleaf, user_leafEntry]
    exact ⟨present_leafEntry _ _, h.user⟩

lemma userWritable_iff : s.UserWritable root o.virt ↔ Writable flags := by
  constructor
  · rintro ⟨-, hall⟩
    rw [← writable_leafEntry]
    exact hall _ h.leaf_mem
  intro hwrite
  refine ⟨h.userAccessible, ?_⟩
  rw [forall_mem_entries]
  intro q j hq
  rcases h.entry_cases hq with ⟨-, htable⟩ | hleaf
  · exact htable.writable
  · rwa [hleaf, writable_leafEntry]

/-- Whether the processor may execute code of the page depends on the flags. -/
lemma noExecute_iff : (∃ e ∈ s.entries root o.virt, NoExecute e) ↔ NoExecute flags := by
  constructor
  · contrapose!
    intro hflags
    rw [forall_mem_entries]
    intro q j hq
    rcases h.entry_cases hq with ⟨-, htable⟩ | hleaf
    · exact htable.executable
    · rwa [hleaf, noExecute_leafEntry]
  · intro hflags
    exact ⟨_, h.leaf_mem, (noExecute_leafEntry _ _).2 hflags⟩

/-- The frame a user page is mapped to. -/
lemma walk_eq (hframe : IsFrame s root o.phys) :
    walk s.link (table root) (path o.virt) = some o.phys.toNat := by
  have hleaf : s.cellAt (table root) [pml4Index o.virt, pdptIndex o.virt, pdIndex o.virt]
      (ptIndex o.virt) = leafEntry o.phys flags := h.leaf
  rw [show path o.virt = [pml4Index o.virt, pdptIndex o.virt, pdIndex o.virt] ++ [ptIndex o.virt]
    from rfl, walk_concat, hleaf, if_pos (present_leafEntry _ _),
    table_leaf (and_fff_eq_zero.2 hframe.aligned) hframe.small]

end

end IsUserPage

/-! ## One more page -/

/-- Nothing but the contents of the frame has changed, and what has been read. -/
structure OnlyFrame (phys : Word64) (b b' : Building) : Prop where
  rest : b' = { b with memory := b'.memory, reads := b'.reads }
  pmm : b'.memory.pmm = b.memory.pmm
  same : ∀ page, page ≠ phys.toNat / kPageSize → SamePage b.memory b'.memory page

lemma OnlyFrame.refl (phys : Word64) (b : Building) : OnlyFrame phys b b :=
  ⟨rfl, rfl, fun page _ => .refl b.memory page⟩

lemma OnlyFrame.trans {b'' : Building} (h : OnlyFrame phys b b') (h' : OnlyFrame phys b' b'') :
    OnlyFrame phys b b'' where
  rest := by rw [h'.rest, h.rest]
  pmm := h'.pmm.trans h.pmm
  same page hpage := (h.same page hpage).trans (h'.same page hpage)

namespace Building

/-- The state after a frame has been taken. -/
def taken (b : Building) : Building :=
  { b with memory := { b.memory with pmm := b.memory.pmm.allocatePage.1 } }

/-- The frame that is taken. -/
def frame (b : Building) : Word64 := BitVec.ofNat 64 b.memory.pmm.allocatePage.2

/-- What a successful `addPage` does; `filled` is memory when the frame is ready. -/
structure Adds (root virt flags : Word64) (filled : State) (b b' : Building) : Prop where
  fills : Fills b.memory filled
  maps : (filled.mapPage root virt b.frame flags).1.ok = true
  memory : b'.memory = (filled.mapPage root virt b.frame flags).2
  owned : b'.owned = b.owned ++ [⟨virt, b.frame⟩]
  loadedPages : b'.loadedPages = b.loadedPages

variable {prepare : Word64 → Building → Building} {flagsOf : Scan Word64}

lemma fills_of_onlyFrame (hpage : b.memory.pmm.allocatePage.2 ≠ 0)
    (hprepare : OnlyFrame b.frame b.taken b') : Fills b.memory b'.memory where
  page := hpage
  pmm := hprepare.pmm
  same page hne := by
    rw [← (fresh_allocatePage hpage).toNat_ofNat] at hne
    exact hprepare.same page hne

lemma addPage_of_page (hpage : b.memory.pmm.allocatePage.2 ≠ 0) :
    b.addPage root virt prepare flagsOf =
      let f := (prepare b.frame b.taken).scan flagsOf
      let m := f.2.memory.mapPage root virt b.frame f.1
      if ¬m.1.ok then (false, { f.2 with memory := m.2 })
      else { f.2 with memory := m.2 }.trackPage virt b.frame :=
  if_neg hpage

/-- A page is added, if the frame is prepared without touching anything else. -/
lemma adds_of_addPage
    (hprepare : b.memory.pmm.allocatePage.2 ≠ 0 →
      OnlyFrame b.frame b.taken (prepare b.frame b.taken))
    (hok : (b.addPage root virt prepare flagsOf).1 = true) :
    b.Adds root virt (flagsOf.value (byteAt (prepare b.frame b.taken).memory))
      (prepare b.frame b.taken).memory (b.addPage root virt prepare flagsOf).2 := by
  have hpage : b.memory.pmm.allocatePage.2 ≠ 0 := by
    intro hzero
    rw [addPage, if_pos hzero] at hok
    cases hok
  have honly := hprepare hpage
  have hfills := fills_of_onlyFrame hpage honly
  rw [addPage_of_page hpage] at hok ⊢
  generalize prepare b.frame b.taken = ready at hok honly hfills ⊢
  have howned : ready.owned = b.owned := by rw [honly.rest]; rfl
  have hloaded : ready.loadedPages = b.loadedPages := by rw [honly.rest]; rfl
  by_cases hmap :
    (ready.memory.mapPage root virt b.frame (flagsOf.value (byteAt ready.memory))).1.ok
  · by_cases hfull : kMaxOwnedUserPages ≤ ready.owned.length
    · simp [scan, trackPage, hfull] at hok
    · simp only [scan, trackPage, hmap, hfull, not_true, if_false]
      exact ⟨hfills, hmap, rfl, by rw [howned], hloaded⟩
  · simp [scan, hmap] at hok

end Building

/-- More pages have been added, at addresses that satisfy `V`. -/
structure Building.Extends (root : Word64) (V : Word64 → Prop) (b b' : Building) : Prop where
  grows : Grows (table root) b.memory b'.memory
  owned : ∀ o ∈ b.owned, o ∈ b'.owned
  added : ∀ o ∈ b'.owned, o ∈ b.owned ∨ V o.virt

namespace Building.Extends

variable {V W : Word64 → Prop}

lemma refl (root : Word64) (b : Building) : b.Extends root V b :=
  ⟨.refl _ _, fun _ ho => ho, fun _ ho => .inl ho⟩

lemma trans {b'' : Building} (h : b.Extends root V b') (h' : b'.Extends root V b'') :
    b.Extends root V b'' := by
  refine ⟨h.grows.trans h'.grows, fun o ho => h'.owned o (h.owned o ho), fun o ho => ?_⟩
  rcases h'.added o ho with hold | hnew
  · exact h.added o hold
  · exact .inr hnew

lemma mono (h : b.Extends root V b') (himp : ∀ v, V v → W v) : b.Extends root W b' :=
  ⟨h.grows, h.owned, fun o ho => (h.added o ho).imp_right (himp o.virt)⟩

end Building.Extends

/-- The address space of a process while only user pages have been added. -/
structure Built (start : PhysicalMemoryManager) (root : Word64) (owned : List OwnedPage)
    (s : State) :
    Prop where
  sound : Sound start root owned s
  upper : UserOpen s root
  pages : ∀ o ∈ owned, ∃ flags, IsUserPage s root o flags
  only : ∀ v, LowerHalf v → Present (leafOf s root v) → ∃ o ∈ owned, path o.virt = path v

namespace Built

variable {filled : State}

section

variable (h : Built start root b.owned b.memory) (hadds : b.Adds root virt flags filled b')
  (hv : LowerHalf virt)
include h hadds hv

/-- The page that has been added. -/
lemma isUserPage (huser : User flags) : IsUserPage b'.memory root ⟨virt, b.frame⟩ flags := by
  have htables := hadds.fills.tables h.sound.tables
  have hcells : MapCells filled (table root) virt b.frame flags _ _ := mapPage_cells htables hv
  have hopen : UserOpen (filled.mapPage root virt b.frame flags).2 root :=
    (h.upper.fills hadds.fills h.sound.tables).mapPage htables hv huser
  rw [hadds.memory]
  refine ⟨hv, aligned_of_mapPage htables hv hadds.maps, huser, ?_, fun q j hq hlen => ?_⟩
  · rw [leafOf_mapPage htables hv hv hadds.maps, if_pos rfl]
  · have hpres := hcells.present hadds.maps q j hq
    exact ⟨hpres, hopen virt hv q j hq hlen hpres⟩

lemma extended : b.Extends root (· = virt) b' := by
  refine ⟨?_, fun o ho => ?_, fun o ho => ?_⟩
  · rw [hadds.memory]
    exact (hadds.fills.grows h.sound.tables).trans
      (grows_mapPage (hadds.fills.tables h.sound.tables) hv)
  · rw [hadds.owned]
    exact mem_append_left _ ho
  · rw [hadds.owned, mem_append, mem_singleton] at ho
    exact ho.imp_right fun heq => by rw [heq]

/-- Adding a user page keeps the address space in order. -/
lemma adds (huser : User flags) : Built start root b'.owned b'.memory := by
  have htables := hadds.fills.tables h.sound.tables
  refine ⟨?_, ?_, fun o ho => ?_, fun v hlower hpres => ?_⟩
  · rw [hadds.owned, hadds.memory]
    exact (h.sound.fill hadds.fills virt).mapPage hv
  · rw [hadds.memory]
    exact (h.upper.fills hadds.fills h.sound.tables).mapPage htables hv huser
  · rw [hadds.owned, mem_append, mem_singleton] at ho
    rcases ho with hold | rfl
    · obtain ⟨f, hpage⟩ := h.pages o hold
      exact ⟨f, hpage.grows (h.extended hadds hv).grows⟩
    · exact ⟨flags, h.isUserPage hadds hv huser⟩
  · rw [hadds.memory, leafOf_mapPage htables hv hlower hadds.maps] at hpres
    rw [hadds.owned]
    split_ifs at hpres with hpath
    · exact ⟨⟨virt, b.frame⟩, by simp, hpath.symm⟩
    · rw [leafOf, hadds.fills.cellAt_eq h.sound.tables (low_leaf hlower)] at hpres
      obtain ⟨o, ho, hsame⟩ := h.only v hlower hpres
      exact ⟨o, mem_append_left _ ho, hsame⟩

end

end Built

end IanOS.Loader
