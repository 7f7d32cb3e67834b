import IanOS.Mm.AddressSpaceSpec

/-!
# Sequences of mappings in a new address space

The root of a new address space has no tables below its lower half, and its upper half is a copy of
the root in use.  Hence the tables of a new address space are as `Tables` asks, every `map_page`
keeps them so, and what a single call does to translation it does after any sequence of calls.
-/

namespace IanOS.Paging

open List

open LinkTree (walk)

namespace State

variable {s : State} {active : Word64} {m n : ℕ} {j : Fin 512} {p : List (Fin 512)} {g : ℕ}

/-! ## A new address space -/

/-- The root in use and the kernel's tables below its upper half are not on the allocator's list of
free pages. -/
def KernelTablesUsed (s : State) (active : Word64) : Prop :=
  table active / kPageSize ∉ s.pmm.freeSet ∧
    ∀ p n, High p → walk s.link (table active) p = some n → n / kPageSize ∉ s.pmm.freeSet

lemma pmm_copyEntries (s : State) (source target : ℕ) (l : List ℕ) :
    (s.copyEntries source target l).pmm = s.pmm := by
  exact foldlRecOn (motive := fun s' : State => s'.pmm = s.pmm) l _ rfl fun _ h _ _ => h

lemma entry_copyEntries {source target : ℕ} (hsrc : source % kPageSize = 0)
    (htarget : target % kPageSize = 0) (hm : m % kPageSize = 0) (l : List ℕ) (s : State) :
    (s.copyEntries source target l).entry m j =
      if m = target ∧ j ∈ l.map (Fin.ofNat 512) then s.entry source j else s.entry m j := by
  induction l generalizing s with
  | nil => simp [copyEntries]
  | cons i l ih =>
    rw [copyEntries, foldl_cons, ← copyEntries, ih, entry_setEntry hsrc htarget,
      entry_setEntry hm htarget]
    -- if the two tables are one, then an entry that is copied is its own copy
    split_ifs <;> grind

lemma mem_upper : j ∈ (range' 256 256).map (Fin.ofNat 512) ↔ 256 ≤ j.val := by
  rw [mem_map]
  constructor
  · rintro ⟨i, hi, rfl⟩
    rw [mem_range'_1] at hi
    rw [Fin.val_ofNat, Nat.mod_eq_of_lt (by omega)]
    exact hi.1
  · intro hj
    refine ⟨j, mem_range'_1.2 ⟨hj, by omega⟩, Fin.ext ?_⟩
    rw [Fin.val_ofNat, Nat.mod_eq_of_lt j.isLt]

lemma Fresh.table_ofNat (hg : Fresh s g) : table (BitVec.ofNat 64 g) = g := by
  rw [table, hg.and_kAddrMask, hg.toNat_ofNat]

/-- The state after the page for the root has been taken and cleared. -/
def bareRoot (s : State) : State :=
  State.clearPage { s with pmm := s.pmm.allocatePage.1 } s.pmm.allocatePage.2

lemma createAddressSpace_of_page (h : s.pmm.allocatePage.2 ≠ 0) :
    s.createAddressSpace active = (BitVec.ofNat 64 s.pmm.allocatePage.2,
      s.bareRoot.copyEntries (table active) s.pmm.allocatePage.2 (range' 256 256)) := by
  rw [createAddressSpace, if_neg h]
  dsimp only
  rw [(fresh_allocatePage h).table_ofNat]
  rfl

lemma createAddressSpace_of_none (h : s.pmm.allocatePage.2 = 0) :
    (s.createAddressSpace active).1 = 0 := by
  rw [createAddressSpace, if_pos h]

/-- The entries after `create_address_space`. -/
lemma entry_created (active : Word64) (j : Fin 512) (hg : Fresh s g)
    (hvalue : g = s.pmm.allocatePage.2) (hm : m % kPageSize = 0) :
    (s.bareRoot.copyEntries (table active) g (range' 256 256)).entry m j =
      if m = g ∧ 256 ≤ j.val then (if table active = g then 0 else s.entry (table active) j)
      else if m = g then 0 else s.entry m j := by
  subst hvalue
  rw [entry_copyEntries (table_mod _) hg.aligned hm, bareRoot,
    entry_clearPage (table_mod _) hg.aligned, entry_clearPage hm hg.aligned]
  exact if_congr (and_congr_right fun _ => mem_upper) rfl rfl

/-- The walks of a new address space. -/
lemma walk_created (active : Word64) (hg : Fresh s g) (hvalue : g = s.pmm.allocatePage.2) :
    (∀ q, Low q → q ≠ [] →
      walk (s.bareRoot.copyEntries (table active) g (range' 256 256)).link g q = none) ∧
    (KernelTablesUsed s active → ∀ q, High q →
      walk (s.bareRoot.copyEntries (table active) g (range' 256 256)).link g q =
        walk s.link (table active) q) := by
  constructor
  · rintro (_ | ⟨i, q⟩) hq hne
    · exact absurd rfl hne
    have hlt : ¬256 ≤ i.val := by
      have hi := hq.2 i rfl
      omega
    have hzero := entry_created active i hg hvalue hg.aligned
    rw [if_neg fun hc => hlt hc.2, if_pos rfl] at hzero
    rw [walk, link, hzero]
    rfl
  rintro ⟨hactive, hkernel⟩ (_ | ⟨i, q⟩) ⟨hlen, i', hi', hge⟩
  · cases hi'
  obtain rfl : i = i' := Option.some.inj hi'
  rw [walk]
  have hroot : (s.bareRoot.copyEntries (table active) g (range' 256 256)).link g i =
      s.link (table active) i := by
    apply link_congr
    rw [entry_created active _ hg hvalue hg.aligned, if_pos ⟨rfl, hge⟩, if_neg (hg.ne hactive)]
  rw [hroot]
  -- below the root the tables are the kernel's own, and the new root is none of them
  refine Option.bind_congr fun k hk => LinkTree.walk_congr fun a j b hab m hm => link_congr ?_
  have hwalk : walk s.link (table active) (i :: a) = some m := by
    rwa [walk, hk]
  have hhigh : High (i :: a) := by
    refine ⟨?_, i, rfl, hge⟩
    rw [hab, length_cons, length_append] at hlen
    rw [length_cons]
    omega
  have hne : m ≠ g := hg.ne (hkernel _ m hhigh hwalk)
  rw [entry_created active _ hg hvalue (walk_mod (table_mod _) hwalk), if_neg fun hc => hne hc.1,
    if_neg hne]

lemma walk_createAddressSpace (h : (s.createAddressSpace active).1 ≠ 0)
    (hp : Low p) (hne : p ≠ []) :
    walk (s.createAddressSpace active).2.link (table (s.createAddressSpace active).1) p = none := by
  have hpage : s.pmm.allocatePage.2 ≠ 0 := fun hzero => h (createAddressSpace_of_none hzero)
  have hg := fresh_allocatePage hpage
  obtain ⟨hlow, -⟩ := walk_created active hg rfl
  rw [createAddressSpace_of_page hpage, hg.table_ofNat]
  generalize s.bareRoot.copyEntries (table active) s.pmm.allocatePage.2
    (range' 256 256) = s' at hlow ⊢
  exact hlow p hp hne

lemma tables_createAddressSpace (h : (s.createAddressSpace active).1 ≠ 0) :
    Tables (KernelTablesUsed s active) (s.createAddressSpace active).2
      (table (s.createAddressSpace active).1) := by
  have hpage : s.pmm.allocatePage.2 ≠ 0 := fun hzero => h (createAddressSpace_of_none hzero)
  have hg := fresh_allocatePage hpage
  obtain ⟨hlow, hhigh⟩ := walk_created active hg rfl
  rw [createAddressSpace_of_page hpage, hg.table_ofNat]
  have hfree : (s.bareRoot.copyEntries (table active) s.pmm.allocatePage.2
      (range' 256 256)).pmm.freeSet = s.pmm.allocatePage.1.freeSet := by
    rw [pmm_copyEntries]
    rfl
  generalize s.bareRoot.copyEntries (table active) s.pmm.allocatePage.2 (range' 256 256) = s'
    at hlow hhigh hfree ⊢
  -- the root is the only table of the lower half
  have honly (q : List (Fin 512)) (k : ℕ) (hq : Low q)
      (hk : walk s'.link s.pmm.allocatePage.2 q = some k) : q = [] := by
    by_contra hne
    rw [hlow q hq hne] at hk
    cases hk
  refine ⟨hg.aligned, ?_, ?_, ?_⟩
  · intro q r k hq hr hqk hrk
    rw [honly q k hq hqk, honly r k hr hrk]
  · intro q k hq hk
    obtain rfl := honly q k hq hk
    rw [← Option.some.inj hk, hfree]
    exact hg.taken
  · intro hK q k hq hk
    rw [hhigh hK q hq] at hk
    have hused := hK.2 q k hq hk
    refine ⟨fun hmem => hused (s.freeSet_allocatePage (hfree ▸ hmem)), fun r hr hrk => ?_⟩
    obtain rfl := honly r k hr hrk
    rw [← Option.some.inj hrk] at hused
    exact hused hg.free

end State

/-! ## Sequences of calls -/

/-- The arguments of a call of `map_page`. -/
structure MapCall where
  virt : Word64
  phys : Word64
  flags : Word64

/-- A call that maps a page of the lower half to a physical address the tables can hold. -/
def MapCall.InRange (c : MapCall) : Prop := c.virt.toNat < 2 ^ 47 ∧ c.phys.toNat < 2 ^ 52

namespace State

variable {s : State} {K : Prop} {pml4 : Word64} {v o : Word64}

def call (s : State) (pml4 : Word64) (c : MapCall) : MappingResult × State :=
  s.mapPage pml4 c.virt c.phys c.flags

/-- The state after a sequence of calls. -/
def mapAll (s : State) (pml4 : Word64) (calls : List MapCall) : State :=
  calls.foldl (fun s c => (s.call pml4 c).2) s

lemma tables_mapAll (h : Tables K s (table pml4)) {calls : List MapCall}
    (hcalls : ∀ c ∈ calls, LowerHalf c.virt) : Tables K (s.mapAll pml4 calls) (table pml4) := by
  refine foldlRecOn (motive := fun s' : State => Tables K s' (table pml4)) calls _ h ?_
  intro s' h' c hc
  exact tables_mapPage h' (hcalls c hc)

lemma owned_path (v : Word64) (h : v.toNat % 2 ^ 48 < 2 ^ 47 ∨ K) : Owned K (path v) := by
  refine ⟨rfl, h.imp_left fun hv i hi => ?_⟩
  obtain rfl : pml4Index v = i := Option.some.inj hi
  exact lowerHalf_iff.2 hv

/-- An offset into an aligned page changes neither the page nor the offset. -/
lemma toNat_add_offset (hv : v &&& 0xfff = 0) (ho : o.toNat < kPageSize) :
    (v + o).toNat = v.toNat + o.toNat ∧ v.toNat % kPageSize = 0 := by
  have hmod : v.toNat % kPageSize = 0 := by
    rw [← toNat_and_fff, hv]
    rfl
  refine ⟨?_, hmod⟩
  rw [BitVec.toNat_add]
  simp only [kPageSize] at hmod ho
  omega

/-- What a walk to a frame says about translation. -/
lemma translate_of_walk {p : Word64} (hpml4 : pml4 ≠ 0) (hv : v &&& 0xfff = 0)
    (ho : o.toNat < kPageSize) (hwalk : walk s.link (table pml4) (path v) = some p.toNat) :
    s.translate pml4 (v + o) = p + o := by
  obtain ⟨hadd, hmod⟩ := toNat_add_offset hv ho
  have hpath : path (v + o) = path v := by
    rw [path_eq_iff, pageNumber, pageNumber]
    simp only [kPageSize] at hmod ho ⊢
    omega
  have hoff : v + o &&& 0xfff = o := by
    apply BitVec.eq_of_toNat_eq
    rw [toNat_and_fff]
    simp only [kPageSize] at hmod ho ⊢
    omega
  rw [translate_eq hpml4, hpath, hwalk, hoff, Option.elim_some, BitVec.ofNat_toNat,
    BitVec.setWidth_eq]

/-- In an address space made by `create_address_space`, after any calls of `map_page` on lower-half
addresses with physical addresses below `2 ^ 52`, a call that succeeds translates every address of
its page to the same offset in the frame; and a call leaves translation as it was at every address
if it fails, and at every address whose low 48 bits lie in another page if it succeeds.  For
addresses of the upper half this asks that the kernel's own tables are not on the allocator's list
of free pages. -/
theorem map_page_semantics (s : State) (active : Word64) (calls : List MapCall) (c : MapCall)
    (hcalls : ∀ d ∈ calls ++ [c], d.InRange) :
    let root := (s.createAddressSpace active).1
    let before := (s.createAddressSpace active).2.mapAll root calls
    let after := before.call root c
    (after.1.ok = true → ∀ o : Word64, o.toNat < kPageSize →
      after.2.translate root (c.virt + o) = c.phys + o) ∧
    ∀ a : Word64, (after.1.ok = true → pageNumber a ≠ pageNumber c.virt) →
      (a.toNat % 2 ^ 48 < 2 ^ 47 ∨ KernelTablesUsed s active) →
      after.2.translate root a = before.translate root a := by
  intro root before after
  by_cases hroot : root = 0
  · have hafter : after = (⟨false, "address space has no PML4"⟩, before) := if_pos hroot
    rw [hafter]
    exact ⟨fun hok => (nomatch hok), fun _ _ _ => rfl⟩
  have hbefore : Tables (KernelTablesUsed s active) before (table root) :=
    tables_mapAll (tables_createAddressSpace hroot) fun d hd =>
      lowerHalf_of_lt (hcalls d (mem_append_left _ hd)).1
  obtain ⟨hvirt, hphys⟩ := hcalls c (mem_append_right _ (mem_singleton_self c))
  have hspec : MapSpec _ before root c.virt c.phys after :=
    mapPage_spec hbefore (lowerHalf_of_lt hvirt) hphys
  constructor
  · intro hok o ho
    obtain ⟨hv, -, hwalk⟩ := hspec.maps hok
    exact translate_of_walk hroot hv ho hwalk
  · intro a hpage howned
    rw [translate_eq hroot, translate_eq hroot, hspec.keep (path a) (owned_path a howned)]
    cases hok : after.1.ok with
    | false => exact .inl rfl
    | true => exact .inr fun hpath => hpage hok (path_eq_iff.1 hpath)

/-- Eight free pages above the first megabyte, and memory that holds no tables. -/
def eightPages : State where
  pmm :=
    { bitmap := fun b => if b = 0x20 then 0 else 0xff
      totalPages := 0x108
      freePages := 8
      scanHint := 0x100 }
  words := fun _ => 0

/-- Two pages are mapped one after the other, and the first keeps its translation. -/
theorem map_page_semantics_two :
    let root := (eightPages.createAddressSpace 0x1000).1
    let before := (eightPages.createAddressSpace 0x1000).2.mapAll root [⟨0x400000, 0x200000, 7⟩]
    let after := before.call root ⟨0x401000, 0x300000, 7⟩
    after.1.ok = true ∧ before.translate root 0x400123 = 0x200123 ∧
      after.2.translate root 0x401fff = 0x300fff ∧ after.2.translate root 0x400123 = 0x200123 := by
  have hcalls : ∀ d ∈ [(⟨0x400000, 0x200000, 7⟩ : MapCall)] ++ [⟨0x401000, 0x300000, 7⟩],
      d.InRange := by
    simp only [cons_append, nil_append, forall_mem_cons, MapCall.InRange]
    decide
  have hsem := map_page_semantics eightPages 0x1000 _ _ hcalls
  have hok : (State.call (State.mapAll (eightPages.createAddressSpace 0x1000).2
      (eightPages.createAddressSpace 0x1000).1 [⟨0x400000, 0x200000, 7⟩])
      (eightPages.createAddressSpace 0x1000).1 ⟨0x401000, 0x300000, 7⟩).1.ok = true := by
    decide +kernel
  have hold : (State.mapAll (eightPages.createAddressSpace 0x1000).2
      (eightPages.createAddressSpace 0x1000).1 [⟨0x400000, 0x200000, 7⟩]).translate
      (eightPages.createAddressSpace 0x1000).1 0x400123 = 0x200123 := by
    decide +kernel
  generalize eightPages.createAddressSpace 0x1000 = space at hsem hok hold ⊢
  have hnew := hsem.1 hok 0xfff (by decide)
  have hkept := hsem.2 0x400123 (fun _ => by decide) (.inl (by decide))
  refine ⟨hok, hold, ?_, hkept.trans hold⟩
  have hvirt : (0x401000 : Word64) + 0xfff = 0x401fff := by decide
  have hphys : (0x300000 : Word64) + 0xfff = 0x300fff := by decide
  rwa [hvirt, hphys] at hnew

/-- Translation does not look at the bits of an address above the 48 lowest, so mapping a page also
maps the pages `2 ^ 48` further on. -/
theorem map_page_changes_another_page :
    let root := (eightPages.createAddressSpace 0x1000).1
    let before := (eightPages.createAddressSpace 0x1000).2
    let after := before.call root ⟨0x400000, 0x200000, 7⟩
    let a : Word64 := 0x1000000400000
    after.1.ok = true ∧ a.toNat / kPageSize ≠ (0x400000 : Word64).toNat / kPageSize ∧
      before.translate root a = 0 ∧ after.2.translate root a = 0x200000 := by
  decide +kernel

end State
end IanOS.Paging
