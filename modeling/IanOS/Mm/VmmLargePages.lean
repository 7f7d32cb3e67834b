import IanOS.Mm.VmmGrowth

/-!
# Mapping and unmapping where there are large pages

`map_page` and `unmap_page` do not look at the bit of an entry that says that it maps a large page:
they take the memory of the large page for a table, read an entry there, and may write one.  For
addresses with no large entry on the way they do what they should; the main result says exactly when
they do for the others.
-/

namespace IanOS.Vmm

open LinkTree (walk Tree Within OnlyCell)
open Paging Option Paging.State

variable {s s' t : State} {root v phys flags : Word64} {n m : ℕ} {i j : Fin 512}
  {p q : List (Fin 512)} {pdpt pd : ℕ}

/-! ## Unmapping -/

/-- `unmap_page` changes the translation of its page only, writes only to tables, and succeeds if
and only if the page was mapped. -/
structure UnmapRespects (s : State) (root v : Word64) : Prop where
  others : ∀ a, pageNumber a ≠ pageNumber v →
    translate (unmapPage s root v).2 root a = translate s root a
  writes : ∀ a, (unmapPage s root v).2.words a ≠ s.words a → TableFrame s root (a / kPageSize)
  agrees : (unmapPage s root v).1.ok = true ↔ lookup s root v ≠ none

lemma unmapRespects_of_noLarge (h : Separate s root) (hsmall : NoLarge s root v) :
    UnmapRespects s root v := by
  have hlook := lookup_ne_none_iff hsmall
  obtain ⟨pt, hwalk, hpres, heq⟩ | ⟨habsent, error, heq⟩ := unmapPage_cases s root v
  · have hpt := tableAt_of_walk hsmall ⟨[ptIndex v], rfl⟩ (by simp) hwalk
    have hmod := tableAt_mod hpt
    refine ⟨fun a ha => ?_, fun a ha => ?_, ?_⟩
    · rw [heq]
      refine translate_congr (h.lookup_write (by simp [Inner]) hpt
        (written_setEntry hmod) fun hpre => ha ?_)
      exact (path_eq_iff.1 (hpre.eq_of_length (by simp [path]))).symm
    · rw [heq] at ha
      rw [frame_of_setEntry hmod ha]
      exact tableFrame_of_tableAt (by simp [Inner]) hpt
    · rw [heq, hlook, cellAt_of_tableAt hpt]
      simp [hpres]
  · refine ⟨fun a _ => by rw [heq], fun a ha => absurd (by rw [heq]) ha, ?_⟩
    have hcell : ¬Present (cellAt s root [pml4Index v, pdptIndex v, pdIndex v] (ptIndex v)) := by
      intro hpres
      obtain ⟨pt, hpt⟩ := exists_tableAt hpres
      rw [cellAt_of_walk (walk_of_tableAt hpt), ← cellAt_of_tableAt hpt] at habsent
      exact habsent hpres
    rw [heq, hlook]
    simp [hcell]

/-- The memory of the large page on the way, read as tables, ends in an entry of one of the tables,
and no other page is mapped through that entry. -/
def Masked (s : State) (root v : Word64) : Prop :=
  ∃ pt q, walk s.link (table root) [pml4Index v, pdptIndex v, pdIndex v] = some pt ∧
    Present (s.entry pt (ptIndex v)) ∧ Inner q ∧ tableAt s root q = some pt ∧
    ∀ a, q ++ [ptIndex v] <+: path a → pageNumber a ≠ pageNumber v → lookup s root a = none

lemma lookup_ne_none_of_not_noLarge (h : ¬NoLarge s root v) : lookup s root v ≠ none := by
  rw [NoLarge] at h
  push Not at h
  obtain ⟨q, j, hq, hlo, hhi, hpres, hlarge⟩ := h
  exact lookup_ne_none_of_large hq hlo hhi hpres hlarge

/-- Clearing an entry unmaps what is mapped through it. -/
lemma Separate.lookup_clear (h : Separate s root) (hq : Inner q) (hn : tableAt s root q = some n)
    (hpath : q ++ [i] <+: path v) : lookup (s.setEntry n i 0) root v = none := by
  have hmod := tableAt_mod hn
  obtain ⟨htable, hcell⟩ :=
    h.write_self hq hn (written_setEntry hmod)
  refine lookup_eq_none hpath htable ?_
  rw [hcell, entry_setEntry hmod hmod, if_pos ⟨rfl, rfl⟩]
  exact not_present_zero

/-- The first byte but one of the page of an address. -/
def secondByte (v : Word64) : Word64 := BitVec.ofNat 64 (v.toNat / kPageSize * kPageSize + 1)

lemma toNat_secondByte (v : Word64) :
    (secondByte v).toNat = v.toNat / kPageSize * kPageSize + 1 := by
  rw [secondByte, BitVec.toNat_ofNat, Nat.mod_eq_of_lt]
  simp only [kPageSize]
  omega

lemma pageNumber_secondByte (v : Word64) : pageNumber (secondByte v) = pageNumber v := by
  rw [pageNumber, pageNumber, toNat_secondByte]
  simp only [kPageSize]
  omega

/-- A page base and an offset that is odd add up to something odd. -/
lemma add_ne_zero_of_odd {b o : Word64} (hb : b.getLsbD 0 = false) (ho : o.getLsbD 0 = true) :
    b + o ≠ 0 := by
  intro hzero
  have hbit : (b + o).getLsbD 0 = true := by
    rw [BitVec.getLsbD_add (by norm_num), hb, ho, BitVec.carry_zero]
    decide
  rw [hzero] at hbit
  exact absurd hbit (by decide)

/-- The second byte of a page that is mapped does not translate to 0. -/
lemma translate_secondByte (h : lookup s root v ≠ none) : translate s root (secondByte v) ≠ 0 := by
  have hpath : path (secondByte v) = path v := path_eq_iff.2 (pageNumber_secondByte v)
  have hodd : (secondByte v).getLsbD 0 = true := by
    rw [BitVec.getLsbD, toNat_secondByte]
    simp [kPageSize]
    omega
  simp only [path, List.cons.injEq, and_true] at hpath
  obtain ⟨h0, h1, h2, h3⟩ := hpath
  rw [translate_eq]
  rw [lookup, decode] at h
  rw [lookup, decode, h0, h1, h2, h3]
  split_ifs at h ⊢
  all_goals first
    | exact absurd rfl h
    | exact add_ne_zero_of_odd (by simp [kAddrMask]) (by simp [hodd])

lemma unmapRespects_iff_of_large (h : Separate s root) (hlarge : ¬NoLarge s root v) :
    UnmapRespects s root v ↔ Masked s root v := by
  have hmap := lookup_ne_none_of_not_noLarge hlarge
  constructor
  · rintro ⟨hothers, hwrites, hagrees⟩
    obtain ⟨pt, hwalk, hpres, heq⟩ | ⟨-, error, heq⟩ := unmapPage_cases s root v
    swap
    · rw [heq] at hagrees
      exact absurd (hagrees.2 hmap) (by simp)
    rw [heq] at hothers hwrites
    have hmod : pt % kPageSize = 0 := walk_mod (table_mod root) hwalk
    -- the entry that is cleared was not 0, so it lies in a table
    have hchanged : (s.setEntry pt (ptIndex v) 0).words (pt + 8 * (ptIndex v : ℕ)) ≠
        s.words (pt + 8 * (ptIndex v : ℕ)) := by
      intro hsame
      have hzero : s.entry pt (ptIndex v) = 0 := by
        rw [State.entry, ← hsame]
        exact Function.update_self _ _ _
      rw [hzero] at hpres
      exact not_present_zero hpres
    obtain ⟨q, hq, htable⟩ := hwrites _ hchanged
    rw [frame_of_setEntry hmod hchanged, Nat.div_mul_cancel (Nat.dvd_of_mod_eq_zero hmod)] at htable
    refine ⟨pt, q, hwalk, hpres, hq, htable, fun a ha hpage => ?_⟩
    by_contra hsome
    have hsecond := pageNumber_secondByte a
    have hpath : path (secondByte a) = path a := path_eq_iff.2 hsecond
    have hkept := hothers (secondByte a) (by rwa [hsecond])
    refine translate_secondByte hsome ?_
    rw [← hkept, translate_eq, h.lookup_clear hq htable (by rwa [hpath]), getD_none]
  · rintro ⟨pt, q, hwalk, hpres, hq, htable, hnone⟩
    have hmod := tableAt_mod htable
    obtain ⟨pt', hwalk', -, heq⟩ | ⟨habsent, -⟩ := unmapPage_cases s root v
    swap
    · rw [cellAt_of_walk hwalk] at habsent
      exact absurd hpres habsent
    obtain rfl : pt = pt' := by
      rw [hwalk] at hwalk'
      exact some.inj hwalk'
    refine ⟨fun a ha => ?_, fun a ha => ?_, ?_⟩
    · rw [heq]
      by_cases hpre : q ++ [ptIndex v] <+: path a
      · refine translate_congr ?_
        rw [h.lookup_clear hq htable hpre, hnone a hpre ha]
      · exact translate_congr (h.lookup_write hq htable (written_setEntry hmod) hpre)
    · rw [heq] at ha
      rw [frame_of_setEntry hmod ha]
      exact tableFrame_of_tableAt hq htable
    · rw [heq]
      simp [hmap]

/-! ## Mapping -/

/-- `map_page` changes the translation of its page only, writes only to frames that hold tables
before or after it, succeeds only if the page was not mapped, and reports the page as mapped only if
it was. -/
structure MapRespects (s : State) (root v phys flags : Word64) : Prop where
  others : ∀ a, pageNumber a ≠ pageNumber v →
    translate (mapPage s root v phys flags).2 root a = translate s root a
  writes : ∀ a, (mapPage s root v phys flags).2.words a ≠ s.words a →
    TableFrame s root (a / kPageSize) ∨
    TableFrame (mapPage s root v phys flags).2 root (a / kPageSize)
  unmapped : (mapPage s root v phys flags).1.ok = true → lookup s root v = none
  mapped : (mapPage s root v phys flags).1.error = "virtual page is already mapped" →
    lookup s root v ≠ none

/-- How `map_page` may end for an address with no large entries on the way. -/
inductive Outcome (s : State) (root v phys flags : Word64) : MappingResult × State → Prop
  | failed (t : State) (error : String) (hgrown : Grown s root v t)
      (herror : error ≠ "virtual page is already mapped") :
      Outcome s root v phys flags (⟨false, error⟩, t)
  | duplicate (t : State) (pt : ℕ) (hgrown : Grown s root v t)
      (hpt : tableAt t root [pml4Index v, pdptIndex v, pdIndex v] = some pt)
      (hpresent : Present (t.entry pt (ptIndex v))) :
      Outcome s root v phys flags (⟨false, "virtual page is already mapped"⟩, t)
  | mapped (t : State) (pt : ℕ) (hgrown : Grown s root v t)
      (hpt : tableAt t root [pml4Index v, pdptIndex v, pdIndex v] = some pt)
      (habsent : ¬Present (t.entry pt (ptIndex v))) :
      Outcome s root v phys flags (⟨true, "ok"⟩, t.setEntry pt (ptIndex v) (leafEntry phys flags))

lemma mapPage_outcome (phys flags : Word64) (h : Separate s root) (hsmall : NoLarge s root v) :
    Outcome s root v phys flags (mapPage s root v phys flags) := by
  rw [mapPage]
  split_ifs with halign
  · exact .failed s _ (Grown.refl h hsmall) (by decide)
  obtain ⟨hgrown1, hpdpt⟩ := ensureTable_grown h hsmall ⟨_, rfl⟩ (by simp) tableAt_nil
  generalize ensureTable s (table root) (pml4Index v) = r1 at hgrown1 hpdpt ⊢
  obtain ⟨_ | pdpt, s1⟩ := r1
  · exact .failed s1 _ hgrown1 (by decide)
  dsimp only at hgrown1 hpdpt ⊢
  obtain ⟨hgrown2, hpd⟩ := ensureTable_grown hgrown1.separate hgrown1.small
    ⟨_, rfl⟩ (by simp) (hpdpt pdpt rfl)
  replace hgrown2 := hgrown1.trans hgrown2
  generalize ensureTable s1 pdpt (pdptIndex v) = r2 at hgrown2 hpd ⊢
  obtain ⟨_ | pd, s2⟩ := r2
  · exact .failed s2 _ hgrown2 (by decide)
  dsimp only at hgrown2 hpd ⊢
  obtain ⟨hgrown3, hpt⟩ := ensureTable_grown hgrown2.separate
    hgrown2.small ⟨_, rfl⟩ (by simp) (hpd pd rfl)
  replace hgrown3 := hgrown2.trans hgrown3
  generalize ensureTable s2 pd (pdIndex v) = r3 at hgrown3 hpt ⊢
  obtain ⟨_ | pt, s3⟩ := r3
  · exact .failed s3 _ hgrown3 (by decide)
  dsimp only at hgrown3 hpt ⊢
  split_ifs with hpres
  · exact .duplicate s3 pt hgrown3 (hpt pt rfl) hpres
  · exact .mapped s3 pt hgrown3 (hpt pt rfl) hpres

lemma mapRespects_of_noLarge (h : Separate s root) (hsmall : NoLarge s root v) :
    MapRespects s root v phys flags := by
  have hout := mapPage_outcome phys flags h hsmall
  generalize hr : mapPage s root v phys flags = r at hout
  cases hout with
  | failed t error hgrown herror =>
    refine ⟨fun a _ => ?_, fun a ha => ?_, ?_, ?_⟩
    · rw [hr]
      exact translate_congr (hgrown.same a)
    · rw [hr] at ha ⊢
      exact .inr (hgrown.writes a ha)
    · simp [hr]
    · simp [hr, herror]
  | duplicate t pt hgrown hpt hpres =>
    refine ⟨fun a _ => ?_, fun a ha => ?_, ?_, fun _ => ?_⟩
    · rw [hr]
      exact translate_congr (hgrown.same a)
    · rw [hr] at ha ⊢
      exact .inr (hgrown.writes a ha)
    · simp [hr]
    · rwa [← hgrown.same, lookup_ne_none_iff hgrown.small, cellAt_of_tableAt hpt]
  | mapped t pt hgrown hpt habsent =>
    have hinner : Inner [pml4Index v, pdptIndex v, pdIndex v] := by simp [Inner]
    have hmod := tableAt_mod hpt
    have hw : Written t (t.setEntry pt (ptIndex v) (leafEntry phys flags)) pt (ptIndex v) :=
      written_setEntry hmod
    refine ⟨fun a ha => ?_, fun a ha => ?_, fun _ => ?_, by simp [hr]⟩
    · rw [hr]
      refine translate_congr ((hgrown.separate.lookup_write hinner hpt hw fun hpre => ha ?_).trans
        (hgrown.same a))
      exact (path_eq_iff.1 (hpre.eq_of_length (by simp [path]))).symm
    · rw [hr] at ha ⊢
      -- the tables are the same before and after the entry is written
      have hframe (f : ℕ) (hf : TableFrame t root f) :
          TableFrame (t.setEntry pt (ptIndex v) (leafEntry phys flags)) root f := by
        obtain ⟨q, hq, htable⟩ := hf
        refine ⟨q, hq, ?_⟩
        rw [(hgrown.separate.write hinner hpt hw hq fun hpre => ?_).1, htable]
        have hlen := hpre.length_le
        simp only [Inner, List.length_append, List.length_cons, List.length_nil] at hq hlen
        omega
      by_cases hleaf : (t.setEntry pt (ptIndex v) (leafEntry phys flags)).words a = t.words a
      · exact .inr (hframe _ (hgrown.writes a (by rwa [← hleaf])))
      · rw [frame_of_setEntry hmod hleaf]
        exact .inr (hframe _ (tableFrame_of_tableAt hinner hpt))
    · by_contra hsome
      rw [← hgrown.same] at hsome
      have hpres := (lookup_ne_none_iff hgrown.small).1 hsome
      rw [cellAt_of_tableAt hpt] at hpres
      exact habsent hpres

/-! ### Where there is a large entry on the way -/

/-- The first two entries on the way to an address that is mapped are present. -/
lemma links_of_lookup (h : lookup s root v ≠ none) : ∃ pdpt pd,
    s.link (table root) (pml4Index v) = some pdpt ∧ s.link pdpt (pdptIndex v) = some pd := by
  have h0 : Present (cellAt s root [] (pml4Index v)) := by
    by_contra habsent
    exact h (lookup_eq_none ⟨[pdptIndex v, pdIndex v, ptIndex v], rfl⟩ tableAt_nil habsent)
  have hpdpt : tableAt s root [pml4Index v] = some (table (cellAt s root [] (pml4Index v))) :=
    tableAt_of_leads ⟨h0, by simp⟩
  have h1 : Present (cellAt s root [pml4Index v] (pdptIndex v)) := by
    by_contra habsent
    exact h (lookup_eq_none ⟨[pdIndex v, ptIndex v], rfl⟩ hpdpt habsent)
  rw [cellAt_of_tableAt tableAt_nil] at h0 hpdpt
  rw [cellAt_of_tableAt hpdpt] at h1
  exact ⟨_, _, by rw [link_eq, if_pos h0], by rw [link_eq, if_pos h1]⟩

lemma ensureTable_of_link (h : s.link n i = some m) : ensureTable s n i = (some m, s) := by
  rw [ensureTable_eq]
  obtain ⟨hnone, -⟩ | ⟨hnone, -⟩ | ⟨m', hm', heq⟩ := s.ensureTable_cases n i 0
  · rw [h] at hnone
    cases hnone
  · rw [h] at hnone
    cases hnone
  · rw [heq, ← hm', h]

/-- `map_page` once it has found the first two tables. -/
lemma mapPage_of_links (flags : Word64) (halign : ¬(v &&& 0xfff ≠ 0 ∨ phys &&& 0xfff ≠ 0))
    (hpdpt : s.link (table root) (pml4Index v) = some pdpt)
    (hpd : s.link pdpt (pdptIndex v) = some pd) :
    mapPage s root v phys flags = match (ensureTable s pd (pdIndex v)).1 with
      | none => (⟨false, "failed to allocate PT"⟩, (ensureTable s pd (pdIndex v)).2)
      | some pt =>
        if (ensureTable s pd (pdIndex v)).2.entry pt (ptIndex v) &&& PagePresent ≠ 0 then
          (⟨false, "virtual page is already mapped"⟩, (ensureTable s pd (pdIndex v)).2)
        else
          (⟨true, "ok"⟩, (ensureTable s pd (pdIndex v)).2.setEntry pt (ptIndex v)
            (leafEntry phys flags)) := by
  rw [mapPage, if_neg halign, ensureTable_of_link hpdpt]
  dsimp only
  rw [ensureTable_of_link hpd]
  rfl

/-- Writes outside the tables leave the tables as they are. -/
lemma tableAt_congr (h : ∀ q m j, Inner q → tableAt s root q = some m → s'.entry m j = s.entry m j)
    (hq : Inner q) : tableAt s' root q = tableAt s root q := by
  rw [tableAt, tableAt]
  refine congrArg (Option.map Prod.snd) (LinkTree.walk_congr fun a j b hab node hnode => ?_)
  have htable : tableAt s root a = some node.2 := by rw [tableAt, hnode, Option.map_some]
  rw [link, link, h a node.2 j (hq.within a j b hab) htable]

/-- A call that fails and writes nothing does as it should for a page that is mapped. -/
lemma mapRespects_of_words (hmap : lookup s root v ≠ none)
    (hok : (mapPage s root v phys flags).1.ok = false)
    (hwords : (mapPage s root v phys flags).2.words = s.words) :
    MapRespects s root v phys flags where
  others a _ := translate_congr (lookup_congr fun q j _ => cellAt_of_words hwords q j)
  writes a ha := absurd (congrFun hwords a) ha
  unmapped h := by simp [hok] at h
  mapped _ := hmap

/-- A table hung into the memory of a large page is a write outside the tables, or the page that is
mapped already is mapped again. -/
lemma not_mapRespects_of_hang (h : Separate s root)
    (halign : ¬(v &&& 0xfff ≠ 0 ∨ phys &&& 0xfff ≠ 0)) (hmapped : lookup s root v ≠ none)
    (hpdpt : s.link (table root) (pml4Index v) = some pdpt)
    (hpd : s.link pdpt (pdptIndex v) = some pd) (hpage : s.pmm.allocatePage.2 ≠ 0)
    (heq : ensureTable s pd (pdIndex v) =
      (some (table ((s.hang pd (pdIndex v) 0).entry pd (pdIndex v))), s.hang pd (pdIndex v) 0))
    (hempty : s.link pd (pdIndex v) = none) : ¬MapRespects s root v phys flags := by
  intro hrespects
  have hg := fresh_allocatePage hpage
  have hmod : pd % kPageSize = 0 := link_mod hpd
  have hentry :
      (s.hang pd (pdIndex v) 0).entry pd (pdIndex v) = tableEntry s.pmm.allocatePage.2 0 := by
    rw [entry_hang hg hmod hmod, if_pos ⟨rfl, rfl⟩]
    rfl
  have htable : table ((s.hang pd (pdIndex v) 0).entry pd (pdIndex v)) = s.pmm.allocatePage.2 := by
    rw [hentry]
    exact table_entry hg
  have hmap := mapPage_of_links flags halign hpdpt hpd
  rw [heq, htable] at hmap
  dsimp only at hmap
  by_cases hpres :
    (s.hang pd (pdIndex v) 0).entry s.pmm.allocatePage.2 (ptIndex v) &&& PagePresent ≠ 0
  · -- the new page was the one taken for a table: what was written is not in a table
    have hself : s.pmm.allocatePage.2 = pd := by
      by_contra hne
      rw [entry_hang hg hmod hg.aligned, if_neg fun hc => hne hc.1, if_pos rfl] at hpres
      exact hpres (by decide)
    rw [if_pos hpres] at hmap
    have hsame {q : List (Fin 512)} (hq : Inner q) :
        tableAt (s.hang pd (pdIndex v) 0) root q = tableAt s root q := by
      refine tableAt_congr (fun q m j hq hm => ?_) hq
      have hne : m ≠ s.pmm.allocatePage.2 := hg.ne (h.used q m hq hm)
      rw [entry_hang hg hmod (tableAt_mod hm),
        if_neg fun hc => hne (hc.1.trans hself.symm), if_neg hne]
    have hnot {q : List (Fin 512)} (hq : Inner q) : tableAt s root q ≠ some pd := fun hm =>
      h.used q pd hq hm (hself ▸ hg.free)
    have hchanged : (s.hang pd (pdIndex v) 0).words (pd + 8 * (pdIndex v : ℕ)) ≠
        s.words (pd + 8 * (pdIndex v : ℕ)) := by
      intro hword
      have hold : s.entry pd (pdIndex v) = tableEntry s.pmm.allocatePage.2 0 :=
        hword.symm.trans hentry
      rw [link_eq, hold, if_pos (present_tableEntry _ 0)] at hempty
      cases hempty
    have hframe : (pd + 8 * (pdIndex v : ℕ)) / kPageSize * kPageSize = pd := by
      simp only [kPageSize] at hmod ⊢
      omega
    have hwrites := hrespects.writes (pd + 8 * (pdIndex v : ℕ))
    rw [hmap] at hwrites
    obtain ⟨q, hq, hm⟩ | ⟨q, hq, hm⟩ := hwrites hchanged
    · rw [hframe] at hm
      exact hnot hq hm
    · rw [hframe, hsame hq] at hm
      exact hnot hq hm
  · rw [if_neg hpres] at hmap
    exact hmapped (hrespects.unmapped (by rw [hmap]))

/-- A page that is mapped through a large entry: `map_page` does as it should only if it does
nothing. -/
lemma mapRespects_iff_of_large (h : Separate s root) (hlarge : ¬NoLarge s root v)
    (halign : ¬(v &&& 0xfff ≠ 0 ∨ phys &&& 0xfff ≠ 0)) :
    MapRespects s root v phys flags ↔
      Present (s.cellAt (table root) [pml4Index v, pdptIndex v, pdIndex v] (ptIndex v)) ∨
        ¬Present (s.cellAt (table root) [pml4Index v, pdptIndex v] (pdIndex v)) ∧
          s.pmm.allocatePage.2 = 0 := by
  have hmapped := lookup_ne_none_of_not_noLarge hlarge
  obtain ⟨pdpt, pd, hpdpt, hpd⟩ := links_of_lookup hmapped
  have hwalk : walk s.link (table root) [pml4Index v, pdptIndex v] = some pd := by
    simp only [walk, hpdpt, hpd, bind_some]
  have hlink := link_eq_none_iff (i := pdIndex v) hwalk
  have hwalk3 : walk s.link (table root) [pml4Index v, pdptIndex v, pdIndex v] =
      s.link pd (pdIndex v) := by
    simp only [walk, hpdpt, hpd, bind_some, bind_fun_some]
  have hmap := mapPage_of_links flags halign hpdpt hpd
  have hcases := s.ensureTable_cases pd (pdIndex v) 0
  rw [← ensureTable_eq] at hcases
  obtain ⟨hempty, hpage, heq⟩ | ⟨hempty, hpage, heq⟩ | ⟨pt, hpt, heq⟩ := hcases
  · rw [heq] at hmap
    refine iff_of_true (mapRespects_of_words hmapped ?_ ?_) (.inr ⟨hlink.1 hempty, hpage⟩)
    · rw [hmap]
    · rw [hmap]
  · refine iff_of_false (not_mapRespects_of_hang h halign hmapped hpdpt hpd hpage heq hempty) ?_
    rintro (hpres | ⟨-, hzero⟩)
    · rw [Paging.State.cellAt_of_none (hwalk3.trans hempty)] at hpres
      exact not_present_zero hpres
    · exact hpage hzero
  rw [cellAt_of_walk (hwalk3.trans hpt)]
  rw [heq] at hmap
  dsimp only at hmap
  by_cases hpres : Present (s.entry pt (ptIndex v))
  · have hbit : s.entry pt (ptIndex v) &&& PagePresent ≠ 0 := hpres
    rw [if_pos hbit] at hmap
    refine iff_of_true (mapRespects_of_words hmapped ?_ ?_) (.inl hpres)
    · rw [hmap]
    · rw [hmap]
  · have hbit : ¬s.entry pt (ptIndex v) &&& PagePresent ≠ 0 := hpres
    rw [if_neg hbit] at hmap
    refine iff_of_false (fun hrespects => hmapped (hrespects.unmapped (by rw [hmap]))) ?_
    rintro (hp | ⟨habsent, -⟩)
    · exact hpres hp
    · rw [hlink.2 habsent] at hpt
      cases hpt

/-- A call with an address that is not aligned does nothing. -/
lemma mapRespects_of_unaligned (h : v &&& 0xfff ≠ 0 ∨ phys &&& 0xfff ≠ 0) :
    MapRespects s root v phys flags := by
  have hmap : mapPage s root v phys flags = (⟨false, "unaligned map_page address"⟩, s) := by
    rw [mapPage, if_pos h]
  refine ⟨fun a _ => by rw [hmap], fun a ha => absurd (by rw [hmap]) ha, ?_, ?_⟩
  · simp [hmap]
  · simp [hmap]

/-! ## The operations and large pages -/

/-- In a state whose tables are separate frames in use, `unmap_page` does what it should exactly for
the addresses with no large entry on the way, and for those where the memory of the large page, read
as tables, ends in a table that maps nothing else there.  `map_page` does what it should exactly for
the addresses with no large entry on the way, and where it does nothing: the addresses are not
aligned, the memory of the large page looks like an entry that is present, or there is no page for
the table it thinks is missing. -/
theorem large_pages_respected_iff (s : State) (root : Word64) (h : Separate s root)
    (v phys flags : Word64) :
    (UnmapRespects s root v ↔ NoLarge s root v ∨ Masked s root v) ∧
    (MapRespects s root v phys flags ↔
      NoLarge s root v ∨ (v &&& 0xfff ≠ 0 ∨ phys &&& 0xfff ≠ 0) ∨
        Present (s.cellAt (table root) [pml4Index v, pdptIndex v, pdIndex v] (ptIndex v)) ∨
        ¬Present (s.cellAt (table root) [pml4Index v, pdptIndex v] (pdIndex v)) ∧
          s.pmm.allocatePage.2 = 0) := by
  by_cases hsmall : NoLarge s root v
  · exact ⟨iff_of_true (unmapRespects_of_noLarge h hsmall) (.inl hsmall),
      iff_of_true (mapRespects_of_noLarge h hsmall) (.inl hsmall)⟩
  constructor
  · rw [unmapRespects_iff_of_large h hsmall, or_iff_right hsmall]
  rw [or_iff_right hsmall]
  by_cases haligned : v &&& 0xfff ≠ 0 ∨ phys &&& 0xfff ≠ 0
  · exact iff_of_true (mapRespects_of_unaligned haligned) (.inl haligned)
  · rw [mapRespects_iff_of_large h hsmall haligned, or_iff_right haligned]

/-- A root with one directory pointer table, which maps a page of 1 GiB and has a directory for the
next gigabyte. -/
def bigPages : State where
  pmm := eightPages.pmm
  words a := if a = 0x1000 then 0x2003 else if a = 0x2000 then 0x40000083
    else if a = 0x2008 then 0x3003 else 0

/-- The entries of the three tables. -/
lemma entry_bigPages (i : Fin 512) :
    bigPages.entry 0x1000 i = (if i = 0 then 0x2003 else 0) ∧
    bigPages.entry 0x2000 i = (if i = 0 then 0x40000083 else if i = 1 then 0x3003 else 0) ∧
    bigPages.entry 0x3000 i = 0 := by
  have hi := i.isLt
  simp only [State.entry, bigPages, Fin.ext_iff]
  refine ⟨?_, ?_, ?_⟩ <;> split_ifs <;> first | rfl | (exfalso; simp at *; omega)

lemma tableAt_bigPages (p : List (Fin 512)) : tableAt bigPages 0x1000 p =
    if p = [] then some 0x1000 else if p = [0] then some 0x2000
    else if p = [0, 1] then some 0x3000 else none := by
  induction p using List.reverseRecOn with
  | nil => rw [tableAt_nil, if_pos rfl, show table 0x1000 = 0x1000 by decide]
  | append_singleton p i ih =>
    obtain ⟨hroot, hpdpt, hpd⟩ := entry_bigPages i
    rw [tableAt_concat]
    split_ifs at ih with h0 h1 h2
    · subst h0
      rw [cellAt_of_tableAt ih, hroot]
      by_cases hi : i = 0
      · subst hi
        decide
      · simp [hi, Leads, Present]
    · subst h1
      rw [cellAt_of_tableAt ih, hpdpt]
      by_cases hi : i = 0
      · subst hi
        decide
      by_cases hi' : i = 1
      · subst hi'
        decide
      · simp [hi, hi', Leads, Present]
    · subst h2
      rw [cellAt_of_tableAt ih, hpd, if_neg not_leads_zero]
      simp
    · rw [cellAt_of_none ih, if_neg not_leads_zero]
      rcases p with _ | ⟨a, _ | ⟨b, p⟩⟩
      · exact absurd rfl h0
      · simp at h1
        simp [h1]
      · simp

lemma separate_bigPages : Separate bigPages 0x1000 := by
  refine ⟨fun p q n _ _ hp hq => ?_, fun p n _ hp => ?_⟩
  · rw [tableAt_bigPages] at hp hq
    split_ifs at hp hq <;> grind
  · rw [tableAt_bigPages] at hp
    rw [PhysicalMemoryManager.mem_freeSet]
    split_ifs at hp <;> (obtain rfl := some.inj hp; decide)

/-- An address of the second gigabyte has no large entry on the way, and is mapped as it should. -/
theorem large_pages_respected_second_gigabyte :
    MapRespects bigPages 0x1000 0x40000000 0x200000 3 := by
  refine (large_pages_respected_iff bigPages 0x1000 separate_bigPages 0x40000000 0x200000 3).2.2
    (.inl fun q j hq hlo hhi _ => ?_)
  rw [concat_isPrefix_path_iff] at hq
  obtain ⟨rfl, rfl⟩ | ⟨rfl, rfl⟩ | ⟨rfl, rfl⟩ | ⟨rfl, rfl⟩ := hq
  · simp at hlo
  · decide
  · decide
  · simp at hhi

/-- The first page is mapped by the page of 1 GiB.  `unmap_page` reports that it is not mapped, and
`map_page` maps it again: it writes an entry into the memory of the large page, and the translation
stays as it was. -/
theorem large_page_not_respected :
    translate bigPages 0x1000 0x123 = 0x40000123 ∧
      (unmapPage bigPages 0x1000 0).1 = ⟨false, "PD entry absent"⟩ ∧
      (mapPage bigPages 0x1000 0 0x200000 3).1 = ⟨true, "ok"⟩ ∧
      (mapPage bigPages 0x1000 0 0x200000 3).2.words 0x40000000 = 0x100003 ∧
      translate (mapPage bigPages 0x1000 0 0x200000 3).2 0x1000 0x123 = 0x40000123 ∧
      ¬UnmapRespects bigPages 0x1000 0 ∧ ¬MapRespects bigPages 0x1000 0 0x200000 3 := by
  have hlookup : lookup bigPages 0x1000 0 ≠ none := by decide +kernel
  have hunmap : (unmapPage bigPages 0x1000 0).1 = ⟨false, "PD entry absent"⟩ := by decide +kernel
  have hmap : (mapPage bigPages 0x1000 0 0x200000 3).1 = ⟨true, "ok"⟩ := by decide +kernel
  refine ⟨by decide +kernel, hunmap, hmap, by decide +kernel, by decide +kernel, ?_, ?_⟩
  · intro hrespects
    have hok := hrespects.agrees.2 hlookup
    cases hok
  · intro hrespects
    exact hlookup (hrespects.unmapped (by rw [hmap]))

end IanOS.Vmm
