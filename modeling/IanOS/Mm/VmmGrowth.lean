import IanOS.Mm.VmmTables

/-!
# New tables for the kernel

What `ensure_table` does on the way to an address with no large entry: it hangs in a table that maps
nothing.  The tables stay separate, every translation stays as it was, and what is written lies in
tables (`Grown`).
-/

namespace IanOS.Vmm

open LinkTree (walk Tree Within OnlyCell)
open Paging List BitVec Paging.State

variable {s s' t : State} {root v flags : Word64} {n m : ℕ} {i j : Fin 512} {p q : List (Fin 512)}

/-! ## Growing -/

/-- The table the kernel's `ensure_table` makes is that of an address space without flags. -/
lemma ensureTable_eq (s : State) (n : ℕ) (i : Fin 512) :
    ensureTable s n i = s.ensureTable n i 0 := by
  have hflags (x : Word64) : x ||| PagePresent ||| PageWrite ||| (0 &&& Paging.PageUser) =
      x ||| kDefaultTableFlags := by
    rw [kDefaultTableFlags, show (0 : Word64) &&& Paging.PageUser = 0#64 by decide, or_zero,
      BitVec.or_assoc]
  rw [ensureTable, State.ensureTable]
  simp only [hflags]

lemma not_large_tableEntry {g : ℕ} (hg : g % kPageSize = 0) : ¬Large (tableEntry g 0) := by
  rw [Large, show largeBit = twoPow 64 7 by decide, Paging.and_twoPow_ne_zero (by norm_num),
    tableEntry, getLsbD_or, getLsbD_or, getLsbD_or,
    Paging.getLsbD_ofNat_page hg (by norm_num)]
  simp [PagePresent, PageWrite]

/-- The state has grown by tables on the way to `v`, which map nothing. -/
structure Grown (s : State) (root v : Word64) (s' : State) : Prop where
  separate : Separate s' root
  small : NoLarge s' root v
  same : ∀ a, lookup s' root a = lookup s root a
  tables : ∀ p n, Inner p → tableAt s root p = some n → tableAt s' root p = some n
  writes : ∀ a, s'.words a ≠ s.words a → TableFrame s' root (a / kPageSize)

lemma Grown.refl (h : Separate s root) (hsmall : NoLarge s root v) : Grown s root v s where
  separate := h
  small := hsmall
  same _ := rfl
  tables _ _ _ hn := hn
  writes _ ha := absurd rfl ha

lemma Grown.trans (h : Grown s root v s') (h' : Grown s' root v t) : Grown s root v t where
  separate := h'.separate
  small := h'.small
  same a := (h'.same a).trans (h.same a)
  tables p n hp hn := h'.tables p n hp (h.tables p n hp hn)
  writes a ha := by
    by_cases hfirst : s'.words a = s.words a
    · exact h'.writes a (by rwa [hfirst])
    · obtain ⟨p, hp, htable⟩ := h.writes a hfirst
      exact ⟨p, hp, h'.tables p _ hp htable⟩

lemma tableAt_of_words (h : s'.words = s.words) (p : List (Fin 512)) :
    tableAt s' root p = tableAt s root p := by
  have hlink : link s' = link s := by
    funext node i
    rw [link, link, State.entry, State.entry, h]
  rw [tableAt, tableAt, hlink]

lemma cellAt_of_words (h : s'.words = s.words) (p : List (Fin 512)) (i : Fin 512) :
    cellAt s' root p i = cellAt s root p i := by
  rw [cellAt, cellAt, tableAt_of_words h]
  simp only [State.entry, h]

/-- Asking for a page in vain changes no table. -/
lemma Grown.of_words (h : Separate s root) (hsmall : NoLarge s root v) (hwords : s'.words = s.words)
    (hfree : s'.pmm.freeSet ⊆ s.pmm.freeSet) : Grown s root v s' where
  separate :=
    { distinct := fun p q n hp hq hpn hqn => by
        rw [tableAt_of_words hwords] at hpn hqn
        exact h.distinct p q n hp hq hpn hqn
      used := fun p n hp hpn hmem => by
        rw [tableAt_of_words hwords] at hpn
        exact h.used p n hp hpn (hfree hmem) }
  small q j hq hlo hhi := by
    rw [cellAt_of_words hwords]
    exact hsmall q j hq hlo hhi
  same a := lookup_congr fun q j _ => cellAt_of_words hwords q j
  tables p n _ hn := by rwa [tableAt_of_words hwords]
  writes a ha := absurd (congrFun hwords a) ha

/-- There is no table behind an entry that is not present. -/
lemma not_isPrefix_of_tableAt (hempty : ¬Present (cellAt s root p i))
    (hm : tableAt s root q = some m) : ¬p ++ [i] <+: q := by
  rintro ⟨r, rfl⟩
  have hleads := leads_of_tableAt hm ⟨r, rfl⟩
  exact hempty hleads.1

section Hang

variable (h : Separate s root) (hp : p.length ≤ 2) (hn : tableAt s root p = some n)
  (hempty : ¬Present (cellAt s root p i)) (hpage : s.pmm.allocatePage.2 ≠ 0)

include h hp hn hpage

lemma tableAt_hang_self : cellAt (s.hang n i 0) root p i = tableEntry s.pmm.allocatePage.2 0 ∧
    tableAt (s.hang n i 0) root (p ++ [i]) = some s.pmm.allocatePage.2 ∧
    ∀ j, cellAt (s.hang n i 0) root (p ++ [i]) j = 0 := by
  have hg := fresh_allocatePage hpage
  have hmod := tableAt_mod hn
  have hinner : Inner p := by rw [Inner]; omega
  have hne : n ≠ s.pmm.allocatePage.2 := hg.ne (h.used p n hinner hn)
  have hw : Written s (s.hang n i 0) n i := written_hang hg hmod
  obtain ⟨-, hcell⟩ := h.write_self hinner hn hw
  rw [entry_hang hg hmod hmod, if_pos ⟨rfl, rfl⟩] at hcell
  have htable : tableAt (s.hang n i 0) root (p ++ [i]) = some s.pmm.allocatePage.2 := by
    have hleads : Leads (cellAt (s.hang n i 0) root p i) p.length := by
      rw [hcell]
      exact ⟨present_tableEntry _ 0, fun _ => not_large_tableEntry hg.aligned⟩
    rw [tableAt_of_leads hleads, hcell]
    exact congrArg some (table_entry hg)
  refine ⟨hcell, htable, fun j => ?_⟩
  rw [cellAt_of_tableAt htable, entry_hang hg hmod hg.aligned,
    if_neg fun hc => hne hc.1.symm, if_pos rfl]

/-- The tables of a state to which a new table has been added. -/
lemma tableAt_hang (hq : Inner q) : tableAt (s.hang n i 0) root q =
    if q = p ++ [i] then some s.pmm.allocatePage.2
    else if p ++ [i] <+: q then none else tableAt s root q := by
  obtain ⟨-, htable, hbare⟩ := tableAt_hang_self h hp hn hpage
  have hg := fresh_allocatePage hpage
  have hinner : Inner p := by rw [Inner]; omega
  have hw : Written s (s.hang n i 0) n i := written_hang hg (tableAt_mod hn)
  split_ifs with hself hbelow
  · rw [hself, htable]
  · obtain ⟨_ | ⟨k, r⟩, rfl⟩ := hbelow
    · simp at hself
    -- the new table has no entries, so nothing is below it
    by_contra hsome
    obtain ⟨m, hm⟩ := Option.ne_none_iff_exists'.1 hsome
    have hleads := leads_of_tableAt hm (q := p ++ [i]) (j := k) ⟨r, by simp⟩
    rw [hbare] at hleads
    exact not_leads_zero hleads
  · exact (h.write hinner hn hw hq hbelow).1

/-- A table is the new one or one of the old. -/
lemma tableAt_hang_cases (hq : Inner q) (hm : tableAt (s.hang n i 0) root q = some m) :
    (q = p ++ [i] ∧ m = s.pmm.allocatePage.2) ∨ tableAt s root q = some m := by
  rw [tableAt_hang h hp hn hpage hq] at hm
  split_ifs at hm with hself
  · exact .inl ⟨hself, (Option.some.inj hm).symm⟩
  · exact .inr hm

lemma separate_hang : Separate (s.hang n i 0) root := by
  have hg := fresh_allocatePage hpage
  have hfresh {q : List (Fin 512)} (hq : Inner q) :
      tableAt s root q ≠ some s.pmm.allocatePage.2 := fun hm => h.used q _ hq hm hg.free
  refine ⟨fun a b m ha hb ham hbm => ?_, fun a m ha ham hmem => ?_⟩
  · obtain ⟨rfl, rfl⟩ | hma := tableAt_hang_cases h hp hn hpage ha ham
    · obtain ⟨rfl, -⟩ | hmb := tableAt_hang_cases h hp hn hpage hb hbm
      · rfl
      · exact absurd hmb (hfresh hb)
    · obtain ⟨rfl, rfl⟩ | hmb := tableAt_hang_cases h hp hn hpage hb hbm
      · exact absurd hma (hfresh ha)
      · exact h.distinct a b m ha hb hma hmb
  · obtain ⟨rfl, rfl⟩ | hma := tableAt_hang_cases h hp hn hpage ha ham
    · exact hg.taken hmem
    · exact h.used a m ha hma (s.freeSet_allocatePage hmem)

include hempty

lemma tableAt_hang_old (hq : Inner q) (hm : tableAt s root q = some m) :
    tableAt (s.hang n i 0) root q = some m := by
  have hoff := not_isPrefix_of_tableAt hempty hm
  have hne : q ≠ p ++ [i] := by
    rintro rfl
    exact hoff (prefix_refl _)
  rw [tableAt_hang h hp hn hpage hq, if_neg hne, if_neg hoff, hm]

/-- A new table maps nothing. -/
lemma lookup_hang (a : Word64) : lookup (s.hang n i 0) root a = lookup s root a := by
  obtain ⟨-, htable, hbare⟩ := tableAt_hang_self h hp hn hpage
  have hinner : Inner p := by rw [Inner]; omega
  by_cases hpre : p ++ [i] <+: path a
  · obtain ⟨_ | ⟨k, r⟩, hr⟩ := hpre
    · have hlen := congrArg length hr
      simp only [append_nil, length_append, path, length_cons, length_nil] at hlen
      omega
    · have hnext : (p ++ [i]) ++ [k] <+: path a := ⟨r, by rw [← hr]; simp⟩
      rw [lookup_eq_none hnext htable (by rw [hbare]; exact Paging.not_present_zero),
        lookup_eq_none ((prefix_append (p ++ [i]) [k]).trans hnext) hn hempty]
  · exact h.lookup_write hinner hn (written_hang (fresh_allocatePage hpage) (tableAt_mod hn)) hpre

lemma noLarge_hang (hsmall : NoLarge s root v) : NoLarge (s.hang n i 0) root v := by
  intro q j hq hlo hhi hpres
  have hg := fresh_allocatePage hpage
  obtain ⟨hcell, -, hbare⟩ := tableAt_hang_self (i := i) h hp hn hpage
  have hinner : Inner p := by rw [Inner]; omega
  have hqinner : Inner q := by rw [Inner]; omega
  by_cases hself : q = p ∧ j = i
  · obtain ⟨rfl, rfl⟩ := hself
    rw [hcell]
    exact not_large_tableEntry hg.aligned
  obtain ⟨m, hm⟩ := exists_tableAt hpres
  obtain ⟨rfl, -⟩ | hold := tableAt_hang_cases h hp hn hpage hqinner hm
  · rw [hbare] at hpres
    exact absurd hpres Paging.not_present_zero
  have hw : Written s (s.hang n i 0) n i := written_hang hg (tableAt_mod hn)
  have hsame := (h.write hinner hn hw hqinner (not_isPrefix_of_tableAt hempty hold)).2 j
    (not_and_or.1 hself)
  rw [hsame] at hpres ⊢
  exact hsmall q j hq hlo hhi hpres

lemma grown_hang (hsmall : NoLarge s root v) : Grown s root v (s.hang n i 0) where
  separate := separate_hang h hp hn hpage
  small := noLarge_hang h hp hn hempty hpage hsmall
  same := lookup_hang h hp hn hempty hpage
  tables q m hq hm := tableAt_hang_old h hp hn hempty hpage hq hm
  writes a ha := by
    have hg := fresh_allocatePage hpage
    have hinner : Inner p := by rw [Inner]; omega
    have hnew : Inner (p ++ [i]) := by
      rw [Inner, length_append, length_singleton]
      omega
    by_cases hclear : s.pmm.allocatePage.2 ≤ a ∧ a < s.pmm.allocatePage.2 + kPageSize
    · have hframe : a / kPageSize = s.pmm.allocatePage.2 / kPageSize := by
        have hmod := hg.aligned
        simp only [kPageSize] at hmod hclear ⊢
        omega
      rw [hframe]
      exact tableFrame_of_tableAt hnew (tableAt_hang_self h hp hn hpage).2.1
    · have hwords : (State.clearPage { s with pmm := s.pmm.allocatePage.1 }
          s.pmm.allocatePage.2).words a = s.words a := if_neg hclear
      rw [← hwords] at ha
      rw [frame_of_setEntry (tableAt_mod hn) ha]
      exact tableFrame_of_tableAt hinner (tableAt_hang_old h hp hn hempty hpage hinner hn)

end Hang

/-- `ensure_table` on the way to an address with no large entries. -/
lemma ensureTable_grown (h : Separate s root) (hsmall : NoLarge s root v)
    (hpath : p ++ [i] <+: path v) (hp : p.length ≤ 2) (hn : tableAt s root p = some n) :
    Grown s root v (ensureTable s n i).2 ∧
      ∀ m ∈ (ensureTable s n i).1, tableAt (ensureTable s n i).2 root (p ++ [i]) = some m := by
  have hmod := tableAt_mod hn
  have hcell : cellAt s root p i = s.entry n i := cellAt_of_tableAt hn
  rw [ensureTable_eq]
  obtain ⟨-, hpage, heq⟩ | ⟨hempty, hpage, heq⟩ | ⟨m, hm, heq⟩ := s.ensureTable_cases n i 0
  · rw [heq]
    exact ⟨Grown.of_words h hsmall rfl s.freeSet_allocatePage, by simp⟩
  · have habsent : ¬Present (cellAt s root p i) := by
      rw [hcell]
      intro hpres
      rw [link_eq, if_pos hpres] at hempty
      cases hempty
    have hg := fresh_allocatePage hpage
    rw [heq]
    refine ⟨grown_hang h hp hn habsent hpage hsmall, fun m hm => ?_⟩
    rw [entry_hang hg hmod hmod, if_pos ⟨rfl, rfl⟩, table_entry hg] at hm
    rw [(tableAt_hang_self h hp hn hpage).2.1, Option.some.inj hm]
  · rw [heq]
    refine ⟨Grown.refl h hsmall, fun m' hm' => ?_⟩
    rw [link_eq] at hm
    split_ifs at hm with hpres
    rw [← hcell] at hm hpres
    have hleads : Leads (cellAt s root p i) p.length :=
      ⟨hpres, fun hlo => hsmall p i hpath hlo hp hpres⟩
    rw [tableAt_of_leads hleads, hm, Option.some.inj hm']

end IanOS.Vmm
