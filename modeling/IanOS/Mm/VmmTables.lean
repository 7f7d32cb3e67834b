import IanOS.Mm.AddressSpacePermissions
import IanOS.Mm.Vmm

/-!
# The kernel's tables as `translate` reads them

`translate` stops at an entry that maps a large page.  The tables are those it finds before that
(`tableAt`), and `cellAt` is the view of them as a function from paths to entries, from which the
physical address of an address can be read off (`lookup`).

Results about writes assume that the tables are separate frames, none of which is on the allocator's
list of free pages (`Separate`); large pages may map any memory, tables included.  Then a write to
an entry changes what is mapped through that entry and nothing else.
-/

namespace IanOS.Vmm

open LinkTree (walk Tree Within OnlyCell)
open Paging List Option Paging.State

variable {s s' : State} {root v : Word64} {n m d : ℕ} {i j : Fin 512}
  {p q : List (Fin 512)} {e : Word64}

/-! ## The tables `translate` finds -/

/-- The entry maps a large page, if it is at the second or third level. -/
def Large (e : Word64) : Prop := e &&& largeBit ≠ 0
  deriving Decidable

lemma large_iff : Large e ↔ e &&& largeBit ≠ 0 := Iff.rfl

/-- The entry, in a table at the given depth below the root, leads to another table. -/
def Leads (e : Word64) (depth : ℕ) : Prop := Present e ∧ (1 ≤ depth → ¬Large e)
  deriving Decidable

lemma not_leads_zero : ¬Leads 0 d := fun h => not_present_zero h.1

/-- The table behind an entry; a table comes with its depth below the root. -/
def link (s : State) (node : ℕ × ℕ) (i : Fin 512) : Option (ℕ × ℕ) :=
  if Leads (s.entry node.2 i) node.1 then some (node.1 + 1, table (s.entry node.2 i)) else none

/-- The table at a path below the root. -/
def tableAt (s : State) (root : Word64) (p : List (Fin 512)) : Option ℕ :=
  (walk (link s) (0, table root) p).map Prod.snd

/-- Entry `i` of the table at the path `p`; 0 if there is no such table. -/
def cellAt (s : State) (root : Word64) (p : List (Fin 512)) (i : Fin 512) : Word64 :=
  (tableAt s root p).elim 0 fun n => s.entry n i

lemma walk_depth {node node' : ℕ × ℕ} (h : walk (link s) node p = some node') :
    node'.1 = node.1 + p.length := by
  induction p generalizing node with
  | nil => rw [← some.inj h, length_nil, Nat.add_zero]
  | cons i p ih =>
    rw [walk, bind_eq_some_iff] at h
    obtain ⟨next, hnext, h⟩ := h
    rw [link] at hnext
    split_ifs at hnext
    rw [ih h, ← some.inj hnext, length_cons]
    omega

lemma tableAt_iff : tableAt s root p = some n ↔
    walk (link s) (0, table root) p = some (p.length, n) := by
  rw [tableAt, map_eq_some_iff]
  constructor
  · rintro ⟨⟨d, n'⟩, hwalk, rfl⟩
    have hd := walk_depth hwalk
    simp only [Nat.zero_add] at hd
    rw [hwalk, hd]
  · intro h
    exact ⟨_, h, rfl⟩

lemma cellAt_of_tableAt (h : tableAt s root p = some n) : cellAt s root p i = s.entry n i := by
  rw [cellAt, h, elim_some]

lemma cellAt_of_none (h : tableAt s root p = none) : cellAt s root p i = 0 := by
  rw [cellAt, h, elim_none]

lemma exists_tableAt (h : Present (cellAt s root p i)) : ∃ n, tableAt s root p = some n := by
  cases hn : tableAt s root p with
  | none => exact absurd h (by rw [cellAt_of_none hn]; exact not_present_zero)
  | some n => exact ⟨n, rfl⟩

/-- The tables can be read off the entries. -/
lemma tableAt_concat (s : State) (root : Word64) (p : List (Fin 512)) (i : Fin 512) :
    tableAt s root (p ++ [i]) =
    if Leads (cellAt s root p i) p.length then some (table (cellAt s root p i)) else none := by
  cases hn : tableAt s root p with
  | none =>
    have hwalk : walk (link s) (0, table root) p = none := map_eq_none_iff.1 hn
    rw [tableAt, LinkTree.walk_append, hwalk, cellAt_of_none hn, if_neg not_leads_zero]
    simp
  | some n =>
    rw [tableAt, LinkTree.walk_cell (tableAt_iff.1 hn), link, cellAt_of_tableAt hn]
    split_ifs <;> simp [walk]

lemma tableAt_nil : tableAt s root [] = some (table root) := by
  simp [tableAt, walk]

/-- The paths of tables. -/
def Inner (p : List (Fin 512)) : Prop := p.length ≤ 3

lemma Inner.within (h : Inner p) : Within Inner p := by
  rintro a k b rfl
  rw [Inner, length_append] at h
  rw [Inner]
  omega

/-- The tables are separate frames, and none of them is on the allocator's list of free pages. -/
structure Separate (s : State) (root : Word64) : Prop where
  distinct : ∀ p q n, Inner p → Inner q → tableAt s root p = some n → tableAt s root q = some n →
    p = q
  used : ∀ p n, Inner p → tableAt s root p = some n → n / kPageSize ∉ s.pmm.freeSet

/-- The frame holds a table. -/
def TableFrame (s : State) (root : Word64) (frame : ℕ) : Prop :=
  ∃ p, Inner p ∧ tableAt s root p = some (frame * kPageSize)

lemma tableAt_mod (h : tableAt s root p = some n) : n % kPageSize = 0 := by
  obtain rfl | ⟨a, k, rfl⟩ := eq_nil_or_concat p
  · rw [← some.inj h]
    exact table_mod root
  rw [concat_eq_append, tableAt_concat] at h
  split_ifs at h
  rw [← some.inj h]
  exact table_mod _

lemma tableFrame_of_tableAt (hp : Inner p) (h : tableAt s root p = some n) :
    TableFrame s root (n / kPageSize) :=
  ⟨p, hp, by rw [Nat.div_mul_cancel (Nat.dvd_of_mod_eq_zero (tableAt_mod h)), h]⟩

namespace Separate

lemma tree (h : Separate s root) : Tree (link s) (0, table root) Inner := by
  rintro p q ⟨d, n⟩ hp hq hpn hqn
  refine h.distinct p q n hp hq ?_ ?_
  · rw [tableAt, hpn, map_some]
  · rw [tableAt, hqn, map_some]

section

variable (h : Separate s root) (hp : Inner p) (hn : tableAt s root p = some n)
    (hw : Written s s' n i)
include h hp hn hw

/-- A write to an entry changes nothing else in the tables. -/
lemma onlyCell : OnlyCell (link s) (link s') (0, table root) Inner (p.length, n) i := by
  rintro q ⟨d, m⟩ j hq hm hne
  have htable : tableAt s root q = some m := by rw [tableAt, hm, map_some]
  have hcell : m ≠ n ∨ j ≠ i := by
    refine hne.imp_left fun hnode hmn => hnode ?_
    subst hmn
    obtain rfl := h.distinct q p m hq hp htable hn
    rw [tableAt_iff.1 hn] at hm
    exact (some.inj hm).symm
  rw [link, link, hw.entry m j (tableAt_mod htable) (h.used q m hq htable) hcell]

/-- What a write to an entry leaves as it was: the tables that are not behind the entry, and their
other entries. -/
lemma write
    (hq : Inner q) (hoff : ¬p ++ [i] <+: q) :
    tableAt s' root q = tableAt s root q ∧
      ∀ j, q ≠ p ∨ j ≠ i → cellAt s' root q j = cellAt s root q j := by
  have htable : tableAt s' root q = tableAt s root q := by
    rw [tableAt, tableAt, h.tree.walk_of_ne hp (tableAt_iff.1 hn) (h.onlyCell hp hn hw) hq.within]
    rintro r rfl
    exact hoff ⟨r, by simp⟩
  refine ⟨htable, fun j hne => ?_⟩
  cases hm : tableAt s root q with
  | none => rw [cellAt_of_none hm, cellAt_of_none (htable.trans hm)]
  | some m =>
    rw [cellAt_of_tableAt hm, cellAt_of_tableAt (htable.trans hm)]
    refine hw.entry m j (tableAt_mod hm) (h.used q m hq hm) (hne.imp_left fun hqp hmn => hqp ?_)
    exact h.distinct q p n hq hp (hmn ▸ hm) hn

lemma write_self : tableAt s' root p = some n ∧ cellAt s' root p i = s'.entry n i := by
  have hoff : ¬p ++ [i] <+: p := fun hpre => by
    have hlen := hpre.length_le
    simp at hlen
  have htable := ((h.write hp hn hw hp hoff).1).trans hn
  exact ⟨htable, cellAt_of_tableAt htable⟩

end

end Separate

/-! ## Translation from the entries -/

/-- What `translate` makes of the four entries on the way to an address. -/
def decode (pml4e pdpte pde pte virt : Word64) : Option Word64 :=
  if ¬Present pml4e then none
  else if ¬Present pdpte then none
  else if Large pdpte then some ((pdpte &&& 0x000fffffc0000000) + (virt &&& 0x3fffffff))
  else if ¬Present pde then none
  else if Large pde then some ((pde &&& 0x000fffffffe00000) + (virt &&& 0x1fffff))
  else if ¬Present pte then none
  else some ((pte &&& kAddrMask) + (virt &&& 0xfff))

/-- The physical address behind an address, if it is mapped. -/
def lookup (s : State) (root v : Word64) : Option Word64 :=
  decode (cellAt s root [] (pml4Index v)) (cellAt s root [pml4Index v] (pdptIndex v))
    (cellAt s root [pml4Index v, pdptIndex v] (pdIndex v))
    (cellAt s root [pml4Index v, pdptIndex v, pdIndex v] (ptIndex v)) v

lemma tableAt_of_leads (h : Leads (cellAt s root p i) p.length) :
    tableAt s root (p ++ [i]) = some (table (cellAt s root p i)) := by
  rw [tableAt_concat, if_pos h]

/-- `translate` returns the physical address, and 0 for an address that is not mapped. -/
lemma translate_eq (s : State) (root v : Word64) :
    translate s root v = (lookup s root v).getD 0 := by
  have h0 : cellAt s root [] (pml4Index v) = s.entry (table root) (pml4Index v) :=
    cellAt_of_tableAt tableAt_nil
  rw [translate, lookup, decode, ← h0]
  by_cases p0 : Present (cellAt s root [] (pml4Index v))
  swap
  · rw [if_pos (not_present_iff.1 p0), if_pos p0, getD_none]
  have h1 : cellAt s root [pml4Index v] (pdptIndex v) =
      s.entry (table (cellAt s root [] (pml4Index v))) (pdptIndex v) :=
    cellAt_of_tableAt (tableAt_of_leads ⟨p0, by simp⟩)
  rw [if_neg p0, if_neg (not_not.2 p0), ← h1]
  by_cases p1 : Present (cellAt s root [pml4Index v] (pdptIndex v))
  swap
  · rw [if_pos (not_present_iff.1 p1), if_pos p1, getD_none]
  rw [if_neg p1, if_neg (not_not.2 p1)]
  by_cases l1 : Large (cellAt s root [pml4Index v] (pdptIndex v))
  · rw [if_pos (large_iff.1 l1), if_pos l1, getD_some]
  have h2 : cellAt s root [pml4Index v, pdptIndex v] (pdIndex v) =
      s.entry (table (cellAt s root [pml4Index v] (pdptIndex v))) (pdIndex v) :=
    cellAt_of_tableAt (tableAt_of_leads ⟨p1, fun _ => l1⟩)
  rw [if_neg (mt large_iff.2 l1), if_neg l1, ← h2]
  by_cases p2 : Present (cellAt s root [pml4Index v, pdptIndex v] (pdIndex v))
  swap
  · rw [if_pos (not_present_iff.1 p2), if_pos p2, getD_none]
  rw [if_neg p2, if_neg (not_not.2 p2)]
  by_cases l2 : Large (cellAt s root [pml4Index v, pdptIndex v] (pdIndex v))
  · rw [if_pos (large_iff.1 l2), if_pos l2, getD_some]
  have h3 : cellAt s root [pml4Index v, pdptIndex v, pdIndex v] (ptIndex v) =
      s.entry (table (cellAt s root [pml4Index v, pdptIndex v] (pdIndex v))) (ptIndex v) :=
    cellAt_of_tableAt (tableAt_of_leads ⟨p2, fun _ => l2⟩)
  rw [if_neg (mt large_iff.2 l2), if_neg l2, ← h3]
  by_cases p3 : Present (cellAt s root [pml4Index v, pdptIndex v, pdIndex v] (ptIndex v))
  · rw [if_neg p3, if_neg (not_not.2 p3), getD_some]
  · rw [if_pos (not_present_iff.1 p3), if_pos p3, getD_none]

lemma leads_of_tableAt (h : tableAt s root p = some n) (hq : q ++ [j] <+: p) :
    Leads (cellAt s root q j) q.length := by
  obtain ⟨r, rfl⟩ := hq
  by_contra hnot
  have hnone : walk (link s) (0, table root) (q ++ [j]) = none := by
    have htable := tableAt_concat s root q j
    rw [if_neg hnot] at htable
    exact map_eq_none_iff.1 htable
  rw [tableAt, LinkTree.walk_append, hnone] at h
  cases h

/-- An address is not mapped if one of the tables on the way has no entry for it. -/
lemma lookup_eq_none (hq : q ++ [j] <+: path v) (hn : tableAt s root q = some n)
    (habsent : ¬Present (cellAt s root q j)) : lookup s root v = none := by
  have hleads {a : List (Fin 512)} {k : Fin 512} (ha : a ++ [k] <+: q) := leads_of_tableAt hn ha
  rw [lookup, decode]
  rw [concat_isPrefix_path_iff] at hq
  obtain ⟨rfl, rfl⟩ | ⟨rfl, rfl⟩ | ⟨rfl, rfl⟩ | ⟨rfl, rfl⟩ := hq
  · rw [if_pos habsent]
  · have h0 := hleads (a := []) ⟨[], rfl⟩
    rw [if_neg (not_not.2 h0.1), if_pos habsent]
  · have h0 := hleads (a := []) ⟨[pdptIndex v], rfl⟩
    have h1 := hleads (a := [pml4Index v]) ⟨[], rfl⟩
    rw [if_neg (not_not.2 h0.1), if_neg (not_not.2 h1.1), if_neg (h1.2 (by simp)), if_pos habsent]
  · have h0 := hleads (a := []) ⟨[pdptIndex v, pdIndex v], rfl⟩
    have h1 := hleads (a := [pml4Index v]) ⟨[pdIndex v], rfl⟩
    have h2 := hleads (a := [pml4Index v, pdptIndex v]) ⟨[], rfl⟩
    rw [if_neg (not_not.2 h0.1), if_neg (not_not.2 h1.1), if_neg (h1.2 (by simp)),
      if_neg (not_not.2 h2.1), if_neg (h2.2 (by simp)), if_pos habsent]

/-- An address is mapped by a large entry on the way. -/
lemma lookup_ne_none_of_large (hq : q ++ [j] <+: path v) (hlo : 1 ≤ q.length) (hhi : q.length ≤ 2)
    (hpres : Present (cellAt s root q j)) (hlarge : Large (cellAt s root q j)) :
    lookup s root v ≠ none := by
  obtain ⟨n, hn⟩ := exists_tableAt hpres
  have hleads {a : List (Fin 512)} {k : Fin 512} (ha : a ++ [k] <+: q) := leads_of_tableAt hn ha
  rw [lookup, decode]
  rw [concat_isPrefix_path_iff] at hq
  obtain ⟨rfl, rfl⟩ | ⟨rfl, rfl⟩ | ⟨rfl, rfl⟩ | ⟨rfl, rfl⟩ := hq
  · simp at hlo
  · have h0 := hleads (a := []) ⟨[], rfl⟩
    rw [if_neg (not_not.2 h0.1), if_neg (not_not.2 hpres), if_pos hlarge]
    simp
  · have h0 := hleads (a := []) ⟨[pdptIndex v], rfl⟩
    have h1 := hleads (a := [pml4Index v]) ⟨[], rfl⟩
    rw [if_neg (not_not.2 h0.1), if_neg (not_not.2 h1.1), if_neg (h1.2 (by simp)),
      if_neg (not_not.2 hpres), if_pos hlarge]
    simp
  · simp at hhi

/-- Translation reads no other entries than those on the way. -/
lemma lookup_congr (h : ∀ q j, q ++ [j] <+: path v → cellAt s' root q j = cellAt s root q j) :
    lookup s' root v = lookup s root v := by
  simp only [concat_isPrefix_path_iff] at h
  rw [lookup, lookup, h _ _ (by simp), h _ _ (by simp), h _ _ (by simp), h _ _ (by simp)]

/-- No entry on the way to the address maps a large page. -/
def NoLarge (s : State) (root v : Word64) : Prop :=
  ∀ q j, q ++ [j] <+: path v → 1 ≤ q.length → q.length ≤ 2 → Present (cellAt s root q j) →
    ¬Large (cellAt s root q j)

/-- Without large entries on the way, an address is mapped if its last entry is present. -/
lemma lookup_ne_none_iff (h : NoLarge s root v) : lookup s root v ≠ none ↔
    Present (cellAt s root [pml4Index v, pdptIndex v, pdIndex v] (ptIndex v)) := by
  have l1 := h [pml4Index v] (pdptIndex v) ⟨[pdIndex v, ptIndex v], rfl⟩ (by simp) (by simp)
  have l2 := h [pml4Index v, pdptIndex v] (pdIndex v) ⟨[ptIndex v], rfl⟩ (by simp) (by simp)
  constructor
  · intro hsome
    rw [lookup, decode] at hsome
    by_contra habsent
    split_ifs at hsome with p0 p1 c1 p2 c2
    all_goals first | exact hsome rfl | skip
    · exact l1 p1 c1
    · exact l2 p2 c2
  · intro hpres
    obtain ⟨n, hn⟩ := exists_tableAt hpres
    have hleads {a : List (Fin 512)} {k : Fin 512}
        (ha : a ++ [k] <+: [pml4Index v, pdptIndex v, pdIndex v]) := leads_of_tableAt hn ha
    have h0 := hleads (a := []) ⟨[pdptIndex v, pdIndex v], rfl⟩
    have h1 := hleads (a := [pml4Index v]) ⟨[pdIndex v], rfl⟩
    have h2 := hleads (a := [pml4Index v, pdptIndex v]) ⟨[], rfl⟩
    rw [lookup, decode, if_neg (not_not.2 h0.1), if_neg (not_not.2 h1.1), if_neg (h1.2 (by simp)),
      if_neg (not_not.2 h2.1), if_neg (h2.2 (by simp)), if_neg (not_not.2 hpres)]
    simp

/-! ## The descent of `map_page` and `unmap_page` -/

/-- The descent that takes every entry that is present for a link to a table finds the same tables
where there are such. -/
lemma walk_of_tableAt (h : tableAt s root p = some n) : walk s.link (table root) p = some n := by
  induction p using reverseRecOn generalizing n with
  | nil =>
    rw [tableAt_nil] at h
    rw [walk, some.inj h]
  | append_singleton p i ih =>
    have hleads := leads_of_tableAt h (q := p) (j := i) ⟨[], by simp⟩
    obtain ⟨m, hm⟩ := exists_tableAt hleads.1
    rw [tableAt_of_leads hleads, cellAt_of_tableAt hm] at h
    rw [cellAt_of_tableAt hm] at hleads
    rw [LinkTree.walk_cell (ih hm), link_eq, if_pos hleads.1, some.inj h]
    simp [walk]

/-- Without large entries on the way, the descent is along the tables. -/
lemma tableAt_of_walk (h : NoLarge s root v) (hp : p <+: path v) (hlen : p.length ≤ 3)
    (hn : walk s.link (table root) p = some n) : tableAt s root p = some n := by
  induction p using reverseRecOn generalizing n with
  | nil => rw [tableAt_nil, ← hn, walk]
  | append_singleton p i ih =>
    rw [LinkTree.walk_append] at hn
    obtain ⟨m, hm, hlink⟩ := bind_eq_some_iff.1 hn
    rw [length_append, length_singleton] at hlen
    have htable := ih ((prefix_append p [i]).trans hp) (by omega) hm
    rw [walk, bind_eq_some_iff] at hlink
    obtain ⟨k, hk, hkn⟩ := hlink
    rw [link_eq] at hk
    split_ifs at hk with hpres
    rw [← cellAt_of_tableAt htable] at hk hpres
    have hleads : Leads (cellAt s root p i) p.length :=
      ⟨hpres, fun hlo => h p i hp hlo (by omega) hpres⟩
    rw [tableAt_of_leads hleads, some.inj hk, ← some.inj hkn]

lemma unmapPage_cases (s : State) (root v : Word64) :
    (∃ pt, walk s.link (table root) [pml4Index v, pdptIndex v, pdIndex v] = some pt ∧
      Present (s.entry pt (ptIndex v)) ∧
      unmapPage s root v = (⟨true, "ok"⟩, s.setEntry pt (ptIndex v) 0)) ∨
    (¬Present (s.cellAt (table root) [pml4Index v, pdptIndex v, pdIndex v] (ptIndex v)) ∧
      ∃ error, unmapPage s root v = (⟨false, error⟩, s)) := by
  have hnone (h : walk s.link (table root) [pml4Index v, pdptIndex v, pdIndex v] = none) :
      ¬Present (s.cellAt (table root) [pml4Index v, pdptIndex v, pdIndex v] (ptIndex v)) := by
    rw [Paging.State.cellAt_of_none h]
    exact not_present_zero
  have hlink {n : ℕ} {i : Fin 512} (h : ¬s.entry n i &&& PagePresent = 0) :
      s.link n i = some (table (s.entry n i)) := by rw [State.link, if_neg h]
  have hlink' {n : ℕ} {i : Fin 512} (h : s.entry n i &&& PagePresent = 0) : s.link n i = none := by
    rw [State.link, if_pos h]
  rw [unmapPage]
  dsimp only
  split_ifs with p0 p1 p2 p3
  · exact .inr ⟨hnone (by simp only [walk, hlink' p0, bind_none]), _, rfl⟩
  · exact .inr ⟨hnone (by simp only [walk, hlink p0, hlink' p1, bind_some, bind_none]), _, rfl⟩
  · exact .inr
      ⟨hnone (by simp only [walk, hlink p0, hlink p1, hlink' p2, bind_some, bind_none]), _, rfl⟩
  · obtain ⟨pt, hwalk, habsent⟩ : ∃ pt, walk s.link (table root)
        [pml4Index v, pdptIndex v, pdIndex v] = some pt ∧ ¬Present (s.entry pt (ptIndex v)) :=
      ⟨_, by simp only [walk, hlink p0, hlink p1, hlink p2, bind_some], not_present_iff.2 p3⟩
    exact .inr ⟨by rwa [cellAt_of_walk hwalk], _, rfl⟩
  · exact .inl ⟨_, by simp only [walk, hlink p0, hlink p1, hlink p2, bind_some], p3, rfl⟩

/-! ## Writes to an entry -/

lemma translate_congr (h : lookup s' root v = lookup s root v) :
    translate s' root v = translate s root v := by
  rw [translate_eq, translate_eq, h]

/-- The frame of the only word a write to an entry may change. -/
lemma frame_of_setEntry {a : ℕ} (hn : n % kPageSize = 0)
    (h : (s.setEntry n i e).words a ≠ s.words a) : a / kPageSize = n / kPageSize := by
  have ha : a = n + 8 * i := by
    by_contra hne
    exact h (Function.update_of_ne hne _ _)
  rw [ha]
  simp only [kPageSize] at hn ⊢
  omega

/-- Entries that are not behind the entry that is written, nor the entry itself. -/
lemma Separate.lookup_write (h : Separate s root) (hp : Inner p) (hn : tableAt s root p = some n)
    (hw : Written s s' n i) (hoff : ¬p ++ [i] <+: path v) : lookup s' root v = lookup s root v := by
  refine lookup_congr fun q j hq => ?_
  have hqpath : q <+: path v := (prefix_append q [j]).trans hq
  have hinner : Inner q := by
    have hlen := hq.length_le
    simp only [length_append, path, length_cons, length_nil] at hlen
    rw [Inner]
    omega
  refine (h.write hp hn hw hinner fun hpre => hoff (hpre.trans hqpath)).2 j ?_
  by_contra hcell
  rw [not_or, not_not, not_not] at hcell
  obtain ⟨rfl, rfl⟩ := hcell
  exact hoff hq

end IanOS.Vmm
