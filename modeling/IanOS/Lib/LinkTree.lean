import Mathlib.Tactic

/-!
# Trees linked through a store

A store gives for each node and index a link to another node, or none.  `walk` follows the links
along a path from a root.  The nodes at a family of paths form a tree when no node is reached along
two of these paths (`Tree`).  Then a write to one cell changes only the walks through that cell, and
hanging a new node without links into an empty cell adds exactly one walk and keeps the tree.
-/

namespace IanOS.LinkTree

variable {ν ι : Type*} {link link' : ν → ι → Option ν} {root n m g : ν}
    {p q path : List ι} {i j : ι}

/-- Follow the links along a path. -/
def walk (link : ν → ι → Option ν) : ν → List ι → Option ν
  | n, [] => some n
  | n, i :: path => (link n i).bind fun m => walk link m path

lemma walk_append : walk link n (p ++ q) = (walk link n p).bind fun m => walk link m q := by
  induction p generalizing n with
  | nil => rfl
  | cons i p ih =>
    rw [List.cons_append, walk, walk, Option.bind_assoc]
    exact Option.bind_congr fun m _ => ih

lemma walk_cell (hn : walk link root p = some n) :
    walk link root (p ++ i :: q) = (link n i).bind fun m => walk link m q := by
  rw [walk_append, hn]
  rfl

/-- A walk reads no other cells than those it passes. -/
lemma walk_congr (h : ∀ p i q, path = p ++ i :: q → ∀ m, walk link n p = some m →
    link' m i = link m i) : walk link' n path = walk link n path := by
  induction path generalizing n with
  | nil => rfl
  | cons i path ih =>
    rw [walk, h [] i path rfl n rfl]
    refine Option.bind_congr fun m hm => ih fun p j q hpath k hk => ?_
    refine h (i :: p) j q (by rw [hpath, List.cons_append]) k ?_
    rwa [walk, hm]

/-- The nodes at the paths in `inner` are all different. -/
def Tree (link : ν → ι → Option ν) (root : ν) (inner : List ι → Prop) : Prop :=
  ∀ p q n, inner p → inner q → walk link root p = some n → walk link root q = some n → p = q

/-- All nodes a path passes before its last one are in the family. -/
def Within (inner : List ι → Prop) (path : List ι) : Prop :=
  ∀ p i q, path = p ++ i :: q → inner p

/-- Nothing but the cell `i` of `n` has changed in the tree. -/
def OnlyCell (link link' : ν → ι → Option ν) (root : ν) (inner : List ι → Prop) (n : ν) (i : ι) :
    Prop :=
  ∀ p m j, inner p → walk link root p = some m → m ≠ n ∨ j ≠ i → link' m j = link m j

variable {inner : List ι → Prop}

section

variable (h : Tree link root inner)
include h

lemma Tree.congr
    (hwalk : ∀ q, inner q → walk link' root q = walk link root q) : Tree link' root inner := by
  intro p q n hp hq hpn hqn
  rw [hwalk p hp] at hpn
  rw [hwalk q hq] at hqn
  exact h p q n hp hq hpn hqn

/-- A write to a cell changes only the walks through the cell. -/
lemma Tree.walk_of_ne (hp : inner p) (hn : walk link root p = some n)
    (honly : OnlyCell link link' root inner n i) (hpath : Within inner path)
    (hoff : ∀ q, path ≠ p ++ i :: q) : walk link' root path = walk link root path := by
  refine walk_congr fun a j b hab m hm => honly a m j (hpath a j b hab) hm ?_
  by_contra hcell
  rw [not_or, not_not, not_not] at hcell
  obtain ⟨rfl, rfl⟩ := hcell
  -- the path reads the cell, so it begins with the path of its node
  obtain rfl := h a p m (hpath a j b hab) hp hm hn
  exact hoff b hab

/-- The nodes on the way to a node of the tree do not depend on that node's cells. -/
lemma Tree.walk_node (hp : inner p) (hn : walk link root p = some n)
    (honly : OnlyCell link link' root inner n i) (hpath : Within inner p) :
    walk link' root p = some n := by
  rw [← hn]
  refine h.walk_of_ne hp hn honly hpath fun q hq => ?_
  have hlen := congrArg List.length hq
  rw [List.length_append, List.length_cons] at hlen
  omega

/-- What hanging a node without links into an empty cell does to the walks. -/
lemma Tree.walk_attach (hp : inner p) (hwithin : Within inner p)
    (hn : walk link root p = some n) (honly : OnlyCell link link' root inner n i)
    (hempty : link n i = none) (hnew : link' n i = some g) (hbare : ∀ j, link' g j = none)
    (hpath : Within inner path) (hne : path ≠ p ++ [i]) :
    walk link' root path = walk link root path := by
  by_cases hthrough : ∃ q, path = p ++ i :: q
  · obtain ⟨q, rfl⟩ := hthrough
    rw [walk_cell (h.walk_node hp hn honly hwithin), walk_cell hn, hempty, hnew]
    cases q with
    | nil => exact absurd rfl hne
    | cons j q => simp [walk, hbare]
  · exact h.walk_of_ne hp hn honly hpath fun q hq => hthrough ⟨q, hq⟩

/-- Hanging a new node without links into an empty cell keeps the tree. -/
lemma Tree.attach (hinner : ∀ q, inner q → Within inner q)
    (hp : inner p) (hn : walk link root p = some n) (honly : OnlyCell link link' root inner n i)
    (hempty : link n i = none) (hnew : link' n i = some g) (hbare : ∀ j, link' g j = none)
    (hfresh : ∀ q, inner q → walk link root q ≠ some g) : Tree link' root inner := by
  have hg : walk link' root (p ++ [i]) = some g := by
    rw [walk_cell (h.walk_node hp hn honly (hinner p hp)), hnew]
    rfl
  have hold (q : List ι) (hq : inner q) (hne : q ≠ p ++ [i]) :
      walk link' root q = walk link root q :=
    h.walk_attach hp (hinner p hp) hn honly hempty hnew hbare (hinner q hq) hne
  intro a b m ha hb ham hbm
  by_cases hai : a = p ++ [i]
  · by_cases hbi : b = p ++ [i]
    · rw [hai, hbi]
    · rw [hai, hg] at ham
      rw [hold b hb hbi, ← ham] at hbm
      exact absurd hbm (hfresh b hb)
  · rw [hold a ha hai] at ham
    by_cases hbi : b = p ++ [i]
    · rw [hbi, hg] at hbm
      rw [← hbm] at ham
      exact absurd ham (hfresh a ha)
    · rw [hold b hb hbi] at hbm
      exact h a b m ha hb ham hbm

end

end IanOS.LinkTree
