import IanOS.Fs.Stored

/-!
# What stands where

The nodes as a set of paths with labels, where a label is anything read off a node that does not
depend on its storage, its size and its path.  On such a set the namespace functions insert, remove
and move.
-/

namespace IanOS.Vfs

variable {τ : Type*} {v v' : Vfs} {n : Node} {r : PathRef} {i : ℕ} {p : Path} {a : Node → τ}

/-- The paths of the nodes, with a label for each. -/
def labelled (v : Vfs) (a : Node → τ) : Set (Path × τ) :=
  {e | ∃ i < v.nodes.length, v.pathOf (v.nodeAt i) = some e.1 ∧ a (v.nodeAt i) = e.2}

lemma mem_labelled_iff {e : Path × τ} :
    e ∈ v.labelled a ↔ ∃ n ∈ v.nodes, v.pathOf n = some e.1 ∧ a n = e.2 := by
  exact (exists_nodeAt_iff (P := fun n => v.pathOf n = some e.1 ∧ a n = e.2)).symm

lemma Stored.labelled_kept (h : Stored v) (hkept : Kept v v')
    (ha : ∀ m m', Alike m m' → a m' = a m) : v'.labelled a = v.labelled a := by
  have hpath (j : ℕ) (hj : j < v.nodes.length) :
      v'.pathOf (v'.nodeAt j) = v.pathOf (v.nodeAt j) := by
    obtain ⟨r, hr, -⟩ := h.held _ (nodeAt_mem hj)
    rw [pathOf_eq ((hkept.alike j hj).path.trans hr), pathOf_eq hr,
      (hkept.record _ (nodeAt_mem hj) r hr).text]
  ext e
  constructor
  · rintro ⟨j, hj, hjp, hjt⟩
    rw [hkept.length] at hj
    exact ⟨j, hj, (hpath j hj).symm.trans hjp, (ha _ _ (hkept.alike j hj)).symm.trans hjt⟩
  · rintro ⟨j, hj, hjp, hjt⟩
    exact ⟨j, hkept.length ▸ hj, (hpath j hj).trans hjp, (ha _ _ (hkept.alike j hj)).trans hjt⟩

lemma Stored.labelled_added (h : Stored v) (hadded : Added v v' n r) :
    v'.labelled a = insert (v'.text r, a n) (v.labelled a) := by
  ext ⟨p, t⟩
  rw [Set.mem_insert_iff, mem_labelled_iff, mem_labelled_iff, hadded.nodes]
  have hold (m : Node) (hm : m ∈ v.nodes) : v'.pathOf m = v.pathOf m := by
    obtain ⟨s, hs, -⟩ := h.held m hm
    exact (hadded.record m hm s hs).pathOf hs
  constructor
  · rintro ⟨m, hm, hp, ht⟩
    obtain hm | hm := List.mem_append.1 hm
    · exact .inr ⟨m, hm, (hold m hm).symm.trans hp, ht⟩
    · rw [List.mem_singleton.1 hm] at hp ht
      rw [pathOf_eq hadded.path] at hp
      exact .inl (Prod.ext (Option.some.inj hp).symm ht.symm)
  · rintro (heq | ⟨m, hm, hp, ht⟩)
    · refine ⟨n, List.mem_append_right _ (List.mem_singleton_self n), ?_, ?_⟩
      · rw [pathOf_eq hadded.path, (Prod.mk.inj heq).1]
      · exact (Prod.mk.inj heq).2.symm
    · exact ⟨m, List.mem_append_left _ hm, (hold m hm).trans hp, ht⟩

lemma Stored.labelled_moved (h : Stored v) (hm : Moved v v' i p r) :
    v'.labelled a = insert (v'.text r, a (v.nodeAt i)) (v.labelled a \ {(p, a (v.nodeAt i))}) := by
  ext ⟨q, t⟩
  rw [Set.mem_insert_iff, Set.mem_sdiff, mem_labelled_iff, mem_labelled_iff,
    hm.nodes]
  have hi := nodeAt_mem hm.at_.lt
  constructor
  · rintro ⟨n, hn, hp, ht⟩
    by_cases hnr : n.path = some r
    · rw [pathOf_eq hnr] at hp
      obtain rfl := h.moved_self hm hn hnr
      exact .inl (Prod.ext (Option.some.inj hp).symm ht.symm)
    · rw [h.moved_pathOf hm hn hnr] at hp
      refine .inr ⟨⟨n, hn, hp, ht⟩, fun heq => hnr ?_⟩
      rw [(Prod.mk.inj heq).1] at hp
      rw [← h.distinct.nodeAt_eq hm.at_ hn hp]
      exact hm.path
  · rintro (heq | ⟨⟨n, hn, hp, ht⟩, hne⟩)
    · refine ⟨_, hi, ?_, (Prod.mk.inj heq).2.symm⟩
      rw [pathOf_eq hm.path, (Prod.mk.inj heq).1]
    refine ⟨n, hn, ?_, ht⟩
    rw [h.moved_pathOf hm hn, hp]
    intro hnr
    obtain rfl := h.moved_self hm hn hnr
    rw [hm.at_.path] at hp
    exact hne (Prod.ext (Option.some.inj hp).symm ht.symm)

lemma Stored.labelled_removed (h : Stored v) (hat : v.StandsAt i p) (hremoved : Removed v v' i) :
    v'.labelled a = v.labelled a \ {(p, a (v.nodeAt i))} := by
  ext ⟨q, t⟩
  rw [mem_labelled_iff, hremoved.nodes]
  constructor
  · rintro ⟨n, hn, hp, ht⟩
    obtain ⟨j, hj, hne, rfl⟩ := mem_eraseIdx.1 hn
    rw [h.removed_pathOf hremoved hj hne] at hp
    refine ⟨⟨j, hj, hp, ht⟩, fun heq => hne ?_⟩
    rw [(Prod.mk.inj heq).1] at hp
    exact h.distinct.eq ⟨hat.canonical, hj, hp⟩ hat
  · rintro ⟨⟨j, hj, hp, ht⟩, hne⟩
    have hji : j ≠ i := by
      rintro rfl
      rw [hat.path] at hp
      exact hne (Prod.ext (Option.some.inj hp).symm ht.symm)
    refine ⟨_, mem_eraseIdx.2 ⟨j, hj, hji, rfl⟩, ?_, ht⟩
    rw [h.removed_pathOf hremoved hj hji, hp]

end IanOS.Vfs
