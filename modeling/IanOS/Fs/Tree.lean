import IanOS.Fs.Entries
import IanOS.Fs.Runs

/-!
# The namespace is a tree

What a table of nodes stands for is a set of entries, each a path with the type of its node.  On
this set a namespace function inserts an entry, removes one, or moves one.  The set is a tree if the
parent of each of its paths is a directory in the set.  Inserting below a directory and removing
what nothing lies below keep a tree a tree.  Moving does too, with one exception that
`rename_ram_node` does not test for: a directory that is moved below itself loses its parent, which
it was itself.
-/

namespace IanOS

open List Option

/-! ## Sets closed under parents -/

section Closed

variable {α τ : Type*} {parent : α → Option α} {dir t : τ} {E : Set (α × τ)} {a b : α}

/-- The parent of every entry is a directory of the set. -/
def Closed (parent : α → Option α) (dir : τ) (E : Set (α × τ)) : Prop :=
  ∀ e ∈ E, ∀ q, parent e.1 = some q → (q, dir) ∈ E

lemma Closed.insert (h : Closed parent dir E) (ha : ∀ q, parent a = some q → (q, dir) ∈ E) :
    Closed parent dir (insert (a, t) E) := by
  rintro e (rfl | he) q hq
  · exact .inr (ha q hq)
  · exact .inr (h e he q hq)

section

variable (h : Closed parent dir E) (ha : ∀ e ∈ E, parent e.1 ≠ some a)
include h ha

lemma Closed.erase : Closed parent dir (E \ {(a, t)}) := by
  rintro e ⟨he, -⟩ q hq
  refine ⟨h e he q hq, ?_⟩
  rintro heq
  obtain rfl : q = a := congrArg Prod.fst heq
  exact ha e he hq

/-- An entry that nothing lies below is moved to a place below a directory other than itself. -/
lemma Closed.move
    (hb : ∀ q, parent b = some q → (q, dir) ∈ E) (hne : parent b ≠ some a) :
    Closed parent dir (Insert.insert (b, t) (E \ {(a, t)})) := by
  refine (h.erase ha).insert fun q hq => ⟨hb q hq, ?_⟩
  rintro heq
  obtain rfl : q = a := congrArg Prod.fst heq
  exact hne hq

end

end Closed

/-- The new path of a rename is not directly below the old one. -/
def NamespaceOp.NotBelowItself : NamespaceOp → Prop
  | .renameRamNode old new => ∀ p, parentPath new = some p → normalizePath old ≠ some p
  | _ => True

namespace Vfs

variable {v v' : Vfs} {n : Node} {r : PathRef} {i j k f : ℕ} {p q : Path} {t : NodeType}

/-! ## The entries of a table -/

/-- The paths of the nodes, with their types. -/
def entries (v : Vfs) : Set (Path × NodeType) :=
  {e | ∃ i < v.nodes.length, v.pathOf (v.nodeAt i) = some e.1 ∧ (v.nodeAt i).type = e.2}

/-- Unique canonical paths, and a directory at the parent of every path but the root. -/
structure IsTree (v : Vfs) : Prop where
  canonical : ∀ i < v.nodes.length, ∃ p ∈ v.pathOf (v.nodeAt i), Canonical p
  unique : ∀ i < v.nodes.length, ∀ j < v.nodes.length,
    v.pathOf (v.nodeAt i) = v.pathOf (v.nodeAt j) → i = j
  parent : ∀ i < v.nodes.length, ∀ p ∈ v.pathOf (v.nodeAt i), p ≠ [slash] →
    ∃ q ∈ parentPath p,
      ∃ j < v.nodes.length, v.pathOf (v.nodeAt j) = some q ∧ (v.nodeAt j).type = .directory

lemma mem_entries_of_mem (hn : n ∈ v.nodes) (hp : v.pathOf n = some p) :
    (p, n.type) ∈ v.entries := by
  obtain ⟨j, hj, rfl⟩ := getElem_of_mem hn
  exact ⟨j, hj, by rwa [nodeAt_eq_getElem hj], by rw [nodeAt_eq_getElem hj]⟩

lemma exists_parentPath (hp : Canonical p) (hroot : p ≠ [slash]) :
    ∃ q, parentPath p = some q ∧ Canonical q ∧ pathHasPrefixChild p q := by
  obtain ⟨l, hl⟩ := canonical_iff.1 hp
  obtain rfl | ⟨l, s, rfl⟩ := eq_nil_or_concat l
  · exact absurd hl.2.1 hroot
  · rw [concat_eq_append] at hl
    obtain ⟨q, hq, hnames⟩ := hl.parentPath
    exact ⟨q, hq, hnames.canonical, (hl.pathHasPrefixChild hnames).2 ⟨[s], cons_ne_nil _ _, rfl⟩⟩

lemma pathHasPrefixChild_of_parent (hp : Canonical p) (hq : parentPath p = some q) :
    pathHasPrefixChild p q := by
  have hroot : p ≠ [slash] := by
    rintro rfl
    cases hq
  obtain ⟨q', hq', -, hchild⟩ := exists_parentPath hp hroot
  rwa [some.inj (hq.symm.trans hq')]

/-- A table is a tree exactly if its paths are canonical and different and its entries are closed
under parents. -/
lemma isTree_iff :
    v.IsTree ↔ (∀ e ∈ v.entries, Canonical e.1) ∧ (∀ n ∈ v.nodes, v.pathOf n ≠ none) ∧
      v.Distinct ∧ Closed parentPath NodeType.directory v.entries := by
  constructor
  · intro h
    refine ⟨?_, ?_, distinct_iff.2 fun i j p hi hj => ?_, ?_⟩
    · rintro ⟨p, t⟩ ⟨i, hi, hpath, -⟩
      obtain ⟨p', hp', hcanon⟩ := h.canonical i hi
      rwa [some.inj (hpath.symm.trans hp')]
    · intro n hn
      obtain ⟨j, hj, rfl⟩ := getElem_of_mem hn
      obtain ⟨p, hp, -⟩ := h.canonical j hj
      rw [← nodeAt_eq_getElem hj, hp]
      exact some_ne_none p
    · exact h.unique i hi.lt j hj.lt (hi.path.trans hj.path.symm)
    · rintro ⟨p, t⟩ ⟨i, hi, hpath, -⟩ q hq
      have hroot : p ≠ [slash] := by
        rintro rfl
        cases hq
      obtain ⟨q', hq', j, hj, hjpath, hjtype⟩ := h.parent i hi p hpath hroot
      rw [some.inj (hq.symm.trans hq')]
      exact ⟨j, hj, hjpath, hjtype⟩
  · rintro ⟨hcanon, hpaths, hdistinct, hclosed⟩
    have hpath (i : ℕ) (hi : i < v.nodes.length) : ∃ p ∈ v.pathOf (v.nodeAt i), Canonical p := by
      obtain ⟨p, hp⟩ := ne_none_iff_exists'.1 (hpaths _ (nodeAt_mem hi))
      exact ⟨p, hp, hcanon _ (mem_entries_of_mem (nodeAt_mem hi) hp)⟩
    refine ⟨hpath, fun i hi j hj heq => ?_, fun i hi p hp hroot => ?_⟩
    · obtain ⟨p, hp, hcan⟩ := hpath i hi
      exact hdistinct.eq ⟨hcan, hi, hp⟩ ⟨hcan, hj, heq ▸ hp⟩
    obtain ⟨p', hp', hcan⟩ := hpath i hi
    rw [← some.inj (hp.symm.trans hp')] at hcan
    obtain ⟨q, hq, -⟩ := exists_parentPath hcan hroot
    exact ⟨q, hq, hclosed _ (mem_entries_of_mem (nodeAt_mem hi) hp) q hq⟩

/-- Of stored tables only the paths and the parents are in question. -/
lemma Stored.isTree_iff (h : Stored v) :
    v.IsTree ↔ (∀ e ∈ v.entries, Canonical e.1) ∧
    Closed parentPath NodeType.directory v.entries := by
  have hpaths : ∀ n ∈ v.nodes, v.pathOf n ≠ none := by
    intro n hn
    obtain ⟨r, hr, -⟩ := h.held n hn
    rw [pathOf_eq hr]
    exact some_ne_none _
  rw [Vfs.isTree_iff]
  exact ⟨fun ⟨hcanon, _, _, hclosed⟩ => ⟨hcanon, hclosed⟩,
    fun ⟨hcanon, hclosed⟩ => ⟨hcanon, hpaths, h.distinct, hclosed⟩⟩

/-! ## One call -/

/-- The check of the parent finds a directory of the table. -/
lemma Vacant.parent_mem (h : v.Vacant p) (hq : parentPath p = some q) :
    (q, NodeType.directory) ∈ v.entries := by
  have hparent := h.parent
  rw [hasParentDirectory, hq] at hparent
  split at hparent
  · cases hparent
  next j hj =>
    have hroot : p ≠ [slash] := by
      rintro rfl
      exact absurd h.proper (by decide)
    obtain ⟨q', hq', hcanon, -⟩ := exists_parentPath h.canonical hroot
    rw [← some.inj (hq.symm.trans hq')] at hcanon
    have hat := standsAt_of_find hcanon hj
    exact ⟨j, hat.lt, hat.path, of_decide_eq_true hparent⟩

/-- Nothing lies below a file. -/
lemma Stored.no_child_of_file (h : Stored v) (htree : Closed parentPath .directory v.entries)
    (hat : v.StandsAt i p) (hf : (v.nodeAt i).ramFile = some f) :
    ∀ e ∈ v.entries, parentPath e.1 ≠ some p := by
  intro e he hp
  obtain ⟨j, hj, hjp, hjt⟩ := htree e he p hp
  obtain rfl : j = i := h.distinct.eq ⟨hat.canonical, hj, hjp⟩ hat
  have htype := (h.ofRamFile (nodeAt_mem hj) hf).type
  rw [hjt] at htype
  cases htype

/-- Nothing but the moved directory itself passed the check for children. -/
lemma no_child_of_checked (hcanon : ∀ e ∈ v.entries, Canonical e.1)
    (hchildren : ∀ n ∈ v.nodes, ∀ s ∈ v.pathOf n, ¬pathHasPrefixChild s p) :
    ∀ e ∈ v.entries, parentPath e.1 ≠ some p := by
  intro e he hp
  obtain ⟨n, hn, hpath, -⟩ := mem_labelled_iff.1 he
  exact hchildren n hn e.1 hpath (pathHasPrefixChild_of_parent (hcanon e he) hp)

section

variable (h : Stored v) (htree : v.IsTree)
include h htree

/-- What is left to show of a node that is put at a vacant path. -/
lemma Stored.isTree_added (hadded : Added v v' n r) : v'.IsTree := by
  obtain ⟨hcanon, hclosed⟩ := h.isTree_iff.1 htree
  rw [(h.of_added hadded).isTree_iff, show v'.entries = _ from h.labelled_added hadded]
  refine ⟨?_, hclosed.insert fun q hq => hadded.vacant.parent_mem hq⟩
  rintro e (rfl | he)
  · exact hadded.vacant.canonical
  · exact hcanon e he

lemma Stored.isTree_moved (hm : Moved v v' i p r)
    (hchild : ∀ e ∈ v.entries, parentPath e.1 ≠ some p)
    (hself : parentPath (v'.text r) ≠ some p) : v'.IsTree := by
  obtain ⟨hcanon, hclosed⟩ := h.isTree_iff.1 htree
  rw [(h.of_moved hm).isTree_iff, show v'.entries = _ from h.labelled_moved hm]
  refine ⟨?_, hclosed.move hchild (fun q hq => hm.vacant.parent_mem hq) hself⟩
  rintro e (rfl | ⟨he, -⟩)
  · exact hm.vacant.canonical
  · exact hcanon e he

lemma Stored.isTree_removed (hat : v.StandsAt i p)
    (hremoved : Removed v v' i) (hchild : ∀ e ∈ v.entries, parentPath e.1 ≠ some p) :
    v'.IsTree := by
  obtain ⟨hcanon, hclosed⟩ := h.isTree_iff.1 htree
  rw [(h.of_removed hremoved).isTree_iff, show v'.entries = _ from h.labelled_removed hat hremoved]
  exact ⟨fun e he => hcanon e he.1, hclosed.erase hchild⟩

lemma Stored.isTree_kept (hkept : Kept v v') : v'.IsTree := by
  rw [(h.of_kept hkept).isTree_iff,
    show v'.entries = _ from h.labelled_kept hkept fun _ _ halike => halike.type]
  exact h.isTree_iff.1 htree

lemma Stored.isTree_change {op : NamespaceOp} {res : Bool × Vfs}
    (hop : op.NotBelowItself) (hchange : Change v op res) : res.2.IsTree := by
  obtain ⟨hcanon, hclosed⟩ := h.isTree_iff.1 htree
  -- the new path of a rename is normalized before its parent is taken
  have hself {old new p q : Path} (hold : normalizePath old = some p)
      (hnew : normalizePath new = some q)
      (hop : (NamespaceOp.renameRamNode old new).NotBelowItself) : parentPath q ≠ some p := by
    intro hp
    rw [parentPath, canonical_of_normalizePath hnew, ← hnew] at hp
    exact hop p hp hold
  cases hchange with
  | refuse => exact htree
  | clearFile _ hunused => exact h.isTree_kept htree (h.kept_clear_file hunused)
  | clearLink _ hunused => exact h.isTree_kept htree (h.kept_clear_link hunused)
  | clearDirectory _ hunused => exact h.isTree_kept htree (h.kept_clear_directory hunused)
  | createFile _ hvacant hk hunused => exact h.isTree_added htree (h.added_file hvacant hk hunused)
  | createLink _ _ hvacant hsrc hfile hk hunused =>
    exact h.isTree_added htree (h.added_link hvacant hk hunused (h.sourceInUse hsrc hfile))
  | createDirectory _ hvacant hk hunused =>
    exact h.isTree_added htree (h.added_directory hvacant hk hunused)
  | truncate => exact h.isTree_kept htree kept_setFileSize
  | @moveLink old new p q i k f hold hnew hvacant hat hfile hk hused htext =>
    have hm := h.moved_link hat hvacant hk hused htext
    refine h.isTree_moved htree hm (h.no_child_of_file hclosed hat hfile) ?_
    rw [text_moveToLink]
    exact hself hold hnew hop
  | @moveFile old new p q i f hold hnew hvacant hat hfile hlinks htext =>
    have hm := h.moved_file hat hvacant hfile hlinks
    refine h.isTree_moved htree hm (h.no_child_of_file hclosed hat hfile) ?_
    rw [text_moveToFile]
    exact hself hold hnew hop
  | @moveDirectory old new p q i k hold hnew hvacant hat htype hchildren hk hused htext =>
    have hm := h.moved_directory hat hvacant hk hused htext
    refine h.isTree_moved htree hm (no_child_of_checked hcanon fun n hn s hs => ?_) ?_
    · obtain ⟨j, hj, rfl⟩ := getElem_of_mem hn
      rw [← nodeAt_eq_getElem hj] at hs
      by_cases hji : j = i
      · subst hji
        obtain rfl : p = s := some.inj (hat.path.symm.trans hs)
        simp [pathHasPrefixChild]
      · exact hchildren j hj hji s hs
    · rw [text_moveToDirectory]
      exact hself hold hnew hop
  | deleteFile _ hat hfile _ =>
    exact h.isTree_removed htree hat (h.removed_file hat hfile)
      (h.no_child_of_file hclosed hat hfile)
  | deleteDirectory _ _ hat htype hchildren =>
    exact h.isTree_removed htree hat (h.removed_directory hat htype)
      (no_child_of_checked hcanon hchildren)

end

/-! ## Sequences of calls -/

/-- From a reachable table that is a tree, every sequence of calls in which no rename puts a node
directly below itself leads to a tree. -/
theorem namespace_stays_tree (hreachable : Reachable v) (htree : v.IsTree)
    (ops : List NamespaceOp) (hops : ∀ op ∈ ops, op.NotBelowItself) :
    (v.performAll ops).IsTree := by
  have hrun : Stored (v.performAll ops) ∧ (v.performAll ops).IsTree := by
    refine foldlRecOn (motive := fun w : Vfs => Stored w ∧ w.IsTree) ops _
      ⟨hreachable.stored, htree⟩ fun w hw op hop => ?_
    have hchange := perform_change w op
    exact ⟨hw.1.change hchange, hw.1.isTree_change hw.2 (hops op hop) hchange⟩
  exact hrun.2

/-- The root, `/proc` and a writable `/tmp`. -/
def threeDirectories : Vfs :=
  booted [.directory (.ascii "/") false, .directory (.ascii "/proc") false,
    .directory (.ascii "/tmp") true]

lemma reachable_threeDirectories : threeDirectories.Reachable := ⟨_, [], rfl⟩

lemma isTree_threeDirectories : threeDirectories.IsTree :=
  ⟨by decide +kernel, by decide +kernel, by decide +kernel⟩

/-- A directory is made, moved and filled. -/
theorem namespace_stays_tree_moved :
    (threeDirectories.performAll
      [.createRamDirectory (.ascii "/tmp/d"), .renameRamNode (.ascii "/tmp/d") (.ascii "/tmp/e"),
        .createRamFile (.ascii "/tmp/e/f")]).IsTree := by
  refine namespace_stays_tree reachable_threeDirectories isTree_threeDirectories _ ?_
  simp only [forall_mem_cons, NamespaceOp.NotBelowItself, true_and, not_mem_nil,
    false_imp_iff, implies_true, and_true]
  intro p hp
  have hparent : parentPath (.ascii "/tmp/e") = some (.ascii "/tmp") := by decide +kernel
  rw [← some.inj (hparent.symm.trans hp)]
  decide +kernel

/-- A directory without children is moved below itself.  Its new parent was its old path, where
nothing is left. -/
theorem rename_below_itself :
    threeDirectories.Reachable ∧ threeDirectories.IsTree ∧
      ¬(threeDirectories.performAll
        [.createRamDirectory (.ascii "/tmp/d"),
          .renameRamNode (.ascii "/tmp/d") (.ascii "/tmp/d/e")]).IsTree := by
  refine ⟨reachable_threeDirectories, isTree_threeDirectories, fun htree => ?_⟩
  have hparent := htree.parent 3 (by decide +kernel) (.ascii "/tmp/d/e") (by decide +kernel)
  exact absurd hparent (by decide +kernel)

/-! ## What the calls do to the entries -/

/-- What a call does to the paths and their types. -/
def effect (E : Set (Path × NodeType)) : NamespaceOp → Set (Path × NodeType)
  | .createRamFile path | .linkRamFile _ path =>
    {e | e ∈ E ∨ normalizePath path = some e.1 ∧ e.2 = .memoryFile}
  | .createRamDirectory path => {e | e ∈ E ∨ normalizePath path = some e.1 ∧ e.2 = .directory}
  | .truncateRamFile _ _ => E
  | .renameRamNode old new => {e | e ∈ E ∧ normalizePath old ≠ some e.1 ∨
      normalizePath new = some e.1 ∧ ∃ p ∈ normalizePath old, (p, e.2) ∈ E}
  | .deleteRamFile path | .deleteRamDirectory path => {e ∈ E | normalizePath path ≠ some e.1}

lemma Stored.type_eq (h : Stored v) (hat : v.StandsAt i p) (he : (p, t) ∈ v.entries) :
    t = (v.nodeAt i).type := by
  obtain ⟨j, hj, hp, rfl⟩ := he
  rw [h.distinct.eq ⟨hat.canonical, hj, hp⟩ hat]

section

variable (h : Stored v) {path old new : Path}
include h

lemma Stored.entries_added (hadded : Added v v' n r)
    (hpath : normalizePath path = some (v'.text r)) :
    v'.entries = {e | e ∈ v.entries ∨ normalizePath path = some e.1 ∧ e.2 = n.type} := by
  rw [show v'.entries = _ from h.labelled_added hadded, hpath]
  ext e
  grind [entries, labelled]

lemma Stored.entries_removed (hpath : normalizePath path = some p) (hat : v.StandsAt i p)
    (hremoved : Removed v v' i) : v'.entries = {e ∈ v.entries | normalizePath path ≠ some e.1} := by
  rw [show v'.entries = _ from h.labelled_removed hat hremoved, hpath]
  ext e
  have htype : (p, e.2) ∈ v.entries → _ := h.type_eq hat
  grind [entries, labelled]

lemma Stored.entries_moved (hold : normalizePath old = some p) (hm : Moved v v' i p r)
    (hnew : normalizePath new = some (v'.text r)) :
    v'.entries = effect v.entries (.renameRamNode old new) := by
  rw [show v'.entries = _ from h.labelled_moved hm, effect, hold, hnew]
  ext e
  have htype : (p, e.2) ∈ v.entries → _ := h.type_eq hm.at_
  have hmem : (p, (v.nodeAt i).type) ∈ v.entries := ⟨i, hm.at_.lt, hm.at_.path, rfl⟩
  grind [entries, labelled]

end

/-- In every reachable state a call has its effect on the entries if it is accepted, and none if
not. -/
theorem perform_effect (registrations : List Registration) (ops : List VfsOp) (op : NamespaceOp) :
    let v := (booted registrations).run ops
    (v.perform op).2.entries = if (v.perform op).1 then effect v.entries op else v.entries := by
  intro v
  have h : Stored v := Reachable.stored ⟨registrations, ops, rfl⟩
  have hkept {v' : Vfs} (hkept : Kept v v') : v'.entries = v.entries :=
    h.labelled_kept hkept fun _ _ halike => halike.type
  have hchange := perform_change v op
  generalize v.perform op = result at hchange ⊢
  cases hchange with
  | refuse => rfl
  | clearFile _ hunused => exact hkept (h.kept_clear_file hunused)
  | clearLink _ hunused => exact hkept (h.kept_clear_link hunused)
  | clearDirectory _ hunused => exact hkept (h.kept_clear_directory hunused)
  | createFile hpath hvacant hk hunused =>
    refine h.entries_added (h.added_file hvacant hk hunused) ?_
    rw [hpath, text, ramFile, Table.slot_set_self]
  | createLink _ hpath hvacant hsrc hfile hk hunused =>
    refine h.entries_added (h.added_link hvacant hk hunused (h.sourceInUse hsrc hfile)) ?_
    rw [hpath, text, Table.slot_set_self]
  | createDirectory hpath hvacant hk hunused =>
    refine h.entries_added (h.added_directory hvacant hk hunused) ?_
    rw [hpath, text, Table.slot_set_self]
  | truncate => exact hkept kept_setFileSize
  | moveLink hold hnew hvacant hat _ hk hused htext =>
    exact h.entries_moved hold (h.moved_link hat hvacant hk hused htext) (text_moveToLink ▸ hnew)
  | moveFile hold hnew hvacant hat hfile hlinks =>
    exact h.entries_moved hold (h.moved_file hat hvacant hfile hlinks) (text_moveToFile ▸ hnew)
  | moveDirectory hold hnew hvacant hat _ _ hk hused htext =>
    exact h.entries_moved hold (h.moved_directory hat hvacant hk hused htext)
      (text_moveToDirectory ▸ hnew)
  | deleteFile hpath hat hfile => exact h.entries_removed hpath hat (h.removed_file hat hfile)
  | deleteDirectory hpath _ hat htype =>
    exact h.entries_removed hpath hat (h.removed_directory hat htype)

end Vfs
end IanOS
