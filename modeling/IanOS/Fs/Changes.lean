import IanOS.Fs.Vfs

/-!
# What the namespace functions can do

Each function that changes the namespace either refuses, or adds a node, moves a node, removes a
node or sets the size of a file.  `Change` lists these outcomes with what the function has checked
before; everything about sequences of calls is derived from this list.
-/

namespace IanOS

open Option Table

/-- A call of a function that changes the namespace. -/
inductive NamespaceOp
  | createRamFile (path : Path)
  | linkRamFile (existingPath newPath : Path)
  | truncateRamFile (path : Path) (size : ℕ)
  | renameRamNode (oldPath newPath : Path)
  | deleteRamFile (path : Path)
  | createRamDirectory (path : Path)
  | deleteRamDirectory (path : Path)
  deriving DecidableEq, Repr

namespace Vfs

/-- Make the call. -/
def perform (v : Vfs) : NamespaceOp → Bool × Vfs
  | .createRamFile path => v.createRamFile path
  | .linkRamFile existingPath newPath => v.linkRamFile existingPath newPath
  | .truncateRamFile path size => v.truncateRamFile path size
  | .renameRamNode oldPath newPath => v.renameRamNode oldPath newPath
  | .deleteRamFile path => v.deleteRamFile path
  | .createRamDirectory path => v.createRamDirectory path
  | .deleteRamDirectory path => v.deleteRamDirectory path

variable {v : Vfs} {p : Path} {i : ℕ}

/-- A normalized path at which a node may be put. -/
structure Vacant (v : Vfs) (p : Path) : Prop where
  canonical : Canonical p
  proper : 1 < p.length
  free : v.findNormalized p = none
  parent : v.hasParentDirectory p

/-- A node that stands at a path. -/
structure StandsAt (v : Vfs) (i : ℕ) (p : Path) : Prop where
  canonical : Canonical p
  lt : i < v.nodes.length
  path : v.pathOf (v.nodeAt i) = some p

/-- The outcomes of a call. -/
inductive Change (v : Vfs) : NamespaceOp → Bool × Vfs → Prop
  | refuse (op : NamespaceOp) : Change v op (false, v)
  /-- The table of nodes was full, and the record chosen for the new node has been cleared. -/
  | clearFile (op : NamespaceOp) {k : ℕ} (hunused : ¬(v.ramFile k).used) :
      Change v op (false, { v with ramFiles := v.ramFiles.set k {} })
  | clearLink (op : NamespaceOp) {k : ℕ} (hunused : ¬(v.ramLinks.slot k).used) :
      Change v op (false, { v with ramLinks := v.ramLinks.set k {} })
  | clearDirectory (op : NamespaceOp) {k : ℕ} (hunused : ¬(v.ramDirectories.slot k).used) :
      Change v op (false, { v with ramDirectories := v.ramDirectories.set k {} })
  | createFile {path p : Path} {k : ℕ} (hpath : normalizePath path = some p) (hvacant : Vacant v p)
      (hk : k < v.ramFiles.count) (hunused : ¬(v.ramFile k).used)
      (hroom : v.nodes.length < kMaxVfsNodes) :
      Change v (.createRamFile path) (true, { v with
          ramFiles := v.ramFiles.set k { used := true, path := p }
          nodes := v.nodes ++ [fileNode k] })
  | createLink {existing path p q : Path} {i k f : ℕ} (hexisting : normalizePath existing = some q)
      (hpath : normalizePath path = some p) (hvacant : Vacant v p) (hsource : v.StandsAt i q)
      (hfile : (v.nodeAt i).writableRamFile = some f) (hk : k < v.ramLinks.count)
      (hunused : ¬(v.ramLinks.slot k).used) (hroom : v.nodes.length < kMaxVfsNodes) :
      Change v (.linkRamFile existing path) (true, { v with
          ramLinks := v.ramLinks.set k { used := true, path := p, target := some f }
          nodes := v.nodes ++ [linkNode k f (v.ramFile f).size] })
  | createDirectory {path p : Path} {k : ℕ} (hpath : normalizePath path = some p)
      (hvacant : Vacant v p) (hk : k < v.ramDirectories.count)
      (hunused : ¬(v.ramDirectories.slot k).used) (hroom : v.nodes.length < kMaxVfsNodes) :
      Change v (.createRamDirectory path) (true, { v with
          ramDirectories := v.ramDirectories.set k { used := true, path := p }
          nodes := v.nodes ++ [directoryNode k] })
  | truncate {path p : Path} {i k size : ℕ} (hpath : normalizePath path = some p)
      (hat : v.StandsAt i p) (hfile : (v.nodeAt i).writableRamFile = some k)
      (hsize : size ≤ kMaxRamFileBytes) :
      Change v (.truncateRamFile path size) (true, v.setFileSize k size)
  | moveLink {old new p q : Path} {i k f : ℕ} (hold : normalizePath old = some p)
      (hnew : normalizePath new = some q) (hvacant : Vacant v q) (hat : v.StandsAt i p)
      (hfile : (v.nodeAt i).ramFile = some f) (hk : k < v.ramLinks.count)
      (hused : (v.ramLinks.slot k).used) (htext : (v.ramLinks.slot k).path = p)
      (hwritable : (v.nodeAt i).writable) :
      Change v (.renameRamNode old new) (true, v.moveToLink i k q)
  | moveFile {old new p q : Path} {i f : ℕ} (hold : normalizePath old = some p)
      (hnew : normalizePath new = some q) (hvacant : Vacant v q) (hat : v.StandsAt i p)
      (hfile : (v.nodeAt i).ramFile = some f)
      (hlinks : ∀ k < v.ramLinks.count, (v.ramLinks.slot k).used → (v.ramLinks.slot k).path ≠ p)
      (htext : (v.ramFile f).path = p) (hwritable : (v.nodeAt i).writable) :
      Change v (.renameRamNode old new) (true, v.moveToFile i f q)
  | moveDirectory {old new p q : Path} {i k : ℕ} (hold : normalizePath old = some p)
      (hnew : normalizePath new = some q) (hvacant : Vacant v q) (hat : v.StandsAt i p)
      (htype : (v.nodeAt i).type = .directory)
      (hchildren : ∀ c < v.nodes.length, c ≠ i → ∀ r ∈ v.pathOf (v.nodeAt c),
        ¬pathHasPrefixChild r p)
      (hk : k < v.ramDirectories.count) (hused : (v.ramDirectories.slot k).used)
      (htext : (v.ramDirectories.slot k).path = p) (hwritable : (v.nodeAt i).writable) :
      Change v (.renameRamNode old new) (true, v.moveToDirectory i k q)
  | deleteFile {path p : Path} {i f : ℕ} (hpath : normalizePath path = some p)
      (hat : v.StandsAt i p) (hfile : (v.nodeAt i).ramFile = some f)
      (hhandles : ∀ k < v.handles.count, ¬v.onRamFile f (v.handle k))
      (hwritable : (v.nodeAt i).writable) :
      Change v (.deleteRamFile path) (true, ((v.freeLink p).removeNode i).freeUnlinked f)
  | deleteDirectory {path p : Path} {i : ℕ} (hpath : normalizePath path = some p)
      (hproper : 1 < p.length) (hat : v.StandsAt i p) (htype : (v.nodeAt i).type = .directory)
      (hchildren : ∀ node ∈ v.nodes, ∀ r ∈ v.pathOf node, ¬pathHasPrefixChild r p)
      (hwritable : (v.nodeAt i).writable) :
      Change v (.deleteRamDirectory path) (true, (v.freeDirectory p).removeNode i)

/-! ## Every call has one of these outcomes -/

lemma find_of_canonical (h : Canonical p) : v.find p = v.findNormalized p := by
  rw [find, h, bind_some]

lemma nodeAt_eq_getElem (hi : i < v.nodes.length) : v.nodeAt i = v.nodes[i] := by
  rw [nodeAt, List.getD_eq_getElem?_getD, List.getElem?_eq_getElem hi, getD_some]

/-- What a search for the first node with a property finds. -/
lemma findIdx?_nodes {P : Node → Bool} (h : v.nodes.findIdx? P = some i) :
    i < v.nodes.length ∧ P (v.nodeAt i) = true := by
  obtain ⟨hi, hP, -⟩ := List.findIdx?_eq_some_iff_getElem.1 h
  exact ⟨hi, by rw [nodeAt_eq_getElem hi]; exact hP⟩

lemma standsAt_of_find (hp : Canonical p) (h : v.find p = some i) : v.StandsAt i p := by
  rw [find_of_canonical hp] at h
  obtain ⟨hi, hpath⟩ := findIdx?_nodes h
  exact ⟨hp, hi, of_decide_eq_true hpath⟩

/-- The checks that all functions make that put a node at a path. -/
lemma vacant_of_checks {path : Path} (hpath : copyPathChecked path = some p)
    (hfree : ¬(v.find p).isSome) (hparent : v.hasParentDirectory p) : Vacant v p := by
  obtain ⟨hnormal, hproper⟩ := copyPathChecked_eq_some.1 hpath
  have hcanon := canonical_of_normalizePath hnormal
  rw [find_of_canonical hcanon, not_isSome_iff_eq_none] at hfree
  exact ⟨hcanon, hproper, hfree, hparent⟩

lemma Vacant.copyPathChecked (h : Vacant v p) : copyPathChecked p = some p :=
  copyPathChecked_eq_some.2 ⟨h.canonical, h.proper⟩

lemma addNode_cases (v : Vfs) (node : Node) :
    v.nodes.length < kMaxVfsNodes ∧ v.addNode node = (true, { v with nodes := v.nodes ++ [node] }) ∨
      v.addNode node = (false, v) := by
  rw [addNode]
  split
  · exact .inr rfl
  · split_ifs with hchecks
    · exact .inr rfl
    · exact .inl ⟨not_le.1 fun hfull => hchecks (.inr (.inl hfull)), rfl⟩

lemma createRamFile_change (path : Path) :
    Change v (.createRamFile path) (v.createRamFile path) := by
  rw [createRamFile, createRamFileThen]
  split
  · exact .refuse _
  next p hpath =>
    split_ifs with hchecks
    · exact .refuse _
    rw [not_or, not_not] at hchecks
    have hvacant := vacant_of_checks hpath hchecks.1 hchecks.2
    rw [hvacant.copyPathChecked]
    cases hslot : v.ramFiles.find fun file => ¬file.used with
    | none => exact .refuse _
    | some k =>
      obtain ⟨hk, hunused, -⟩ := find_eq_some.1 hslot
      dsimp only
      obtain ⟨hroom, hadd⟩ | hadd := addNode_cases
        { v with ramFiles := v.ramFiles.set k { used := true, path := p } } (fileNode k)
      · rw [hadd]
        exact .createFile (copyPathChecked_eq_some.1 hpath).1 hvacant hk hunused hroom
      · rw [hadd]
        exact .clearFile _ hunused

lemma createRamDirectory_change (path : Path) :
    Change v (.createRamDirectory path) (v.createRamDirectory path) := by
  rw [createRamDirectory, createRamDirectoryThen]
  split
  · exact .refuse _
  next p hpath =>
    split_ifs with hchecks
    · exact .refuse _
    rw [not_or, not_not] at hchecks
    have hvacant := vacant_of_checks hpath hchecks.1 hchecks.2
    rw [hvacant.copyPathChecked]
    cases hslot : v.ramDirectories.find fun d => ¬d.used with
    | none => exact .refuse _
    | some k =>
      obtain ⟨hk, hunused, -⟩ := find_eq_some.1 hslot
      dsimp only
      obtain ⟨hroom, hadd⟩ | hadd := addNode_cases
        { v with ramDirectories := v.ramDirectories.set k { used := true, path := p } }
        (directoryNode k)
      · rw [hadd]
        exact .createDirectory (copyPathChecked_eq_some.1 hpath).1 hvacant hk hunused hroom
      · rw [hadd]
        exact .clearDirectory _ hunused

lemma linkRamFile_change (existing path : Path) :
    Change v (.linkRamFile existing path) (v.linkRamFile existing path) := by
  rw [linkRamFile, linkRamFileThen]
  split
  · next q p hexist hpath =>
    by_cases hfree : (v.find p).isSome
    · rw [if_pos hfree]
      exact .refuse _
    rw [if_neg hfree]
    split
    · exact .refuse _
    next f hsrc =>
      obtain ⟨i, hi, hfile⟩ := bind_eq_some_iff.1 hsrc
      split_ifs with hparent
      · have hvacant := vacant_of_checks hpath hfree hparent
        split
        · exact .refuse _
        next k hslot =>
          obtain ⟨hk, hunused, -⟩ := find_eq_some.1 hslot
          rw [copyPath_of_canonical hvacant.canonical]
          dsimp only
          have hat := standsAt_of_find (canonical_of_normalizePath hexist) hi
          obtain ⟨hroom, hadd⟩ | hadd := addNode_cases
            { v with ramLinks := v.ramLinks.set k { used := true, path := p, target := some f } }
            (linkNode k f (v.ramFile f).size)
          · rw [hadd]
            exact .createLink hexist (copyPathChecked_eq_some.1 hpath).1 hvacant hat hfile
              hk hunused hroom
          · rw [hadd]
            exact .clearLink _ hunused
      · exact .refuse _
  · exact .refuse _

lemma truncateRamFile_change (path : Path) (size : ℕ) :
    Change v (.truncateRamFile path size) (v.truncateRamFile path size) := by
  rw [truncateRamFile, truncateRamFileThen]
  split
  · exact .refuse _
  next p hpath =>
    split_ifs with hsize
    · exact .refuse _
    split
    · exact .refuse _
    next k hfile =>
      obtain ⟨i, hi, hfile⟩ := bind_eq_some_iff.1 hfile
      exact .truncate hpath (standsAt_of_find (canonical_of_normalizePath hpath) hi) hfile
        (not_lt.1 hsize)

/-- A round of the loop of `rename_ram_node` that ends the loop. -/
lemma renameAt_change {old new q : Path} {r : Bool × Vfs} (hold : normalizePath old = some p)
    (hnew : normalizePath new = some q) (hvacant : Vacant v q) (hi : i < v.nodes.length)
    (h : v.renameAt (true, ·) (false, ·) p q i = some r) : Change v (.renameRamNode old new) r := by
  rw [renameAt, copyPath_of_canonical hvacant.canonical] at h
  by_cases hnode : v.pathOf (v.nodeAt i) ≠ some p ∨ ¬(v.nodeAt i).writable ∨ (v.nodeAt i).diskBacked
  · rw [if_pos hnode] at h
    cases h
  rw [if_neg hnode] at h
  simp only [not_or, not_not] at hnode
  have hat : v.StandsAt i p := ⟨canonical_of_normalizePath hold, hi, hnode.1⟩
  split at h
  · next f htype hfile =>
    split at h
    · next k hslot =>
      obtain ⟨hk, ⟨hused, htext⟩, -⟩ := find_eq_some.1 hslot
      rw [← some.inj h]
      exact .moveLink hold hnew hvacant hat hfile hk hused htext hnode.2.1
    · next hslot =>
      split_ifs at h with hown
      · rw [← some.inj h]
        exact .refuse _
      simp only [not_or, not_not] at hown
      rw [← some.inj h]
      refine .moveFile hold hnew hvacant hat hfile (fun k hk hused htext => ?_) hown.2 hnode.2.1
      exact find_eq_none.1 hslot k hk ⟨hused, htext⟩
  · next htype hfile =>
    split_ifs at h with hchildren
    · rw [← some.inj h]
      exact .refuse _
    push Not at hchildren
    split at h
    · next k hslot =>
      obtain ⟨hk, ⟨hused, htext⟩, -⟩ := find_eq_some.1 hslot
      rw [← some.inj h]
      exact .moveDirectory hold hnew hvacant hat htype hchildren hk hused htext hnode.2.1
    · cases h
  · cases h

lemma renameRamNode_change (old new : Path) :
    Change v (.renameRamNode old new) (v.renameRamNode old new) := by
  rw [renameRamNode, renameRamNodeThen]
  split
  · next p q hold hnew =>
    split_ifs with hchecks
    · exact .refuse _
    simp only [not_or, not_not] at hchecks
    have hvacant := vacant_of_checks hnew (by simpa using hchecks.2.1) hchecks.2.2
    cases hloop : (List.range v.nodes.length).findSome? (v.renameAt (true, ·) (false, ·) p q) with
    | none => exact .refuse _
    | some r =>
      obtain ⟨i, hi, hround⟩ := List.exists_of_findSome?_eq_some hloop
      exact renameAt_change hold (copyPathChecked_eq_some.1 hnew).1 hvacant
        (List.mem_range.1 hi) hround
  · exact .refuse _

lemma deleteRamFile_change (path : Path) :
    Change v (.deleteRamFile path) (v.deleteRamFile path) := by
  rw [deleteRamFile, deleteRamFileThen]
  split
  · exact .refuse _
  next p hpath =>
    split
    · exact .refuse _
    next i hi =>
      obtain ⟨hlt, hnode⟩ := findIdx?_nodes hi
      obtain ⟨hpathOf, hwritable, -⟩ := of_decide_eq_true hnode
      have hat : v.StandsAt i p := ⟨canonical_of_normalizePath hpath, hlt, hpathOf⟩
      split
      · exact .refuse _
      next f hfile =>
        split_ifs with hhandles
        · exact .refuse _
        rw [not_isSome_iff_eq_none] at hhandles
        exact .deleteFile hpath hat hfile (fun k hk => find_eq_none.1 hhandles k hk) hwritable

lemma deleteRamDirectory_change (path : Path) :
    Change v (.deleteRamDirectory path) (v.deleteRamDirectory path) := by
  rw [deleteRamDirectory, deleteRamDirectoryThen]
  split
  · exact .refuse _
  next p hpath =>
    by_cases hproper : p.length ≤ 1
    · rw [if_pos hproper]
      exact .refuse _
    rw [if_neg hproper]
    split
    · exact .refuse _
    next i hi =>
      obtain ⟨hlt, hnode⟩ := findIdx?_nodes hi
      obtain ⟨hpathOf, htype, hwritable⟩ := of_decide_eq_true hnode
      have hat : v.StandsAt i p := ⟨canonical_of_normalizePath hpath, hlt, hpathOf⟩
      split_ifs with hchildren
      · exact .refuse _
      push Not at hchildren
      refine .deleteDirectory hpath (not_le.1 hproper) hat htype
        (fun node hnode r hr => ?_) hwritable
      simpa using hchildren node hnode r hr

/-- The outcomes listed are all there are. -/
theorem perform_change (v : Vfs) (op : NamespaceOp) : Change v op (v.perform op) := by
  cases op with
  | createRamFile => exact createRamFile_change _
  | linkRamFile => exact linkRamFile_change _ _
  | truncateRamFile => exact truncateRamFile_change _ _
  | renameRamNode => exact renameRamNode_change _ _
  | deleteRamFile => exact deleteRamFile_change _
  | createRamDirectory => exact createRamDirectory_change _
  | deleteRamDirectory => exact deleteRamDirectory_change _

end Vfs
end IanOS
