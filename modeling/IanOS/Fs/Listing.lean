import IanOS.Fs.Runs

/-!
# Directory listings

`copy_directory_entry` decides by comparing texts which nodes lie in a directory.  On canonical
paths this is the test of `parent_path`, so that the indices 0, 1, 2, … give the nodes whose parent
is the directory, in the order of the table.
-/

namespace IanOS

open SlashPath List

/-- Where the name begins in the path of an entry of this directory. -/
def nameStart (directory : Path) : ℕ :=
  if 1 < directory.length then directory.length + 1 else directory.length

def pathIsDirectChild (path directory : Path) : Bool :=
  pathHasPrefixChild path directory ∧
    (1 < directory.length → path[directory.length]? = some slash) ∧
    path.drop (nameStart directory) ≠ [] ∧ slash ∉ path.drop (nameStart directory)

/-- The loop of `basename_of`. -/
def basenameOf (path : Path) : Path :=
  (range path.length).foldl (fun name i =>
    if path[i]? = some slash ∧ i + 1 < path.length then path.drop (i + 1) else name) path

namespace Vfs

/-- `hybrid::VfsDirectoryEntryInfo`. -/
structure DirectoryEntryInfo extends StatInfo where
  name : Path
  deriving DecidableEq, Repr

/-- What is reported about a node. -/
def entryInfo (v : Vfs) (out : Outside) (node : Node) : DirectoryEntryInfo :=
  let path := (v.pathOf node).getD []
  ⟨⟨node.type, node.abiFlags, v.nodeSize out node, v.linkCount node, copyPath path⟩,
    (basenameOf path).take 31⟩

def isListed (v : Vfs) (directory : Path) (node : Node) : Bool :=
  node.type ≠ .empty ∧ (v.pathOf node).any (pathIsDirectChild · directory)

/-- The loop over the nodes. -/
def findEntry (v : Vfs) (directory : Path) (index : ℕ) : List Node → ℕ → Option Node
  | [], _ => none
  | node :: rest, seen =>
      if ¬v.isListed directory node then v.findEntry directory index rest seen
      else if seen ≠ index then v.findEntry directory index rest (seen + 1)
      else some node

/-- The kinds of `/proc` entries that are directories. -/
def IsProcDirectory (kind : DynamicProcKind) : Prop :=
  kind ∈ [.pidDirectory, .pidFd, .pidFdinfo, .pidTask, .pidTaskTidDirectory]
  deriving Decidable

/-- `proc` is what stands in `/proc`, behind its nodes, and below it: it depends on the processes.
-/
def copyDirectoryEntry (v : Vfs) (out : Outside) (proc : Path → ℕ → Option DirectoryEntryInfo)
    (path : Path) (index : ℕ) : Option DirectoryEntryInfo :=
  match normalizePath path with
  | none => none
  | some normalized =>
      let isDirectory := (v.findNormalized normalized).any fun i => (v.nodeAt i).type = .directory
      let isProc : Prop := IsProcDirectory (out.dynamicKind normalized)
      if ¬isDirectory ∧ ¬isProc then none
      else
        match if isDirectory then v.findEntry normalized index v.nodes 0 else none with
        | some node => some (v.entryInfo out node)
        | none => if normalized = Path.ascii "/proc" ∨ isProc then proc normalized index else none

end Vfs

/-! ## Direct children -/

variable {path directory : Path} {l d : List Path}

/-- Behind the path of the directory stands a slash, and then the rest of the segments. -/
lemma Names.drop_nameStart {s : Path} (h : Names path (d ++ s :: l)) (hd : Names directory d) :
    path.drop (nameStart directory) = s ++ body slash l ∧
      (1 < directory.length → path[directory.length]? = some slash) := by
  obtain ⟨-, rfl, -⟩ := h
  obtain ⟨hgood, rfl, -⟩ := hd
  have hne : d ++ s :: l ≠ [] := by simp
  rw [render_of_ne_nil hne, body_append, nameStart]
  by_cases hroot : d = []
  · subst hroot
    exact ⟨rfl, fun h => absurd h (lt_irrefl 1)⟩
  · have hlong : 1 < (render slash d).length := not_le.1 (mt (length_render_le_one hgood).1 hroot)
    rw [if_pos hlong, render_of_ne_nil hroot]
    simp

lemma Names.pathIsDirectChild (h : Names path l) (hd : Names directory d) :
    pathIsDirectChild path directory ↔ ∃ s, l = d ++ [s] := by
  rw [IanOS.pathIsDirectChild, decide_eq_true_eq, h.pathHasPrefixChild hd]
  constructor
  · rintro ⟨⟨t, hne, rfl⟩, -, -, hslash⟩
    obtain ⟨s, t, rfl⟩ := exists_cons_of_ne_nil hne
    rw [(h.drop_nameStart hd).1] at hslash
    cases t with
    | nil => exact ⟨s, rfl⟩
    | cons s' t => simp at hslash
  · rintro ⟨s, rfl⟩
    obtain ⟨-, hs, hslash, -⟩ := goodSegments_concat.1 h.1
    obtain ⟨hdrop, hafter⟩ := h.drop_nameStart hd
    rw [hdrop, body_nil, append_nil]
    exact ⟨⟨[s], by simp, rfl⟩, hafter, hs, hslash⟩

/-- On canonical paths the comparison of texts is the test of the parent. -/
lemma pathIsDirectChild_iff (hpath : Canonical path) (hdirectory : Canonical directory) :
    pathIsDirectChild path directory ↔ parentPath path = some directory := by
  obtain ⟨l, h⟩ := canonical_iff.1 hpath
  obtain ⟨d, hd⟩ := canonical_iff.1 hdirectory
  constructor
  · intro hchild
    obtain ⟨s, rfl⟩ := (h.pathIsDirectChild hd).1 hchild
    obtain ⟨parent, hparent, hnames⟩ := h.parentPath
    rw [hparent, hnames.2.1, hd.2.1]
  intro hparent
  obtain rfl | ⟨l, s, rfl⟩ := eq_nil_or_concat l
  · rw [h.2.1] at hparent
    cases hparent
  · rw [concat_eq_append] at h
    obtain ⟨parent, hparent', hnames⟩ := h.parentPath
    obtain rfl := Option.some.inj (hparent'.symm.trans hparent)
    exact (h.pathIsDirectChild hnames).2 ⟨s, rfl⟩

/-! ## Listings -/

namespace Vfs

variable {v : Vfs} {out : Outside} {proc : Path → ℕ → Option DirectoryEntryInfo} {index : ℕ}

lemma findEntry_eq (nodes : List Node) {seen : ℕ} (hseen : seen ≤ index) :
    v.findEntry directory index nodes seen =
      (nodes.filter (v.isListed directory))[index - seen]? := by
  induction nodes generalizing seen with
  | nil => rfl
  | cons node nodes ih =>
    rw [findEntry, filter_cons]
    by_cases hlisted : v.isListed directory node
    · rw [if_neg (not_not.2 hlisted), if_pos hlisted]
      by_cases hindex : seen = index
      · rw [if_neg (not_not.2 hindex), hindex, Nat.sub_self, getElem?_cons_zero]
      · have hnext : index - seen = index - (seen + 1) + 1 := by omega
        rw [if_pos hindex, ih (by omega), hnext, getElem?_cons_succ]
    · rw [if_pos hlisted, if_neg hlisted, ih hseen]

/-- The path leads to a directory outside `/proc`. -/
structure Lists (v : Vfs) (out : Outside) (path directory : Path) : Prop where
  normalized : normalizePath path = some directory
  found : (v.findNormalized directory).any fun i => (v.nodeAt i).type = .directory
  outside : directory ≠ Path.ascii "/proc" ∧ ¬IsProcDirectory (out.dynamicKind directory)

/-- The paths of the nodes are canonical. -/
def CanonicalPaths (v : Vfs) : Prop :=
  ∀ node ∈ v.nodes, ∀ p ∈ v.pathOf node, Canonical p
  deriving Decidable

/-- The indices 0, 1, 2, … give the nodes whose parent is the directory, in the order of the table,
and then nothing. -/
theorem directory_listing (hpaths : v.CanonicalPaths) (h : v.Lists out path directory) :
    v.copyDirectoryEntry out proc path index =
      ((v.nodes.filter fun node => node.type ≠ .empty ∧
        (v.pathOf node).bind parentPath = some directory)[index]?).map (v.entryInfo out) := by
  obtain ⟨hnormalized, hfound, hproc, hkind⟩ := h
  have hlisted : v.nodes.filter (v.isListed directory) = v.nodes.filter fun node =>
      node.type ≠ .empty ∧ (v.pathOf node).bind parentPath = some directory := by
    refine filter_congr fun node hnode => ?_
    rw [isListed]
    cases hpath : v.pathOf node with
    | none => simp
    | some p =>
      have hiff :=
        pathIsDirectChild_iff (hpaths node hnode p hpath) (canonical_of_normalizePath hnormalized)
      simp [hiff]
  rw [copyDirectoryEntry, hnormalized]
  dsimp only
  rw [if_neg (by simp [hfound]), if_pos hfound, findEntry_eq v.nodes (Nat.zero_le index), hlisted,
    Nat.sub_zero]
  split
  · next node hnode => rw [hnode, Option.map_some]
  · next hnone => rw [hnone, if_neg (not_or.2 ⟨hproc, hkind⟩), Option.map_none]

/-- A directory with one file in it, and a file whose path only begins alike. -/
def smallTree : Vfs := .booted [.directory (.ascii "/a") true, .memoryFile (.ascii "/a/b") 1 1,
  .memoryFile (.ascii "/ab") 1 1]

theorem directory_listing_small : [0, 1].map (fun index => (smallTree.copyDirectoryEntry default
    (fun _ _ => none) (.ascii "//a/.") index).map (·.name)) = [some (.ascii "b"), none] := by
  have hpaths : smallTree.CanonicalPaths := by decide +kernel
  have hlists : smallTree.Lists default (.ascii "//a/.") (.ascii "/a") :=
    ⟨by decide +kernel, by decide +kernel, by decide +kernel⟩
  simp only [directory_listing hpaths hlists]
  decide +kernel

end Vfs
end IanOS
