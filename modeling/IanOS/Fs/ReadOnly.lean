import IanOS.Fs.Entries
import IanOS.Fs.Runs
import IanOS.Lib.Run

/-!
# Directories that are not writable

The functions that put a node at a path ask only that its parent is a directory, not that the parent
is writable, and the functions that move or remove a node look at the node alone.  So the names
below a read-only directory change whenever a call that succeeds puts a node there or takes one
away, and stay as long as no call names a path below such a directory.

Nothing here depends on what counts as below: `below` may be the children of a directory or
everything underneath it.
-/

namespace IanOS

open NamespaceOp

/-- The paths at which a node appears or disappears when the call succeeds. -/
def NamespaceOp.touched : NamespaceOp → List Path
  | .createRamFile path | .createRamDirectory path | .linkRamFile _ path | .deleteRamFile path
  | .deleteRamDirectory path => [path].filterMap normalizePath
  | .truncateRamFile _ _ => []
  | .renameRamNode old new => [old, new].filterMap normalizePath

namespace Vfs

variable {v v' : Vfs} {n : Node} {i : ℕ} {p q d : Path} {r : PathRef} {op : NamespaceOp}
  {res : Bool × Vfs}

/-- The paths of the nodes. -/
def names (v : Vfs) : Set Path := {p | ∃ n ∈ v.nodes, v.pathOf n = some p}

/-- A directory that is not writable stands at the path. -/
def ReadOnlyDirectory (v : Vfs) (d : Path) : Prop :=
  ∃ n ∈ v.nodes, v.pathOf n = some d ∧ n.type = .directory ∧ ¬n.writable
  deriving Decidable

def namesBelow (v : Vfs) (below : Path → Path → Prop) (d : Path) : Set Path :=
  {p ∈ v.names | below p d}

/-- The call is about no path below a read-only directory. -/
def Spares (v : Vfs) (below : Path → Path → Prop) (op : NamespaceOp) : Prop :=
  ∀ p ∈ op.touched, ∀ d, v.ReadOnlyDirectory d → ¬below p d

/-- The same of any call of the file system; those through handles are about no path. -/
def SparesCall (below : Path → Path → Prop) (v : Vfs) : VfsOp → Prop
  | .change op => v.Spares below op
  | .handle _ _ => True

/-! ## How calls change the names -/

lemma mem_names_iff : p ∈ v.names ↔ (p, ()) ∈ v.labelled fun _ => () := by
  rw [mem_labelled_iff]
  simp only [and_true]
  rfl

/-- What a directory is read-only by. -/
def kindOf (n : Node) : NodeType × Bool := (n.type, n.writable)

lemma kindOf_alike (m m' : Node) (h : Alike m m') : kindOf m' = kindOf m :=
  Prod.ext h.type h.writable

lemma readOnlyDirectory_iff :
    v.ReadOnlyDirectory d ↔ (d, NodeType.directory, false) ∈ v.labelled kindOf := by
  rw [mem_labelled_iff]
  simp [ReadOnlyDirectory, kindOf]

lemma Vacant.notMem_names (h : v.Vacant p) : p ∉ v.names := by
  rintro ⟨n, hn, hp⟩
  exact h.pathOf_ne hn hp

lemma StandsAt.mem_names (h : v.StandsAt i p) : p ∈ v.names := ⟨_, nodeAt_mem h.lt, h.path⟩

section

variable (h : Stored v)
include h

lemma Stored.names_kept (hkept : Kept v v') : v'.names = v.names := by
  ext p
  rw [mem_names_iff, h.labelled_kept hkept fun _ _ _ => rfl, mem_names_iff]

lemma Stored.names_added (hadded : Added v v' n r) :
    p ∈ v'.names ↔ p = v'.text r ∨ p ∈ v.names := by
  rw [mem_names_iff, h.labelled_added hadded, Set.mem_insert_iff, mem_names_iff, Prod.mk.injEq,
    and_iff_left rfl]

lemma Stored.names_moved (hm : Moved v v' i q r) :
    p ∈ v'.names ↔ p = v'.text r ∨ p ∈ v.names ∧ p ≠ q := by
  rw [mem_names_iff, h.labelled_moved hm, Set.mem_insert_iff, Set.mem_sdiff, mem_names_iff,
    Set.mem_singleton_iff, Prod.mk.injEq, and_iff_left rfl, Prod.mk.injEq, and_iff_left rfl]

lemma Stored.names_removed (hat : v.StandsAt i q) (hremoved : Removed v v' i) :
    p ∈ v'.names ↔ p ∈ v.names ∧ p ≠ q := by
  rw [mem_names_iff, h.labelled_removed hat hremoved, Set.mem_sdiff, mem_names_iff,
    Set.mem_singleton_iff, Prod.mk.injEq, and_iff_left rfl]

/-- A new name is one that was not there. -/
lemma Stored.changes_added (hadded : Added v v' n r) (hq : v'.text r = q) :
    (p ∈ v'.names ↔ p ∈ v.names) ↔ p ≠ q := by
  have hnew := hadded.vacant.notMem_names
  rw [h.names_added hadded, hq]
  rw [hq] at hnew
  constructor
  · rintro hiff rfl
    exact hnew (hiff.1 (.inl rfl))
  · intro hne
    rw [or_iff_right hne]

lemma Stored.changes_removed (hat : v.StandsAt i q) (hremoved : Removed v v' i) :
    (p ∈ v'.names ↔ p ∈ v.names) ↔ p ≠ q := by
  rw [h.names_removed hat hremoved]
  constructor
  · rintro hiff rfl
    exact (hiff.2 hat.mem_names).2 rfl
  · intro hne
    rw [and_iff_left hne]

lemma Stored.changes_moved {q' : Path} (hm : Moved v v' i q r)
    (hq' : v'.text r = q') : (p ∈ v'.names ↔ p ∈ v.names) ↔ p ≠ q ∧ p ≠ q' := by
  have hold := hm.at_.mem_names
  have hnew := hm.vacant.notMem_names
  rw [hq'] at hnew
  have hne : q ≠ q' := fun heq => hnew (heq ▸ hold)
  rw [h.names_moved hm, hq']
  constructor
  · intro hiff
    refine ⟨?_, ?_⟩
    · rintro rfl
      exact (hiff.2 hold).elim hne fun hgone => hgone.2 rfl
    · rintro rfl
      exact hnew (hiff.1 (.inl rfl))
  · rintro ⟨hq, hq'⟩
    rw [or_iff_right hq', and_iff_left hq]

/-- A call that succeeds changes exactly the names it touches. -/
lemma Stored.changes_iff (hchange : Change v op res) (hok : res.1 = true) (p : Path) :
    (p ∈ res.2.names ↔ p ∈ v.names) ↔ p ∉ op.touched := by
  cases hchange with
  | refuse | clearFile | clearLink | clearDirectory => cases hok
  | createFile hpath hvacant hk hunused =>
    have hadded := h.added_file hvacant hk hunused
    rw [h.changes_added hadded rfl]
    simp [touched, hpath, text, ramFile]
  | createLink _ hpath hvacant hsrc hfile hk hunused =>
    refine (h.changes_added (h.added_link hvacant hk hunused (h.sourceInUse hsrc hfile))
      rfl).trans ?_
    simp [touched, hpath, text]
  | createDirectory hpath hvacant hk hunused =>
    have hadded := h.added_directory hvacant hk hunused
    rw [h.changes_added hadded rfl]
    simp [touched, hpath, text]
  | truncate =>
    rw [h.names_kept kept_setFileSize]
    simp [touched]
  | moveLink hold hnew hvacant hat _ hk hused htext =>
    rw [h.changes_moved (h.moved_link hat hvacant hk hused htext) text_moveToLink]
    simp [touched, hold, hnew]
  | moveFile hold hnew hvacant hat hfile hlinks =>
    rw [h.changes_moved (h.moved_file hat hvacant hfile hlinks) text_moveToFile]
    simp [touched, hold, hnew]
  | moveDirectory hold hnew hvacant hat _ _ hk hused htext =>
    rw [h.changes_moved (h.moved_directory hat hvacant hk hused htext) text_moveToDirectory]
    simp [touched, hold, hnew]
  | deleteFile hpath hat hfile =>
    rw [h.changes_removed hat (h.removed_file hat hfile)]
    simp [touched, hpath]
  | deleteDirectory hpath _ hat htype =>
    rw [h.changes_removed hat (h.removed_directory hat htype)]
    simp [touched, hpath]

lemma Stored.names_refused (hchange : Change v op res) (hrefused : res.1 = false) :
    res.2.names = v.names := by
  cases hchange with
  | refuse => rfl
  | clearFile _ hunused => exact h.names_kept (h.kept_clear_file hunused)
  | clearLink _ hunused => exact h.names_kept (h.kept_clear_link hunused)
  | clearDirectory _ hunused => exact h.names_kept (h.kept_clear_directory hunused)
  | _ => cases hrefused

lemma Stored.perform_changes_iff (op : NamespaceOp) (p : Path) :
    (p ∈ (v.perform op).2.names ↔ p ∈ v.names) ↔ ((v.perform op).1 = true → p ∉ op.touched) := by
  have hchange := perform_change v op
  cases hres : (v.perform op).1 with
  | true => rw [h.changes_iff hchange hres, imp_iff_right rfl]
  | false =>
    rw [h.names_refused hchange hres]
    simp

/-! ## Read-only directories -/

/-- A read-only directory stays, since only writable nodes are moved and removed. -/
lemma Stored.readOnly_change (hchange : Change v op res) (hd : v.ReadOnlyDirectory d) :
    res.2.ReadOnlyDirectory d := by
  rw [readOnlyDirectory_iff] at hd ⊢
  have hother {i : ℕ} {p : Path} (hw : (v.nodeAt i).writable) :
      (d, NodeType.directory, false) ∉ ({(p, kindOf (v.nodeAt i))} : Set _) := by
    intro heq
    have hkind : false = (v.nodeAt i).writable := congrArg (·.2.2) heq
    cases hkind.trans hw
  cases hchange with
  | refuse => exact hd
  | clearFile _ hunused => rwa [h.labelled_kept (h.kept_clear_file hunused) kindOf_alike]
  | clearLink _ hunused => rwa [h.labelled_kept (h.kept_clear_link hunused) kindOf_alike]
  | clearDirectory _ hunused => rwa [h.labelled_kept (h.kept_clear_directory hunused) kindOf_alike]
  | createFile _ hvacant hk hunused =>
    exact h.labelled_added (h.added_file hvacant hk hunused) ▸ .inr hd
  | createLink _ _ hvacant hsrc hfile hk hunused =>
    exact h.labelled_added (h.added_link hvacant hk hunused (h.sourceInUse hsrc hfile)) ▸ .inr hd
  | createDirectory _ hvacant hk hunused =>
    exact h.labelled_added (h.added_directory hvacant hk hunused) ▸ .inr hd
  | truncate => rwa [h.labelled_kept kept_setFileSize kindOf_alike]
  | moveLink _ _ hvacant hat _ hk hused htext hw =>
    exact h.labelled_moved (h.moved_link hat hvacant hk hused htext) ▸ .inr ⟨hd, hother hw⟩
  | moveFile _ _ hvacant hat hfile hlinks _ hw =>
    exact h.labelled_moved (h.moved_file hat hvacant hfile hlinks) ▸ .inr ⟨hd, hother hw⟩
  | moveDirectory _ _ hvacant hat _ _ hk hused htext hw =>
    exact h.labelled_moved (h.moved_directory hat hvacant hk hused htext) ▸ .inr ⟨hd, hother hw⟩
  | deleteFile _ hat hfile _ hw =>
    exact h.labelled_removed hat (h.removed_file hat hfile) ▸ ⟨hd, hother hw⟩
  | deleteDirectory _ _ hat htype _ hw =>
    exact h.labelled_removed hat (h.removed_directory hat htype) ▸ ⟨hd, hother hw⟩

lemma Stored.readOnly_step (o : VfsOp) (hd : v.ReadOnlyDirectory d) :
    (v.step o).ReadOnlyDirectory d := by
  cases o with
  | change op => exact h.readOnly_change (perform_change v op) hd
  | handle out op =>
    rw [readOnlyDirectory_iff] at hd ⊢
    exact h.labelled_kept (kept_onHandle out op) kindOf_alike ▸ hd

/-- One call that succeeds keeps the names below the read-only directories exactly when it spares
them. -/
lemma Stored.keeps_read_only_iff (below : Path → Path → Prop) (op : NamespaceOp)
    (hok : (v.perform op).1 = true) :
    (∀ d, v.ReadOnlyDirectory d → (v.perform op).2.namesBelow below d = v.namesBelow below d) ↔
      v.Spares below op := by
  constructor
  · intro hkeeps p hp d hd hbelow
    refine (h.perform_changes_iff op p).1 ?_ hok hp
    have hsame := Set.ext_iff.1 (hkeeps d hd) p
    simpa only [namesBelow, Set.mem_sep_iff, and_iff_left hbelow] using hsame
  · intro hspares d hd
    ext p
    refine and_congr_left fun hbelow => (h.perform_changes_iff op p).2 fun _ hp => ?_
    exact hspares p hp d hd hbelow

lemma Stored.step_keeps_names {below : Path → Path → Prop} {o : VfsOp}
    (ho : SparesCall below v o) (hd : v.ReadOnlyDirectory d) :
    (v.step o).namesBelow below d = v.namesBelow below d := by
  ext p
  refine and_congr_left fun hbelow => ?_
  cases o with
  | change op => exact (h.perform_changes_iff op p).2 fun _ hp => ho p hp d hd hbelow
  | handle out op =>
    have hnames : (v.step (.handle out op)).names = v.names := h.names_kept (kept_onHandle out op)
    rw [hnames]

lemma Stored.run_keeps_names {below : Path → Path → Prop} {ops : List VfsOp}
    (hops : Run.Allowed Vfs.step (SparesCall below) v ops) (hd : v.ReadOnlyDirectory d) :
    (v.run ops).namesBelow below d = v.namesBelow below d := by
  induction ops generalizing v with
  | nil => rfl
  | cons o ops ih =>
    have hrest := ih (h.step o) hops.2 (h.readOnly_step o hd)
    exact hrest.trans (h.step_keeps_names hops.1 hd)

end

/-- In a reachable state a call that is about no path below a read-only directory leaves the names
below all of them alone, and of the calls that succeed no others do; a sequence of calls leaves them
alone if each of its calls is about no such path when its turn comes. -/
theorem read_only_names_kept_iff (v : Vfs) (hreachable : v.Reachable) (below : Path → Path → Prop) :
    (∀ op, v.Spares below op → ∀ d, v.ReadOnlyDirectory d →
      (v.perform op).2.namesBelow below d = v.namesBelow below d) ∧
    (∀ op, (v.perform op).1 = true → ((∀ d, v.ReadOnlyDirectory d →
      (v.perform op).2.namesBelow below d = v.namesBelow below d) ↔ v.Spares below op)) ∧
    ∀ ops, Run.Allowed step (SparesCall below) v ops → ∀ d, v.ReadOnlyDirectory d →
      (v.run ops).namesBelow below d = v.namesBelow below d := by
  have hstored := hreachable.stored
  refine ⟨fun op hop d hd => ?_, fun op hok => hstored.keeps_read_only_iff below op hok, ?_⟩
  · exact hstored.step_keeps_names (o := .change op) hop hd
  · exact fun ops hops d hd => hstored.run_keeps_names hops hd

/-- The mount of the boot disk, with a file, and a writable directory. -/
def bootMount : Vfs :=
  booted [.directory (.ascii "/") false, .directory (.ascii "/tmp") true,
    .directory (.ascii "/mnt") false, .directory (.ascii "/mnt/boot") false,
    .diskFile (.ascii "/mnt/boot/KERNEL.ELF") 0x1000 0x200]

/-- Whether one path is a child of the other. -/
def childOf (p d : Path) : Prop := parentPath p = some d
  deriving Decidable

lemma spares_childOf (h : ∀ p ∈ op.touched, ∀ d ∈ parentPath p, ¬v.ReadOnlyDirectory d) :
    v.Spares childOf op :=
  fun p hp d hd hchild => h p hp d hchild hd

/-- Files in the writable directory leave the mount alone. -/
theorem read_only_names_kept_tmp :
    bootMount.ReadOnlyDirectory (.ascii "/mnt/boot") ∧
      (bootMount.run [.change (.createRamFile (.ascii "/tmp/a")),
        .change (.renameRamNode (.ascii "/tmp/a") (.ascii "/tmp/b"))]).namesBelow childOf
          (.ascii "/mnt/boot") = bootMount.namesBelow childOf (.ascii "/mnt/boot") := by
  have hreachable : bootMount.Reachable := ⟨_, [], rfl⟩
  have hmount : bootMount.ReadOnlyDirectory (.ascii "/mnt/boot") := by decide +kernel
  refine ⟨hmount, (read_only_names_kept_iff bootMount hreachable childOf).2.2 _ ?_ _ hmount⟩
  exact ⟨spares_childOf (by decide +kernel), spares_childOf (by decide +kernel), trivial⟩

/-- A file can be created in the mount. -/
theorem read_only_mount_gains_file :
    bootMount.Reachable ∧ bootMount.ReadOnlyDirectory (.ascii "/mnt/boot") ∧
      (bootMount.perform (.createRamFile (.ascii "/mnt/boot/x"))).2.namesBelow childOf
        (.ascii "/mnt/boot") ≠ bootMount.namesBelow childOf (.ascii "/mnt/boot") := by
  refine ⟨⟨_, [], rfl⟩, by decide +kernel, fun heq => ?_⟩
  have hnew : Path.ascii "/mnt/boot/x" ∈
      (bootMount.perform (.createRamFile (.ascii "/mnt/boot/x"))).2.namesBelow childOf
        (.ascii "/mnt/boot") := by
    refine ⟨?_, by decide +kernel⟩
    show ∃ n ∈ _, _
    decide +kernel
  rw [heq] at hnew
  have hold : ¬∃ n ∈ bootMount.nodes, bootMount.pathOf n = some (.ascii "/mnt/boot/x") := by
    decide +kernel
  exact hold hnew.1

end Vfs
end IanOS
