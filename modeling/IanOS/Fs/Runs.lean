import IanOS.Fs.HandleChanges
import IanOS.Fs.Stored

/-!
# Runs of the file system

`initialize` registers nodes whose paths never change; afterwards the file system changes only
through the namespace functions and through handles.  A state is reachable if it arises in this way,
with anything at all found outside the file system at each call.  Reachable states are `Stored`.
-/

namespace IanOS

open List

/-- A call of one of the functions by which `initialize` and the mounts fill the table of nodes. -/
inductive Registration
  | directory (path : Path) (writable : Bool)
  | memoryFile (path : Path) (base size : ℕ)
  | diskFile (path : Path) (base size : ℕ)
  | characterDevice (path : Path) (kind : DeviceKind)
  | virtualFile (path : Path) (kind : VirtualFileKind)
  deriving DecidableEq, Repr

/-- A call of the file system after `initialize`. -/
inductive VfsOp
  | change (op : NamespaceOp)
  | handle (out : Outside) (op : HandleOp)

namespace Vfs

variable {v v' : Vfs} {n : Node} {i k : ℕ}

def register (v : Vfs) : Registration → Bool × Vfs
  | .directory path writable => v.registerDirectory path writable
  | .memoryFile path base size => v.registerMemoryFile path base size
  | .diskFile path base size => v.registerDiskFile path base size
  | .characterDevice path kind => v.registerCharacterDevice path kind
  | .virtualFile path kind => v.registerVirtualFile path kind

/-- The file system after `initialize`. -/
def booted (registrations : List Registration) : Vfs :=
  registrations.foldl (fun v r => (v.register r).2) {}

def step (v : Vfs) : VfsOp → Vfs
  | .change op => (v.perform op).2
  | .handle out op => v.onHandle out op

/-- The state after a sequence of calls. -/
def run (v : Vfs) (ops : List VfsOp) : Vfs := ops.foldl step v

/-- The state after a sequence of calls that change the namespace. -/
def performAll (v : Vfs) (ops : List NamespaceOp) : Vfs :=
  ops.foldl (fun v op => (v.perform op).2) v

def Reachable (v : Vfs) : Prop := ∃ registrations ops, v = (booted registrations).run ops

/-! ## Reachable states are stored -/

/-- The nodes and the records behind them do not depend on the handles. -/
lemma kept_handles (handles : Table FileHandle) (nextHandleId : ℕ) :
    Kept v { v with handles := handles, nextHandleId := nextHandleId } :=
  kept_of_nodes rfl ⟨fun _ => .rfl, fun _ => .rfl, fun _ => .rfl⟩
    fun _ _ r _ => sameRecord_of_eq rfl rfl rfl r

lemma nodeAt_modify {g : Node → Node} {j : ℕ} (hnodes : v'.nodes = v.nodes.modify i g)
    (hj : j < v.nodes.length) :
    v'.nodeAt j = if i = j then g (v.nodeAt j) else v.nodeAt j := by
  have hj' : j < v'.nodes.length := by
    rwa [hnodes, length_modify]
  rw [nodeAt_eq_getElem hj', nodeAt_eq_getElem hj]
  simp only [hnodes, getElem_modify]

lemma kept_stored (k i f : ℕ) (bytes : List UInt8) : Kept v (v.stored k i f bytes) := by
  refine ⟨length_modify _ _ _, fun j hj => ?_,
    ⟨inUse_modify (g := fun file => storeBytes file _ _) rfl, fun _ => .rfl, fun _ => .rfl⟩,
    fun n _ r _ => ?_⟩
  · have hnode : (v.stored k i f bytes).nodeAt j = _ := nodeAt_modify rfl hj
    rw [hnode]
    split
    · exact ⟨rfl, rfl, rfl, rfl, rfl⟩
    · exact Alike.refl _
  cases r with
  | constant text => trivial
  | ramFile l =>
    rw [SameRecord, ramFile, stored, Table.slot_set]
    split
    · next hl =>
      rw [hl]
      rfl
    · rfl
  | ramLink | ramDirectory => exact ⟨rfl, rfl⟩

lemma kept_onHandle (out : Outside) (op : HandleOp) : Kept v (v.onHandle out op) := by
  have hchange := onHandle_change v out op
  generalize v.onHandle out op = v' at hchange
  cases hchange with
  | stored => exact kept_stored _ _ _ _
  | _ => exact kept_handles _ _

lemma Stored.step (h : Stored v) (op : VfsOp) : Stored (v.step op) := by
  cases op with
  | change => exact h.change (perform_change v _)
  | handle => exact h.of_kept (kept_onHandle _ _)

lemma Stored.run (h : Stored v) (ops : List VfsOp) : Stored (v.run ops) :=
  foldlRecOn ops _ h fun _ h op _ => h.step op

/-- Nodes registered so far: their paths are constants and no record is in use. -/
structure OnlyRegistered (v : Vfs) : Prop where
  constant : ∀ n ∈ v.nodes, ∃ text, n.path = some (.constant text) ∧ n.ramFile = none
  distinct : v.Distinct
  rest : ∃ nodes, v = { nodes := nodes }

lemma OnlyRegistered.addNode {text : Path} (h : OnlyRegistered v)
    (hpath : n.path = some (.constant text)) (hram : n.ramFile = none) :
    OnlyRegistered (v.addNode n).2 := by
  rw [Vfs.addNode, pathOf_eq hpath]
  dsimp only
  split_ifs with hrefuse
  · exact h
  simp only [not_or, Bool.not_eq_true, Option.isSome_eq_false_iff,
    Option.isNone_iff_eq_none] at hrefuse
  obtain ⟨hconstant, hdistinct, nodes, rfl⟩ := h
  refine ⟨fun m hm => ?_, ?_, _, rfl⟩
  · obtain hm | hm := mem_append.1 hm
    · exact hconstant m hm
    · rw [mem_singleton.1 hm]
      exact ⟨text, hpath, hram⟩
  refine pairwise_append.2 ⟨hdistinct, pairwise_singleton _ _, fun a ha b hb => ?_⟩
  intro p hp hpa hpb
  rw [mem_singleton.1 hb, pathOf_eq hpath] at hpb
  obtain rfl : text = p := Option.some.inj hpb
  -- a canonical path that is taken would have been found
  have hfind := hrefuse.2.2
  rw [show Vfs.text _ (.constant text) = text from rfl, find_of_canonical hp] at hfind
  exact of_decide_eq_false (findIdx?_eq_none_iff.1 hfind a ha) hpa

lemma OnlyRegistered.register (h : OnlyRegistered v) (r : Registration) :
    OnlyRegistered (v.register r).2 := by
  cases r with
  | directory => exact h.addNode rfl rfl
  | memoryFile path base size =>
    rw [Vfs.register, registerMemoryFile]
    split_ifs
    · exact h
    · exact h.addNode rfl rfl
  | diskFile path base size =>
    rw [Vfs.register, registerDiskFile]
    split_ifs
    · exact h
    · exact h.addNode rfl rfl
  | characterDevice path kind =>
    rw [Vfs.register, registerCharacterDevice]
    split_ifs
    · exact h
    · exact h.addNode rfl rfl
  | virtualFile path kind =>
    rw [Vfs.register, registerVirtualFile]
    split_ifs
    · exact h
    · exact h.addNode rfl rfl

lemma onlyRegistered_booted (registrations : List Registration) :
    OnlyRegistered (booted registrations) := by
  refine foldlRecOn registrations _ ?_ fun v h r _ => h.register r
  exact ⟨fun n hn => (nomatch hn), List.Pairwise.nil, _, rfl⟩

lemma OnlyRegistered.stored (h : OnlyRegistered v) : Stored v := by
  obtain ⟨hconstant, hdistinct, nodes, rfl⟩ := h
  refine ⟨fun n hn => ?_, hdistinct, fun k hk => (nomatch hk.2), fun k hk => (nomatch hk.2),
    fun k hk => (nomatch hk.2)⟩
  obtain ⟨text, hpath, hram⟩ := hconstant n hn
  exact ⟨_, hpath, hram⟩

theorem Reachable.stored (h : Reachable v) : Stored v := by
  obtain ⟨registrations, ops, rfl⟩ := h
  exact (onlyRegistered_booted registrations).stored.run ops

/-! ## The sizes of the tables -/

/-- The tables have the sizes they are declared with. -/
structure Sized (v : Vfs) : Prop where
  files : v.ramFiles.count = kMaxRamFiles
  links : v.ramLinks.count = kMaxRamLinks
  directories : v.ramDirectories.count = kMaxRamDirectories
  handles : v.handles.count = kMaxFileHandles

section

variable (h : Sized v)
include h

lemma Sized.freeLink (p : Path) : Sized (v.freeLink p) := by
  rw [Vfs.freeLink]
  split
  · exact ⟨h.files, h.links, h.directories, h.handles⟩
  · exact h

lemma Sized.freeDirectory (p : Path) : Sized (v.freeDirectory p) := by
  rw [Vfs.freeDirectory]
  split
  · exact ⟨h.files, h.links, h.directories, h.handles⟩
  · exact h

lemma Sized.freeUnlinked (f : ℕ) : Sized (v.freeUnlinked f) := by
  rw [Vfs.freeUnlinked]
  split
  · exact h
  · exact ⟨h.files, h.links, h.directories, h.handles⟩

lemma Sized.change {op : NamespaceOp} {r : Bool × Vfs} (hchange : Change v op r) : Sized r.2 := by
  have hremove (i : ℕ) (w : Vfs) (hw : Sized w) : Sized (w.removeNode i) :=
    ⟨hw.files, hw.links, hw.directories, hw.handles⟩
  cases hchange with
  | refuse => exact h
  | deleteFile => exact (hremove _ _ (h.freeLink _)).freeUnlinked _
  | deleteDirectory => exact hremove _ _ (h.freeDirectory _)
  | _ => exact ⟨h.files, h.links, h.directories, h.handles⟩

lemma Sized.onHandle (out : Outside) (op : HandleOp) : Sized (v.onHandle out op) := by
  have hchange := onHandle_change v out op
  generalize v.onHandle out op = v' at hchange
  cases hchange with
  | refuse => exact h
  | _ => exact ⟨h.files, h.links, h.directories, h.handles⟩

lemma Sized.run (ops : List VfsOp) : Sized (v.run ops) := by
  refine foldlRecOn ops _ h fun w hw op _ => ?_
  cases op with
  | change => exact hw.change (perform_change w _)
  | handle => exact hw.onHandle _ _

end

lemma sized_booted (registrations : List Registration) : Sized (booted registrations) := by
  obtain ⟨-, -, nodes, hv⟩ := onlyRegistered_booted registrations
  rw [hv]
  exact ⟨rfl, rfl, rfl, rfl⟩

end Vfs
end IanOS
