import IanOS.Fs.Runs

/-!
# What a refused call leaves behind

A function that creates something fills a record before the node of the record goes into the table
of nodes.  When the table is full, the record is cleared.  That this restores the state rests on the
contents of the records that are not in use: they are empty (`Blank`).

Before each of its returns a function increments one of two counters of `stats_`, the one for calls
that succeed or the one for calls that are refused.  The counters are words and wrap around.
-/

namespace IanOS

/-! ## Empty records -/

namespace Table

variable {α : Type*} {t : Table α} {used : α → Bool} {empty : α}

/-- A record that is not in use is empty. -/
def Blank (used : α → Bool) (empty : α) (t : Table α) : Prop :=
  ∀ k, ¬used (t.slot k) → t.slot k = empty

lemma Blank.set (h : t.Blank used empty) {i : ℕ} {a : α} (ha : used a ∨ a = empty) :
    (t.set i a).Blank used empty := by
  intro k hk
  rw [slot_set] at hk ⊢
  split
  · next heq =>
    rw [if_pos heq] at hk
    exact ha.resolve_left hk
  · next hne =>
    rw [if_neg hne] at hk
    exact h k hk

/-- Clearing a record that is not in use changes nothing. -/
lemma Blank.set_empty (h : t.Blank used empty) {k : ℕ} (hk : ¬used (t.slot k)) :
    t.set k empty = t := by
  rw [Table.set, ← h k hk, Function.update_eq_self]

end Table

namespace Vfs

variable {v v' : Vfs} {k f : ℕ} {op : NamespaceOp} {r : Bool × Vfs}

structure Blank (v : Vfs) : Prop where
  files : v.ramFiles.Blank RamFile.used {}
  links : v.ramLinks.Blank RamLink.used {}
  directories : v.ramDirectories.Blank RamDirectory.used {}

namespace Blank

section

variable (h : Blank v)
include h

lemma setFile {file : RamFile} (hfile : file.used ∨ file = {}) (nodes : List Node)
    (handles : Table FileHandle) :
    Blank { v with ramFiles := v.ramFiles.set k file, nodes := nodes, handles := handles } :=
  ⟨h.files.set hfile, h.links, h.directories⟩

lemma setLink {link : RamLink} (hlink : link.used ∨ link = {}) (nodes : List Node) :
    Blank { v with ramLinks := v.ramLinks.set k link, nodes := nodes } :=
  ⟨h.files, h.links.set hlink, h.directories⟩

lemma setDirectory {directory : RamDirectory}
    (hdir : directory.used ∨ directory = {}) (nodes : List Node) :
    Blank { v with ramDirectories := v.ramDirectories.set k directory, nodes := nodes } :=
  ⟨h.files, h.links, h.directories.set hdir⟩

lemma freeLink (p : Path) : Blank (v.freeLink p) := by
  rw [Vfs.freeLink]
  split
  · exact h.setLink (.inr rfl) _
  · exact h

lemma freeDirectory (p : Path) : Blank (v.freeDirectory p) := by
  rw [Vfs.freeDirectory]
  split
  · exact h.setDirectory (.inr rfl) _
  · exact h

lemma freeUnlinked (f : ℕ) : Blank (v.freeUnlinked f) := by
  rw [Vfs.freeUnlinked]
  split
  · exact h
  · exact h.setFile (.inr rfl) _ _

lemma removeNode (i : ℕ) : Blank (v.removeNode i) := ⟨h.files, h.links, h.directories⟩

/-- The functions write only to records that are in use or that they take into use. -/
lemma change (hstored : Stored v) (hchange : Change v op r) : Blank r.2 := by
  cases hchange with
  | refuse => exact h
  | clearFile => exact h.setFile (.inr rfl) _ _
  | clearLink => exact h.setLink (.inr rfl) _
  | clearDirectory => exact h.setDirectory (.inr rfl) _
  | createFile => exact h.setFile (.inl rfl) _ _
  | createLink => exact h.setLink (.inl rfl) _
  | createDirectory => exact h.setDirectory (.inl rfl) _
  | truncate _ hat hfile =>
    refine h.setFile ?_ _ _
    exact .inl (hstored.sourceInUse hat hfile).2
  | moveLink _ _ _ _ _ _ hused =>
    refine h.setLink ?_ _
    exact .inl hused
  | moveFile _ _ _ hat hfile =>
    refine h.setFile ?_ _ _
    exact .inl (hstored.ofRamFile (nodeAt_mem hat.lt) hfile).inUse.2
  | moveDirectory _ _ _ _ _ _ _ hused =>
    refine h.setDirectory ?_ _
    exact .inl hused
  | deleteFile => exact ((h.freeLink _).removeNode _).freeUnlinked _
  | deleteDirectory => exact (h.freeDirectory _).removeNode _

end

end Blank

lemma Blank.onHandle (h : Blank v) (hstored : Stored v) (out : Outside) (op : HandleOp) :
    Blank (v.onHandle out op) := by
  have hchange := onHandle_change v out op
  generalize v.onHandle out op = v' at hchange
  cases hchange with
  | stored _ _ _ hfile =>
    have hof := hstored.ofRamFile (nodeAt_mem (lt_of_ramFile hfile)) hfile
    refine h.setFile ?_ _ _
    exact .inl hof.inUse.2
  | _ => exact ⟨h.files, h.links, h.directories⟩

lemma Blank.run (h : Blank v) (hstored : Stored v) (ops : List VfsOp) : Blank (v.run ops) := by
  have hboth : Stored (v.run ops) ∧ Blank (v.run ops) := by
    refine List.foldlRecOn (motive := fun w : Vfs => Stored w ∧ Blank w) ops _ ⟨hstored, h⟩
      fun w hw op _ => ⟨hw.1.step op, ?_⟩
    cases op with
    | change => exact hw.2.change hw.1 (perform_change w _)
    | handle => exact hw.2.onHandle hw.1 _ _
  exact hboth.2

lemma Reachable.blank (h : Reachable v) : Blank v := by
  obtain ⟨registrations, ops, rfl⟩ := h
  have honly := onlyRegistered_booted registrations
  refine Blank.run ?_ honly.stored ops
  obtain ⟨nodes, hnodes⟩ := honly.rest
  rw [hnodes]
  exact ⟨fun _ _ => rfl, fun _ _ => rfl, fun _ _ => rfl⟩

lemma Blank.refused (h : Blank v) (hchange : Change v op r) (hrefused : r.1 = false) : r.2 = v := by
  cases hchange with
  | refuse => rfl
  | clearFile _ hunused =>
    rw [h.files.set_empty hunused]
  | clearLink _ hunused =>
    rw [h.links.set_empty hunused]
  | clearDirectory _ hunused =>
    rw [h.directories.set_empty hunused]
  | _ => cases hrefused

end Vfs

/-! ## Counting -/

/-- The counters of `VfsStats` for the functions that change the namespace. -/
structure VfsStats where
  ramFileCreates : BitVec 64 := 0
  ramFileCreateRejects : BitVec 64 := 0
  ramDirectoryCreates : BitVec 64 := 0
  ramDirectoryCreateRejects : BitVec 64 := 0
  ramLinks : BitVec 64 := 0
  ramLinkRejects : BitVec 64 := 0
  ramTruncates : BitVec 64 := 0
  ramTruncateRejects : BitVec 64 := 0
  ramRenames : BitVec 64 := 0
  ramRenameRejects : BitVec 64 := 0
  ramFileDeletes : BitVec 64 := 0
  ramFileDeleteRejects : BitVec 64 := 0
  ramDirectoryDeletes : BitVec 64 := 0
  ramDirectoryDeleteRejects : BitVec 64 := 0
  deriving DecidableEq, Repr

namespace VfsStats

variable (s : VfsStats)

/-- The counter that is incremented where a function returns true. -/
def countSuccess : NamespaceOp → VfsStats
  | .createRamFile _ => { s with ramFileCreates := s.ramFileCreates + 1 }
  | .linkRamFile _ _ => { s with ramLinks := s.ramLinks + 1 }
  | .truncateRamFile _ _ => { s with ramTruncates := s.ramTruncates + 1 }
  | .renameRamNode _ _ => { s with ramRenames := s.ramRenames + 1 }
  | .deleteRamFile _ => { s with ramFileDeletes := s.ramFileDeletes + 1 }
  | .createRamDirectory _ => { s with ramDirectoryCreates := s.ramDirectoryCreates + 1 }
  | .deleteRamDirectory _ => { s with ramDirectoryDeletes := s.ramDirectoryDeletes + 1 }

/-- The counter that is incremented where a function returns false. -/
def countReject : NamespaceOp → VfsStats
  | .createRamFile _ => { s with ramFileCreateRejects := s.ramFileCreateRejects + 1 }
  | .linkRamFile _ _ => { s with ramLinkRejects := s.ramLinkRejects + 1 }
  | .truncateRamFile _ _ => { s with ramTruncateRejects := s.ramTruncateRejects + 1 }
  | .renameRamNode _ _ => { s with ramRenameRejects := s.ramRenameRejects + 1 }
  | .deleteRamFile _ => { s with ramFileDeleteRejects := s.ramFileDeleteRejects + 1 }
  | .createRamDirectory _ =>
    { s with ramDirectoryCreateRejects := s.ramDirectoryCreateRejects + 1 }
  | .deleteRamDirectory _ =>
    { s with ramDirectoryDeleteRejects := s.ramDirectoryDeleteRejects + 1 }

end VfsStats

/-- The file system with the counters. -/
structure CountedVfs where
  vfs : Vfs
  stats : VfsStats

namespace CountedVfs

variable (c : CountedVfs)

/-- What stands before a `return true`. -/
def accept (op : NamespaceOp) (vfs : Vfs) : Bool × CountedVfs :=
  (true, ⟨vfs, c.stats.countSuccess op⟩)

/-- What stands before a `return false`. -/
def refuse (op : NamespaceOp) (vfs : Vfs) : Bool × CountedVfs :=
  (false, ⟨vfs, c.stats.countReject op⟩)

/-- A call of a function that changes the namespace, with the counters on its return paths. -/
def perform (op : NamespaceOp) : Bool × CountedVfs :=
  match op with
  | .createRamFile path => c.vfs.createRamFileThen (c.accept op) (c.refuse op) path
  | .linkRamFile existingPath newPath =>
    c.vfs.linkRamFileThen (c.accept op) (c.refuse op) existingPath newPath
  | .truncateRamFile path size => c.vfs.truncateRamFileThen (c.accept op) (c.refuse op) path size
  | .renameRamNode oldPath newPath =>
    c.vfs.renameRamNodeThen (c.accept op) (c.refuse op) oldPath newPath
  | .deleteRamFile path => c.vfs.deleteRamFileThen (c.accept op) (c.refuse op) path
  | .createRamDirectory path => c.vfs.createRamDirectoryThen (c.accept op) (c.refuse op) path
  | .deleteRamDirectory path => c.vfs.deleteRamDirectoryThen (c.accept op) (c.refuse op) path

end CountedVfs

namespace Vfs

variable {β : Type} {v : Vfs} (accept refuse : Vfs → β)

/-- What a return does, said of the value that is returned. -/
def returned (r : Bool × Vfs) : β := if r.1 then accept r.2 else refuse r.2

lemma renameAt_eq (p q : Path) : v.renameAt accept refuse p q =
    Option.map (returned accept refuse) ∘ v.renameAt (true, ·) (false, ·) p q := by
  funext i
  rw [Function.comp_apply, renameAt, renameAt]
  (repeat' split) <;> simp_all [returned]

lemma renameRamNodeThen_eq (old new : Path) : v.renameRamNodeThen accept refuse old new =
    returned accept refuse (v.renameRamNode old new) := by
  rw [renameRamNode, renameRamNodeThen, renameRamNodeThen]
  split
  · split_ifs
    · rfl
    · rw [renameAt_eq, ← List.map_findSome?]
      cases List.findSome? _ _ <;> rfl
  · rfl

end Vfs

namespace CountedVfs

variable (c : CountedVfs)

/-- Every return path increments the counter that belongs to the value returned. -/
lemma perform_eq (op : NamespaceOp) :
    c.perform op = Vfs.returned (c.accept op) (c.refuse op) (c.vfs.perform op) := by
  cases op with
  | createRamFile =>
    rw [perform, Vfs.perform, Vfs.createRamFile]
    grind [Vfs.createRamFileThen, Vfs.returned]
  | linkRamFile =>
    rw [perform, Vfs.perform, Vfs.linkRamFile]
    grind [Vfs.linkRamFileThen, Vfs.returned]
  | truncateRamFile =>
    rw [perform, Vfs.perform, Vfs.truncateRamFile, Vfs.truncateRamFileThen, Vfs.truncateRamFileThen]
    (repeat' split) <;> simp_all [Vfs.returned]
  | renameRamNode => exact Vfs.renameRamNodeThen_eq _ _ _ _
  | deleteRamFile =>
    rw [perform, Vfs.perform, Vfs.deleteRamFile, Vfs.deleteRamFileThen, Vfs.deleteRamFileThen]
    (repeat' split) <;> simp_all [Vfs.returned]
  | createRamDirectory =>
    rw [perform, Vfs.perform, Vfs.createRamDirectory]
    grind [Vfs.createRamDirectoryThen, Vfs.returned]
  | deleteRamDirectory =>
    rw [perform, Vfs.perform, Vfs.deleteRamDirectory, Vfs.deleteRamDirectoryThen,
      Vfs.deleteRamDirectoryThen]
    (repeat' split) <;> simp_all [Vfs.returned]

/-- In every reachable state a call that returns false changes the counter of its refusals and
nothing else. -/
theorem refused_call_unchanged (hreachable : c.vfs.Reachable) (op : NamespaceOp)
    (hrefused : (c.perform op).1 = false) :
    (c.perform op).2 = { c with stats := c.stats.countReject op } := by
  rw [perform_eq, Vfs.returned] at hrefused ⊢
  split_ifs at hrefused ⊢ with hfalse
  · cases hrefused
  have hsame : (c.vfs.perform op).2 = c.vfs :=
    hreachable.blank.refused (Vfs.perform_change c.vfs op) (Bool.not_eq_true _ ▸ hfalse)
  rw [refuse, hsame]

end CountedVfs

/-! ## A full table -/

namespace Vfs

open List

variable {v : Vfs} {paths : List Path} {path : Path}

/-- The file system with these directories. -/
def withDirectories (paths : List Path) : Vfs := booted (paths.map (.directory · true))

lemma reachable_withDirectories (paths : List Path) : (withDirectories paths).Reachable :=
  ⟨paths.map (.directory · true), [], rfl⟩

lemma withDirectories_eq (hcanonical : ∀ p ∈ paths, Canonical p) (hdistinct : paths.Nodup)
    (hlength : paths.length ≤ kMaxVfsNodes) :
    withDirectories paths = { nodes := paths.map fun p =>
      { path := some (.constant p), type := .directory, writable := true } } := by
  induction paths using reverseRecOn with
  | nil => rfl
  | append_singleton paths p ih =>
    rw [nodup_append_comm, singleton_append, nodup_cons] at hdistinct
    rw [length_append, length_singleton] at hlength
    have hbefore := ih (fun q hq => hcanonical q (mem_append_left _ hq)) hdistinct.2 (by omega)
    rw [withDirectories, booted] at hbefore ⊢
    rw [map_append, foldl_append, hbefore]
    simp only [map_cons, map_nil, foldl_cons, foldl_nil, register, registerDirectory,
      addNode, pathOf,
      Option.map_some, text]
    rw [if_neg]
    · simp
    simp only [reduceCtorEq, length_map, false_or, not_or, not_le, Bool.not_eq_true,
      Option.isSome_eq_false_iff, Option.isNone_iff_eq_none]
    refine ⟨by omega, ?_⟩
    -- no directory so far has this path
    rw [find_of_canonical (hcanonical p (by simp)), findNormalized, findIdx?_eq_none_iff]
    simp only [mem_map, forall_exists_index, and_imp, forall_apply_eq_imp_iff₂, pathOf,
      Option.map_some, text, Option.some.injEq, decide_eq_false_iff_not]
    rintro q hq rfl
    exact hdistinct.1 hq

/-- The paths `/AA`, `/AB` and so on. -/
def twoLetters (n : ℕ) : Path := [slash, .ofNat (65 + n / 32), .ofNat (65 + n % 32)]

/-- The root, and directories in it up to the number of nodes. -/
def fullPaths : List Path := [slash] :: (range (kMaxVfsNodes - 1)).map twoLetters

lemma withDirectories_fullPaths : withDirectories fullPaths = { nodes := fullPaths.map fun p =>
    { path := some (.constant p), type := .directory, writable := true } } := by
  have hinv : ∀ n < kMaxVfsNodes - 1,
      (twoLetters n).foldl (fun k c => 32 * k + (c.toNat - 65)) 0 = n := by decide +kernel
  refine withDirectories_eq (by decide +kernel) (nodup_cons.2 ⟨by decide +kernel, ?_⟩)
    (by decide +kernel)
  refine nodup_range.map_on fun m hm n hn heq => ?_
  rw [← hinv m (mem_range.1 hm), heq, hinv n (mem_range.1 hn)]

lemma createRamFile_full (hfull : kMaxVfsNodes ≤ v.nodes.length) :
    (v.createRamFile path).1 = false := by
  have hchange := createRamFile_change (v := v) path
  generalize v.createRamFile path = r at hchange ⊢
  cases hchange with
  | createFile _ _ _ _ hroom => exact absurd hfull hroom.not_ge
  | _ => rfl

end Vfs

open Vfs in
/-- With a path that is free, a record that is free and a full table of nodes the record is filled
in and cleared again. -/
theorem CountedVfs.refused_call_full_table :
    let v := withDirectories fullPaths
    v.Vacant (.ascii "/x") ∧ ¬(v.ramFile 0).used ∧ v.nodes.length = kMaxVfsNodes ∧
      perform ⟨v, {}⟩ (.createRamFile (.ascii "/x")) =
        (false, ⟨v, { ramFileCreateRejects := 1 }⟩) := by
  have hreachable := reachable_withDirectories fullPaths
  have hv := withDirectories_fullPaths
  generalize withDirectories fullPaths = v at hreachable hv
  have hfull : v.nodes.length = kMaxVfsNodes := by
    rw [hv]
    decide +kernel
  have hrefused : (perform ⟨v, {}⟩ (.createRamFile (.ascii "/x"))).1 = false := by
    rw [perform_eq, returned, Vfs.perform, createRamFile_full hfull.ge]
    rfl
  refine ⟨?_, ?_, hfull, Prod.ext hrefused (refused_call_unchanged ⟨v, {}⟩ hreachable _ hrefused)⟩
  · rw [hv]
    exact ⟨by decide +kernel, by decide +kernel, by decide +kernel, by decide +kernel⟩
  · rw [hv]
    decide

end IanOS
