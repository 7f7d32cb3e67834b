import IanOS.Fs.Changes

/-!
# What the functions on handles can do

The companion of `Change` for `open`, `close`, `retain_handle` and the functions that read, write
and seek: each refuses, takes or gives back an entry of the handle table, sets a reference count or
an offset, or stores bytes in a RAM file.
-/

namespace IanOS

open Option

/-- A call of a function on handles. -/
inductive HandleOp
  | openPath (path : Path)
  | readHandle (id size : ℕ)
  | writeHandle (id : ℕ) (bytes : List UInt8)
  | seekHandle (id offset : ℕ)
  | retainHandle (id : ℕ)
  | close (id : ℕ)
  deriving DecidableEq, Repr

/-- The number of the handle a call is made on. -/
def HandleOp.number : HandleOp → Option ℕ
  | .openPath _ => none
  | .readHandle id _ | .writeHandle id _ | .seekHandle id _ | .retainHandle id | .close id =>
    some id

namespace Vfs

/-- The state after a call on a handle. -/
def onHandle (v : Vfs) (out : Outside) : HandleOp → Vfs
  | .openPath path => (v.openPath out path).2
  | .readHandle id size => (v.readHandle out id size).2
  | .writeHandle id bytes => (v.writeHandle out id bytes).2
  | .seekHandle id offset => (v.seekHandle out id offset).2
  | .retainHandle id => (v.retainHandle id).2
  | .close id => (v.close id).2

variable {v : Vfs} {out : Outside} {id k : ℕ}

/-! ## The outcomes -/

/-- What `open` finds at a path: the node there, or a generated file. -/
inductive Opens (v : Vfs) (out : Outside) (path : Path) : Option ℕ → Bool → Path → Prop
  | node {p : Path} {i : ℕ} (hpath : normalizePath path = some p) (hat : v.StandsAt i p)
      (htype : (v.nodeAt i).type = .memoryFile ∨ (v.nodeAt i).type = .characterDevice ∨
        (v.nodeAt i).type = .virtualFile) :
      Opens v out path (some i) false p
  | generated {p : Path} (hpath : normalizePath path = some p)
      (hfree : v.findNormalized p = none) (hsize : out.dynamicProcFileSize p ≠ 0) :
      Opens v out path none true p

/-- The state after a new handle has been put into an entry. -/
def putHandle (v : Vfs) (k : ℕ) (node : Option ℕ) (dynamicVirtual : Bool) (path : Path) : Vfs :=
  { v with
    handles := v.handles.set k
      { id := (takeHandleId v.nextHandleId).1, node := node, offset := 0, refCount := 1
        isOpen := true, dynamicVirtual := dynamicVirtual, path := path }
    nextHandleId := (takeHandleId v.nextHandleId).2 }

def setRefCount (v : Vfs) (k refCount : ℕ) : Vfs :=
  { v with handles := v.handles.modify k fun h => { h with refCount := refCount } }

def closeHandle (v : Vfs) (k : ℕ) : Vfs := { v with handles := v.handles.set k {} }

/-- What `write_handle` stores: the file after `toCopy` bytes have been written at the offset, and
its size in the node the handle points to. -/
def stored (v : Vfs) (k i f : ℕ) (bytes : List UInt8) : Vfs :=
  let h := v.handle k
  let toCopy := min bytes.length (kMaxRamFileBytes - h.offset)
  let file := storeBytes (v.ramFile f) h.offset (bytes.take toCopy)
  { v.setOffset k (h.offset + toCopy) with
    ramFiles := v.ramFiles.set f file
    nodes := v.nodes.modify i fun node => { node with base := .ramData f, size := file.size } }

/-- An open entry. -/
def OpenAt (v : Vfs) (k : ℕ) : Prop := v.handles.InUse FileHandle.isOpen k

/-- The offset lies within the file if the handle points to a RAM file. -/
def OffsetFits (v : Vfs) (k offset : ℕ) : Prop :=
  ∀ i f, (v.handle k).node = some i → (v.handle k).dynamicVirtual = false →
    (v.nodeAt i).type = .memoryFile → (v.nodeAt i).ramFile = some f → offset ≤ (v.ramFile f).size

/-- The outcomes of a call. -/
inductive HandleChange (v : Vfs) (out : Outside) : HandleOp → Vfs → Prop
  | refuse (op : HandleOp) : HandleChange v out op v
  | opened {path p : Path} {k : ℕ} {node : Option ℕ} {dynamicVirtual : Bool}
      (hk : k < v.handles.count) (hunused : ¬(v.handle k).isOpen)
      (hopens : Opens v out path node dynamicVirtual p) :
      HandleChange v out (.openPath path) (v.putHandle k node dynamicVirtual p)
  | sought {op : HandleOp} {id k offset : ℕ} (hop : op.number = some id)
      (hk : v.handleFor id = some k) (hfits : v.OffsetFits k offset) :
      HandleChange v out op (v.setOffset k offset)
  | stored {id k i f : ℕ} {bytes : List UInt8} (hk : v.handleFor id = some k)
      (hnode : (v.handle k).node = some i) (htype : (v.nodeAt i).type ≠ .characterDevice)
      (hfile : (v.nodeAt i).ramFile = some f) (hbytes : bytes ≠ [])
      (hroom : (v.handle k).offset < kMaxRamFileBytes) :
      HandleChange v out (.writeHandle id bytes) (v.stored k i f bytes)
  | retained {id k : ℕ} (hk : v.handleFor id = some k)
    (hroom : (v.handle k).refCount ≠ 0xffffffff) :
      HandleChange v out (.retainHandle id) (v.setRefCount k ((v.handle k).refCount + 1))
  | released {id k : ℕ} (hk : v.handleFor id = some k) (hmany : 1 < (v.handle k).refCount) :
      HandleChange v out (.close id) (v.setRefCount k ((v.handle k).refCount - 1))
  | closed {id k : ℕ} (hk : v.handleFor id = some k) (hlast : (v.handle k).refCount ≤ 1) :
      HandleChange v out (.close id) (v.closeHandle k)

/-! ## Every call has one of these outcomes -/

lemma handleFor_eq_some : v.handleFor id = some k ↔
    id ≠ 0 ∧ v.OpenAt k ∧ (v.handle k).id = id ∧
      ∀ j < k, ¬((v.handle j).isOpen ∧ (v.handle j).id = id) := by
  rw [handleFor]
  split
  · next h => simp [h]
  next h =>
    rw [Table.find_eq_some]
    constructor
    · rintro ⟨hk, ⟨hopen, hid⟩, hfirst⟩
      exact ⟨h, ⟨hk, hopen⟩, hid, hfirst⟩
    · rintro ⟨-, ⟨hk, hopen⟩, hid, hfirst⟩
      exact ⟨hk, ⟨hopen, hid⟩, hfirst⟩

lemma openAt_of_handleFor (h : v.handleFor id = some k) : v.OpenAt k :=
  (handleFor_eq_some.1 h).2.1

/-- `open` refuses with the number 0, or returns the number of a new handle. -/
lemma openPath_cases (v : Vfs) (out : Outside) (path : Path) :
    v.openPath out path = (0, v) ∨
      ∃ k node dynamicVirtual p, k < v.handles.count ∧ ¬(v.handle k).isOpen ∧
        Opens v out path node dynamicVirtual p ∧
        v.openPath out path =
          ((takeHandleId v.nextHandleId).1, v.putHandle k node dynamicVirtual p) := by
  have hput {node : Option ℕ} {dynamicVirtual : Bool} {p : Path} (hp : Canonical p)
      (hopens : Opens v out path node dynamicVirtual p) :
      v.openHandle node dynamicVirtual p = (0, v) ∨
        ∃ k node' dynamicVirtual' p', k < v.handles.count ∧ ¬(v.handle k).isOpen ∧
          Opens v out path node' dynamicVirtual' p' ∧
          v.openHandle node dynamicVirtual p =
            ((takeHandleId v.nextHandleId).1, v.putHandle k node' dynamicVirtual' p') := by
    rw [openHandle, copyPath_of_canonical hp]
    split
    · exact .inl rfl
    · next k hslot =>
      obtain ⟨hk, hunused, -⟩ := Table.find_eq_some.1 hslot
      exact .inr ⟨k, node, dynamicVirtual, p, hk, hunused, hopens, rfl⟩
  rw [openPath]
  cases hfind : v.find path with
  | some i =>
    obtain ⟨p, hp, hi⟩ := bind_eq_some_iff.1 hfind
    have hat : v.StandsAt i p := by
      have hcanon := canonical_of_normalizePath hp
      exact standsAt_of_find hcanon (by rwa [find_of_canonical hcanon])
    dsimp only
    split_ifs with htype
    · exact .inl rfl
    · rw [hat.path]
      exact hput hat.canonical (.node hp hat (by tauto))
  | none =>
    dsimp only
    split
    · exact .inl rfl
    next p hp =>
      split_ifs with hsize
      · exact .inl rfl
      · refine hput (canonical_of_normalizePath hp) (.generated hp ?_ hsize)
        rwa [find, hp] at hfind

lemma openPath_change (path : Path) :
    HandleChange v out (.openPath path) (v.openPath out path).2 := by
  obtain h | ⟨k, node, dynamicVirtual, p, hk, hunused, hopens, h⟩ := openPath_cases v out path
  · rw [h]
    exact .refuse _
  · rw [h]
    exact .opened hk hunused hopens

section Offsets

variable {k i f offset : ℕ}

lemma offsetFits_of_dynamicVirtual (h : (v.handle k).dynamicVirtual) : v.OffsetFits k offset := by
  intro i f _ hfalse
  rw [h] at hfalse
  cases hfalse

lemma offsetFits_of_type (hnode : (v.handle k).node = some i)
    (htype : (v.nodeAt i).type ≠ .memoryFile) : v.OffsetFits k offset := by
  intro j f hj _ hmemory
  obtain rfl : i = j := some.inj (hnode.symm.trans hj)
  exact absurd hmemory htype

lemma nodeSize_of_ramFile {node : Node} (htype : node.type = .memoryFile)
    (hfile : node.ramFile = some f) : v.nodeSize out node = (v.ramFile f).size := by
  rw [nodeSize, htype, hfile, if_neg (by decide)]

lemma offsetFits_of_nodeSize (hnode : (v.handle k).node = some i)
    (h : offset ≤ v.nodeSize out (v.nodeAt i)) : v.OffsetFits k offset := by
  intro j f hj _ htype hfile
  obtain rfl : i = j := some.inj (hnode.symm.trans hj)
  rwa [nodeSize_of_ramFile htype hfile] at h

end Offsets

lemma readText_change {op : HandleOp} (hop : op.number = some id) (hk : v.handleFor id = some k)
    (hfits : ∀ offset, v.OffsetFits k offset) (text : List UInt8) (size : ℕ) :
    HandleChange v out op (v.readText k text size).2 := by
  rw [readText]
  split_ifs
  · exact .refuse op
  · exact .sought hop hk (hfits _)

lemma readHandle_change (id size : ℕ) :
    HandleChange v out (.readHandle id size) (v.readHandle out id size).2 := by
  rw [readHandle]
  split
  · exact .refuse _
  next k hfor =>
    dsimp only
    split_ifs with _ hdyn
    · exact .refuse _
    · exact readText_change rfl hfor (fun _ => offsetFits_of_dynamicVirtual hdyn) _ _
    split
    · exact .refuse _
    next i hnode =>
      have hother (htype : (v.nodeAt i).type ≠ .memoryFile) (offset : ℕ) :
          v.OffsetFits k offset := offsetFits_of_type hnode htype
      split
      · next htype =>
        have hdevice : (v.nodeAt i).type ≠ .memoryFile := by
          rw [htype]
          decide
        split
        · exact .sought rfl hfor (hother hdevice _)
        · exact .sought rfl hfor (hother hdevice _)
        · exact .sought rfl hfor (hother hdevice _)
        · exact .refuse _
      · next htype =>
        refine readText_change rfl hfor (hother ?_) _ _
        rw [htype]
        decide
      · split_ifs with hend
        · exact .refuse _
        · have hle (n : ℕ) (hn : ¬n ≤ (v.handle k).offset) :
              (v.handle k).offset + min size (n - (v.handle k).offset) ≤ n := by omega
          exact .sought rfl hfor (offsetFits_of_nodeSize hnode (hle _ hend))

lemma writeHandle_change (id : ℕ) (bytes : List UInt8) :
    HandleChange v out (.writeHandle id bytes) (v.writeHandle out id bytes).2 := by
  rw [writeHandle]
  split
  · exact .refuse _
  next k hfor =>
    dsimp only
    split
    · exact .refuse _
    next i hnode =>
      by_cases hempty : bytes.length = 0
      · rw [if_pos hempty]
        exact .refuse _
      rw [if_neg hempty]
      by_cases hdevice : (v.nodeAt i).type = .characterDevice
      · rw [if_pos hdevice]
        have hfits (offset : ℕ) : v.OffsetFits k offset := by
          refine offsetFits_of_type hnode ?_
          rw [hdevice]
          decide
        split
        · exact .sought rfl hfor (hfits _)
        · exact .sought rfl hfor (hfits _)
        · exact .sought rfl hfor (hfits _)
        · exact .sought rfl hfor (hfits _)
        · exact .refuse _
      rw [if_neg hdevice]
      split
      · next f hwrite hfile =>
        split_ifs with hfull
        · exact .refuse _
        · have hbytes : bytes ≠ [] := fun h => hempty (by rw [h, List.length_nil])
          exact .stored hfor hnode hdevice hfile hbytes (not_le.1 hfull)
      · exact .refuse _

lemma seekHandle_change (id offset : ℕ) :
    HandleChange v out (.seekHandle id offset) (v.seekHandle out id offset).2 := by
  rw [seekHandle]
  split
  · exact .refuse _
  next k hfor =>
    dsimp only
    split_ifs with hdyn
    · exact .refuse _
    · exact .sought rfl hfor (offsetFits_of_dynamicVirtual hdyn)
    split
    · exact .refuse _
    next i hnode =>
      split_ifs with hend
      · exact .refuse _
      · exact .sought rfl hfor (offsetFits_of_nodeSize hnode (not_lt.1 hend))

lemma retainHandle_change (id : ℕ) :
    HandleChange v out (.retainHandle id) (v.retainHandle id).2 := by
  rw [retainHandle]
  split
  · exact .refuse _
  next k hfor =>
    split_ifs with hroom
    · exact .refuse _
    · exact .retained hfor hroom

lemma close_change (id : ℕ) : HandleChange v out (.close id) (v.close id).2 := by
  rw [close]
  split
  · exact .refuse _
  next k hfor =>
    split_ifs with hmany
    · exact .released hfor hmany
    · exact .closed hfor (not_lt.1 hmany)

/-- The outcomes listed are all there are. -/
theorem onHandle_change (v : Vfs) (out : Outside) (op : HandleOp) :
    HandleChange v out op (v.onHandle out op) := by
  cases op with
  | openPath => exact openPath_change _
  | readHandle => exact readHandle_change _ _
  | writeHandle => exact writeHandle_change _ _
  | seekHandle => exact seekHandle_change _ _
  | retainHandle => exact retainHandle_change _
  | close => exact close_change _

end Vfs
end IanOS
