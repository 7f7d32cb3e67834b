import IanOS.Fs.Runs

/-!
# What is open

A handle is open on a RAM file, on a range of memory, on a device or on a generated text.
`OpenFile` names these without mentioning nodes or positions, `fileOf` says which of them an entry
of the handle table denotes, and `ActsOn` says that reads, writes and seeks concern it and nothing
else.
-/

namespace IanOS

open List Bytes

/-- What a handle can be open on. -/
inductive OpenFile
  | ram (slot : ℕ)
  | memory (base : Storage) (size : ℕ)
  | device (kind : DeviceKind)
  | text (kind : VirtualFileKind)
  | generated (path : Path)
  | nothing
  deriving DecidableEq, Repr

def Node.file (node : Node) : OpenFile :=
  match node.type with
  | .memoryFile =>
    match node.ramFile with
    | some f => .ram f
    | none => .memory node.base node.size
  | .characterDevice => .device node.deviceKind
  | .virtualFile => .text node.virtualKind
  | .directory | .empty => .nothing

namespace Vfs

variable {v : Vfs} {out : Outside} {i k f : ℕ} {p : Path} {node : Node} {size id : ℕ}

/-- What the handle in an entry denotes. -/
def fileOf (v : Vfs) (k : ℕ) : OpenFile :=
  if (v.handle k).dynamicVirtual then .generated (v.handle k).path
  else
    match (v.handle k).node with
    | some i => (v.nodeAt i).file
    | none => .nothing

/-- What `open` finds at a path. -/
def fileAt (v : Vfs) (path : Path) : OpenFile :=
  match v.find path, normalizePath path with
  | some i, _ => (v.nodeAt i).file
  | none, some p => .generated p
  | none, none => .nothing

/-! ## Reading, writing and seeking -/

/-- The bytes of a file. -/
def contents (v : Vfs) (out : Outside) : OpenFile → List UInt8
  | .ram f => load (v.ramFile f).data 0 (v.ramFile f).size
  | .memory (.address base) size => load out.memory base size
  | .memory (.ramData f) size => load (v.ramFile f).data 0 size
  | .text kind => out.virtualFile kind
  | .generated path => out.dynamicFile path
  | .device _ | .nothing => []

/-- What reading returns: bytes of the file, or what the device produces. -/
def readFrom (v : Vfs) (out : Outside) (file : OpenFile) (offset size : ℕ) : List UInt8 :=
  match file with
  | .device .zero => replicate size 0
  | .device .tty | .device .console => if size = 0 then [] else out.readInput size
  | file => ((v.contents out file).drop offset).take size

/-- How far a handle can be moved; devices are left open. -/
def extent (v : Vfs) (out : Outside) : OpenFile → Option ℕ
  | .ram f => some (v.ramFile f).size
  | .memory _ size => some size
  | .text kind => some (out.virtualFile kind).length
  | .generated path => some (out.dynamicProcFileSize path)
  | .device _ | .nothing => none

/-- Reads, writes and seeks with this number concern this file, and otherwise only the offset of the
handle. -/
structure ActsOn (v : Vfs) (id k : ℕ) (file : OpenFile) : Prop where
  inUse : ∀ f, file = .ram f → v.FileInUse f
  read : ∀ out size,
    (v.readHandle out id size).1 = v.readFrom out file (v.handle k).offset size ∧
      ∃ offset, (v.readHandle out id size).2 = v.setOffset k offset
  write : ∀ out bytes f, file = .ram f →
    (v.writeHandle out id bytes).1 = min bytes.length (kMaxRamFileBytes - (v.handle k).offset) ∧
      ((v.writeHandle out id bytes).1 ≠ 0 →
        (v.writeHandle out id bytes).2.ramFile f =
          storeBytes (v.ramFile f) (v.handle k).offset (bytes.take (v.writeHandle out id bytes).1))
  writeOther : ∀ out bytes f,
    file ≠ .ram f ∨ (v.writeHandle out id bytes).1 = 0 →
      (v.writeHandle out id bytes).2.ramFile f = v.ramFile f
  seek : ∀ out offset,
    (v.seekHandle out id offset = (false, v) ∨
      v.seekHandle out id offset = (true, v.setOffset k offset)) ∧
    ∀ size, v.extent out file = some size → ((v.seekHandle out id offset).1 ↔ offset ≤ size)

/-- How an entry comes to denote something. -/
inductive Denotes (v : Vfs) (k : ℕ) : OpenFile → Prop
  | generated (hdynamic : (v.handle k).dynamicVirtual) (hnode : (v.handle k).node = none) :
      Denotes v k (.generated (v.handle k).path)
  | ram {i f : ℕ} (hdynamic : (v.handle k).dynamicVirtual = false)
      (hnode : (v.handle k).node = some i) (htype : (v.nodeAt i).type = .memoryFile)
      (hfile : (v.nodeAt i).ramFile = some f) : Denotes v k (.ram f)
  | memory {i : ℕ} (hdynamic : (v.handle k).dynamicVirtual = false)
      (hnode : (v.handle k).node = some i) (htype : (v.nodeAt i).type = .memoryFile)
      (hfile : (v.nodeAt i).ramFile = none) :
      Denotes v k (.memory (v.nodeAt i).base (v.nodeAt i).size)
  | device {i : ℕ} (hdynamic : (v.handle k).dynamicVirtual = false)
      (hnode : (v.handle k).node = some i) (htype : (v.nodeAt i).type = .characterDevice) :
      Denotes v k (.device (v.nodeAt i).deviceKind)
  | text {i : ℕ} (hdynamic : (v.handle k).dynamicVirtual = false)
      (hnode : (v.handle k).node = some i) (htype : (v.nodeAt i).type = .virtualFile) :
      Denotes v k (.text (v.nodeAt i).virtualKind)

lemma setOffset_self (v : Vfs) (k : ℕ) : v.setOffset k (v.handle k).offset = v := by
  simp only [setOffset, Table.modify, Table.set, handle, Function.update_eq_self]

lemma readText_acts (k : ℕ) (text : List UInt8) (size : ℕ) :
    (v.readText k text size).1 = (text.drop (v.handle k).offset).take size ∧
      ∃ offset, (v.readText k text size).2 = v.setOffset k offset := by
  rw [readText]
  split_ifs with hend
  · rw [drop_eq_nil_of_le hend, take_nil]
    exact ⟨rfl, _, (v.setOffset_self k).symm⟩
  · exact ⟨rfl, _, rfl⟩

section

variable (htype : node.type = .memoryFile)
include htype

lemma nodeBytes_acts :
    v.nodeBytes out node (v.handle k).offset
      (min size (v.nodeSize out node - (v.handle k).offset)) =
      ((v.contents out node.file).drop (v.handle k).offset).take size := by
  rw [nodeBytes, nodeSize, htype, if_neg (by decide), Node.file, htype]
  cases hfile : node.ramFile with
  | some f =>
    dsimp only [contents]
    rw [take_drop_load, Nat.zero_add]
  | none =>
    cases node.base with
    | address base =>
      dsimp only [contents]
      rw [take_drop_load]
    | ramData f =>
      dsimp only [contents]
      rw [take_drop_load, Nat.zero_add]

lemma length_contents : (v.contents out node.file).length = v.nodeSize out node := by
  rw [nodeSize, Node.file, htype]
  cases node.ramFile with
  | some f => exact length_load _ _ _
  | none => cases node.base <;> exact length_load _ _ _

lemma readFrom_memoryFile {offset : ℕ} :
    v.readFrom out node.file offset size = ((v.contents out node.file).drop offset).take size := by
  rw [Node.file, htype]
  cases node.ramFile <;> rfl

end

lemma Denotes.fileOf {file : OpenFile} (h : Denotes v k file) : v.fileOf k = file := by
  rw [Vfs.fileOf]
  cases h with
  | generated hdyn _ => rw [if_pos hdyn]
  | ram hdyn hnode htype hfile => simp [hdyn, hnode, Node.file, htype, hfile]
  | memory hdyn hnode htype hfile => simp [hdyn, hnode, Node.file, htype, hfile]
  | device hdyn hnode htype | text hdyn hnode htype => simp [hdyn, hnode, Node.file, htype]

lemma readHandle_memoryFile (out : Outside) (hfor : v.handleFor id = some k) (hsize : size ≠ 0)
    (hdyn : (v.handle k).dynamicVirtual = false) (hnode : (v.handle k).node = some i)
    (htype : (v.nodeAt i).type = .memoryFile) :
    (v.readHandle out id size).1 =
        v.readFrom out (v.nodeAt i).file (v.handle k).offset size ∧
      ∃ offset, (v.readHandle out id size).2 = v.setOffset k offset := by
  rw [readFrom_memoryFile htype, readHandle, hfor]
  dsimp only
  rw [if_neg hsize, hdyn, hnode, if_neg Bool.false_ne_true]
  dsimp only
  rw [htype]
  split_ifs
  · rw [drop_eq_nil_of_le (by rwa [length_contents htype]), take_nil]
    exact ⟨rfl, _, (v.setOffset_self k).symm⟩
  · exact ⟨nodeBytes_acts htype, _, rfl⟩

lemma Denotes.readHandle {file : OpenFile} (h : Denotes v k file) (hfor : v.handleFor id = some k)
    (out : Outside) (size : ℕ) :
    (v.readHandle out id size).1 = v.readFrom out file (v.handle k).offset size ∧
      ∃ offset, (v.readHandle out id size).2 = v.setOffset k offset := by
  by_cases hsize : size = 0
  · subst hsize
    have hempty : v.readFrom out file (v.handle k).offset 0 = [] := by
      cases h <;> simp [readFrom]
      split <;> simp
    rw [hempty, Vfs.readHandle, hfor]
    exact ⟨rfl, _, (v.setOffset_self k).symm⟩
  cases h with
  | generated hdyn hnode =>
    rw [Vfs.readHandle, hfor]
    dsimp only
    rw [if_neg hsize, if_pos hdyn]
    exact readText_acts k _ size
  | ram hdyn hnode htype hfile | memory hdyn hnode htype hfile =>
    have hacts := readHandle_memoryFile out hfor hsize hdyn hnode htype
    rwa [Node.file, htype, hfile] at hacts
  | @device i hdyn hnode htype =>
    rw [Vfs.readHandle, hfor]
    dsimp only
    rw [if_neg hsize, hdyn, hnode]
    dsimp only
    rw [htype]
    cases (v.nodeAt i).deviceKind with
    | zero => exact ⟨rfl, _, rfl⟩
    | tty | console => exact ⟨(if_neg hsize).symm, _, rfl⟩
    | none | null => exact ⟨by simp [readFrom, contents], _, (v.setOffset_self k).symm⟩
  | text hdyn hnode htype =>
    rw [Vfs.readHandle, hfor]
    dsimp only
    rw [if_neg hsize, hdyn, hnode]
    dsimp only
    rw [htype]
    exact readText_acts k _ size

lemma readHandle_ram (out : Outside) (size : ℕ) (hfor : v.handleFor id = some k)
    (hdyn : (v.handle k).dynamicVirtual = false) (hnode : (v.handle k).node = some i)
    (htype : (v.nodeAt i).type = .memoryFile) (hfile : (v.nodeAt i).ramFile = some f) :
    let bytes := ((v.contents out (.ram f)).drop (v.handle k).offset).take size
    v.readHandle out id size = (bytes, v.setOffset k ((v.handle k).offset + bytes.length)) := by
  intro bytes
  have hfileEq : (v.nodeAt i).file = .ram f := by rw [Node.file, htype, hfile]
  have hlen : (v.contents out (v.nodeAt i).file).length = _ := length_contents htype
  have hbytes : bytes.length = min size (v.nodeSize out (v.nodeAt i) - (v.handle k).offset) := by
    rw [length_take, length_drop, ← hfileEq, hlen]
  have hempty (h : bytes.length = 0) :
      ([], v) = (bytes, v.setOffset k ((v.handle k).offset + bytes.length)) := by
    rw [h, Nat.add_zero, setOffset_self, eq_nil_of_length_eq_zero h]
  rw [readHandle, hfor]
  dsimp only
  by_cases hsize : size = 0
  · rw [if_pos hsize]
    exact hempty (by omega)
  rw [hdyn, hnode, if_neg Bool.false_ne_true]
  dsimp only
  rw [htype]
  split_ifs
  · exact hempty (by omega)
  · rw [nodeBytes_acts htype, hfileEq, hbytes]

/-- Behind the end of the table there are only empty nodes. -/
lemma lt_of_type_ne_empty (h : (v.nodeAt i).type ≠ .empty) : i < v.nodes.length := by
  by_contra hi
  rw [nodeAt, getD_eq_getElem?_getD, getElem?_eq_none (not_lt.1 hi)] at h
  exact h rfl

lemma Stored.writeHandle_ram (h : Stored v) (out : Outside) (bytes : List UInt8)
    (hfor : v.handleFor id = some k) (hnode : (v.handle k).node = some i)
    (htype : (v.nodeAt i).type = .memoryFile) (hfile : (v.nodeAt i).ramFile = some f) :
    v.writeHandle out id bytes =
      if bytes.length = 0 ∨ kMaxRamFileBytes ≤ (v.handle k).offset then (0, v)
      else
        (min bytes.length (kMaxRamFileBytes - (v.handle k).offset), v.stored k i f bytes) := by
  have hi : i < v.nodes.length := lt_of_type_ne_empty (by rw [htype]; decide)
  have hwrite := (h.ofRamFile (nodeAt_mem hi) hfile).writable
  rw [Vfs.writeHandle, hfor]
  dsimp only
  rw [hnode]
  dsimp only
  by_cases hempty : bytes.length = 0
  · rw [if_pos hempty, if_pos (.inl hempty)]
  rw [if_neg hempty, htype, if_neg (by decide), hwrite, hfile]
  dsimp only
  split
  · next hfull =>
    rw [if_pos (.inr hfull)]
  · next hfull =>
    rw [if_neg (not_or.2 ⟨hempty, hfull⟩)]
    rfl

lemma Stored.writeHandle_other {file : OpenFile} (h : Stored v) (hd : Denotes v k file)
    (hother : ∀ f, file ≠ .ram f) (hfor : v.handleFor id = some k) (out : Outside)
    (bytes : List UInt8) : (v.writeHandle out id bytes).2.ramFiles = v.ramFiles := by
  have hnone {i : ℕ} (hnode : (v.handle k).node = some i) (hfile : (v.nodeAt i).ramFile = none)
      (htype : (v.nodeAt i).type ≠ .characterDevice) :
      (v.writeHandle out id bytes).2.ramFiles = v.ramFiles := by
    rw [Vfs.writeHandle, hfor]
    dsimp only
    rw [hnode]
    dsimp only
    rw [hfile, if_neg htype]
    by_cases hempty : bytes.length = 0
    · rw [if_pos hempty]
    · rw [if_neg hempty]
      cases (v.nodeAt i).writable <;> rfl
  cases hd with
  | generated hdyn hnode =>
    rw [Vfs.writeHandle, hfor]
    dsimp only
    rw [hnode]
  | ram => exact absurd rfl (hother _)
  | memory hdyn hnode htype hfile => exact hnone hnode hfile (by rw [htype]; decide)
  | @device i hdyn hnode htype =>
    rw [Vfs.writeHandle, hfor]
    dsimp only
    rw [hnode]
    dsimp only
    split_ifs
    · rfl
    · cases (v.nodeAt i).deviceKind <;> rfl
  | @text i hdyn hnode htype =>
    have hi : i < v.nodes.length := lt_of_type_ne_empty (by rw [htype]; decide)
    have hfile := h.ramFile_eq_none (nodeAt_mem hi) (by rw [htype]; decide)
    exact hnone hnode hfile (by rw [htype]; decide)

lemma Denotes.seekHandle {file : OpenFile} (h : Denotes v k file) (hfor : v.handleFor id = some k)
    (out : Outside) (offset : ℕ) :
    (v.seekHandle out id offset = (false, v) ∨
      v.seekHandle out id offset = (true, v.setOffset k offset)) ∧
    ∀ size, v.extent out file = some size → ((v.seekHandle out id offset).1 ↔ offset ≤ size) := by
  have hnode {i : ℕ} (hdyn : (v.handle k).dynamicVirtual = false)
      (hnode : (v.handle k).node = some i) :
      v.seekHandle out id offset =
        if v.nodeSize out (v.nodeAt i) < offset then (false, v)
        else (true, v.setOffset k offset) := by
    rw [Vfs.seekHandle, hfor]
    dsimp only
    rw [hdyn, hnode, if_neg Bool.false_ne_true]
  -- every seek compares the offset with a bound and refuses what lies behind it
  obtain ⟨bound, hsize, hseek⟩ : ∃ bound, (∀ size, v.extent out file = some size → size = bound) ∧
      v.seekHandle out id offset =
        if bound < offset then (false, v) else (true, v.setOffset k offset) := by
    cases h with
    | generated hdyn hgenerated =>
      refine ⟨_, fun size hs => (Option.some.inj hs).symm, ?_⟩
      rw [Vfs.seekHandle, hfor]
      dsimp only
      rw [if_pos hdyn]
    | ram hdyn hi htype hfile =>
      refine ⟨_, fun size hs => ?_, hnode hdyn hi⟩
      rw [nodeSize_of_ramFile htype hfile]
      exact (Option.some.inj hs).symm
    | memory hdyn hi htype hfile =>
      refine ⟨_, fun size hs => ?_, hnode hdyn hi⟩
      rw [nodeSize, htype, hfile]
      exact (Option.some.inj hs).symm
    | device hdyn hi htype => exact ⟨_, by rintro _ ⟨⟩, hnode hdyn hi⟩
    | text hdyn hi htype =>
      refine ⟨_, fun size hs => ?_, hnode hdyn hi⟩
      rw [nodeSize, if_pos htype]
      exact (Option.some.inj hs).symm
  rw [hseek]
  split
  · next hlt =>
    refine ⟨.inl rfl, fun size hs => ?_⟩
    rw [hsize size hs]
    exact iff_of_false Bool.false_ne_true (not_le.2 hlt)
  · next hlt =>
    refine ⟨.inr rfl, fun size hs => ?_⟩
    rw [hsize size hs]
    exact iff_of_true rfl (not_lt.1 hlt)

theorem Stored.actsOn {id : ℕ} {file : OpenFile} (h : Stored v) (hd : Denotes v k file)
    (hfor : v.handleFor id = some k) : v.ActsOn id k file := by
  refine ⟨?_, hd.readHandle hfor, ?_, ?_, hd.seekHandle hfor⟩
  · rintro f rfl
    cases hd with
    | ram _ _ htype hfile =>
      exact (h.ofRamFile (nodeAt_mem (lt_of_type_ne_empty (by rw [htype]; decide))) hfile).inUse
  · rintro out bytes f rfl
    cases hd with
    | ram _ hnode htype hfile =>
      rw [h.writeHandle_ram out bytes hfor hnode htype hfile]
      split_ifs with hnothing
      · omega
      · refine ⟨rfl, fun _ => ?_⟩
        exact Table.slot_set_self _ _ _
  · rintro out bytes f hf
    by_cases hram : ∃ g, file = .ram g
    · obtain ⟨g, rfl⟩ := hram
      cases hd with
      | ram _ hnode htype hfile =>
        rw [h.writeHandle_ram out bytes hfor hnode htype hfile] at hf ⊢
        split_ifs at hf ⊢ with hnothing
        · rfl
        have hne : f ≠ g := by
          rintro rfl
          obtain hf | hf := hf
          · exact hf rfl
          · omega
        exact (Table.slot_set _ _ _ _).trans (if_neg hne)
    · rw [ramFile, h.writeHandle_other hd (fun g hg => hram ⟨g, hg⟩) hfor]
      rfl

end Vfs
end IanOS
