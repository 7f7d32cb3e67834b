import IanOS.Fs.OpenFiles

/-!
# What an open handle denotes

Everything done through a handle should be done to what it was opened on.  What it denotes is found
through the node it points to, a position of the node table.  Only deleting moves nodes to other
positions: it shifts every node behind the removed one, and a handle open on one of these then
points to its neighbour, or to nothing.  As long as no open handle points behind a node that is
removed, every handle denotes what it was opened on.
-/

namespace IanOS.Vfs

open Table

variable {v v' : Vfs} {out : Outside} {i j k f : ℕ} {p : Path}
  {file : OpenFile} {op : NamespaceOp} {r : Bool × Vfs}

/-! ## Calls that leave a handle where it is -/

lemma denotes_iff : Denotes v k file ↔
    v.fileOf k = file ∧ file ≠ .nothing ∧
    ((v.handle k).dynamicVirtual → (v.handle k).node = none) := by
  constructor
  · intro h
    refine ⟨h.fileOf, ?_, ?_⟩
    · cases h <;> exact fun hnothing => (nomatch hnothing)
    · cases h <;> simp_all
  rintro ⟨rfl, hne, hdyn⟩
  rw [fileOf] at hne ⊢
  split_ifs at hne ⊢ with hdynamic
  · exact .generated hdynamic (hdyn hdynamic)
  rw [Bool.not_eq_true] at hdynamic
  cases hnode : (v.handle k).node with
  | none =>
    rw [hnode] at hne
    exact absurd rfl hne
  | some i =>
    rw [hnode] at hne
    dsimp only at hne ⊢
    rw [Node.file] at hne ⊢
    cases htype : (v.nodeAt i).type with
    | empty | directory =>
      rw [htype] at hne
      exact absurd rfl hne
    | characterDevice => exact .device hdynamic hnode htype
    | virtualFile => exact .text hdynamic hnode htype
    | memoryFile =>
      cases hfile : (v.nodeAt i).ramFile with
      | some f => exact .ram hdynamic hnode htype hfile
      | none => exact .memory hdynamic hnode htype hfile

/-- The entry is the same up to the offset and the reference count, and the node it points to is the
same file. -/
lemma Denotes.congr (h : Denotes v k file) (hhandle : ∃ offset refCount,
      v'.handle k = { v.handle k with offset := offset, refCount := refCount })
    (hfile : ∀ i, (v.handle k).node = some i → (v.nodeAt i).file = file →
      (v'.nodeAt i).file = file) :
    Denotes v' k file := by
  obtain ⟨offset, refCount, hhandle⟩ := hhandle
  obtain ⟨hfileOf, hne, hdyn⟩ := denotes_iff.1 h
  refine denotes_iff.2 ⟨?_, hne, by rwa [hhandle]⟩
  rw [Vfs.fileOf] at hfileOf ⊢
  rw [hhandle]
  split_ifs at hfileOf ⊢
  · exact hfileOf
  cases hnode : (v.handle k).node with
  | none => rwa [hnode] at hfileOf
  | some i =>
    rw [hnode] at hfileOf
    exact hfile i hnode hfileOf

/-- No open handle points behind a node that this call might remove. -/
def Steady (v : Vfs) : VfsOp → Prop
  | .change (.deleteRamFile path) | .change (.deleteRamDirectory path) =>
    ∀ p ∈ normalizePath path, ∀ i < v.nodes.length, v.pathOf (v.nodeAt i) = some p →
      ∀ k < v.handles.count, (v.handle k).isOpen → ∀ j ∈ (v.handle k).node, j ≤ i
  | _ => True

lemma handles_freeLink (p : Path) : (v.freeLink p).handles = v.handles := by
  rw [freeLink]
  split <;> rfl

lemma handles_freeDirectory (p : Path) : (v.freeDirectory p).handles = v.handles := by
  rw [freeDirectory]
  split <;> rfl

lemma handles_freeUnlinked (f : ℕ) : (v.freeUnlinked f).handles = v.handles := by
  rw [freeUnlinked]
  split <;> rfl

/-- Of the handles a namespace function changes at most the offsets. -/
lemma handle_change (hchange : Change v op r) (k : ℕ) :
    ∃ offset, r.2.handle k = { v.handle k with offset := offset } := by
  have hsame (w : Vfs) (hw : w.handles = v.handles) :
      ∃ offset, w.handle k = { v.handle k with offset := offset } := ⟨_, by rw [handle, hw]; rfl⟩
  cases hchange with
  | truncate =>
    rw [handle, setFileSize, mapSlots]
    dsimp only
    split_ifs
    · exact ⟨_, rfl⟩
    · exact ⟨_, rfl⟩
  | deleteFile =>
    refine hsame _ ?_
    rw [handles_freeUnlinked, removeNode, handles_freeLink]
  | deleteDirectory =>
    refine hsame _ ?_
    rw [removeNode, handles_freeDirectory]
  | _ => exact hsame _ rfl

lemma count_handles_change (hchange : Change v op r) : r.2.handles.count = v.handles.count := by
  cases hchange with
  | deleteFile => rw [handles_freeUnlinked, removeNode, handles_freeLink]
  | deleteDirectory => rw [removeNode, handles_freeDirectory]
  | _ => rfl

lemma openAt_change (hchange : Change v op r) (hopen : r.2.OpenAt k) : v.OpenAt k := by
  obtain ⟨offset, hhandle⟩ := handle_change hchange k
  refine ⟨?_, ?_⟩
  · rw [← count_handles_change hchange]
    exact hopen.1
  · have hisOpen : (r.2.handle k).isOpen := hopen.2
    rwa [hhandle] at hisOpen

lemma nodeAt_append {n : Node} (hnodes : v'.nodes = v.nodes ++ [n]) (hi : i < v.nodes.length) :
    v'.nodeAt i = v.nodeAt i := by
  rw [nodeAt, nodeAt, hnodes, List.getD_eq_getElem?_getD, List.getD_eq_getElem?_getD,
    List.getElem?_append_left hi]

lemma nodeAt_eraseIdx (hnodes : v'.nodes = v.nodes.eraseIdx j) (hi : i < j) :
    v'.nodeAt i = v.nodeAt i := by
  rw [nodeAt, nodeAt, hnodes, List.getD_eq_getElem?_getD, List.getD_eq_getElem?_getD,
    List.getElem?_eraseIdx_of_lt hi]

/-- What an open handle points to stays where it is. -/
lemma Stored.file_change (h : Stored v) (hchange : Change v op r) (hsteady : v.Steady (.change op))
    (hopen : v.OpenAt k) (hnode : (v.handle k).node = some i)
    (hfile : (v.nodeAt i).file ≠ .nothing) :
    (r.2.nodeAt i).file = (v.nodeAt i).file := by
  have hi : i < v.nodes.length := by
    refine lt_of_type_ne_empty fun hempty => hfile ?_
    rw [Node.file, hempty]
  have hmodify {j : ℕ} {s : PathRef} {w : Vfs}
      (hw : w.nodes = v.nodes.modify j fun n => { n with path := some s }) :
      (w.nodeAt i).file = (v.nodeAt i).file := by
    rw [nodeAt_modify hw hi]
    split_ifs <;> rfl
  cases hchange with
  | createFile | createLink | createDirectory => rw [nodeAt_append rfl hi]
  | truncate =>
    rw [nodeAt_setFileSize hi]
    split_ifs with hram
    · simp only [Node.file, hram]
    · rfl
  | moveLink | moveFile | moveDirectory => exact hmodify rfl
  | @deleteFile path p j f hpath hat hram hhandles =>
    have hij := hsteady p hpath j hat.lt hat.path k hopen.1 hopen.2 i hnode
    have hne : i ≠ j := by
      rintro rfl
      exact hhandles k hopen.1 ⟨hopen.2, i, hnode, hram⟩
    rw [nodeAt_eraseIdx (h.removed_file hat hram).nodes (by omega)]
  | @deleteDirectory path p j hpath _ hat htype _ =>
    have hij := hsteady p hpath j hat.lt hat.path k hopen.1 hopen.2 i hnode
    have hne : i ≠ j := by
      rintro rfl
      exact hfile (by rw [Node.file, htype])
    rw [nodeAt_eraseIdx (h.removed_directory hat htype).nodes (by omega)]
  | _ => rfl

lemma file_onHandle {op : HandleOp} (hchange : HandleChange v out op v')
    (hfile : (v.nodeAt i).file ≠ .nothing) : (v'.nodeAt i).file = (v.nodeAt i).file := by
  have hi : i < v.nodes.length := by
    refine lt_of_type_ne_empty fun hempty => hfile ?_
    rw [Node.file, hempty]
  cases hchange with
  | @stored id k j f bytes _ _ _ hram _ _ =>
    have hnode : (v.stored k j f bytes).nodeAt i = _ := nodeAt_modify rfl hi
    rw [hnode]
    split_ifs with hji
    · subst hji
      simp only [Node.file, hram]
    · rfl
  | _ => rfl

lemma openAt_modify {g : FileHandle → FileHandle} (hhandles : v'.handles = v.handles.modify j g)
    (hg : ∀ h, ∃ offset refCount, g h = { h with offset := offset, refCount := refCount })
    (hopen : v'.OpenAt k) :
    v.OpenAt k ∧ ∃ offset refCount,
      v'.handle k = { v.handle k with offset := offset, refCount := refCount } := by
  have hslot : ∃ offset refCount,
      v'.handle k = { v.handle k with offset := offset, refCount := refCount } := by
    rw [handle, hhandles, slot_modify]
    split_ifs
    · exact hg _
    · exact ⟨_, _, rfl⟩
  obtain ⟨offset, refCount, hslot⟩ := hslot
  refine ⟨⟨?_, ?_⟩, offset, refCount, hslot⟩
  · rw [← count_modify v.handles j g, ← hhandles]
    exact hopen.1
  · have hisOpen : (v'.handle k).isOpen := hopen.2
    rwa [hslot] at hisOpen

/-- Overwriting another entry. -/
lemma openAt_set {a : FileHandle} (hhandles : v'.handles = v.handles.set j a) (hopen : v'.OpenAt k)
    (hkj : k ≠ j) : v.OpenAt k ∧ v'.handle k = v.handle k := by
  have hslot : v'.handle k = v.handle k := by
    rw [handle, hhandles, slot_set, if_neg hkj]
    rfl
  refine ⟨⟨?_, ?_⟩, hslot⟩
  · rw [← count_set v.handles j a, ← hhandles]
    exact hopen.1
  · rw [← handle, ← hslot]
    exact hopen.2

lemma ne_of_openAt_closeHandle (hopen : (v.closeHandle j).OpenAt k) : k ≠ j := by
  rintro rfl
  have hslot : (v.closeHandle k).handle k = {} := slot_set_self _ _ _
  have hisOpen : ((v.closeHandle k).handle k).isOpen := hopen.2
  rw [hslot] at hisOpen
  cases hisOpen

/-- Unless this call has opened it, an entry that is open was open before and is the same up to the
offset and the reference count. -/
lemma handle_onHandle {op : HandleOp} (hchange : HandleChange v out op v') (k : ℕ)
    (hopen : v'.OpenAt k) :
    (v.OpenAt k ∧ ∃ offset refCount,
      v'.handle k = { v.handle k with offset := offset, refCount := refCount }) ∨
    ∃ path p node dynamicVirtual, op = .openPath path ∧ ¬v.OpenAt k ∧
      Opens v out path node dynamicVirtual p ∧
      v' = v.putHandle k node dynamicVirtual p := by
  have hset {l : ℕ} {a : FileHandle} {w : Vfs} (hw : w.handles = v.handles.set l a)
      (hk : w.OpenAt k) (hkl : k ≠ l) : v.OpenAt k ∧ ∃ offset refCount,
        w.handle k = { v.handle k with offset := offset, refCount := refCount } := by
    obtain ⟨hold, hslot⟩ := openAt_set hw hk hkl
    exact ⟨hold, _, _, hslot⟩
  cases hchange with
  | refuse => exact .inl ⟨hopen, _, _, rfl⟩
  | @opened path p l node dynamicVirtual hl hunused hopens =>
    by_cases hkl : k = l
    · subst hkl
      exact .inr ⟨path, p, node, dynamicVirtual, rfl, fun hk => hunused hk.2, hopens, rfl⟩
    · exact .inl (hset rfl hopen hkl)
  | sought | stored => exact .inl (openAt_modify rfl (fun a => ⟨_, a.refCount, rfl⟩) hopen)
  | retained | released => exact .inl (openAt_modify rfl (fun a => ⟨a.offset, _, rfl⟩) hopen)
  | closed => exact .inl (hset rfl hopen (ne_of_openAt_closeHandle hopen))

lemma Stored.denotes_change (h : Stored v) (hchange : Change v op r)
    (hsteady : v.Steady (.change op)) (hopen : v.OpenAt k) (hd : Denotes v k file) :
    Denotes r.2 k file := by
  obtain ⟨offset, hhandle⟩ := handle_change hchange k
  refine hd.congr ⟨offset, _, hhandle⟩ fun i hnode hfile => ?_
  have hne : (v.nodeAt i).file ≠ .nothing := hfile ▸ (denotes_iff.1 hd).2.1
  exact (h.file_change hchange hsteady hopen hnode hne).trans hfile

lemma denotes_onHandle {op : HandleOp} (hchange : HandleChange v out op v')
    (hhandle : ∃ offset refCount,
      v'.handle k = { v.handle k with offset := offset, refCount := refCount })
    (hd : Denotes v k file) : Denotes v' k file := by
  refine hd.congr hhandle fun i hnode hfile => ?_
  have hne : (v.nodeAt i).file ≠ .nothing := hfile ▸ (denotes_iff.1 hd).2.1
  exact (file_onHandle hchange hne).trans hfile

/-! ## Runs -/

/-- Every call of a run is steady. -/
def SteadyRun : Vfs → List VfsOp → Prop
  | _, [] => True
  | v, op :: ops => v.Steady op ∧ SteadyRun (v.step op) ops

/-- A file system, with a record of what its handles were opened on. -/
structure Traced where
  vfs : Vfs
  openedOn : ℕ → OpenFile

/-- An entry that was not open is open after `open` only if this call has opened it. -/
def Traced.step (s : Traced) (op : VfsOp) : Traced where
  vfs := s.vfs.step op
  openedOn :=
    match op with
    | .handle _ (.openPath path) => fun k =>
      if (s.vfs.handle k).isOpen then s.openedOn k else s.vfs.fileAt path
    | _ => s.openedOn

def Traced.run (s : Traced) (ops : List VfsOp) : Traced := ops.foldl Traced.step s

/-- Every open handle denotes what it was opened on. -/
structure Traced.Faithful (s : Traced) : Prop where
  stored : Stored s.vfs
  denotes : ∀ k, s.vfs.OpenAt k → Denotes s.vfs k (s.openedOn k)

lemma Stored.denotes_putHandle {path : Path} {node : Option ℕ} {dynamicVirtual : Bool}
    (h : Stored v)
    (hopens : Opens v out path node dynamicVirtual p) :
    Denotes (v.putHandle k node dynamicVirtual p) k (v.fileAt path) := by
  have hslot : (v.putHandle k node dynamicVirtual p).handle k =
      { id := (takeHandleId v.nextHandleId).1, node := node, offset := 0, refCount := 1
        isOpen := true, dynamicVirtual := dynamicVirtual, path := p } := slot_set_self _ _ _
  cases hopens with
  | @node p i hpath hat htype =>
    have hfileAt : v.fileAt path = (v.nodeAt i).file := by
      rw [fileAt, h.distinct.find_eq hpath hat]
    refine denotes_iff.2 ⟨?_, ?_, ?_⟩
    · rw [fileOf, hslot, hfileAt]
      rfl
    · rw [hfileAt, Node.file]
      obtain htype | htype | htype := htype
      · rw [htype]
        cases (v.nodeAt i).ramFile <;> rintro ⟨⟩
      · rw [htype]
        rintro ⟨⟩
      · rw [htype]
        rintro ⟨⟩
    · rw [hslot]
      rintro ⟨⟩
  | @generated p hpath hfree hsize =>
    have hfileAt : v.fileAt path = .generated p := by
      have hfind : v.find path = none := by rw [find, hpath, Option.bind_some, hfree]
      rw [fileAt, hfind, hpath]
    refine denotes_iff.2 ⟨?_, ?_, ?_⟩
    · rw [fileOf, hslot, hfileAt]
      rfl
    · rw [hfileAt]
      rintro ⟨⟩
    · rw [hslot]
      exact fun _ => rfl

lemma Traced.Faithful.step {s : Traced} (h : s.Faithful) {op : VfsOp} (hsteady : s.vfs.Steady op) :
    (s.step op).Faithful := by
  refine ⟨h.stored.step op, fun k hopen => ?_⟩
  cases op with
  | change op =>
    have hchange := perform_change s.vfs op
    have hopen' := openAt_change hchange hopen
    exact h.stored.denotes_change hchange hsteady hopen' (h.denotes k hopen')
  | handle out op =>
    have hchange := onHandle_change s.vfs out op
    obtain ⟨hopen', hhandle⟩ | ⟨path, p, node, dynamicVirtual, rfl, hclosed, hopens, hput⟩ :=
      handle_onHandle hchange k hopen
    · have hd := h.denotes k hopen'
      have hkept : (s.step (.handle out op)).openedOn k = s.openedOn k := by
        cases op with
        | openPath path => exact if_pos hopen'.2
        | _ => rfl
      rw [hkept]
      exact denotes_onHandle hchange hhandle hd
    · have hnew : (s.step (.handle out (.openPath path))).openedOn k = s.vfs.fileAt path := by
        refine if_neg fun hisOpen => hclosed ⟨?_, hisOpen⟩
        have hlt := hopen.1
        rwa [show (s.step (.handle out (.openPath path))).vfs.handles =
          (s.vfs.putHandle k node dynamicVirtual p).handles from congrArg handles hput] at hlt
      rw [hnew]
      have hd : Denotes _ k _ := h.stored.denotes_putHandle hopens
      rwa [← hput] at hd

lemma Traced.Faithful.run {s : Traced} (h : s.Faithful) {ops : List VfsOp}
    (hsteady : SteadyRun s.vfs ops) : (s.run ops).Faithful := by
  induction ops generalizing s with
  | nil => exact h
  | cons op ops ih => exact ih (h.step hsteady.1) hsteady.2

/-- In a run from `initialize` in which no node is removed in front of one that an open handle
points to, every open handle denotes what it was opened on, and what is done through it is done to
that. -/
theorem open_handle_keeps_file (registrations : List Registration) (ops : List VfsOp)
    (hsteady : SteadyRun (booted registrations) ops) :
    let s := Traced.run ⟨booted registrations, fun _ => .nothing⟩ ops
    (∀ k, s.vfs.OpenAt k → s.vfs.fileOf k = s.openedOn k) ∧
      ∀ id k, s.vfs.handleFor id = some k → s.vfs.ActsOn id k (s.openedOn k) := by
  have hboot : (⟨booted registrations, fun _ => .nothing⟩ : Traced).Faithful := by
    refine ⟨(onlyRegistered_booted registrations).stored, fun k hk => ?_⟩
    obtain ⟨-, -, nodes, hv⟩ := onlyRegistered_booted registrations
    rw [hv] at hk
    exact (nomatch hk.2)
  have hfaithful := hboot.run hsteady
  refine ⟨fun k hk => (hfaithful.denotes k hk).fileOf, fun id k hfor => ?_⟩
  exact hfaithful.stored.actsOn (hfaithful.denotes k (openAt_of_handleFor hfor)) hfor

/-- The root and a writable `/tmp`. -/
def twoDirectories : List Registration :=
  [.directory (.ascii "/") false, .directory (.ascii "/tmp") true]

instance (op : VfsOp) : Decidable (v.Steady op) := by
  unfold Steady
  split <;> infer_instance

instance decidableSteadyRun : (v : Vfs) → (ops : List VfsOp) → Decidable (SteadyRun v ops)
  | _, [] => inferInstanceAs (Decidable True)
  | v, op :: ops =>
    have := decidableSteadyRun (v.step op) ops
    inferInstanceAs (Decidable (_ ∧ _))

/-- A node behind the one the handle points to is removed. -/
theorem open_handle_keeps_file_behind :
    let s := Traced.run ⟨booted twoDirectories, fun _ => .nothing⟩
      [.change (.createRamFile (.ascii "/tmp/a")), .change (.createRamFile (.ascii "/tmp/b")),
        .handle default (.openPath (.ascii "/tmp/a")), .change (.deleteRamFile (.ascii "/tmp/b"))]
    s.vfs.handleFor 1 = some 0 ∧ s.openedOn 0 = .ram 0 ∧ s.vfs.ActsOn 1 0 (s.openedOn 0) := by
  intro s
  have hfor : s.vfs.handleFor 1 = some 0 := by decide +kernel
  refine ⟨hfor, by decide +kernel, ?_⟩
  exact (open_handle_keeps_file twoDirectories _ (by decide +kernel)).2 1 0 hfor

/-- A node in front of the one the handle points to is removed.  The handle was opened on the second
file and now denotes the third, and a byte written through it goes there. -/
theorem open_handle_moves_to_neighbour :
    let s := Traced.run ⟨booted twoDirectories, fun _ => .nothing⟩
      [.change (.createRamFile (.ascii "/tmp/a")), .change (.createRamFile (.ascii "/tmp/b")),
        .change (.createRamFile (.ascii "/tmp/c")), .handle default (.openPath (.ascii "/tmp/b")),
        .change (.deleteRamFile (.ascii "/tmp/a"))]
    s.vfs.handleFor 1 = some 0 ∧ s.openedOn 0 = .ram 1 ∧ s.vfs.fileOf 0 = .ram 2 ∧
      ((s.vfs.writeHandle default 1 [120]).2.ramFile 1).size = 0 ∧
      ((s.vfs.writeHandle default 1 [120]).2.ramFile 2).size = 1 := by
  decide +kernel

end IanOS.Vfs
