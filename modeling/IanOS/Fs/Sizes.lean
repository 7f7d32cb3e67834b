import IanOS.Fs.OpenFiles
import IanOS.Lib.Run

/-!
# The size in the node and the size in the file

The size of a RAM file is stored in its record and once more in every node that names the file.
`read_handle` and `stat` look at the record, but `Spawn` loads an image from the address and the
size in the node it finds.  Truncation writes the new size to all nodes of the file.  A write
through a handle writes it only to the node the handle points to, so that a file with another name
keeps its old size there whenever the write makes the file longer.
-/

namespace IanOS.Vfs

open List

variable {v v' : Vfs} {n : Node} {i j k f : ℕ} {op : NamespaceOp} {r : Bool × Vfs}

/-- Every node of a RAM file has the size of the file. -/
def SizesAgree (v : Vfs) : Prop :=
  ∀ n ∈ v.nodes, ∀ f, n.ramFile = some f → n.size = (v.ramFile f).size

/-- No other node names the file. -/
def OnlyName (v : Vfs) (i f : ℕ) : Prop :=
  ∀ j < v.nodes.length, j ≠ i → (v.nodeAt j).ramFile ≠ some f

instance (v : Vfs) (i f : ℕ) : Decidable (v.OnlyName i f) :=
  inferInstanceAs (Decidable (∀ j < _, _))

/-- The number of bytes a write stores through the handle in entry `k`. -/
def stores (v : Vfs) (k : ℕ) (bytes : List UInt8) : ℕ :=
  min bytes.length (kMaxRamFileBytes - (v.handle k).offset)

/-- A write to a file with several names does not make the file longer. -/
def KeepsSizes (v : Vfs) : VfsOp → Prop
  | .handle _ (.writeHandle id bytes) => ∀ k ∈ v.handleFor id, ∀ i ∈ (v.handle k).node,
      ∀ f ∈ (v.nodeAt i).ramFile, bytes ≠ [] → (v.handle k).offset < kMaxRamFileBytes →
        v.OnlyName i f ∨ (v.handle k).offset + v.stores k bytes ≤ (v.ramFile f).size
  | _ => True

/-! ## Namespace functions -/

/-- What has to be shown of the nodes that are new and of the files that have changed. -/
lemma SizesAgree.keep (h : SizesAgree v) (hnodes : ∀ n ∈ v'.nodes, ∀ f, n.ramFile = some f →
    n.size = (v'.ramFile f).size ∨ n ∈ v.nodes ∧ (v'.ramFile f).size = (v.ramFile f).size) :
    SizesAgree v' := by
  intro n hn f hf
  obtain hsize | ⟨hold, hsame⟩ := hnodes n hn f hf
  · exact hsize
  · rw [hsame]
    exact h n hold f hf

lemma ramFile_set (k : ℕ) (file : RamFile) (nodes : List Node) (handles : Table FileHandle) :
    Vfs.ramFile { v with ramFiles := v.ramFiles.set k file, nodes := nodes, handles := handles } f =
      if f = k then file else v.ramFile f :=
  v.ramFiles.slot_set k file f

lemma Stored.ne_unused (h : Stored v) (hn : n ∈ v.nodes) (hf : n.ramFile = some f)
    (hunused : ¬(v.ramFile k).used) : f ≠ k := by
  rintro rfl
  exact hunused (h.ofRamFile hn hf).inUse.2

lemma ramFile_setFileSize (k size : ℕ) : (v.setFileSize k size).ramFile f =
    if f = k then (v.ramFile f).resize size else v.ramFile f :=
  v.ramFiles.slot_modify k (fun file => file.resize size) f

lemma ramFile_moveToFile (i k : ℕ) (q : Path) : (v.moveToFile i k q).ramFile f =
    if f = k then { v.ramFile f with path := q } else v.ramFile f :=
  v.ramFiles.slot_modify k (fun file => { file with path := q }) f

lemma ramFiles_freeLink (p : Path) : (v.freeLink p).ramFiles = v.ramFiles := by
  rw [freeLink]
  split <;> rfl

lemma ramFiles_freeDirectory (p : Path) : (v.freeDirectory p).ramFiles = v.ramFiles := by
  rw [freeDirectory]
  split <;> rfl

lemma nodes_freeLink (p : Path) : (v.freeLink p).nodes = v.nodes := by
  rw [freeLink]
  split <;> rfl

lemma nodes_freeUnlinked (g : ℕ) : (v.freeUnlinked g).nodes = v.nodes := by
  rw [freeUnlinked]
  split <;> rfl

/-- A file is cleared only when no node names it. -/
lemma ramFile_freeUnlinked (hlinked : v.stillLinked f) (g : ℕ) :
    (v.freeUnlinked g).ramFile f = v.ramFile f := by
  rw [freeUnlinked]
  split
  · rfl
  · next hgone =>
    have hne : f ≠ g := fun heq => hgone (heq ▸ hlinked)
    rw [ramFile, ramFile, Table.slot_set, if_neg hne]

lemma SizesAgree.change (h : SizesAgree v) (hstored : Stored v) (hchange : Change v op r) :
    SizesAgree r.2 := by
  cases hchange with
  | refuse | clearLink | clearDirectory => exact h
  | clearFile _ hunused =>
    refine h.keep fun n hn f hf => .inr ⟨hn, ?_⟩
    rw [ramFile_set, if_neg (hstored.ne_unused hn hf hunused)]
  | createFile _ _ _ hunused =>
    refine h.keep fun n hn f hf => ?_
    obtain hold | hnew := mem_append.1 hn
    · refine .inr ⟨hold, ?_⟩
      rw [ramFile_set, if_neg (hstored.ne_unused hold hf hunused)]
    rw [mem_singleton.1 hnew] at hf ⊢
    obtain rfl := Option.some.inj hf
    rw [ramFile_set, if_pos rfl]
    exact .inl rfl
  | createLink =>
    refine h.keep fun n hn f hf => ?_
    obtain hold | hnew := mem_append.1 hn
    · exact .inr ⟨hold, rfl⟩
    · rw [mem_singleton.1 hnew] at hf ⊢
      obtain rfl := Option.some.inj hf
      exact .inl rfl
  | createDirectory =>
    refine h.keep fun n hn f hf => ?_
    obtain hold | hnew := mem_append.1 hn
    · exact .inr ⟨hold, rfl⟩
    · rw [mem_singleton.1 hnew] at hf
      cases hf
  | @truncate path p i k size hpath hat hfile hsize =>
    refine h.keep fun n hn f hf => ?_
    obtain ⟨m, hm, rfl⟩ := mem_map.1 hn
    split_ifs at hf ⊢ with hk
    · obtain rfl : k = f := Option.some.inj (hk.symm.trans hf)
      rw [ramFile_setFileSize, if_pos rfl]
      exact .inl rfl
    · have hne : f ≠ k := fun heq => hk (heq ▸ hf)
      rw [ramFile_setFileSize, if_neg hne]
      exact .inr ⟨hm, rfl⟩
  | moveLink _ _ hvacant hat _ hk hused htext =>
    have hm := hstored.moved_link hat hvacant hk hused htext
    exact h.keep fun n hn f hf => .inr ⟨hm.nodes ▸ hn, rfl⟩
  | moveFile _ _ hvacant hat hfile hlinks =>
    have hm := hstored.moved_file hat hvacant hfile hlinks
    refine h.keep fun n hn f hf => .inr ⟨hm.nodes ▸ hn, ?_⟩
    rw [ramFile_moveToFile]
    split <;> rfl
  | moveDirectory _ _ hvacant hat _ _ hk hused htext =>
    have hm := hstored.moved_directory hat hvacant hk hused htext
    exact h.keep fun n hn f hf => .inr ⟨hm.nodes ▸ hn, rfl⟩
  | @deleteFile path p i g hpath hat hfile =>
    refine h.keep fun n hn f hf => .inr ?_
    rw [nodes_freeUnlinked] at hn
    have hold : n ∈ v.nodes := by
      rw [removeNode, nodes_freeLink] at hn
      exact mem_of_mem_eraseIdx hn
    -- a file that still has a name is not cleared
    have hlinked : ((v.freeLink p).removeNode i).stillLinked f :=
      ⟨n, hn, (hstored.ofRamFile hold hf).type, hf⟩
    rw [ramFile_freeUnlinked hlinked, removeNode, ramFiles_freeLink]
    exact ⟨hold, rfl⟩
  | @deleteDirectory path p i hpath _ hat htype =>
    have hremoved := hstored.removed_directory hat htype
    refine h.keep fun n hn f hf => .inr ⟨?_, ?_⟩
    · rw [hremoved.nodes] at hn
      exact mem_of_mem_eraseIdx hn
    · rw [ramFile, removeNode, ramFiles_freeDirectory, ramFile]

/-! ## Writes -/

lemma ramFile_stored (k i f : ℕ) (bytes : List UInt8) (g : ℕ) :
    (v.stored k i f bytes).ramFile g =
      if g = f then storeBytes (v.ramFile f) (v.handle k).offset (bytes.take (v.stores k bytes))
      else v.ramFile g :=
  v.ramFiles.slot_set f _ g

lemma size_stored (k i f : ℕ) (bytes : List UInt8) :
    ((v.stored k i f bytes).ramFile f).size =
      max (v.ramFile f).size ((v.handle k).offset + v.stores k bytes) := by
  have hlen : (bytes.take (v.stores k bytes)).length = v.stores k bytes := by
    rw [length_take]
    exact min_eq_left (min_le_left _ _)
  rw [ramFile_stored, if_pos rfl, storeBytes, hlen]

/-- The node the handle points to gets the size of the file, the others keep theirs. -/
lemma nodeAt_stored (bytes : List UInt8) (hj : j < v.nodes.length) :
    (v.stored k i f bytes).nodeAt j = if i = j then
        { v.nodeAt j with base := .ramData f, size := ((v.stored k i f bytes).ramFile f).size }
      else v.nodeAt j := by
  have hnode : (v.stored k i f bytes).nodeAt j = _ := nodeAt_modify rfl hj
  rw [hnode, ramFile_stored, if_pos rfl]
  rfl

lemma sizesAgree_iff : SizesAgree v ↔ ∀ j < v.nodes.length, ∀ f,
    (v.nodeAt j).ramFile = some f → (v.nodeAt j).size = (v.ramFile f).size := by
  constructor
  · intro h j hj
    exact h _ (nodeAt_mem hj)
  intro h n hn
  obtain ⟨j, hj, rfl⟩ := getElem_of_mem hn
  rw [← nodeAt_eq_getElem hj]
  exact h j hj

/-- A write keeps the sizes exactly when the file has no other name or does not become longer. -/
lemma SizesAgree.stored_iff (h : SizesAgree v) (hfile : (v.nodeAt i).ramFile = some f)
    (bytes : List UInt8) : SizesAgree (v.stored k i f bytes) ↔
      v.OnlyName i f ∨ (v.handle k).offset + v.stores k bytes ≤ (v.ramFile f).size := by
  rw [sizesAgree_iff] at h ⊢
  have hlen : (v.stored k i f bytes).nodes.length = v.nodes.length := length_modify _ _ _
  rw [hlen]
  constructor
  · intro hafter
    by_contra hnot
    rw [not_or, OnlyName] at hnot
    obtain ⟨hother, hlonger⟩ := hnot
    push Not at hother
    obtain ⟨j, hj, hne, hname⟩ := hother
    have hsize := hafter j hj f (by rw [nodeAt_stored bytes hj, if_neg (Ne.symm hne), hname])
    rw [nodeAt_stored bytes hj, if_neg (Ne.symm hne), size_stored, h j hj f hname] at hsize
    omega
  · intro hcond j hj g hg
    rw [nodeAt_stored bytes hj] at hg ⊢
    split_ifs at hg ⊢ with hij
    · obtain rfl : f = g := Option.some.inj (hfile.symm.trans (hij ▸ hg))
      rfl
    by_cases hgf : g = f
    · subst hgf
      obtain honly | hshort := hcond
      · exact absurd hg (honly j hj (Ne.symm hij))
      · rw [size_stored, h j hj g hg, max_eq_left hshort]
    · rw [ramFile_stored, if_neg hgf]
      exact h j hj g hg

lemma SizesAgree.of_eq (h : SizesAgree v) (hnodes : v'.nodes = v.nodes)
    (hfiles : v'.ramFiles = v.ramFiles) : SizesAgree v' := by
  intro n hn f hf
  rw [ramFile, hfiles]
  exact h n (hnodes ▸ hn) f hf

/-- A call on a handle leaves the nodes and the files alone, or is a write that stores bytes. -/
lemma HandleChange.same_or_stored {out : Outside} {op : HandleOp} (h : HandleChange v out op v') :
    v'.nodes = v.nodes ∧ v'.ramFiles = v.ramFiles ∨
      ∃ id bytes k i f, op = .writeHandle id bytes ∧ v.handleFor id = some k ∧
        (v.handle k).node = some i ∧ (v.nodeAt i).ramFile = some f ∧ bytes ≠ [] ∧
        (v.handle k).offset < kMaxRamFileBytes ∧ v' = v.stored k i f bytes := by
  cases h with
  | stored hk hnode _ hfile hbytes hroom =>
    exact .inr ⟨_, _, _, _, _, rfl, hk, hnode, hfile, hbytes, hroom, rfl⟩
  | _ => exact .inl ⟨rfl, rfl⟩

/-- In a state in which the sizes agree, a call keeps them exactly under the condition. -/
lemma SizesAgree.step_iff (h : SizesAgree v) (hstored : Stored v) (op : VfsOp) :
    SizesAgree (v.step op) ↔ v.KeepsSizes op := by
  cases op with
  | change op => exact iff_of_true (h.change hstored (perform_change v op)) trivial
  | handle out op =>
    constructor
    · intro hafter
      cases op with
      | writeHandle id bytes =>
        intro k hk i hi f hf hbytes hroom
        have hof := hstored.ofRamFile (nodeAt_mem (lt_of_ramFile hf)) hf
        have hwrite := hstored.writeHandle_ram out bytes hk hi hof.type hf
        rw [if_neg (not_or.2 ⟨fun hlen => hbytes (length_eq_zero_iff.1 hlen),
          not_le.2 hroom⟩)] at hwrite
        have hstep : v.step (.handle out (.writeHandle id bytes)) = v.stored k i f bytes :=
          congrArg Prod.snd hwrite
        rw [hstep] at hafter
        exact (h.stored_iff hf bytes).1 hafter
      | _ => trivial
    · intro hcond
      obtain ⟨hnodes, hfiles⟩ | ⟨id, bytes, k, i, f, rfl, hk, hi, hf, hbytes, hroom, heq⟩ :=
        (onHandle_change v out op).same_or_stored
      · exact h.of_eq hnodes hfiles
      · have hstep : v.step (.handle out (.writeHandle id bytes)) = v.stored k i f bytes := heq
        rw [hstep]
        exact (h.stored_iff hf bytes).2 (hcond k hk i hi f hf hbytes hroom)

lemma sizesAgree_booted (registrations : List Registration) :
    SizesAgree (booted registrations) := by
  intro n hn f hf
  obtain ⟨text, -, hnone⟩ := (onlyRegistered_booted registrations).constant n hn
  rw [hnone] at hf
  cases hf

/-- In a reachable state whose sizes agree, a call keeps them exactly when it is not a write that
makes a file with another name longer; and they agree after every run all of whose calls are such.
-/
theorem node_sizes_agree_iff (v : Vfs) (op : VfsOp) (registrations : List Registration)
    (ops : List VfsOp) :
    (v.Reachable → v.SizesAgree → ((v.step op).SizesAgree ↔ v.KeepsSizes op)) ∧
    (Run.Allowed step KeepsSizes (booted registrations) ops →
      ((booted registrations).run ops).SizesAgree) := by
  refine ⟨fun hreachable h => h.step_iff hreachable.stored op, fun hops => ?_⟩
  have hboth : Stored ((booted registrations).run ops) ∧
      SizesAgree ((booted registrations).run ops) := by
    refine hops.foldl (P := fun w => Stored w ∧ SizesAgree w) (fun w op hw hop => ?_)
      ⟨(onlyRegistered_booted registrations).stored, sizesAgree_booted registrations⟩
    exact ⟨hw.1.step op, (hw.2.step_iff hw.1 op).2 hop⟩
  exact hboth.2

/-- Directories for the examples. -/
def scratch : List Registration := [.directory (.ascii "/") false, .directory (.ascii "/tmp") true]

/-- A file is made and linked, and made longer by truncation through the second name. -/
theorem node_sizes_agree_truncated :
    ((booted scratch).run [.change (.createRamFile (.ascii "/tmp/a")),
      .change (.linkRamFile (.ascii "/tmp/a") (.ascii "/tmp/b")),
      .change (.truncateRamFile (.ascii "/tmp/b") 7)]).SizesAgree :=
  (node_sizes_agree_iff {} (.handle default (.close 1)) scratch _).2
    ⟨trivial, trivial, trivial, trivial⟩

/-- After a write of three bytes through the first name, the node of the second still has size 0. -/
theorem linked_node_keeps_old_size :
    let v := (booted scratch).run [.change (.createRamFile (.ascii "/tmp/a")),
      .change (.linkRamFile (.ascii "/tmp/a") (.ascii "/tmp/b")),
      .handle default (.openPath (.ascii "/tmp/a")), .handle default (.writeHandle 1 [1, 2, 3])]
    v.find (.ascii "/tmp/b") = some 3 ∧ (v.nodeAt 3).ramFile = some 0 ∧ (v.nodeAt 3).size = 0 ∧
      (v.ramFile 0).size = 3 := by
  decide +kernel

end IanOS.Vfs
