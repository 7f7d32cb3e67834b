import IanOS.Fs.RamData

/-!
# RAM files refine byte arrays

Without deletes, and as long as the numbers of handles have not come round, every call answers as
the byte arrays do and leads to the state they lead to.
-/

namespace IanOS

open Function Table Option

/-- The calls considered: neither of the deletes, and no second owner of a handle. -/
def VfsOp.Plain : VfsOp → Prop
  | .change (.deleteRamFile _) | .change (.deleteRamDirectory _) => False
  | .handle _ (.retainHandle _) => False
  | _ => True

def VfsOp.isOpen : VfsOp → Bool
  | .handle _ (.openPath _) => true
  | _ => false

namespace Vfs

variable {v v' : Vfs} {out : Outside} {i k f id : ℕ} {p q : Path}

/-! ## The invariant -/

/-- What holds between calls, after `m` handles have been opened. -/
structure Sound (v : Vfs) (m : ℕ) : Prop where
  stored : Stored v
  denotes : ∀ k, v.OpenAt k → Denotes v k (v.fileOf k)
  single : ∀ k, v.OpenAt k → (v.handle k).refCount ≤ 1
  numbered : Numbered v m
  bounded : v.byteFiles.Bounded

section Steps

variable {m : ℕ} {F : ByteFiles} {op : VfsOp} {res : Bool × Vfs} {offset : ℕ}

lemma Sound.used (h : Sound v m) (hopen : v.OpenAt k) (hfile : v.fileOf k = .ram f) :
    v.FileInUse f := by
  have hd := h.denotes k hopen
  rw [hfile] at hd
  cases hd with
  | ram _ _ htype hram =>
    exact (h.stored.ofRamFile (nodeAt_mem (lt_of_type_ne_empty (by rw [htype]; decide))) hram).inUse

lemma byteFiles_eq (hnamed : v.named = F.named) (hbytes : v.bytesOf = F.bytes)
    (hhandles : v.openRamFile = F.handles) : v.byteFiles = F := by
  rw [byteFiles, hnamed, hbytes, hhandles]

/-- Only deletes can make a handle lose its file. -/
lemma steady_of_plain (hplain : op.Plain) : v.Steady op := by
  cases op with
  | change op => cases op <;> trivial
  | handle => trivial

lemma Sound.fileOf_change {op : NamespaceOp} (h : Sound v m) (hchange : Change v op res)
    (hplain : (VfsOp.change op).Plain) (hopen : v.OpenAt k) :
    Denotes res.2 k (v.fileOf k) ∧ res.2.fileOf k = v.fileOf k := by
  have hd := h.stored.denotes_change hchange (steady_of_plain hplain) hopen (h.denotes k hopen)
  exact ⟨hd, hd.fileOf⟩

lemma openAt_change_iff {op : NamespaceOp} (hchange : Change v op res) :
    res.2.OpenAt k ↔ v.OpenAt k := by
  refine ⟨openAt_change hchange, fun hopen => ?_⟩
  obtain ⟨offset, hhandle⟩ := handle_change hchange k
  refine ⟨count_handles_change hchange ▸ hopen.1, ?_⟩
  rw [← handle, hhandle]
  exact hopen.2

lemma Sound.openRamFile_change {op : NamespaceOp} (h : Sound v m) (hchange : Change v op res)
    (hplain : (VfsOp.change op).Plain)
    (hoff : ∀ l, (res.2.handle l).offset = (v.handle l).offset) :
    res.2.openRamFile = v.openRamFile := by
  funext id
  refine h.numbered.openRamFile_congr (h.numbered.change hchange) (fun l => ?_) fun l hopen _ => ?_
  · obtain ⟨offset, hhandle⟩ := handle_change hchange l
    rw [openAt_change_iff hchange, hhandle]
  · rw [hoff, (h.fileOf_change hchange hplain hopen).2]

/-! ## Calls that change the namespace -/

lemma Stored.writableRamFile_eq (h : Stored v) (path : Path) :
    (v.find path).bind (fun i => (v.nodeAt i).writableRamFile) =
    (normalizePath path).bind v.named := by
  rw [find]
  cases hpath : normalizePath path with
  | none => rfl
  | some p =>
    rw [bind_some, bind_some, named]
    cases hfind : v.findNormalized p with
    | none => rfl
    | some i =>
      rw [bind_some, bind_some, Node.writableRamFile]
      cases hram : (v.nodeAt i).ramFile with
      | none => exact ite_self none
      | some f =>
        have hof := h.ofRamFile (nodeAt_mem (findIdx?_nodes hfind).1) hram
        rw [if_pos]
        exact ⟨hof.type, hof.writable, by simp [hof.notDisk]⟩

lemma Stored.truncateRamFile_eq (h : Stored v) (path : Path) (size : ℕ) :
    v.truncateRamFile path size = if kMaxRamFileBytes < size then (false, v) else
        match (normalizePath path).bind v.named with
        | none => (false, v)
        | some f => (true, v.setFileSize f size) := by
  rw [truncateRamFile, truncateRamFileThen]
  cases hpath : normalizePath path with
  | none => simp
  | some p =>
    have hp := canonical_of_normalizePath hpath
    have hfile := h.writableRamFile_eq p
    rw [hp, bind_some] at hfile
    rw [bind_some]
    exact hfile ▸ rfl

lemma Sound.onRamFile_iff (h : Sound v m) (hopen : v.OpenAt k) :
    v.onRamFile f (v.handle k) ↔ v.fileOf k = .ram f := by
  have hd := h.denotes k hopen
  constructor
  · rintro ⟨-, i, hnode, hram⟩
    generalize v.fileOf k = file at hd
    have hother (htype : (v.nodeAt i).type ≠ .empty) (hmemory : (v.nodeAt i).type ≠ .memoryFile) :
        False := by
      rw [h.stored.ramFile_eq_none (nodeAt_mem (lt_of_type_ne_empty htype)) hmemory] at hram
      cases hram
    cases hd with
    | generated _ hnone =>
      rw [hnone] at hnode
      cases hnode
    | @ram j g _ hj _ hg =>
      obtain rfl : j = i := some.inj (hj.symm.trans hnode)
      rw [some.inj (hg.symm.trans hram)]
    | @memory j _ hj _ hnone =>
      obtain rfl : j = i := some.inj (hj.symm.trans hnode)
      rw [hnone] at hram
      cases hram
    | @device j _ hj htype | @text j _ hj htype =>
      obtain rfl : j = i := some.inj (hj.symm.trans hnode)
      exact (hother (by rw [htype]; decide) (by rw [htype]; decide)).elim
  · intro hfile
    rw [hfile] at hd
    cases hd with
    | @ram i g _ hnode _ hram => exact ⟨hopen.2, i, hnode, hram⟩

lemma Sound.byteFiles_setFileSize {op : NamespaceOp} {size : ℕ} (h : Sound v m)
    (hchange : Change v op (true, v.setFileSize f size)) (hplain : (VfsOp.change op).Plain)
    (hused : (v.ramFile f).used) :
    (v.setFileSize f size).byteFiles = v.byteFiles.truncate f size := by
  refine byteFiles_eq (h.stored.named_kept kept_setFileSize) (bytesOf_setFileSize hused) ?_
  funext id
  have hfor : (v.setFileSize f size).handleFor id = v.handleFor id := by
    apply ext
    intro l
    have hnum : Numbered (v.setFileSize f size) m := h.numbered.change hchange
    obtain ⟨offset, hhandle⟩ := handle_change hchange l
    have hopen : (v.setFileSize f size).OpenAt l ↔ v.OpenAt l := openAt_change_iff hchange
    have hid : ((v.setFileSize f size).handle l).id = (v.handle l).id := by rw [hhandle]
    rw [hnum.handleFor_iff, h.numbered.handleFor_iff, hopen, hid]
  rw [openRamFile, hfor, ByteFiles.truncate, byteFiles]
  dsimp only
  rw [openRamFile]
  cases hl : v.handleFor id with
  | none => rfl
  | some l =>
    have hopen := openAt_of_handleFor hl
    have hfileOf : (v.setFileSize f size).fileOf l = v.fileOf l :=
      (h.fileOf_change hchange hplain hopen).2
    have hoff : ((v.setFileSize f size).handle l).offset =
        if v.fileOf l = .ram f then min (v.handle l).offset size else (v.handle l).offset := by
      have hslot : (v.setFileSize f size).handle l =
          if v.onRamFile f (v.handle l) ∧ size < (v.handle l).offset then
            { v.handle l with offset := size }
          else v.handle l := rfl
      rw [hslot]
      by_cases hclip : v.onRamFile f (v.handle l) ∧ size < (v.handle l).offset
      · rw [if_pos hclip, if_pos ((h.onRamFile_iff hopen).1 hclip.1), min_eq_right hclip.2.le]
      split_ifs with hfile
      · have hle : ¬size < (v.handle l).offset := fun hlt =>
          hclip ⟨(h.onRamFile_iff hopen).2 hfile, hlt⟩
        rw [min_eq_left (not_lt.1 hle)]
      · rfl
    rw [bind_some, bind_some, hfileOf, hoff]
    cases v.fileOf l <;> simp [atOffset]

lemma step_of_eq {F' : ByteFiles} {a : Answer} (hstep : F.Step op a F') (h : v.byteFiles = F') :
    F.Step op a v.byteFiles := by
  rwa [h]

section

variable (h : Sound v m)
include h

lemma Sound.named_ne (hunused : ¬(v.ramFile k).used) (q : Path) : v.named q ≠ some k := by
  intro hq
  obtain ⟨i, hi, -, hram⟩ := h.stored.named_eq_some.1 hq
  exact hunused (h.stored.ofRamFile (nodeAt_mem hi) hram).inUse.2

/-- No handle is open on a record that is not in use. -/
lemma Sound.openRamFile_ne (hunused : ¬(v.ramFile k).used) (id offset : ℕ) :
    v.openRamFile id ≠ some (k, offset) := by
  intro hid
  obtain ⟨l, hl, hfile, -⟩ := openRamFile_eq_some.1 hid
  exact hunused (h.used (openAt_of_handleFor hl) hfile).2

lemma Sound.step_change {op : NamespaceOp} (hchange : Change v op res)
    (hplain : (VfsOp.change op).Plain) (hop : ∀ path size, op ≠ .truncateRamFile path size) :
    v.byteFiles.Step (.change op) (.accepted res.1) res.2.byteFiles := by
  have hstored := h.stored
  -- only truncating touches offsets
  have hhandles : res.2.openRamFile = v.openRamFile := by
    refine h.openRamFile_change hchange hplain fun l => ?_
    cases hchange with
    | truncate => exact absurd rfl (hop _ _)
    | deleteFile | deleteDirectory => exact hplain.elim
    | _ => rfl
  cases hchange with
  | refuse => exact .refuse hop
  | clearFile _ hunused =>
    refine step_of_eq (.refuse hop) (byteFiles_eq ?_ ?_ hhandles)
    · exact hstored.named_kept (hstored.kept_clear_file hunused)
    · refine (bytesOf_set v _ {} rfl).trans (update_eq_self_iff.2 ?_)
      exact (if_neg hunused).symm
  | clearLink _ hunused =>
    exact step_of_eq (.refuse hop)
      (byteFiles_eq (hstored.named_kept (hstored.kept_clear_link hunused)) rfl hhandles)
  | clearDirectory _ hunused =>
    exact step_of_eq (.refuse hop)
      (byteFiles_eq (hstored.named_kept (hstored.kept_clear_directory hunused)) rfl hhandles)
  | @createFile path p k hpath hvacant hk hunused =>
    have hadded := hstored.added_file hvacant hk hunused
    refine step_of_eq (.create hpath hvacant.named_eq_none (h.named_ne hunused)
      (h.openRamFile_ne hunused)) (byteFiles_eq ?_ ?_ hhandles)
    · exact hstored.named_added hadded (congrArg RamFile.path (slot_set_self _ _ _))
    · exact bytesOf_set v k { used := true, path := p } rfl
  | @createLink existing path p q i k f hexist hpath hvacant hsrc hfile hk hunused =>
    have hram := writableRamFile_eq_some hfile
    refine step_of_eq (.link hexist hpath hvacant.named_eq_none
      ((hstored.named_of_standsAt hsrc).trans hram)) (byteFiles_eq ?_ rfl hhandles)
    exact hstored.named_added
      (hstored.added_link hvacant hk hunused (hstored.sourceInUse hsrc hfile))
      (congrArg RamLink.path (slot_set_self _ _ _))
  | @createDirectory path p k hpath hvacant hk hunused =>
    have hadded := hstored.added_directory hvacant hk hunused
    refine step_of_eq .createDirectory (byteFiles_eq ?_ rfl hhandles)
    refine (hstored.named_added hadded (congrArg RamDirectory.path (slot_set_self _ _ _))).trans ?_
    exact update_eq_self_iff.2 hvacant.named_eq_none.symm
  | truncate => exact absurd rfl (hop _ _)
  | @moveLink old new p q i k f hold hnew hvacant hat hfile hk hused htext =>
    have hm := hstored.moved_link hat hvacant hk hused htext
    refine step_of_eq (.rename hold hnew hvacant.named_eq_none
      ((hstored.named_of_standsAt hat).trans hfile)) (byteFiles_eq ?_ rfl hhandles)
    rw [hstored.named_moved hm text_moveToLink, hfile]
    rfl
  | @moveFile old new p q i f hold hnew hvacant hat hfile hlinks htext =>
    have hm := hstored.moved_file hat hvacant hfile hlinks
    refine step_of_eq (.rename hold hnew hvacant.named_eq_none
      ((hstored.named_of_standsAt hat).trans hfile)) (byteFiles_eq ?_ ?_ hhandles)
    · rw [hstored.named_moved hm text_moveToFile, hfile]
      rfl
    · exact (bytesOf_set v f { v.ramFile f with path := q } rfl).trans (update_eq_self_iff.2 rfl)
  | @moveDirectory old new p q i k hold hnew hvacant hat htype hchildren hk hused htext =>
    have hm := hstored.moved_directory hat hvacant hk hused htext
    have hnone : (v.nodeAt i).ramFile = none :=
      hstored.ramFile_eq_none (nodeAt_mem hat.lt) (by rw [htype]; decide)
    have hp : v.named p = none := (hstored.named_of_standsAt hat).trans hnone
    refine step_of_eq (.renameDirectory hold hp) (byteFiles_eq ?_ rfl hhandles)
    have hsame : update v.named p none = v.named := update_eq_self_iff.2 hp.symm
    rw [hstored.named_moved hm text_moveToDirectory, hnone, hsame]
    exact update_eq_self_iff.2 hvacant.named_eq_none.symm
  | deleteFile | deleteDirectory => exact hplain.elim

lemma Sound.step_truncate (path : Path) (size : ℕ) :
    v.byteFiles.Step (.change (.truncateRamFile path size))
      (.accepted (v.truncateRamFile path size).1) (v.truncateRamFile path size).2.byteFiles := by
  have hchange := perform_change v (.truncateRamFile path size)
  rw [perform, h.stored.truncateRamFile_eq path size] at hchange
  rw [h.stored.truncateRamFile_eq path size]
  split_ifs at hchange ⊢ with hsize
  · exact .truncateRefused (.inl hsize)
  cases hfile : (normalizePath path).bind v.named with
  | none =>
    refine .truncateRefused (.inr fun p f hp hf => ?_)
    rw [hp] at hfile
    exact absurd (hf.symm.trans hfile) (some_ne_none f)
  | some f =>
    rw [hfile] at hchange
    obtain ⟨p, hp, hf⟩ := bind_eq_some_iff.1 hfile
    obtain ⟨i, hi, -, hram⟩ := h.stored.named_eq_some.1 hf
    have hused := (h.stored.ofRamFile (nodeAt_mem hi) hram).inUse.2
    exact step_of_eq (.truncate hp hf (not_lt.1 hsize))
      (h.byteFiles_setFileSize hchange trivial hused)

/-! ## Calls on handles -/

lemma Sound.openRamFile_setOffset {op : HandleOp}
    (hchange : HandleChange v out op v') (hnext : v'.nextHandleId = v.nextHandleId)
    (hhandles : v'.handles = v.handles.modify k fun x => { x with offset := offset })
    (hopen : v.OpenAt k) :
    v'.openRamFile = update v.openRamFile (v.handle k).id (atOffset offset (v.fileOf k)) := by
  have hslot (l : ℕ) : v'.handle l =
      if l = k then { v.handle l with offset := offset } else v.handle l := by
    rw [handle, hhandles]
    exact slot_modify _ _ _ _
  have hopen_iff (l : ℕ) : v'.OpenAt l ↔ v.OpenAt l := by
    rw [OpenAt, Table.InUse, ← handle, hslot, hhandles]
    split_ifs <;> rfl
  have hfile (l : ℕ) (hl : v.OpenAt l) : v'.fileOf l = v.fileOf l := by
    refine (denotes_onHandle hchange ⟨(v'.handle l).offset, (v.handle l).refCount, ?_⟩
      (h.denotes l hl)).fileOf
    rw [hslot]
    split_ifs <;> rfl
  have hnum : Numbered v' m :=
    h.numbered.of_modify hnext hhandles fun a => ⟨offset, a.refCount, rfl⟩
  have hself := hslot k
  rw [if_pos rfl] at hself
  have hupdate := h.numbered.openRamFile_update hnum ((hopen_iff k).2 hopen)
    (fun _ => by rw [hself]) (fun l _ => hopen_iff l) fun l hlk hl => by
      rw [hslot l, if_neg hlk]
      exact ⟨rfl, rfl, hfile l hl⟩
  rwa [hself, hfile k hopen] at hupdate

/-- The RAM file behind a number that stands for one. -/
lemma Sound.ram_of_openRamFile (hid : v.openRamFile id = some (f, offset)) :
    ∃ k i, v.handleFor id = some k ∧ v.OpenAt k ∧ (v.handle k).id = id ∧ v.fileOf k = .ram f ∧
      (v.handle k).offset = offset ∧ (v.handle k).dynamicVirtual = false ∧
      (v.handle k).node = some i ∧ (v.nodeAt i).type = .memoryFile ∧
      (v.nodeAt i).ramFile = some f ∧ (v.ramFile f).used := by
  obtain ⟨k, hfor, hfile, hoff⟩ := openRamFile_eq_some.1 hid
  have hopen := openAt_of_handleFor hfor
  have hused := h.used hopen hfile
  have hd := h.denotes k hopen
  rw [hfile] at hd
  cases hd with
  | @ram i _ hdyn hnode htype hram =>
    exact ⟨k, i, hfor, hopen, (h.numbered.handleFor_iff.1 hfor).2, hfile, hoff, hdyn,
      hnode, htype, hram, hused.2⟩

lemma Sound.step_read (hid : v.openRamFile id = some (f, offset)) (out : Outside)
    (size : ℕ) :
    v.byteFiles.Step (.handle out (.readHandle id size)) (.bytes (v.readHandle out id size).1)
      (v.readHandle out id size).2.byteFiles := by
  obtain ⟨k, i, hfor, hopen, rfl, hfile, rfl, hdyn, hnode, htype, hram, hused⟩ :=
    h.ram_of_openRamFile hid
  have hchange : HandleChange v out _ (v.readHandle out (v.handle k).id size).2 :=
    readHandle_change _ _
  have hread := readHandle_ram out size hfor hdyn hnode htype hram
  have hcont : v.contents out (.ram f) = v.bytesOf f := (bytesOf_of_used hused).symm
  rw [hcont] at hread
  rw [hread] at hchange ⊢
  refine step_of_eq (.read size hid) (byteFiles_eq rfl rfl ?_)
  rw [h.openRamFile_setOffset hchange rfl rfl hopen, hfile]
  rfl

end

lemma overwritten_nil (bytes : List UInt8) (offset : ℕ) :
    ByteFiles.overwritten bytes offset [] = bytes := by
  rw [ByteFiles.overwritten, List.append_nil, List.length_nil, Nat.add_zero, List.take_append_drop]

lemma Sound.step_write (h : Sound v m) (hid : v.openRamFile id = some (f, offset)) (out : Outside)
    (bytes : List UInt8) :
    v.byteFiles.Step (.handle out (.writeHandle id bytes)) (.number (v.writeHandle out id bytes).1)
      (v.writeHandle out id bytes).2.byteFiles := by
  obtain ⟨k, i, hfor, hopen, rfl, hfile, rfl, -, hnode, htype, hram, hused⟩ :=
    h.ram_of_openRamFile hid
  have hchange : HandleChange v out _ (v.writeHandle out (v.handle k).id bytes).2 :=
    writeHandle_change _ _
  have hoff : (v.handle k).offset ≤ (v.ramFile f).size := by
    rw [← length_bytesOf hused]
    exact h.bounded.handles _ f _ hid
  rw [h.stored.writeHandle_ram out bytes hfor hnode htype hram] at hchange ⊢
  split_ifs at hchange ⊢
  · refine step_of_eq (.write hid (by dsimp only; omega)) (byteFiles_eq rfl ?_ ?_)
    · rw [List.take_zero, overwritten_nil]
      exact (update_eq_self _ _).symm
    · exact (update_eq_self_iff.2 hid.symm).symm
  · refine step_of_eq (.write hid rfl) (byteFiles_eq ?_ ?_ ?_)
    · exact h.stored.named_kept (kept_stored k i f bytes)
    · exact bytesOf_stored hused hoff
    · rw [h.openRamFile_setOffset hchange rfl rfl hopen, hfile]
      rfl

lemma Sound.step_seek (h : Sound v m) (hid : v.openRamFile id = some (f, offset)) (out : Outside)
    (target : ℕ) :
    v.byteFiles.Step (.handle out (.seekHandle id target))
      (.accepted (v.seekHandle out id target).1) (v.seekHandle out id target).2.byteFiles := by
  obtain ⟨k, i, hfor, hopen, rfl, hfile, rfl, -, -, -, -, hused⟩ := h.ram_of_openRamFile hid
  have hchange : HandleChange v out _ (v.seekHandle out (v.handle k).id target).2 :=
    seekHandle_change _ _
  obtain ⟨hcases, hiff⟩ := (h.stored.actsOn (h.denotes k hopen) hfor).seek out target
  have hextent := hiff (v.ramFile f).size (by rw [hfile]; rfl)
  rw [← length_bytesOf hused] at hextent
  obtain hseek | hseek := hcases
  · rw [hseek] at hextent ⊢
    exact .seekRefused hid (not_le.1 fun hle => Bool.false_ne_true (hextent.2 hle))
  rw [hseek] at hextent hchange ⊢
  refine step_of_eq (.seek hid (hextent.1 rfl)) (byteFiles_eq rfl rfl ?_)
  rw [h.openRamFile_setOffset hchange rfl rfl hopen, hfile]
  rfl

/-- A handle has one owner, so closing it gives its entry back. -/
lemma Sound.close_eq (h : Sound v m) (hfor : v.handleFor id = some k) :
    v.close id = (true, v.closeHandle k) := by
  have hsingle := h.single k (openAt_of_handleFor hfor)
  rw [close, hfor]
  dsimp only
  rw [if_neg (not_lt.2 hsingle)]
  rfl

lemma Sound.step_close (h : Sound v m) (hid : v.openRamFile id = some (f, offset)) (out : Outside) :
    v.byteFiles.Step (.handle out (.close id)) (.accepted (v.close id).1)
      (v.close id).2.byteFiles := by
  obtain ⟨k, i, hfor, hopen, rfl, -⟩ := h.ram_of_openRamFile hid
  rw [h.close_eq hfor]
  refine step_of_eq (.close hid) (byteFiles_eq rfl rfl ?_)
  exact h.numbered.openRamFile_closeHandle (h.numbered.closeHandle k) hopen

lemma Sound.step_elsewhere {op : HandleOp} (h : Sound v m) (hplain : (VfsOp.handle out op).Plain)
    (hop : op.number = some id) (hid : v.openRamFile id = none) (a : Answer) :
    v.byteFiles.Step (.handle out op) a (v.onHandle out op).byteFiles := by
  refine step_of_eq (.elsewhere a hop hid) ?_
  have hchange := onHandle_change v out op
  generalize v.onHandle out op = v' at hchange
  have hnone {k : ℕ} (hfor : v.handleFor id = some k) :
      v.OpenAt k ∧ (v.handle k).id = id ∧ ∀ offset, atOffset offset (v.fileOf k) = none := by
    obtain ⟨hopen, hk⟩ := h.numbered.handleFor_iff.1 hfor
    refine ⟨hopen, hk, fun offset => ?_⟩
    have heq := h.numbered.openRamFile_eq hopen
    rw [hk, hid] at heq
    cases hfile : v.fileOf k with
    | ram f =>
      rw [hfile] at heq
      cases heq
    | _ => rfl
  have hsame := hchange
  cases hchange with
  | refuse => rfl
  | opened => cases hop
  | @sought _ id' k offset hop' hk hfits =>
    obtain rfl : id' = id := some.inj (hop'.symm.trans hop)
    obtain ⟨hopen, hk', hfile⟩ := hnone hk
    refine byteFiles_eq rfl rfl ?_
    rw [h.openRamFile_setOffset hsame rfl rfl hopen, hfile, hk']
    exact update_eq_self_iff.2 hid.symm
  | @stored id' k i f bytes hk hnode htype hram =>
    obtain rfl : id' = id := some.inj hop
    obtain ⟨hopen, -, hfile⟩ := hnone hk
    have hon := (h.onRamFile_iff hopen).1 ⟨hopen.2, i, hnode, hram⟩
    rw [hon] at hfile
    cases hfile 0
  | retained => exact hplain.elim
  | released hk hmany =>
    have hsingle := h.single _ (openAt_of_handleFor hk)
    omega
  | @closed id' k hk =>
    obtain rfl : id' = id := some.inj hop
    obtain ⟨hopen, hk', -⟩ := hnone hk
    refine byteFiles_eq rfl rfl ?_
    rw [h.numbered.openRamFile_closeHandle (h.numbered.closeHandle k) hopen, hk']
    exact update_eq_self_iff.2 hid.symm

lemma Stored.atOffset_fileAt {path : Path} {node : Option ℕ} {dynamicVirtual : Bool} (h : Stored v)
    (hopens : Opens v out path node dynamicVirtual p) :
    normalizePath path = some p ∧ atOffset 0 (v.fileAt path) = (v.named p).map fun f => (f, 0) := by
  cases hopens with
  | @node p i hpath hat htype =>
    refine ⟨hpath, ?_⟩
    rw [fileAt, h.distinct.find_eq hpath hat, h.named_of_standsAt hat]
    dsimp only
    rw [Node.file]
    have hnone (hmemory : (v.nodeAt i).type ≠ .memoryFile) :=
      h.ramFile_eq_none (nodeAt_mem hat.lt) hmemory
    obtain htype | htype | htype := htype
    · rw [htype]
      cases (v.nodeAt i).ramFile <;> rfl
    · rw [hnone (by rw [htype]; decide), htype]
      rfl
    · rw [hnone (by rw [htype]; decide), htype]
      rfl
  | @generated p hpath hfree hsize =>
    refine ⟨hpath, ?_⟩
    rw [fileAt, find, hpath, bind_some, named, hfree]
    rfl

section

variable (h : Sound v m)
include h

lemma Sound.step_open (hm : m + 1 < 2 ^ 32) (out : Outside) (path : Path) :
    v.byteFiles.Step (.handle out (.openPath path)) (.number (v.openPath out path).1)
      (v.openPath out path).2.byteFiles := by
  obtain hopen | ⟨k, node, dynamicVirtual, p, hk, hunused, hopens, hopen⟩ :=
    openPath_cases v out path
  · rw [hopen]
    exact .openRefused
  obtain ⟨hnum, hnumber⟩ := h.numbered.putHandle hm k node dynamicVirtual p
  obtain ⟨hpath, hfile⟩ := h.stored.atOffset_fileAt hopens
  have hself : (v.putHandle k node dynamicVirtual p).handle k = _ := slot_set_self _ _ _
  have hslot (l : ℕ) (hlk : l ≠ k) : (v.putHandle k node dynamicVirtual p).handle l = v.handle l :=
    (slot_set _ _ _ _).trans (if_neg hlk)
  have hfileOf : (v.putHandle k node dynamicVirtual p).fileOf k = v.fileAt path :=
    (h.stored.denotes_putHandle hopens).fileOf
  have hnew : v.openRamFile (m + 1) = none := by
    rw [openRamFile, bind_eq_none_iff]
    intro l hl
    obtain ⟨hlopen, hlid⟩ := h.numbered.handleFor_iff.1 hl
    have := h.numbered.range l hlopen
    omega
  rw [hopen, hnumber]
  refine step_of_eq (.opened hpath (Nat.succ_ne_zero m) hnew) (byteFiles_eq rfl rfl ?_)
  have hupdate := h.numbered.openRamFile_update hnum ⟨hk, by rw [← handle, hself]⟩
    (fun hold => absurd hold.2 hunused)
    (fun l hlk => by rw [OpenAt, Table.InUse, ← handle, hslot l hlk]; rfl)
    fun l hlk _ => by
      rw [fileOf, hslot l hlk]
      exact ⟨rfl, rfl, rfl⟩
  rw [hfileOf, hself, hnumber] at hupdate
  rwa [hfile] at hupdate

/-! ## Runs -/

lemma Sound.step_byteFiles (hplain : op.Plain) (hm : op.isOpen → m + 1 < 2 ^ 32) :
    v.byteFiles.Step op (v.answer op) (v.step op).byteFiles := by
  -- a call on a number concerns a RAM file or something else
  have hcall {out : Outside} {op : HandleOp} {id : ℕ} (hplain : (VfsOp.handle out op).Plain)
      (hop : op.number = some id)
      (hram : ∀ f offset, v.openRamFile id = some (f, offset) →
        v.byteFiles.Step (.handle out op) (v.answer (.handle out op))
          (v.onHandle out op).byteFiles) :
      v.byteFiles.Step (.handle out op) (v.answer (.handle out op))
        (v.onHandle out op).byteFiles := by
    cases hid : v.openRamFile id with
    | none => exact h.step_elsewhere hplain hop hid _
    | some file => exact hram file.1 file.2 hid
  cases op with
  | change op =>
    by_cases htruncate : ∃ path size, op = .truncateRamFile path size
    · obtain ⟨path, size, rfl⟩ := htruncate
      exact h.step_truncate path size
    · push Not at htruncate
      exact h.step_change (perform_change v op) hplain htruncate
  | handle out op =>
    cases op with
    | openPath => exact h.step_open (hm rfl) out _
    | readHandle id size => exact hcall hplain rfl fun f offset hid => h.step_read hid out size
    | writeHandle id bytes => exact hcall hplain rfl fun f offset hid => h.step_write hid out bytes
    | seekHandle id target => exact hcall hplain rfl fun f offset hid => h.step_seek hid out target
    | retainHandle => exact hplain.elim
    | close id => exact hcall hplain rfl fun f offset hid => h.step_close hid out

/-- A handle keeps its one owner. -/
lemma Sound.single_step (hplain : op.Plain) (hopen : (v.step op).OpenAt k) :
    ((v.step op).handle k).refCount ≤ 1 := by
  cases op with
  | change op =>
    have hchange := perform_change v op
    obtain ⟨offset, hhandle⟩ := handle_change hchange k
    rw [step, hhandle]
    exact h.single k (openAt_change hchange hopen)
  | handle out op =>
    rw [step] at hopen ⊢
    have hchange := onHandle_change v out op
    generalize v.onHandle out op = v' at hchange hopen
    have hmodify {l o : ℕ} {w : Vfs}
        (hw : w.handles = v.handles.modify l fun x => { x with offset := o }) (hk : w.OpenAt k) :
        (w.handle k).refCount ≤ 1 := by
      have hold := (openAt_modify hw (fun a => ⟨o, a.refCount, rfl⟩) hk).1
      rw [handle, hw, slot_modify]
      split_ifs
      · exact h.single k hold
      · exact h.single k hold
    cases hchange with
    | refuse => exact h.single k hopen
    | @opened _ _ l =>
      by_cases hkl : k = l
      · subst hkl
        exact (congrArg FileHandle.refCount (slot_set_self _ _ _)).le
      · obtain ⟨hold, hslot⟩ := openAt_set rfl hopen hkl
        rw [hslot]
        exact h.single k hold
    | sought | stored => exact hmodify rfl hopen
    | retained => exact hplain.elim
    | released hk hmany =>
      have hsingle := h.single _ (openAt_of_handleFor hk)
      omega
    | closed =>
      obtain ⟨hold, hslot⟩ := openAt_set rfl hopen (ne_of_openAt_closeHandle hopen)
      rw [hslot]
      exact h.single k hold

lemma Sound.denotes_step (hplain : op.Plain) (hopen : (v.step op).OpenAt k) :
    Denotes (v.step op) k ((v.step op).fileOf k) := by
  have hfaithful : (⟨v, v.fileOf⟩ : Traced).Faithful := ⟨h.stored, h.denotes⟩
  have hd := (hfaithful.step (steady_of_plain hplain)).denotes k hopen
  rwa [← hd.fileOf] at hd

lemma Sound.step (hplain : op.Plain) (hm : op.isOpen → m + 1 < 2 ^ 32) :
    Sound (v.step op) m ∨ op.isOpen ∧ Sound (v.step op) (m + 1) := by
  have hsound (m' : ℕ) (hnum : Numbered (v.step op) m') : Sound (v.step op) m' :=
    ⟨h.stored.step op, fun k hk => h.denotes_step hplain hk, fun k hk => h.single_step hplain hk,
      hnum, h.bounded.step (h.step_byteFiles hplain hm)⟩
  cases op with
  | change => exact .inl (hsound m (h.numbered.change (perform_change v _)))
  | handle out op =>
    have hm' : (∃ path, op = .openPath path) → m + 1 < 2 ^ 32 := by
      rintro ⟨path, rfl⟩
      exact hm rfl
    obtain hnum | ⟨⟨path, rfl⟩, hnum⟩ :=
      h.numbered.onHandle (onHandle_change v out op) hm'
    · exact .inl (hsound m hnum)
    · exact .inr ⟨rfl, hsound _ hnum⟩

lemma Sound.run {ops : List VfsOp} (hplain : ∀ op ∈ ops, op.Plain)
    (hopens : m + ops.countP VfsOp.isOpen < 2 ^ 32) :
    ByteFiles.Run v.byteFiles ops (v.answers ops) (v.run ops).byteFiles ∧
      (v.run ops).byteFiles.Bounded := by
  induction ops generalizing v m with
  | nil => exact ⟨.nil _, h.bounded⟩
  | cons op ops ih =>
    rw [List.forall_mem_cons] at hplain
    rw [List.countP_cons] at hopens
    have hm (hop : op.isOpen) : m + 1 < 2 ^ 32 := by
      rw [if_pos hop] at hopens
      omega
    have hstep := h.step_byteFiles hplain.1 hm
    obtain hsound | ⟨hop, hsound⟩ := h.step hplain.1 hm
    · obtain ⟨hrun, hbound⟩ := ih hsound hplain.2 (by omega)
      exact ⟨.cons hstep hrun, hbound⟩
    · rw [if_pos hop] at hopens
      obtain ⟨hrun, hbound⟩ := ih hsound hplain.2 (by omega)
      exact ⟨.cons hstep hrun, hbound⟩

end

end Steps

lemma OnlyRegistered.byteFiles (h : OnlyRegistered v) : v.byteFiles = .empty := by
  have hstored := h.stored
  obtain ⟨hconstant, -, nodes, rfl⟩ := h
  refine byteFiles_eq ?_ (funext fun f => rfl) ?_
  · funext p
    apply eq_none_iff_forall_ne_some.2
    intro f hf
    obtain ⟨i, hi, -, hram⟩ := hstored.named_eq_some.1 hf
    obtain ⟨text, -, hnone⟩ := hconstant _ (nodeAt_mem hi)
    rw [hnone] at hram
    cases hram
  · funext id
    refine bind_eq_none_iff.2 fun k hk => ?_
    exact (nomatch (openAt_of_handleFor hk).2)

lemma sound_booted (registrations : List Registration) : Sound (booted registrations) 0 := by
  have h := onlyRegistered_booted registrations
  have hclosed (k : ℕ) : ¬(booted registrations).OpenAt k := by
    obtain ⟨-, -, nodes, hv⟩ := h
    rw [hv]
    exact fun hk => (nomatch hk.2)
  have hnext : (booted registrations).nextHandleId = 1 := by
    obtain ⟨-, -, nodes, hv⟩ := h
    rw [hv]
  refine ⟨h.stored, fun k hk => absurd hk (hclosed k), fun k hk => absurd hk (hclosed k),
    ⟨hnext, fun k hk => absurd hk (hclosed k), fun k l hk => absurd hk (hclosed k)⟩, ?_⟩
  rw [h.byteFiles]
  exact ⟨fun f => Nat.zero_le _, fun id f offset hid => (nomatch hid)⟩

/-- From `initialize` on, every sequence of calls without deletes and with fewer than `2 ^ 32` opens
is answered as the byte arrays answer it and leads to the state they lead to, in which no array is
longer than 4096 bytes and no offset lies behind the end of its array. -/
theorem ram_files_refine_arrays (registrations : List Registration) (ops : List VfsOp)
    (hplain : ∀ op ∈ ops, op.Plain) (hopens : ops.countP VfsOp.isOpen < 2 ^ 32) :
    ByteFiles.Run .empty ops ((booted registrations).answers ops)
        ((booted registrations).run ops).byteFiles ∧
      ((booted registrations).run ops).byteFiles.Bounded := by
  have hrun := (sound_booted registrations).run hplain (by rwa [Nat.zero_add])
  rwa [(onlyRegistered_booted registrations).byteFiles] at hrun

/-- A file is written through one of its names, grows through the other, and is read back. -/
theorem ram_files_refine_arrays_shared :
    let ops : List VfsOp :=
      [.change (.createRamFile (.ascii "/tmp/a")),
        .change (.linkRamFile (.ascii "/tmp/a") (.ascii "/tmp/b")),
        .handle default (.openPath (.ascii "/tmp/b")), .handle default (.writeHandle 1 [104, 105]),
        .change (.truncateRamFile (.ascii "/tmp/a") 3), .handle default (.seekHandle 1 0),
        .handle default (.readHandle 1 8)]
    let v := booted twoDirectories
    v.answers ops = [.accepted true, .accepted true, .number 1, .number 2, .accepted true,
        .accepted true, .bytes [104, 105, 0]] ∧
      ByteFiles.Run .empty ops (v.answers ops) (v.run ops).byteFiles ∧
        (v.run ops).byteFiles.Bounded := by
  intro ops v
  refine ⟨by decide +kernel, ram_files_refine_arrays twoDirectories ops ?_ (by decide +kernel)⟩
  simp [ops, VfsOp.Plain]

end Vfs
end IanOS
