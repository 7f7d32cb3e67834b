import IanOS.Fs.ByteFiles
import IanOS.Fs.Entries
import IanOS.Fs.HandleIds

/-!
# The byte arrays in a state

`byteFiles` reads arrays, names and handles off a state of the file system.  The names change with
the nodes, the arrays with the records of RAM files, and the handles with the entries of the handle
table.
-/

namespace IanOS

open Function Option Bytes

namespace Vfs

variable {v v' : Vfs} {out : Outside} {n : Node} {r : PathRef} {i k f id : ℕ} {p q : Path} {o : ℕ}

/-! ## The arrays behind a state -/

def named (v : Vfs) (p : Path) : Option ℕ := (v.findNormalized p).bind fun i => (v.nodeAt i).ramFile

def bytesOf (v : Vfs) (f : ℕ) : List UInt8 :=
  if (v.ramFile f).used then load (v.ramFile f).data 0 (v.ramFile f).size else []

/-- A file with the offset at which it is open. -/
def atOffset (offset : ℕ) : OpenFile → Option (ℕ × ℕ)
  | .ram f => some (f, offset)
  | _ => none

def openRamFile (v : Vfs) (id : ℕ) : Option (ℕ × ℕ) :=
  (v.handleFor id).bind fun k => atOffset (v.handle k).offset (v.fileOf k)

def byteFiles (v : Vfs) : ByteFiles := ⟨v.named, v.bytesOf, v.openRamFile⟩

/-- What a call returns. -/
def answer (v : Vfs) : VfsOp → Answer
  | .change op => .accepted (v.perform op).1
  | .handle out (.openPath path) => .number (v.openPath out path).1
  | .handle out (.readHandle id size) => .bytes (v.readHandle out id size).1
  | .handle out (.writeHandle id bytes) => .number (v.writeHandle out id bytes).1
  | .handle out (.seekHandle id offset) => .accepted (v.seekHandle out id offset).1
  | .handle _ (.retainHandle id) => .accepted (v.retainHandle id).1
  | .handle _ (.close id) => .accepted (v.close id).1

/-- What the calls of a run return. -/
def answers (v : Vfs) : List VfsOp → List Answer
  | [] => []
  | op :: ops => v.answer op :: (v.step op).answers ops

/-! ## Names -/

lemma Stored.named_eq_some (h : Stored v) :
    v.named p = some f ↔ (p, some f) ∈ v.labelled Node.ramFile := by
  constructor
  · intro hnamed
    obtain ⟨i, hi, hram⟩ := bind_eq_some_iff.1 hnamed
    obtain ⟨hlt, hpath⟩ := findIdx?_nodes hi
    exact ⟨i, hlt, of_decide_eq_true hpath, hram⟩
  · rintro ⟨i, hi, hpath, hram⟩
    have hp := h.canonical_of_ramFile (nodeAt_mem hi) hram hpath
    have hfind := h.distinct.find_eq hp ⟨hp, hi, hpath⟩
    rw [find_of_canonical hp] at hfind
    rw [named, hfind, bind_some, hram]

lemma Vacant.named_eq_none (h : v.Vacant p) : v.named p = none := by
  rw [named, h.free, bind_none]

lemma Stored.named_of_standsAt (h : Stored v) (hat : v.StandsAt i p) :
    v.named p = (v.nodeAt i).ramFile := by
  have hfind := h.distinct.find_eq hat.canonical hat
  rw [find_of_canonical hat.canonical] at hfind
  rw [named, hfind, bind_some]

lemma Stored.named_kept (h : Stored v) (hkept : Kept v v') : v'.named = v.named := by
  funext q
  apply ext
  intro f
  rw [(h.of_kept hkept).named_eq_some, h.named_eq_some,
    h.labelled_kept hkept fun _ _ halike => halike.ramFile]

lemma Stored.named_added (h : Stored v) (hadded : Added v v' n r) (htext : v'.text r = p) :
    v'.named = update v.named p n.ramFile := by
  have hfree := hadded.vacant.named_eq_none
  rw [htext] at hfree
  funext q
  apply ext
  intro f
  rw [(h.of_added hadded).named_eq_some, h.labelled_added hadded, Set.mem_insert_iff,
    ← h.named_eq_some, update_apply, htext]
  split_ifs with hq
  · rw [hq, hfree]
    simp [eq_comm]
  · simp [hq]

lemma Stored.named_moved (h : Stored v) (hm : Moved v v' i p r) (htext : v'.text r = q) :
    v'.named = update (update v.named p none) q (v.nodeAt i).ramFile := by
  have hfree := hm.vacant.named_eq_none
  have hold := h.named_of_standsAt hm.at_
  rw [htext] at hfree
  funext s
  apply ext
  intro f
  rw [(h.of_moved hm).named_eq_some, h.labelled_moved hm, Set.mem_insert_iff, Set.mem_sdiff,
    Set.mem_singleton_iff, ← h.named_eq_some, update_apply, Prod.mk.injEq, Prod.mk.injEq,
    htext]
  split_ifs with hs
  · rw [hs, hfree]
    simp [eq_comm]
  rw [update_apply]
  split_ifs with hsp
  · rw [hsp] at hs ⊢
    rw [hold]
    simp only [hs, false_and, false_or, true_and, iff_false, not_and, not_not]
    exact Eq.symm
  · simp [hs, hsp]

/-! ## Bytes -/

/-- A record is overwritten. -/
lemma bytesOf_set (v : Vfs) (k : ℕ) (file : RamFile) (h : v'.ramFiles = v.ramFiles.set k file) :
    v'.bytesOf = update v.bytesOf k (if file.used then load file.data 0 file.size else []) := by
  funext f
  rw [update_apply, bytesOf, ramFile, h, Table.slot_set]
  by_cases hfk : f = k
  · rw [if_pos hfk, if_pos hfk]
  · rw [if_neg hfk, if_neg hfk]
    rfl

lemma bytesOf_of_used (h : (v.ramFile f).used) :
    v.bytesOf f = load (v.ramFile f).data 0 (v.ramFile f).size := by
  rw [bytesOf, if_pos h]

lemma length_bytesOf (h : (v.ramFile f).used) : (v.bytesOf f).length = (v.ramFile f).size := by
  rw [bytesOf_of_used h, length_load]

lemma bytesOf_setFileSize {size : ℕ} (hused : (v.ramFile k).used) :
    (v.setFileSize k size).bytesOf = update v.bytesOf k (ByteFiles.resized (v.bytesOf k) size) := by
  have hset : (v.setFileSize k size).bytesOf = _ := bytesOf_set v k ((v.ramFile k).resize size) rfl
  rw [hset, ByteFiles.resized, length_bytesOf hused, bytesOf_of_used hused, ← load_pad]
  exact congrArg _ (if_pos hused)

lemma bytesOf_stored {bytes : List UInt8} (hused : (v.ramFile f).used)
    (hoff : (v.handle k).offset ≤ (v.ramFile f).size) :
    (v.stored k i f bytes).bytesOf =
      update v.bytesOf f (ByteFiles.overwritten (v.bytesOf f) (v.handle k).offset
        (bytes.take (min bytes.length (kMaxRamFileBytes - (v.handle k).offset)))) := by
  have hset : (v.stored k i f bytes).bytesOf = _ :=
    bytesOf_set v f (storeBytes (v.ramFile f) (v.handle k).offset
      (bytes.take (min bytes.length (kMaxRamFileBytes - (v.handle k).offset)))) rfl
  rw [hset, ByteFiles.overwritten, bytesOf_of_used hused, ← load_store_within _ hoff]
  exact congrArg _ (if_pos hused)

/-! ## Handles -/

lemma openRamFile_eq_some : v.openRamFile id = some (f, o) ↔
    ∃ k, v.handleFor id = some k ∧ v.fileOf k = .ram f ∧ (v.handle k).offset = o := by
  rw [openRamFile, bind_eq_some_iff]
  refine exists_congr fun k => and_congr_right fun _ => ?_
  cases v.fileOf k <;> simp [atOffset]

section Numbers

variable {m m' : ℕ}

lemma Numbered.openRamFile_eq (h : Numbered v m) (hopen : v.OpenAt k) :
    v.openRamFile (v.handle k).id = atOffset (v.handle k).offset (v.fileOf k) := by
  rw [openRamFile, h.handleFor_iff.2 ⟨hopen, rfl⟩, bind_some]

/-- The entries with one number are the same. -/
lemma Numbered.openRamFile_congr (h : Numbered v m) (h' : Numbered v' m')
    (hsame : ∀ l, v'.OpenAt l ∧ (v'.handle l).id = id ↔ v.OpenAt l ∧ (v.handle l).id = id)
    (hfile : ∀ l, v.OpenAt l → (v.handle l).id = id →
      atOffset (v'.handle l).offset (v'.fileOf l) = atOffset (v.handle l).offset (v.fileOf l)) :
    v'.openRamFile id = v.openRamFile id := by
  have hfor : v'.handleFor id = v.handleFor id := by
    apply ext
    intro l
    rw [h'.handleFor_iff, h.handleFor_iff, hsame]
  rw [openRamFile, openRamFile, hfor]
  cases hl : v.handleFor id with
  | none => rfl
  | some l =>
    obtain ⟨hopen, hid⟩ := h.handleFor_iff.1 hl
    exact hfile l hopen hid

/-- One entry is new or has changed, and the others are as before. -/
lemma Numbered.openRamFile_update (h : Numbered v m) (h' : Numbered v' m')
    (hopen : v'.OpenAt k) (hid : v.OpenAt k → (v.handle k).id = (v'.handle k).id)
    (hother : ∀ l ≠ k, v'.OpenAt l ↔ v.OpenAt l)
    (hsame : ∀ l ≠ k, v.OpenAt l → (v'.handle l).id = (v.handle l).id ∧
      (v'.handle l).offset = (v.handle l).offset ∧ v'.fileOf l = v.fileOf l) :
    v'.openRamFile = update v.openRamFile (v'.handle k).id
      (atOffset (v'.handle k).offset (v'.fileOf k)) := by
  funext id
  rw [update_apply]
  split_ifs with hnew
  · rw [hnew, h'.openRamFile_eq hopen]
  have hne {l : ℕ} (hl : v'.OpenAt l ∧ (v'.handle l).id = id ∨
      v.OpenAt l ∧ (v.handle l).id = id) : l ≠ k := by
    rintro rfl
    obtain ⟨-, hlid⟩ | ⟨hlopen, hlid⟩ := hl
    · exact hnew hlid.symm
    · exact hnew (hlid.symm.trans (hid hlopen))
  refine h.openRamFile_congr h' (fun l => ⟨fun hl => ?_, fun hl => ?_⟩) fun l hlopen hlid => ?_
  · have hlk := hne (.inl hl)
    have hlopen := (hother l hlk).1 hl.1
    exact ⟨hlopen, (hsame l hlk hlopen).1.symm.trans hl.2⟩
  · have hlk := hne (.inr hl)
    exact ⟨(hother l hlk).2 hl.1, (hsame l hlk hl.1).1.trans hl.2⟩
  · obtain ⟨-, hoff, hfile⟩ := hsame l (hne (.inr ⟨hlopen, hlid⟩)) hlopen
    rw [hoff, hfile]

lemma Numbered.openRamFile_closeHandle (h : Numbered v m) (h' : Numbered (v.closeHandle k) m')
    (hopen : v.OpenAt k) :
    (v.closeHandle k).openRamFile = update v.openRamFile (v.handle k).id none := by
  have hslot (l : ℕ) (hlk : l ≠ k) : (v.closeHandle k).handle l = v.handle l :=
    (Table.slot_set _ _ _ _).trans (if_neg hlk)
  funext id
  rw [update_apply]
  split_ifs with hold
  · rw [openRamFile, bind_eq_none_iff]
    intro l hl
    obtain ⟨hlopen, hlid⟩ := h'.handleFor_iff.1 hl
    have hlk := ne_of_openAt_closeHandle hlopen
    obtain ⟨hlopen, -⟩ := openAt_set rfl hlopen hlk
    rw [hslot l hlk, hold] at hlid
    exact absurd (h.distinct l k hlopen hopen hlid) hlk
  refine h.openRamFile_congr h' (fun l => ⟨fun ⟨hlopen, hlid⟩ => ?_, fun ⟨hlopen, hlid⟩ => ?_⟩)
    fun l hlopen hlid => ?_
  · have hlk := ne_of_openAt_closeHandle hlopen
    rw [hslot l hlk] at hlid
    exact ⟨(openAt_set rfl hlopen hlk).1, hlid⟩
  · have hlk : l ≠ k := by
      rintro rfl
      exact hold hlid.symm
    refine ⟨⟨hlopen.1, ?_⟩, by rw [hslot l hlk, hlid]⟩
    rw [← handle, hslot l hlk]
    exact hlopen.2
  · have hlk : l ≠ k := by
      rintro rfl
      exact hold hlid.symm
    rw [fileOf, hslot l hlk]
    rfl

end Numbers

end Vfs
end IanOS
