import IanOS.Fs.Runs

/-!
# RAM files as byte arrays

What RAM files are for, without nodes, records and buffers: a file is an array of bytes, paths name
files, and a handle is a file with an offset.  Several paths may name one file and several handles
may be open on it.  `Step` says what each call does; where the file system may be full, a call may
also refuse.  Handles that are open on something else are not represented, and calls on them do
nothing.
-/

namespace IanOS

open Function Option

/-- What a call returns. -/
inductive Answer
  | accepted (ok : Bool)
  | number (n : ℕ)
  | bytes (read : List UInt8)
  deriving DecidableEq, Repr

structure ByteFiles where
  named : Path → Option ℕ
  bytes : ℕ → List UInt8
  /-- The file of a handle and the offset, by the number of the handle. -/
  handles : ℕ → Option (ℕ × ℕ)

namespace ByteFiles

/-- No files and no handles. -/
def empty : ByteFiles := ⟨fun _ => none, fun _ => [], fun _ => none⟩

/-- An array cut off or extended by zeros. -/
def resized (bytes : List UInt8) (size : ℕ) : List UInt8 :=
  bytes.take size ++ List.replicate (size - bytes.length) 0

/-- An array with other bytes from an offset on. -/
def overwritten (bytes : List UInt8) (offset : ℕ) (new : List UInt8) : List UInt8 :=
  bytes.take offset ++ new ++ bytes.drop (offset + new.length)

def setHandle (F : ByteFiles) (id : ℕ) (h : Option (ℕ × ℕ)) : ByteFiles :=
  { F with handles := update F.handles id h }

/-- Give a file another size; handles behind the new end are moved to it. -/
def truncate (F : ByteFiles) (f size : ℕ) : ByteFiles :=
  { F with
    bytes := update F.bytes f (resized (F.bytes f) size)
    handles := fun id => (F.handles id).map fun h =>
      (h.1, if h.1 = f then min h.2 size else h.2) }

/-- What a call returns, and the state after it. -/
inductive Step (F : ByteFiles) : VfsOp → Answer → ByteFiles → Prop
  | refuse {op : NamespaceOp} (hop : ∀ path size, op ≠ .truncateRamFile path size) :
      Step F (.change op) (.accepted false) F
  /-- An empty file under a new name. -/
  | create {path p : Path} {f : ℕ} (hpath : normalizePath path = some p) (hfree : F.named p = none)
      (hnames : ∀ q, F.named q ≠ some f) (hhandles : ∀ id offset, F.handles id ≠ some (f, offset)) :
      Step F (.change (.createRamFile path)) (.accepted true) { F with
          named := update F.named p (some f)
          bytes := update F.bytes f [] }
  /-- Another name for a file. -/
  | link {existing path p q : Path} {f : ℕ} (hexisting : normalizePath existing = some q)
      (hpath : normalizePath path = some p) (hfree : F.named p = none)
      (hfile : F.named q = some f) :
      Step F (.change (.linkRamFile existing path)) (.accepted true)
        { F with named := update F.named p (some f) }
  | rename {old new p q : Path} {f : ℕ} (hold : normalizePath old = some p)
      (hnew : normalizePath new = some q) (hfree : F.named q = none)
      (hfile : F.named p = some f) :
      Step F (.change (.renameRamNode old new)) (.accepted true)
        { F with named := update (update F.named p none) q (some f) }
  | createDirectory {path : Path} :
      Step F (.change (.createRamDirectory path)) (.accepted true) F
  | renameDirectory {old new p : Path} (hold : normalizePath old = some p)
      (hnone : F.named p = none) : Step F (.change (.renameRamNode old new)) (.accepted true) F
  | truncate {path p : Path} {f size : ℕ} (hpath : normalizePath path = some p)
      (hfile : F.named p = some f) (hsize : size ≤ kMaxRamFileBytes) :
      Step F (.change (.truncateRamFile path size)) (.accepted true) (F.truncate f size)
  | truncateRefused {path : Path} {size : ℕ}
      (hrefused : kMaxRamFileBytes < size ∨ ∀ p f,
        normalizePath path = some p → F.named p ≠ some f) :
      Step F (.change (.truncateRamFile path size)) (.accepted false) F
  | openRefused {out : Outside} {path : Path} : Step F (.handle out (.openPath path)) (.number 0) F
  /-- A handle with a new number at the start of the file, if the path names one. -/
  | opened {out : Outside} {path p : Path} {id : ℕ} (hpath : normalizePath path = some p)
      (hid : id ≠ 0) (hnew : F.handles id = none) :
      Step F (.handle out (.openPath path)) (.number id)
        (F.setHandle id ((F.named p).map fun f => (f, 0)))
  | read {out : Outside} {id f offset : ℕ} (size : ℕ) (hhandle : F.handles id = some (f, offset)) :
      Step F (.handle out (.readHandle id size)) (.bytes (((F.bytes f).drop offset).take size))
        (F.setHandle id (some (f, offset + (((F.bytes f).drop offset).take size).length)))
  /-- As many bytes as fit are stored. -/
  | write {out : Outside} {id f offset n : ℕ} {new : List UInt8}
      (hhandle : F.handles id = some (f, offset))
      (hn : n = min new.length (kMaxRamFileBytes - offset)) :
      Step F (.handle out (.writeHandle id new)) (.number n)
        { F.setHandle id (some (f, offset + n)) with
          bytes := update F.bytes f (overwritten (F.bytes f) offset (new.take n)) }
  | seek {out : Outside} {id f offset target : ℕ} (hhandle : F.handles id = some (f, offset))
      (hle : target ≤ (F.bytes f).length) :
      Step F (.handle out (.seekHandle id target)) (.accepted true)
        (F.setHandle id (some (f, target)))
  | seekRefused {out : Outside} {id f offset target : ℕ} (hhandle : F.handles id = some (f, offset))
      (hlt : (F.bytes f).length < target) :
      Step F (.handle out (.seekHandle id target)) (.accepted false) F
  | close {out : Outside} {id f offset : ℕ} (hhandle : F.handles id = some (f, offset)) :
      Step F (.handle out (.close id)) (.accepted true) (F.setHandle id none)
  | elsewhere {out : Outside} {op : HandleOp} {id : ℕ} (answer : Answer) (hop : op.number = some id)
      (hnone : F.handles id = none) : Step F (.handle out op) answer F

/-- What a sequence of calls returns, and the state after it. -/
inductive Run : ByteFiles → List VfsOp → List Answer → ByteFiles → Prop
  | nil (F : ByteFiles) : Run F [] [] F
  | cons {F F' F'' : ByteFiles} {op : VfsOp} {ops : List VfsOp} {answer : Answer}
      {answers : List Answer} (hstep : Step F op answer F') (hrun : Run F' ops answers F'') :
      Run F (op :: ops) (answer :: answers) F''

/-- Arrays have at most 4096 bytes, and no offset lies behind the end of its array. -/
structure Bounded (F : ByteFiles) : Prop where
  bytes : ∀ f, (F.bytes f).length ≤ kMaxRamFileBytes
  handles : ∀ id f offset, F.handles id = some (f, offset) → offset ≤ (F.bytes f).length

variable {F F' : ByteFiles} {bytes : List UInt8}

lemma handles_setHandle (F : ByteFiles) (id : ℕ) (h : Option (ℕ × ℕ)) :
    (F.setHandle id h).handles = update F.handles id h := rfl

lemma bytes_truncate (F : ByteFiles) (f size : ℕ) :
    (F.truncate f size).bytes = update F.bytes f (resized (F.bytes f) size) := rfl

lemma length_resized (bytes : List UInt8) (size : ℕ) : (resized bytes size).length = size := by
  simp [resized]
  omega

lemma length_overwritten {offset : ℕ} (new : List UInt8) (h : offset ≤ bytes.length) :
    (overwritten bytes offset new).length = max bytes.length (offset + new.length) := by
  simp [overwritten]
  omega

lemma Bounded.setHandle (h : Bounded F) (id : ℕ) {a : Option (ℕ × ℕ)}
    (ha : ∀ f offset, a = some (f, offset) → offset ≤ (F.bytes f).length) :
    Bounded (F.setHandle id a) := by
  refine ⟨h.bytes, fun id' f offset hid' => ?_⟩
  rw [handles_setHandle, update_apply] at hid'
  split_ifs at hid'
  · exact ha f offset hid'
  · exact h.handles id' f offset hid'

/-- An array may be replaced by one that is long enough for the handles on it. -/
lemma Bounded.setBytes (h : Bounded F) (f : ℕ) (hlen : bytes.length ≤ kMaxRamFileBytes)
    (hhandles : ∀ id offset, F.handles id = some (f, offset) → offset ≤ bytes.length) :
    Bounded { F with bytes := update F.bytes f bytes } := by
  refine ⟨fun g => ?_, fun id g offset hid => ?_⟩
  · dsimp only
    rw [update_apply]
    split_ifs
    · exact hlen
    · exact h.bytes g
  · dsimp only
    rw [update_apply]
    split_ifs with hgf
    · subst hgf
      exact hhandles id offset hid
    · exact h.handles id g offset hid

lemma Bounded.truncate (h : Bounded F) {f size : ℕ} (hsize : size ≤ kMaxRamFileBytes) :
    Bounded (F.truncate f size) := by
  refine ⟨fun g => ?_, fun id g offset hid => ?_⟩
  · rw [bytes_truncate, update_apply]
    split_ifs
    · rwa [length_resized]
    · exact h.bytes g
  · obtain ⟨⟨g', o⟩, hg, heq⟩ := map_eq_some_iff.1 hid
    obtain ⟨rfl, rfl⟩ := Prod.mk.inj heq
    rw [bytes_truncate, update_apply]
    split_ifs
    · rw [length_resized]
      exact min_le_right _ _
    · exact h.handles id g' o hg

/-- Every call keeps the bounds. -/
lemma Bounded.step {op : VfsOp} {answer : Answer} (h : Bounded F) (hstep : Step F op answer F') :
    Bounded F' := by
  cases hstep with
  | create _ _ _ hhandles =>
    have hempty : ([] : List UInt8).length ≤ kMaxRamFileBytes := Nat.zero_le _
    have hbound := h.setBytes _ hempty fun id offset hid => absurd hid (hhandles id offset)
    exact ⟨hbound.bytes, hbound.handles⟩
  | link | rename => exact ⟨h.bytes, h.handles⟩
  | truncate _ _ hsize => exact h.truncate hsize
  | opened =>
    refine h.setHandle _ fun f offset heq => ?_
    obtain ⟨g, -, hg⟩ := map_eq_some_iff.1 heq
    obtain ⟨rfl, rfl⟩ := Prod.mk.inj hg
    exact Nat.zero_le _
  | @read _ id f offset size hhandle =>
    refine h.setHandle id fun g o heq => ?_
    obtain ⟨rfl, rfl⟩ := Prod.mk.inj (some.inj heq)
    have hle := h.handles id f offset hhandle
    rw [List.length_take, List.length_drop]
    omega
  | @write _ id f offset n new hhandle hn =>
    have hle := h.handles id f offset hhandle
    have hmax := h.bytes f
    have hlen := length_overwritten (new.take n) hle
    rw [List.length_take] at hlen
    have hlong : (overwritten (F.bytes f) offset (new.take n)).length ≤ kMaxRamFileBytes := by
      omega
    have hbytes := h.setBytes f hlong fun id' o hid' => by
      have hold := h.handles id' f o hid'
      omega
    refine hbytes.setHandle id fun g o heq => ?_
    obtain ⟨rfl, rfl⟩ := Prod.mk.inj (some.inj heq)
    dsimp only
    rw [update_self]
    omega
  | seek hhandle hle =>
    refine h.setHandle _ fun g o heq => ?_
    obtain ⟨rfl, rfl⟩ := Prod.mk.inj (some.inj heq)
    exact hle
  | close => exact h.setHandle _ fun g o heq => (nomatch heq)
  | _ => exact h

end ByteFiles
end IanOS
