import IanOS.Fs.HandleCounts
import IanOS.Userspace.References

/-!
# The file system under the manager

The virtual file system as the manager calls it.  `resolve_process_path` of
`kernel/src/userspace/userspace.cpp` turns the paths of user programs into absolute ones.

The field `opened` is not part of the kernel: it counts the handles that have been opened.
-/

namespace IanOS

/-- `resolve_process_path`.  The joined path is built in a buffer of `kPathBytes` bytes. -/
def resolveProcessPath (directory path : Path) : Option Path :=
  match path with
  | [] => none
  | c :: _ =>
    if c = slash then normalizePath path
    else if directory = [] ∨ kPathBytes ≤ directory.length ∨ kPathBytes ≤ path.length then none
    else
      let combined := (if directory = [slash] then directory else directory ++ [slash]) ++ path
      if kPathBytes ≤ combined.length then none else normalizePath combined

/-- The file system and what it finds elsewhere at the moment. -/
structure Mounted where
  vfs : Vfs
  out : Outside
  opened : ℕ := 0

namespace Mounted

/-- After `initialize`, with these nodes. -/
def booted (registrations : List Registration) (out : Outside) : Mounted where
  vfs := Vfs.booted registrations
  out := out

instance : Inhabited Mounted := ⟨booted [] default⟩

variable (m : Mounted)

def openPath (path : Path) : ℕ × Mounted :=
  let r := m.vfs.openPath m.out path
  (r.1, { m with vfs := r.2, opened := if r.1 = 0 then m.opened else m.opened + 1 })

/-- The end `redirect_file_append` finds for a path. -/
def endOffset (path : Path) : ℕ :=
  match m.vfs.find path with
  | none => 0
  | some i =>
    match (m.vfs.nodeAt i).ramFile with
    | some k => (m.vfs.ramFile k).size
    | none => (m.vfs.nodeAt i).size

def isDirectory (path : Path) : Bool :=
  match m.vfs.find path with
  | none => false
  | some i => (m.vfs.nodeAt i).type = .directory

instance : FileSystem Mounted where
  openPath := openPath
  close m id := { m with vfs := (m.vfs.close id).2 }
  readHandle m id size :=
    let r := m.vfs.readHandle m.out id size
    (r.1, { m with vfs := r.2 })
  writeHandle m id bytes :=
    let r := m.vfs.writeHandle m.out id bytes
    (r.1, { m with vfs := r.2 })
  seekHandle m id offset :=
    let r := m.vfs.seekHandle m.out id offset
    (r.1, { m with vfs := r.2 })
  retainHandle m id :=
    let r := m.vfs.retainHandle id
    (r.1, { m with vfs := r.2 })
  handleOffset m id := m.vfs.handleOffset id
  endOffset := endOffset
  isDirectory := isDirectory
  resolve := resolveProcessPath

/-! ## It counts references -/

/-- As long as the numbers of handles have not run out, the table keeps these references. -/
def Counts (m : Mounted) (held : Multiset ℕ) : Prop :=
  m.opened < 2 ^ 32 → Vfs.Counts m.vfs m.opened held

variable {m} {held : Multiset ℕ} {id : ℕ}

theorem countsReferences : CountsReferences Counts where
  refused {m held path} h hzero hfew := by
    have hsame : (m.vfs.openPath m.out path).2 = m.vfs := Vfs.openPath_eq_zero hzero
    have hopened : (m.openPath path).2.opened = m.opened := if_pos hzero
    show Vfs.Counts (m.vfs.openPath m.out path).2 (m.openPath path).2.opened held
    rw [hsame, hopened]
    exact h (hopened ▸ hfew)
  opened {m held path} h hne hfew := by
    have hopened : (m.openPath path).2.opened = m.opened + 1 := if_neg hne
    have hfew' : m.opened + 1 < 2 ^ 32 := hopened ▸ hfew
    show Vfs.Counts (m.vfs.openPath m.out path).2 (m.openPath path).2.opened
      ((m.vfs.openPath m.out path).1 ::ₘ held)
    obtain hrefused | ⟨hnumber, hcounts⟩ :=
      (h (Nat.lt_of_succ_lt hfew')).openPath hfew' m.out path
    · exact absurd (congrArg Prod.fst hrefused) hne
    · rwa [hnumber, hopened]
  closed h hfew := (h hfew).close
  retained {m held id} h hid hretain hfew := by
    obtain hrefused | ⟨-, hcounts⟩ := (h hfew).retainHandle hid
    · rw [show (FileSystem.retainHandle m id).1 = (m.vfs.retainHandle id).1 from rfl, hrefused]
        at hretain
      cases hretain
    · exact hcounts
  notRetained {m held id} h hretain hfew := by
    have hsame : (m.vfs.retainHandle id).2 = m.vfs := Vfs.retainHandle_eq_false hretain
    show Vfs.Counts (m.vfs.retainHandle id).2 m.opened held
    rw [hsame]
    exact h hfew
  read {m held} id size h hfew := by
    have hcounts := (h hfew).onHandle m.out (.readHandle id size) nofun nofun nofun
    exact hcounts
  written {m held} id bytes h hfew := by
    have hcounts := (h hfew).onHandle m.out (.writeHandle id bytes) nofun nofun nofun
    exact hcounts
  sought {m held} id offset h hfew := by
    have hcounts := (h hfew).onHandle m.out (.seekHandle id offset) nofun nofun nofun
    exact hcounts
  zero h hzero hfew := absurd hzero (h hfew).zero_notMem

end Mounted
end IanOS
