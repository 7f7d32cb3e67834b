import IanOS.Syscall.Redirection

/-!
# The calls that take a path

A path in a system call is looked up in one of two ways.  `Open`, `CreateFile`, `DeleteFile`,
`SetCurrentDirectory` and, for a caller, `VfsStatInfo` resolve it against the current directory of
the caller, and `RedirectProcessFd` against that of the child it is made for.  `VfsStat`, `VfsRead`,
`VfsOpen` and `Spawn` pass the text to the file system, which refuses a path that is not absolute.

`target` is the absolute path to which a call resolves a text, and `perform_target` says that it is
what the call works on.  The calls resolve a text to the same path if it is absolute, and otherwise
only if it is refused by all of them (`path_calls_agree_iff`).
-/

namespace IanOS

open List Option Vfs

/-! ## Short paths -/

/-- The bytes the segments take up, each with a slash in front of it. -/
def spelledLength (segments : List Path) : ℕ := (segments.map fun s => s.length + 1).sum

lemma spelledLength_cons (s : Path) (l : List Path) :
    spelledLength (s :: l) = s.length + 1 + spelledLength l := by
  rw [spelledLength, map_cons, sum_cons, spelledLength]

lemma length_popSegment_le (out : Path) : (popSegment out).length ≤ out.length := by
  have hdrop : (out.rdropWhile (· ≠ slash)).length ≤ out.length :=
    ( rdropWhile_prefix _ _).length_le
  rw [popSegment]
  split_ifs
  · rw [length_dropLast]
    omega
  · exact hdrop

/-- The buffer holds what has been built and a slash and a segment for each that is left; the slash
of the root serves the first segment. -/
lemma isSome_foldlM_pushSegment (segments : List Path) (out : Path)
    (hroot : out.length + spelledLength segments ≤ kPathBytes)
    (hlong : out.length ≠ 1 → out.length + spelledLength segments < kPathBytes) :
    (segments.foldlM pushSegment out).isSome := by
  induction segments generalizing out with
  | nil => rfl
  | cons s segments ih =>
    rw [spelledLength_cons] at hroot hlong
    have hstep : ∃ out', pushSegment out s = some out' ∧
        out'.length + spelledLength segments ≤ kPathBytes ∧
        (out'.length ≠ 1 → out'.length + spelledLength segments < kPathBytes) := by
      rw [pushSegment]
      split_ifs with hskip hpop hone hfull
      · exact ⟨out, rfl, by omega, fun h => by have := hlong h; omega⟩
      · have hle := length_popSegment_le out
        exact ⟨_, rfl, by omega, fun _ => by omega⟩
      · have := hlong hone
        omega
      · have := hlong hone
        rw [pushText, length_append, length_singleton, if_neg (by omega)]
        refine ⟨_, rfl, ?_⟩
        simp only [length_append, length_singleton]
        omega
      · rw [pushText, if_neg (by omega)]
        refine ⟨_, rfl, ?_⟩
        rw [length_append]
        omega
    obtain ⟨out', hout, hroot', hlong'⟩ := hstep
    rw [foldlM_cons, hout]
    exact ih out' hroot' hlong'

lemma spelledLength_splitOn (path : Path) :
    spelledLength (path.splitOn slash) = path.length + 1 := by
  have hjoin (l : List Path) (hl : l ≠ []) :
      spelledLength l = (intercalate [slash] l).length + 1 := by
    induction l with
    | nil => exact absurd rfl hl
    | cons s l ih =>
      rw [spelledLength_cons]
      cases l with
      | nil => simp [spelledLength]
      | cons t l =>
        rw [ih (cons_ne_nil t l), intercalate_cons_cons]
        simp only [length_append, length_singleton]
        omega
  rw [hjoin _ (splitOn_ne_nil slash path), intercalate_splitOn]

/-- A text that starts with a slash and is shorter than the buffer is a path. -/
lemma isSome_normalizePath {path : Path} (hhead : path.head? = some slash)
    (hlen : path.length < kPathBytes) : (normalizePath path).isSome := by
  obtain ⟨rest, rfl⟩ : ∃ rest, path = slash :: rest := head?_eq_some_iff.1 hhead
  rw [normalizePath, if_pos rfl]
  apply isSome_foldlM_pushSegment
  all_goals
    rw [spelledLength_splitOn, length_singleton]
    rw [length_cons] at hlen
    omega

/-! ## The calls -/

/-- `read` of a file by its path. -/
def Vfs.read (v : Vfs) (out : Outside) (path : Path) (offset size : ℕ) : List UInt8 :=
  let fromNode :=
    match v.find path with
    | none => []
    | some i =>
      let node := v.nodeAt i
      match node.type with
      | .virtualFile => ((out.virtualFile node.virtualKind).drop offset).take size
      | .memoryFile => v.nodeBytes out node offset (min size (v.nodeSize out node - offset))
      | _ => []
  match normalizePath path with
  | none => fromNode
  | some normalized =>
    -- a file of `/proc` that is generated now comes before the nodes
    let generated := out.dynamicFile normalized
    if generated ≠ [] then (generated.drop offset).take size else fromNode

namespace Machine

variable (s : Machine Mounted)

/-- The node at a path, if it is a memory file. -/
def memoryFileAt (path : Path) : Option Node :=
  ((s.vfs.vfs.find path).map s.vfs.vfs.nodeAt).filter fun node => node.type = .memoryFile

def vfsStat (path : Path) : Result :=
  match s.memoryFileAt path with
  | none => .notFound
  | some node =>
    match node.ramFile with
    | some k => ⟨(s.vfs.vfs.ramFile k).size, kErrorNone⟩
    | none => ⟨node.size, kErrorNone⟩

/-- `resolve_process_path`, for a process that may be missing. -/
def resolvedBy (process : Option ℕ) (path : Path) : Option Path :=
  process.bind fun j => resolveProcessPath (s.process j).currentDirectory path

def statPath (pid : ℕ) (path : Path) : Option Vfs.StatInfo :=
  (s.resolvedBy (s.findLive pid) path).bind (s.vfs.vfs.stat s.vfs.out)

def vfsStatInfo (path : Path) : Option Vfs.StatInfo :=
  if s.currentPid ≠ 0 then s.statPath s.currentPid path else s.vfs.vfs.stat s.vfs.out path

/-- The bytes of `VfsRead`. -/
def vfsRead (path : Path) (size : ℕ) : Option (List UInt8) :=
  match s.memoryFileAt path with
  | none => none
  | some _ => some (s.vfs.vfs.read s.vfs.out path 0 size)

def vfsOpen (path : Path) : ℕ × Machine Mounted :=
  let r := s.vfs.openPath path
  (r.1, { s with vfs := r.2 })

/-- Base and size of the image that `Spawn` starts; the path is the first argument of its command
line. -/
def spawnImage (path : Path) : Option (Storage × ℕ) :=
  (s.memoryFileAt path).map fun node => (node.base, node.size)

/-- `create_file` and `delete_file`. -/
def onResolved (change : Vfs → Path → Bool × Vfs) (pid : ℕ) (path : Path) :
    Bool × Machine Mounted :=
  match s.resolvedBy (s.findOwner pid) path with
  | none => (false, s)
  | some resolved =>
    let r := change s.vfs.vfs resolved
    (r.1, { s with vfs := { s.vfs with vfs := r.2 } })

def createFile (pid : ℕ) (path : Path) : Bool × Machine Mounted :=
  s.onResolved createRamFile pid path

def deleteFile (pid : ℕ) (path : Path) : Bool × Machine Mounted :=
  s.onResolved deleteRamFile pid path

end Machine

/-- The calls that take a path, with their other arguments. -/
inductive PathCall
  | vfsStat
  | vfsStatInfo
  | vfsRead (buffer size : ℕ)
  | vfsOpen
  | open
  | spawn
  | createFile
  | deleteFile
  | redirectProcessFd (child fd : ℕ)
  | setCurrentDirectory
  deriving DecidableEq, Repr

/-- What comes of a call. -/
inductive PathOutcome
  | refused
  | found (result : Result)
  | info (info : Vfs.StatInfo)
  | bytes (bytes : List UInt8)
  | image (image : Storage × ℕ)
  deriving DecidableEq, Repr

namespace Machine

variable (s : Machine Mounted) {path directory resolved : Path} {v : Vfs}

/-- A handler whose text could be read, for a current process. -/
def perform : PathCall → Path → PathOutcome × Machine Mounted
  | .vfsStat, path => (if (s.vfsStat path).error = kErrorNone then .found (s.vfsStat path)
      else .refused, s)
  | .vfsStatInfo, path => ((s.vfsStatInfo path).elim .refused .info, s)
  | .vfsRead buffer size, path =>
    match s.vfsRead path size with
    | some bytes =>
      if bufferAccepted buffer size then (.bytes bytes, s.storeUser buffer bytes)
      else (.refused, s)
    | none => (.refused, s)
  | .vfsOpen, path => ofNumber (s.vfsOpen path)
  | .open, path => ofNumber (s.openFile s.currentPid path)
  | .spawn, path => ((s.spawnImage path).elim .refused .image, s)
  | .createFile, path => ofBool (s.createFile s.currentPid path)
  | .deleteFile, path => ofBool (s.deleteFile s.currentPid path)
  | .redirectProcessFd child fd, path => ofBool (s.redirectFile child fd path)
  | .setCurrentDirectory, path => ofBool (s.setCurrentDirectory s.currentPid path)
where
  ofNumber (r : ℕ × Machine Mounted) : PathOutcome × Machine Mounted :=
    (if r.1 = 0 then .refused else .found ⟨r.1, kErrorNone⟩, r.2)
  ofBool (r : Bool × Machine Mounted) : PathOutcome × Machine Mounted :=
    (if r.1 then .found ⟨1, kErrorNone⟩ else .refused, r.2)

/-- The absolute path to which a call resolves a text. -/
def target : PathCall → Path → Option Path
  | .vfsStat, path | .vfsRead _ _, path | .vfsOpen, path | .spawn, path => normalizePath path
  | .vfsStatInfo, path =>
    if s.currentPid ≠ 0 then s.resolvedBy (s.findLive s.currentPid) path else normalizePath path
  | .open, path | .createFile, path | .deleteFile, path | .setCurrentDirectory, path =>
    s.resolvedBy (s.findOwner s.currentPid) path
  | .redirectProcessFd child _, path => s.resolvedBy (s.findOwner child) path

/-! ## What a call works on -/

variable {s}

/-- The text of a directory and a relative path. -/
def joinPath (directory path : Path) : Path :=
  (if directory = [slash] then directory else directory ++ [slash]) ++ path

/-- The joined text is absolute and fits into its buffer. -/
def Joinable (directory path : Path) : Prop :=
  path ≠ [] ∧ directory.head? = some slash ∧ (joinPath directory path).length < kPathBytes
  deriving Decidable

lemma length_joinPath (directory path : Path) :
    directory.length + path.length ≤ (joinPath directory path).length := by
  rw [joinPath, length_append]
  split_ifs
  · exact le_rfl
  · rw [length_append]
    omega

lemma resolveProcessPath_relative (directory : Path) (hne : path ≠ [])
    (hrelative : path.head? ≠ some slash) :
    resolveProcessPath directory path =
      if directory ≠ [] ∧ (joinPath directory path).length < kPathBytes then
        normalizePath (joinPath directory path)
      else none := by
  obtain ⟨c, rest, rfl⟩ := exists_cons_of_ne_nil hne
  have hlen := length_joinPath directory (c :: rest)
  have hc : c ≠ slash := fun h => hrelative (congrArg some h)
  rw [resolveProcessPath, if_neg hc]
  show (if directory = [] ∨ kPathBytes ≤ directory.length ∨
    kPathBytes ≤ (c :: rest).length then none
    else if kPathBytes ≤ (joinPath directory (c :: rest)).length then none
    else normalizePath (joinPath directory (c :: rest))) = _
  by_cases hempty : directory = []
  · rw [if_pos (Or.inl hempty), if_neg fun h => h.1 hempty]
  by_cases hfits : (joinPath directory (c :: rest)).length < kPathBytes
  · rw [if_neg (not_or.2 ⟨hempty, by omega⟩), if_neg (not_le.2 hfits),
      if_pos (And.intro hempty hfits)]
  · rw [if_pos (not_lt.1 hfits), ite_self, if_neg fun h => hfits h.2]

lemma head_joinPath (path : Path) (hne : directory ≠ []) :
    (joinPath directory path).head? = directory.head? := by
  obtain ⟨c, rest, rfl⟩ := exists_cons_of_ne_nil hne
  rw [joinPath]
  split_ifs <;> rfl

lemma head_of_normalizePath {out : Path} (h : normalizePath path = some out) :
    path.head? = some slash := by
  cases path with
  | nil => cases h
  | cons c rest =>
    rw [normalizePath] at h
    split_ifs at h with hc
    rw [head?_cons, hc]

lemma resolveProcessPath_eq_none (hrelative : path.head? ≠ some slash) :
    resolveProcessPath directory path = none ↔ ¬ Joinable directory path := by
  by_cases hne : path = []
  · subst hne
    exact iff_of_true (resolveProcessPath.eq_1 directory) fun h => h.1 rfl
  rw [resolveProcessPath_relative directory hne hrelative]
  constructor
  · rintro hnone ⟨-, hhead, hlen⟩
    have hdir : directory ≠ [] := by
      rintro rfl
      cases hhead
    rw [if_pos ⟨hdir, hlen⟩] at hnone
    have hsome := isSome_normalizePath ((head_joinPath path hdir).trans hhead) hlen
    rw [hnone] at hsome
    cases hsome
  · intro hjoin
    split_ifs with h
    · cases hnormal : normalizePath (joinPath directory path) with
      | none => rfl
      | some out =>
        refine absurd ⟨hne, ?_, h.2⟩ hjoin
        exact (head_joinPath path h.1).symm.trans (head_of_normalizePath hnormal)
    · rfl

lemma resolveProcessPath_absolute (directory : Path) (h : path.head? = some slash) :
    resolveProcessPath directory path = normalizePath path := by
  obtain ⟨rest, rfl⟩ : ∃ rest, path = slash :: rest := head?_eq_some_iff.1 h
  rw [resolveProcessPath, if_pos rfl]

lemma resolveProcessPath_canonical (h : resolveProcessPath directory path = some resolved) :
    Canonical resolved := by
  by_cases habs : path.head? = some slash
  · rw [resolveProcessPath_absolute directory habs] at h
    exact canonical_of_normalizePath h
  by_cases hne : path = []
  · subst hne
    cases h
  · rw [resolveProcessPath_relative directory hne habs] at h
    split_ifs at h
    exact canonical_of_normalizePath h

lemma resolvedBy_canonical {process : Option ℕ} (h : s.resolvedBy process path = some resolved) :
    Canonical resolved ∧ s.resolvedBy process resolved = some resolved := by
  obtain ⟨j, rfl, hj⟩ := bind_eq_some_iff.1 h
  have hcanon := resolveProcessPath_canonical hj
  exact ⟨hcanon, (resolveProcessPath_absolute _ (head_of_normalizePath hcanon)).trans hcanon⟩

lemma find_target (h : normalizePath path = some resolved) : v.find path = v.find resolved := by
  have hcanon : normalizePath resolved = some resolved := canonical_of_normalizePath h
  rw [find, find, h, hcanon]

lemma find_refused (h : normalizePath path = none) : v.find path = none := by
  rw [find, h, bind_none]

lemma memoryFileAt_target (h : normalizePath path = some resolved) :
    s.memoryFileAt path = s.memoryFileAt resolved := by
  rw [memoryFileAt, memoryFileAt, find_target h]

lemma memoryFileAt_refused (h : normalizePath path = none) : s.memoryFileAt path = none := by
  rw [memoryFileAt, find_refused h, map_none, filter_none]

lemma read_target {out : Outside} {offset size : ℕ} (h : normalizePath path = some resolved) :
    v.read out path offset size = v.read out resolved offset size := by
  have hcanon : normalizePath resolved = some resolved := canonical_of_normalizePath h
  rw [Vfs.read, Vfs.read, find_target h, h, hcanon]

lemma openPath_target (h : normalizePath path = some resolved) :
    s.vfsOpen path = s.vfsOpen resolved := by
  have hcanon : normalizePath resolved = some resolved := canonical_of_normalizePath h
  have hopen : s.vfs.vfs.openPath s.vfs.out path = s.vfs.vfs.openPath s.vfs.out resolved := by
    rw [openPath, openPath, find_target h, h, hcanon]
  rw [vfsOpen, vfsOpen, Mounted.openPath, Mounted.openPath, hopen]

lemma openPath_refused (h : normalizePath path = none) : s.vfsOpen path = (0, s) := by
  have hopen : s.vfs.vfs.openPath s.vfs.out path = (0, s.vfs.vfs) := by
    rw [openPath, find_refused h, h]
  rw [vfsOpen, Mounted.openPath, hopen]
  rfl

lemma stat_target (h : normalizePath path = some resolved) :
    s.vfs.vfs.stat s.vfs.out path = s.vfs.vfs.stat s.vfs.out resolved := by
  have hcanon : normalizePath resolved = some resolved := canonical_of_normalizePath h
  rw [stat, stat, find_target h, h, hcanon]

/-- How a function of the manager looks a path up. -/
lemma resolvedBy_cases (s : Machine Mounted) (pid : ℕ) (path : Path) :
    (s.findOwner pid = none ∧ s.resolvedBy (s.findOwner pid) path = none) ∨
      ∃ j, s.findOwner pid = some j ∧ s.resolvedBy (s.findOwner pid) path =
        FileSystem.resolve Mounted (s.process j).currentDirectory path := by
  cases h : s.findOwner pid with
  | none => exact .inl ⟨rfl, rfl⟩
  | some j => exact .inr ⟨j, rfl, rfl⟩

section Manager

variable {pid fd : ℕ} {path resolved : Path} {change : Vfs → Path → Bool × Vfs}

section

variable (h : s.resolvedBy (s.findOwner pid) path = none)
include h

lemma openFile_refused :
    s.openFile pid path = (0, s) := by
  rw [openFile]
  obtain ⟨hj, -⟩ | ⟨j, hj, hresolve⟩ := resolvedBy_cases s pid path
  · rw [hj]
  · rw [hj]
    dsimp only
    rw [← hresolve, h]

lemma setCurrentDirectory_refused :
    s.setCurrentDirectory pid path = (false, s) := by
  rw [setCurrentDirectory]
  obtain ⟨hj, -⟩ | ⟨j, hj, hresolve⟩ := resolvedBy_cases s pid path
  · rw [hj]
  · rw [hj]
    dsimp only
    rw [← hresolve, h]

lemma redirectFile_refused :
    s.redirectFile pid fd path = (false, s) := by
  rw [redirectFile]
  obtain ⟨hj, -⟩ | ⟨j, hj, hresolve⟩ := resolvedBy_cases s pid path
  · rw [hj, ite_self]
  · rw [hj]
    dsimp only
    rw [← hresolve, h, ite_self]

end

section

variable (h : s.resolvedBy (s.findOwner pid) path = some resolved)
include h

lemma resolve_of_resolvedBy : ∃ j, s.findOwner pid = some j ∧
      FileSystem.resolve Mounted (s.process j).currentDirectory path =
        FileSystem.resolve Mounted (s.process j).currentDirectory resolved := by
  have hagain := (resolvedBy_canonical h).2
  obtain ⟨j, hj, hresolve⟩ := bind_eq_some_iff.1 h
  obtain ⟨j', hj', hresolve'⟩ := bind_eq_some_iff.1 hagain
  obtain rfl : j = j' := some.inj (hj.symm.trans hj')
  exact ⟨j, hj, hresolve.trans hresolve'.symm⟩

lemma openFile_target : s.openFile pid path = s.openFile pid resolved := by
  obtain ⟨j, hj, hresolve⟩ := resolve_of_resolvedBy h
  rw [openFile, openFile, hj]
  dsimp only
  rw [hresolve]

lemma setCurrentDirectory_target :
    s.setCurrentDirectory pid path = s.setCurrentDirectory pid resolved := by
  obtain ⟨j, hj, hresolve⟩ := resolve_of_resolvedBy h
  rw [setCurrentDirectory, setCurrentDirectory, hj]
  dsimp only
  rw [hresolve]

lemma redirectFile_target : s.redirectFile pid fd path = s.redirectFile pid fd resolved := by
  obtain ⟨j, hj, hresolve⟩ := resolve_of_resolvedBy h
  rw [redirectFile, redirectFile, hj]
  dsimp only
  rw [hresolve]

end

lemma onResolved_refused (h : s.resolvedBy (s.findOwner pid) path = none) :
    s.onResolved change pid path = (false, s) := by
  rw [onResolved, h]

lemma onResolved_target (h : s.resolvedBy (s.findOwner pid) path = some resolved) :
    s.onResolved change pid path = s.onResolved change pid resolved := by
  rw [onResolved, onResolved, h, (resolvedBy_canonical h).2]

end Manager

lemma vfsStatInfo_refused (h : s.target .vfsStatInfo path = none) : s.vfsStatInfo path = none := by
  rw [target] at h
  rw [vfsStatInfo]
  split_ifs at h ⊢ with hpid
  · rw [statPath, h, bind_none]
  · rw [stat, find_refused h, h, bind_none]

lemma vfsStatInfo_target (h : s.target .vfsStatInfo path = some resolved) :
    s.vfsStatInfo path = s.vfsStatInfo resolved := by
  rw [target] at h
  rw [vfsStatInfo, vfsStatInfo]
  split_ifs at h ⊢ with hpid
  · rw [statPath, statPath, h, (resolvedBy_canonical h).2]
  · exact stat_target h

lemma perform_refused {c : PathCall} (h : s.target c path = none) :
    s.perform c path = (.refused, s) := by
  cases c with
  | vfsStat =>
    rw [perform, vfsStat, memoryFileAt_refused h]
    rfl
  | vfsStatInfo =>
    rw [perform, vfsStatInfo_refused h]
    rfl
  | vfsRead buffer size => rw [perform, vfsRead, memoryFileAt_refused h]
  | vfsOpen =>
    rw [perform, openPath_refused h]
    rfl
  | «open» =>
    rw [perform, openFile_refused h]
    rfl
  | spawn =>
    rw [perform, spawnImage, memoryFileAt_refused h]
    rfl
  | createFile =>
    rw [perform, createFile, onResolved_refused h]
    rfl
  | deleteFile =>
    rw [perform, deleteFile, onResolved_refused h]
    rfl
  | redirectProcessFd child fd =>
    rw [perform, redirectFile_refused h]
    rfl
  | setCurrentDirectory =>
    rw [perform, setCurrentDirectory_refused h]
    rfl

lemma perform_target {c : PathCall} (h : s.target c path = some resolved) :
    s.perform c path = s.perform c resolved := by
  cases c with
  | vfsStat => rw [perform, perform, vfsStat, vfsStat, memoryFileAt_target h]
  | vfsStatInfo => rw [perform, perform, vfsStatInfo_target h]
  | vfsRead buffer size =>
    rw [perform, perform, vfsRead, vfsRead, memoryFileAt_target h, read_target h]
  | vfsOpen => rw [perform, perform, openPath_target h]
  | «open» => rw [perform, perform, openFile_target h]
  | spawn => rw [perform, perform, spawnImage, spawnImage, memoryFileAt_target h]
  | createFile => rw [perform, perform, createFile, createFile, onResolved_target h]
  | deleteFile => rw [perform, perform, deleteFile, deleteFile, onResolved_target h]
  | redirectProcessFd child fd => rw [perform, perform, redirectFile_target h]
  | setCurrentDirectory => rw [perform, perform, setCurrentDirectory_target h]

/-! ## Agreement -/

/-- The calls of a process with this child resolve a text to one absolute path, or none of them
resolves it. -/
def CallsAgree (s : Machine Mounted) (child : ℕ) (path : Path) : Prop :=
  ∀ c c' : PathCall, (∀ other fd, c = .redirectProcessFd other fd → other = child) →
    (∀ other fd, c' = .redirectProcessFd other fd → other = child) →
    s.target c path = s.target c' path

/-- The calls agree on a text exactly when it is absolute or can be joined neither to the directory
of the caller nor to that of its child; and a call works on the path to which it resolves a text,
and refuses a text that it does not resolve. -/
theorem path_calls_agree_iff (s : Machine Mounted) (child j k : ℕ) (path : Path)
    (hcaller : s.currentPid ≠ 0) (hj : s.findOwner s.currentPid = some j)
    (hk : s.findOwner child = some k) :
    (s.CallsAgree child path ↔ path.head? = some slash ∨
      ¬ Joinable (s.process j).currentDirectory path ∧
        ¬ Joinable (s.process k).currentDirectory path) ∧
    ∀ c, s.perform c path =
      match s.target c path with
      | none => (.refused, s)
      | some resolved => s.perform c resolved := by
  have hopen (p : Path) : s.resolvedBy (s.findOwner s.currentPid) p =
      resolveProcessPath (s.process j).currentDirectory p := by
    rw [hj]
    rfl
  have hredirect (p : Path) : s.resolvedBy (s.findOwner child) p =
      resolveProcessPath (s.process k).currentDirectory p := by
    rw [hk]
    rfl
  have hall (q : Option Path) (hdirect : normalizePath path = q)
      (hown : resolveProcessPath (s.process j).currentDirectory path = q)
      (hchild : resolveProcessPath (s.process k).currentDirectory path = q) (c : PathCall)
      (hc : ∀ other fd, c = .redirectProcessFd other fd → other = child) :
      s.target c path = q := by
    cases c with
    | vfsStat | vfsRead | vfsOpen | spawn => exact hdirect
    | vfsStatInfo =>
      rwa [target, if_pos hcaller, findLive_of_findOwner hj, ← hj, hopen]
    | «open» | createFile | deleteFile | setCurrentDirectory => exact (hopen path).trans hown
    | redirectProcessFd other fd =>
      obtain rfl := hc other fd rfl
      exact (hredirect path).trans hchild
  refine ⟨⟨fun hagree => ?_, fun hcond => ?_⟩, fun c => ?_⟩
  · by_contra hcond
    rw [not_or] at hcond
    have hdirect : normalizePath path = none := by
      by_contra hsome
      obtain ⟨out, hout⟩ := ne_none_iff_exists'.1 hsome
      exact hcond.1 (head_of_normalizePath hout)
    have hown : s.target .open path = s.target .vfsStat path := hagree _ _ nofun nofun
    have hchild : s.target (.redirectProcessFd child kStdoutFd) path = s.target .vfsStat path :=
      hagree _ _ (fun _ _ h => (PathCall.redirectProcessFd.inj h).1.symm) nofun
    refine hcond.2
      ⟨(resolveProcessPath_eq_none hcond.1).1 ?_, (resolveProcessPath_eq_none hcond.1).1 ?_⟩
    · exact (hopen path).symm.trans (hown.trans hdirect)
    · exact (hredirect path).symm.trans (hchild.trans hdirect)
  · intro c c' hc hc'
    obtain ⟨q, hq⟩ : ∃ q, ∀ c : PathCall,
        (∀ other fd, c = .redirectProcessFd other fd → other = child) → s.target c path = q := by
      by_cases habsolute : path.head? = some slash
      · exact ⟨_, hall _ rfl (resolveProcessPath_absolute _ habsolute)
          (resolveProcessPath_absolute _ habsolute)⟩
      obtain ⟨hown, hchild⟩ := hcond.resolve_left habsolute
      refine ⟨none, hall none ?_ ((resolveProcessPath_eq_none habsolute).2 hown)
        ((resolveProcessPath_eq_none habsolute).2 hchild)⟩
      cases hnormal : normalizePath path with
      | none => rfl
      | some out => exact absurd (head_of_normalizePath hnormal) habsolute
    rw [hq c hc, hq c' hc']
  · cases h : s.target c path with
    | none => exact perform_refused h
    | some resolved => exact perform_target h

/-- A process in `/tmp`, where there is a file of five bytes, and a child of it. -/
def inTmp : Machine Mounted :=
  let files := (booted (.directory (.ascii "/tmp") true :: terminalOnly)).run
    [.change (.createRamFile (.ascii "/tmp/a")), .change (.truncateRamFile (.ascii "/tmp/a") 5)]
  let ops : List (Σ β, Op Mounted β) :=
    [⟨_, .environment { (default : Mounted) with vfs := files } fun _ => 0⟩,
      ⟨_, .createProcess ⟨0x400000, 1, 0x7ffffff000, fun va => va⟩⟩,
      ⟨_, .createProcess ⟨0x400000, 2, 0x7ffffff000, fun va => va⟩⟩,
      ⟨_, .markRunnable 1⟩, ⟨_, .activateThread 1⟩, ⟨_, .setCurrentDirectory 1 (.ascii "/tmp")⟩,
      ⟨_, .setParent 2 1⟩]
  ops.foldl step (start default terminalOnly default)

/-- With its absolute path the file is the same for all calls. -/
theorem path_calls_agree_absolute : inTmp.CallsAgree 2 (.ascii "/tmp/../tmp//a") :=
  (path_calls_agree_iff inTmp 2 0 1 _ (by decide +kernel) (by decide +kernel)
    (by decide +kernel)).1.2 (.inl (by decide))

/-- The relative path of the file is found by `Open`, but not by `VfsStat`. -/
theorem path_calls_disagree_relative :
    inTmp.currentPid = 1 ∧ (inTmp.perform .open (.ascii "a")).1 = .found ⟨3, kErrorNone⟩ ∧
      (inTmp.perform .vfsStat (.ascii "a")).1 = .refused ∧
      (inTmp.perform .vfsStat (.ascii "/tmp/a")).1 = .found ⟨5, kErrorNone⟩ ∧
      ¬ inTmp.CallsAgree 2 (.ascii "a") := by
  refine ⟨by decide +kernel, by decide +kernel, by decide +kernel, by decide +kernel, fun h => ?_⟩
  have hsame := h .open .vfsStat nofun nofun
  revert hsame
  decide +kernel

end Machine
end IanOS
