import IanOS.Userspace.Pipes

/-!
# Descriptors

The descriptor functions of `kernel/src/userspace/userspace.cpp`.  The functions differ in what they
do about a pipe whose descriptor they close: `close_file` and `attach_pipe_fd` go through
`cleanup_pipe_if_unreferenced`, the others only clear the entry.
-/

namespace IanOS

open FileSystem

/-- `make_vfs_descriptor`; the path is cut to the size of the field. -/
def makeVfsDescriptor (number handle : ℕ) (path : Path) (offset : ℕ) : FileDescriptor :=
  { fd := number, vfsHandle := handle, offset := offset, kind := .vfs, isOpen := true
    path := path.take 63 }

def makePipeDescriptor (number pipeId : ℕ) (writeEnd : Bool) : FileDescriptor :=
  { fd := number, pipeId := pipeId, kind := if writeEnd then .pipeWrite else .pipeRead
    isOpen := true }

/-- Put a descriptor into the first entry that is not open. -/
def placeDescriptor (new : FileDescriptor) : List FileDescriptor → Option (List FileDescriptor)
  | [] => none
  | fd :: rest => if fd.isOpen then (placeDescriptor new rest).map (fd :: ·) else some (new :: rest)

/-- The entries without those of one number. -/
def dropNumber (number : ℕ) (fds : List FileDescriptor) : List FileDescriptor :=
  fds.map fun fd => if fd.Is number then {} else fd

/-- The entries without the first open one of a number. -/
def dropFirst (number : ℕ) : List FileDescriptor → List FileDescriptor
  | [] => []
  | fd :: rest => if fd.Is number then {} :: rest else fd :: dropFirst number rest

/-- The first open entry with a number. -/
def lookupFd (number : ℕ) (fds : List FileDescriptor) : Option FileDescriptor :=
  fds.find? fun fd => fd.Is number

namespace Machine

variable {V : Type} (s : Machine V)

/-! ## Queries -/

def fds (j : ℕ) : List FileDescriptor := (s.process j).fileDescriptors

def hasOpenFile (pid fd : ℕ) : Bool :=
  match s.findLive pid with
  | none => false
  | some j => (lookupFd fd (s.fds j)).isSome

def isPipeFd (pid fd : ℕ) : Bool :=
  match s.findLive pid with
  | none => false
  | some j => (lookupFd fd (s.fds j)).any fun e => e.kind = .pipeRead ∨ e.kind = .pipeWrite

/-- What `pipe_read_would_block` and `pipe_write_would_block` share: the first open entry with the
number and the kind of the end decides. -/
def pipeWouldBlock (kind : FileDescriptorKind) (check : ℕ → Pipe → Bool) (pid fd : ℕ) : Bool :=
  match s.findLive pid with
  | none => false
  | some j =>
    match (s.fds j).find? fun e => e.Is fd ∧ e.kind = kind with
    | none => false
    | some e => (s.findPipe e.pipeId).any fun k => check e.pipeId (s.pipe k)

def pipeReadWouldBlock (pid fd : ℕ) : Bool :=
  s.pipeWouldBlock .pipeRead
    (fun id p => decide (p.size ≤ p.readOffset ∧ s.pipeHasLiveWriter id)) pid fd

def pipeWriteWouldBlock (pid fd : ℕ) : Bool :=
  s.pipeWouldBlock .pipeWrite
    (fun id p => decide (kPipeCapacity ≤ p.size ∧ s.pipeHasLiveReader id)) pid fd

def resolvePipeFd (pid fd : ℕ) (writeEnd : Bool) : Option ℕ :=
  match s.findLive pid with
  | none => none
  | some j =>
    match lookupFd fd (s.fds j) with
    | none => none
    | some e =>
      if e.kind ≠ (if writeEnd then .pipeWrite else .pipeRead) ∨
          (s.findPipe e.pipeId).isNone then none
      else some e.pipeId

/-! ## Changing descriptors -/

/-- The process a descriptor function works on: `find_process`, and not exited. -/
def findOwner (pid : ℕ) : Option ℕ :=
  match s.findProcess pid with
  | none => none
  | some j => if (s.process j).Live then some j else none

def setFds (j : ℕ) (fds : List FileDescriptor) : Machine V :=
  s.setProcess j fun p => { p with fileDescriptors := fds }

variable [FileSystem V]

/-- The handle of a descriptor that is closed is given back. -/
def releaseHandle (vfs : V) (fd : FileDescriptor) : V :=
  if fd.isOpen ∧ fd.kind = .vfs ∧ fd.vfsHandle ≠ 0 then close vfs fd.vfsHandle else vfs

/-- The loops that close every open entry with a number. -/
def closeNumber (j number : ℕ) : Machine V :=
  let closed := (s.fds j).filter fun fd => fd.Is number
  { s with vfs := closed.foldl releaseHandle s.vfs }.setFds j (dropNumber number (s.fds j))

/-- Close the entries with the number of a new descriptor of the file system and put it into the
table, or give its handle back. -/
def installVfs (j number handle : ℕ) (path : Path) : Bool × Machine V :=
  let s := s.closeNumber j number
  match placeDescriptor (makeVfsDescriptor number handle path 0) (s.fds j) with
  | some fds => (true, s.setFds j fds)
  | none => (false, { s with vfs := close s.vfs handle })

def installVfsDescriptor (j number : ℕ) (path : Path) : Bool × Machine V :=
  let r := openPath s.vfs path
  if r.1 = 0 then (false, { s with vfs := r.2 })
  else { s with vfs := r.2 }.installVfs j number r.1 path

/-- `"/dev/tty"`. -/
def devTty : Path := [0x2f, 0x64, 0x65, 0x76, 0x2f, 0x74, 0x74, 0x79]

def installDefaultStandardFds (j : ℕ) : Bool × Machine V :=
  let r₀ := s.installVfsDescriptor j kStdinFd devTty
  if ¬ r₀.1 then r₀
  else
    let r₁ := r₀.2.installVfsDescriptor j kStdoutFd devTty
    if ¬ r₁.1 then r₁ else r₁.2.installVfsDescriptor j kStderrFd devTty

/-- `next_fd++`, once more when the number drawn is below 3: the number and the counter. -/
def takeFdNumber (nextFd : ℕ) : ℕ × ℕ :=
  let following (n : ℕ) := (n + 1) % 2 ^ 32
  if nextFd < 3 then (following nextFd, following (following nextFd))
  else (nextFd, following nextFd)

def openFile (pid : ℕ) (path : Path) : ℕ × Machine V :=
  match s.findOwner pid with
  | none => (0, s)
  | some j =>
    match resolve V (s.process j).currentDirectory path with
    | none => (0, s)
    | some resolved =>
      let r := openPath s.vfs resolved
      let s := { s with vfs := r.2 }
      if r.1 = 0 then (0, s)
      else
        let number := takeFdNumber (s.process j).nextFd
        match placeDescriptor (makeVfsDescriptor number.1 r.1 resolved 0) (s.fds j) with
        | none => (0, { s with vfs := close s.vfs r.1 })
        | some fds =>
          (number.1,
            s.setProcess j fun p => { p with fileDescriptors := fds, nextFd := number.2 })

def redirectFile (pid targetFd : ℕ) (path : Path) : Bool × Machine V :=
  if targetFd ≠ kStdinFd ∧ targetFd ≠ kStdoutFd ∧ targetFd ≠ kStderrFd then (false, s)
  else
    match s.findOwner pid with
    | none => (false, s)
    | some j =>
      match resolve V (s.process j).currentDirectory path with
      | none => (false, s)
      | some resolved => s.installVfsDescriptor j targetFd resolved

/-- `sync_descriptor_offsets`. -/
def syncDescriptorOffsets (j handle offset : ℕ) : Machine V :=
  if handle = 0 then s
  else
    s.setFds j ((s.fds j).map fun fd =>
      if fd.isOpen ∧ fd.kind = .vfs ∧ fd.vfsHandle = handle then { fd with offset := offset }
      else fd)

def seekFile (pid fd offset : ℕ) : Bool × Machine V :=
  match s.findOwner pid with
  | none => (false, s)
  | some j =>
    match lookupFd fd (s.fds j) with
    | none => (false, s)
    | some e =>
      if e.kind ≠ .vfs then (false, s)
      else
        let r := seekHandle s.vfs e.vfsHandle offset
        let s := { s with vfs := r.2 }
        if r.1 then (true, s.syncDescriptorOffsets j e.vfsHandle offset) else (false, s)

def redirectFileAppend (pid targetFd : ℕ) (path : Path) : Bool × Machine V :=
  if targetFd ≠ kStdoutFd ∧ targetFd ≠ kStderrFd then (false, s)
  else
    match s.findOwner pid with
    | none => (false, s)
    | some j =>
      match resolve V (s.process j).currentDirectory path with
      | none => (false, s)
      | some resolved =>
        let endOffset := endOffset s.vfs resolved
        let r := s.redirectFile pid targetFd path
        if r.1 then r.2.seekFile pid targetFd endOffset else r

/-- The pipe whose descriptor `attach_pipe_fd` replaces, 0 if there is none. -/
def replacedPipe (number : ℕ) (fds : List FileDescriptor) : ℕ :=
  ((fds.filter fun fd => fd.Is number ∧ fd.OnPipe).getLast?.map FileDescriptor.pipeId).getD 0

/-- The numbers to which an end of a pipe may be attached. -/
def attachable (targetFd : ℕ) (writeEnd : Bool) : Bool :=
  if writeEnd then targetFd = kStdoutFd ∨ targetFd = kStderrFd else targetFd = kStdinFd

def attachPipeFd (pid targetFd pipeId : ℕ) (writeEnd : Bool) : Bool × Machine V :=
  if ¬ attachable targetFd writeEnd then (false, s)
  else
    match s.findOwner pid, s.findPipe pipeId with
    | some j, some _ =>
      let replaced := replacedPipe targetFd (s.fds j)
      let s := s.closeNumber j targetFd
      let s := if replaced ≠ 0 then (s.cleanupPipeIfUnreferenced replaced).2 else s
      match placeDescriptor (makePipeDescriptor targetFd pipeId writeEnd) (s.fds j) with
      | some fds => (true, s.setFds j fds)
      | none => (false, s)
    | _, _ => (false, s)

/-! ## Reading and writing -/

def readFile (pid fd buffer size : ℕ) : ℕ × Machine V :=
  match s.findOwner pid with
  | none => (0, s)
  | some j =>
    if buffer = 0 ∨ size = 0 then (0, s)
    else
      match lookupFd fd (s.fds j) with
      | none => (0, s)
      | some e =>
        match e.kind with
        | .vfs =>
          let r := readHandle s.vfs e.vfsHandle size
          let s := { s with vfs := r.2 }.storeUser buffer r.1
          (r.1.length,
            s.syncDescriptorOffsets j e.vfsHandle
              (handleOffset s.vfs e.vfsHandle))
        | .pipeRead =>
          match s.findPipe e.pipeId with
          | none => (0, s)
          | some k =>
            if (s.pipe k).size ≤ (s.pipe k).readOffset then (0, s)
            else
              let toCopy := min size ((s.pipe k).size - (s.pipe k).readOffset)
              let s := s.deliver k toCopy fun bytes s => s.storeUser buffer bytes
              (toCopy, (s.wakePipeWaiters e.pipeId false true).2)
        | _ => (0, s)

def writeFile (pid fd buffer size : ℕ) : ℕ × Machine V :=
  match s.findOwner pid with
  | none => (0, s)
  | some j =>
    if buffer = 0 ∨ size = 0 then (0, s)
    else
      let bytes (n : ℕ) := (List.range n).map fun i => s.userByte (buffer + i)
      match lookupFd fd (s.fds j) with
      | none => (0, s)
      | some e =>
        match e.kind with
        | .vfs =>
          let r := writeHandle s.vfs e.vfsHandle (bytes size)
          let s := { s with vfs := r.2 }
          (r.1,
            s.syncDescriptorOffsets j e.vfsHandle
              (handleOffset s.vfs e.vfsHandle))
        | .pipeWrite =>
          if ¬ s.pipeHasLiveReader e.pipeId then (0, s)
          else
            match s.findPipe e.pipeId with
            | none => (0, s)
            | some k =>
              if kPipeCapacity ≤ (s.pipe k).size then (0, s)
              else
                let toCopy := min size (kPipeCapacity - (s.pipe k).size)
                let s := s.accept k (bytes toCopy)
                (toCopy, (s.wakePipeWaiters e.pipeId true false).2)
        | _ => (0, s)

/-! ## Closing and duplicating -/

def closeFile (pid fd : ℕ) : Bool × Machine V :=
  match s.findProcess pid with
  | none => (false, s)
  | some j =>
    match lookupFd fd (s.fds j) with
    | none => (false, s)
    | some e =>
      let s := { s with vfs := releaseHandle s.vfs e }.setFds j (dropFirst fd (s.fds j))
      if e.OnPipe ∧ e.pipeId ≠ 0 then (true, (s.cleanupPipeIfUnreferenced e.pipeId).2)
      else (true, s)

/-- A copy of a descriptor needs a further reference to its handle. -/
def retainFor (vfs : V) (fd : FileDescriptor) : Bool × V :=
  if fd.kind = .vfs ∧ fd.vfsHandle ≠ 0 then retainHandle vfs fd.vfsHandle
  else (true, vfs)

def duplicateFile (pid sourceFd : ℕ) : ℕ × Machine V :=
  match s.findOwner pid with
  | none => (0, s)
  | some j =>
    match lookupFd sourceFd (s.fds j) with
    | none => (0, s)
    | some source =>
      let number := takeFdNumber (s.process j).nextFd
      match placeDescriptor { source with fd := number.1 } (s.fds j) with
      | none => (0, s)
      | some fds =>
        -- the number is drawn before the reference is asked for
        let r := retainFor s.vfs source
        let s := { s with vfs := r.2 }.setProcess j fun p => { p with nextFd := number.2 }
        if r.1 then (number.1, s.setFds j fds) else (0, s)

def duplicateFileTo (pid sourceFd targetFd : ℕ) : Bool × Machine V :=
  if kMaxProcessFileDescriptors ≤ targetFd then (false, s)
  else
    match s.findOwner pid with
    | none => (false, s)
    | some j =>
      match lookupFd sourceFd (s.fds j) with
      | none => (false, s)
      | some source =>
        if sourceFd = targetFd then (true, s)
        else
          let s := s.closeNumber j targetFd
          match placeDescriptor { source with fd := targetFd } (s.fds j) with
          | none => (false, s)
          | some fds =>
            let r := retainFor s.vfs source
            let s := { s with vfs := r.2 }
            if r.1 then
              (true,
                s.setProcess j fun p =>
                  { p with
                    fileDescriptors := fds
                    nextFd := if p.nextFd ≤ targetFd then targetFd + 1 else p.nextFd })
            else (false, s)

/-! ## Inheriting -/

/-- The descriptor a child gets for one of the parent's.  For a process that inherits from itself
the parent's entry has been closed by then. -/
def inheritedDescriptor (number : ℕ) (source : FileDescriptor) :
    Option (Option FileDescriptor) × Machine V :=
  match source.kind with
  | .vfs =>
    if source.path = [] ∨ source.vfsHandle = 0 then (none, s)
    else
      let r := retainHandle s.vfs source.vfsHandle
      let s := { s with vfs := r.2 }
      if r.1 then
        (some (some (makeVfsDescriptor number source.vfsHandle source.path
          (handleOffset s.vfs source.vfsHandle))), s)
      else (none, s)
  | .pipeRead | .pipeWrite =>
    if (s.findPipe source.pipeId).isNone then (none, s)
    else (some (some (makePipeDescriptor number source.pipeId (source.kind = .pipeWrite))), s)
  | .empty => (some none, s)

/-- One round of the loop of `inherit_standard_fds`; the answer says whether to go on. -/
def inheritFd (child parent number : ℕ) : Bool × Machine V :=
  match lookupFd number (s.fds parent) with
  | none => (true, s)
  | some source =>
    let s := s.closeNumber child number
    let r := s.inheritedDescriptor number (if child = parent then {} else source)
    match r.1 with
    | none => (false, r.2)
    | some none => (true, r.2)
    | some (some inherited) =>
      match placeDescriptor inherited (r.2.fds child) with
      | some fds => (true, r.2.setFds child fds)
      | none => (false, { r.2 with vfs := releaseHandle r.2.vfs inherited })

def inheritFds (child parent : ℕ) : List ℕ → Machine V → Bool × Machine V
  | [], s => (true, s)
  | number :: rest, s =>
    let r := s.inheritFd child parent number
    if r.1 then inheritFds child parent rest r.2 else r

def inheritStandardFds (childPid parentPid : ℕ) : Bool × Machine V :=
  match s.findOwner childPid, s.findOwner parentPid with
  | some child, some parent => inheritFds child parent [kStdinFd, kStdoutFd, kStderrFd] s
  | _, _ => (false, s)

def setCurrentDirectory (pid : ℕ) (path : Path) : Bool × Machine V :=
  match s.findOwner pid with
  | none => (false, s)
  | some j =>
    match resolve V (s.process j).currentDirectory path with
    | none => (false, s)
    | some next =>
      if isDirectory s.vfs next then
        (true, s.setProcess j fun p => { p with currentDirectory := next })
      else (false, s)

end Machine
end IanOS
