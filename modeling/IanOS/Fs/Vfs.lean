import IanOS.Fs.Path
import IanOS.Lib.Bytes
import IanOS.Lib.Table

/-!
# The virtual file system

A model of `class Vfs` in `kernel/src/fs/vfs.cpp`: the table of nodes, the storage of RAM files,
directories and links, and the table of open handles.

Pointers are numbers.  A handle points to a position of the node table, so it sees whatever node
stands there, and an empty node behind the end of the table.  The path of a node is a pointer as
well: to a text that never changes, or to the path field of a RAM file, directory or link, so that
writing such a field changes the path of the nodes that point to it.

What the file system reads elsewhere when it is called (the texts generated for `/proc`, memory
outside the file system, the terminal) is the argument `Outside`.  The counters in `stats_` are only
reported and are left out.
-/

namespace IanOS

inductive NodeType
  | empty | directory | memoryFile | characterDevice | virtualFile
  deriving DecidableEq, Repr

inductive DeviceKind
  | none | null | zero | tty | console
  deriving DecidableEq, Repr

inductive VirtualFileKind
  | none | procMeminfo | procIomem | procRtc | procUptime | procLoadavg | procSchedDebug
  | procStat | procProcesses | procSelfStatus | procSelfStat | procSelfMaps | procSelfCmdline
  | procSelfComm | procSelfEnviron | procSelfCwd | procSelfExe | procSelfRoot | procSelfFd
  | procSelfFdinfo | procSelfLimits | procSelfIo | procMounts | procMountinfo | procSelfMountinfo
  | procFilesystems | procVfsStats | procBlockBootdisk | procDiskstats | procPartitions
  | procPciSummary | procPciDevices | procDevices | procDriverSummary | procDriverDevices
  | procIrqSummary | procInterrupts | procTtySummary | procCpuinfo | procCpuSummary
  | procCpuTopology | procMmSummary | procHeapinfo | procVmstat | procBuddyinfo | procKmsg
  | procNetSummary | procNetDev | procNetRoute | procModules | procBootinfo | procFeatures
  | procAbi | procCmdline | procHostname | procOstype | procOsrelease | procPidMax
  | procThreadsMax | procCpuCount | procOnlineCpuCount | procCpuOnlineMask | procCpuSchedulerMask
  | procCpuParkedMask | procTtyInputMode | procTtyBufferedInput | procTtyColumns | procTtyRows
  | procVmFreePages | procVmUsedPages | procVmTotalPages | procVmMappedPages | procVmHeapBytes
  | procBootMode | procBootFlags | procBootOptions | procMachine | procModuleCount
  | procFeatureFlags | procAbiVersion | procVersionString
  deriving DecidableEq, Repr

inductive DynamicProcKind
  | none | pidDirectory | pidStatus | pidStat | pidMaps | pidCmdline | pidComm | pidEnviron | pidCwd
  | pidExe | pidRoot | pidLimits | pidIo | pidFd | pidFdEntry | pidFdinfo | pidFdinfoEntry | pidTask
  | pidTaskTidDirectory | pidTaskTidStatus | pidTaskTidStat
  deriving DecidableEq, Repr

def kMaxVfsNodes : ℕ := 512
def kMaxFileHandles : ℕ := 32
def kMaxRamFiles : ℕ := 32
def kMaxRamDirectories : ℕ := 8
def kMaxRamLinks : ℕ := 8
def kMaxRamFileBytes : ℕ := 4096

structure RamFile where
  used : Bool := false
  path : Path := []
  data : ℕ → UInt8 := fun _ => 0
  size : ℕ := 0

structure RamDirectory where
  used : Bool := false
  path : Path := []
  deriving DecidableEq, Repr

structure RamLink where
  used : Bool := false
  path : Path := []
  target : Option ℕ := none
  deriving DecidableEq, Repr

/-- Where the path of a node is stored. -/
inductive PathRef
  | constant (text : Path)
  | ramFile (slot : ℕ)
  | ramDirectory (slot : ℕ)
  | ramLink (slot : ℕ)
  deriving DecidableEq, Repr

/-- Where the bytes of a node are: at an address, or in the `data` of a RAM file. -/
inductive Storage
  | address (base : ℕ)
  | ramData (slot : ℕ)
  deriving DecidableEq, Repr

structure Node where
  path : Option PathRef := none
  type : NodeType := .empty
  base : Storage := .address 0
  size : ℕ := 0
  writable : Bool := false
  diskBacked : Bool := false
  ramFile : Option ℕ := none
  deviceKind : DeviceKind := .none
  virtualKind : VirtualFileKind := .none
  deriving DecidableEq, Repr

structure FileHandle where
  id : ℕ := 0
  node : Option ℕ := none
  offset : ℕ := 0
  refCount : ℕ := 0
  isOpen : Bool := false
  dynamicVirtual : Bool := false
  path : Path := []
  deriving DecidableEq, Repr

/-- What the file system finds elsewhere at the time of a call. -/
structure Outside where
  /-- `parse_dynamic_proc_path`. -/
  dynamicKind : Path → DynamicProcKind
  /-- `render_dynamic_proc_file` into a buffer of `kVirtualFileScratchBytes`. -/
  dynamicFile : Path → List UInt8
  dynamicProcFileSize : Path → ℕ
  /-- `render_virtual_file`. -/
  virtualFile : VirtualFileKind → List UInt8
  memory : ℕ → UInt8
  /-- What `terminal::read_input` puts into a buffer of this size. -/
  readInput : ℕ → List UInt8
  /-- How much of a text `terminal::write` takes. -/
  terminalWrite : List UInt8 → ℕ

/-- Nothing is found elsewhere. -/
instance : Inhabited Outside where
  default :=
    { dynamicKind := fun _ => .none
      dynamicFile := fun _ => []
      dynamicProcFileSize := fun _ => 0
      virtualFile := fun _ => []
      memory := fun _ => 0
      readInput := fun _ => []
      terminalWrite := fun _ => 0 }

structure Vfs where
  /-- The first `count_` entries of `nodes_`; the others are empty. -/
  nodes : List Node := []
  handles : Table FileHandle := ⟨fun _ => {}, kMaxFileHandles⟩
  ramFiles : Table RamFile := ⟨fun _ => {}, kMaxRamFiles⟩
  ramDirectories : Table RamDirectory := ⟨fun _ => {}, kMaxRamDirectories⟩
  ramLinks : Table RamLink := ⟨fun _ => {}, kMaxRamLinks⟩
  nextHandleId : ℕ := 1

/-- `hybrid::VfsNodeFlags`. -/
def VfsNodeReadable : BitVec 32 := 1 <<< 0
def VfsNodeWritable : BitVec 32 := 1 <<< 1
def VfsNodeDirectory : BitVec 32 := 1 <<< 2
def VfsNodeMemoryBacked : BitVec 32 := 1 <<< 3
def VfsNodeDiskBacked : BitVec 32 := 1 <<< 4
def VfsNodeCharacterDevice : BitVec 32 := 1 <<< 5
def VfsNodeVirtual : BitVec 32 := 1 <<< 6

def Node.abiFlags (node : Node) : BitVec 32 :=
  let byType := match node.type with
    | .memoryFile => VfsNodeReadable ||| VfsNodeMemoryBacked
    | .directory => VfsNodeDirectory
    | .characterDevice =>
      VfsNodeCharacterDevice |||
        match node.deviceKind with
        | .none => 0
        | .null => VfsNodeWritable
        | .zero | .tty | .console => VfsNodeReadable ||| VfsNodeWritable
    | .virtualFile => VfsNodeReadable ||| VfsNodeVirtual
    | .empty => 0
  let flags := if node.writable then byType ||| VfsNodeWritable else byType
  if node.diskBacked then
    (flags ||| VfsNodeReadable ||| VfsNodeDiskBacked) &&& ~~~VfsNodeMemoryBacked
  else flags

/-- The file after its size has been set; what it gains is zero. -/
def RamFile.resize (file : RamFile) (size : ℕ) : RamFile :=
  { file with
    data := fun i => if file.size ≤ i ∧ i < size then 0 else file.data i
    size := size }

/-- The file `link_ram_file` and `truncate_ram_file` accept a node for. -/
def Node.writableRamFile (node : Node) : Option ℕ :=
  if node.type = .memoryFile ∧ node.writable ∧ ¬node.diskBacked then node.ramFile else none

namespace Vfs

variable (v : Vfs)

/-! ## Looking up -/

/-- The node a pointer points to. -/
def nodeAt (i : ℕ) : Node := v.nodes.getD i {}

def ramFile (k : ℕ) : RamFile := v.ramFiles.slot k

def handle (k : ℕ) : FileHandle := v.handles.slot k

/-- The text behind a path pointer. -/
def text : PathRef → Path
  | .constant text => text
  | .ramFile k => (v.ramFile k).path
  | .ramDirectory k => (v.ramDirectories.slot k).path
  | .ramLink k => (v.ramLinks.slot k).path

def pathOf (node : Node) : Option Path := node.path.map v.text

/-- `find`, for a path that is normalized already. -/
def findNormalized (normalized : Path) : Option ℕ :=
  v.nodes.findIdx? fun node => v.pathOf node = some normalized

def find (path : Path) : Option ℕ := (normalizePath path).bind v.findNormalized

/-- The test of the parent that all functions make that put a node at a path. -/
def hasParentDirectory (path : Path) : Bool :=
  match (parentPath path).bind v.find with
  | none => false
  | some i => (v.nodeAt i).type = .directory

/-! ## Registering nodes -/

def addNode (node : Node) : Bool × Vfs :=
  match v.pathOf node with
  | none => (false, v)
  | some path =>
    if node.type = .empty ∨ kMaxVfsNodes ≤ v.nodes.length ∨ (v.find path).isSome then (false, v)
    else (true, { v with nodes := v.nodes ++ [node] })

def registerDirectory (path : Path) (writable : Bool) : Bool × Vfs :=
  v.addNode { path := some (.constant path), type := .directory, writable := writable }

def registerMemoryFile (path : Path) (base size : ℕ) : Bool × Vfs :=
  if base = 0 ∨ size = 0 then (false, v)
  else
    v.addNode
      { path := some (.constant path), type := .memoryFile, base := .address base, size := size }

def registerDiskFile (path : Path) (base size : ℕ) : Bool × Vfs :=
  if base = 0 ∨ size = 0 then (false, v)
  else
    v.addNode
      { path := some (.constant path), type := .memoryFile, base := .address base, size := size
        diskBacked := true }

def registerCharacterDevice (path : Path) (kind : DeviceKind) : Bool × Vfs :=
  if kind = .none then (false, v)
  else
    v.addNode
      { path := some (.constant path), type := .characterDevice, writable := true
        deviceKind := kind }

def registerVirtualFile (path : Path) (kind : VirtualFileKind) : Bool × Vfs :=
  if kind = .none then (false, v)
  else
    v.addNode { path := some (.constant path), type := .virtualFile, virtualKind := kind }

/-! ## RAM files, directories and links -/

/-- The node of a new file. -/
def fileNode (k : ℕ) : Node where
  path := some (.ramFile k)
  type := .memoryFile
  base := .ramData k
  writable := true
  ramFile := some k

/-- The node of a new link. -/
def linkNode (k target size : ℕ) : Node where
  path := some (.ramLink k)
  type := .memoryFile
  base := .ramData target
  size := size
  writable := true
  ramFile := some target

/-- The node of a new directory. -/
def directoryNode (k : ℕ) : Node where
  path := some (.ramDirectory k)
  type := .directory
  writable := true

/-! A function that changes the namespace is written over what its returns do: `accept` where it
returns true, `refuse` where it returns false, each with the file system as it is then. -/

section

variable {β : Type} (accept refuse : Vfs → β)

def createRamFileThen (path : Path) : β :=
  match copyPathChecked path with
  | none => refuse v
  | some normalized =>
    if (v.find normalized).isSome ∨ ¬v.hasParentDirectory normalized then refuse v
    else
      match v.ramFiles.find fun file => ¬file.used with
      | none => refuse v
      | some k =>
        match copyPathChecked normalized with
        | none => refuse v
        | some text =>
          let r := { v with ramFiles := v.ramFiles.set k { used := true, path := text } }.addNode
            (fileNode k)
          if r.1 then accept r.2 else refuse { v with ramFiles := v.ramFiles.set k {} }

def linkRamFileThen (existingPath newPath : Path) : β :=
  match normalizePath existingPath, copyPathChecked newPath with
  | some existing, some linked =>
    if (v.find linked).isSome then refuse v
    else
      match (v.find existing).bind fun i => (v.nodeAt i).writableRamFile with
      | none => refuse v
      | some target =>
        if ¬v.hasParentDirectory linked then refuse v
        else
          match v.ramLinks.find fun link => ¬link.used with
          | none => refuse v
          | some k =>
            let link : RamLink := { used := true, path := copyPath linked, target := target }
            let r := { v with ramLinks := v.ramLinks.set k link }.addNode
              (linkNode k target (v.ramFile target).size)
            if r.1 then accept r.2 else refuse { v with ramLinks := v.ramLinks.set k {} }
  | _, _ => refuse v

/-- Whether a handle points to a node of a RAM file. -/
def onRamFile (file : ℕ) (h : FileHandle) : Prop :=
  h.isOpen ∧ ∃ i ∈ h.node, (v.nodeAt i).ramFile = some file
  deriving Decidable

/-- Set the size of a file in its record, in its nodes and, where it lies before the offset, in the
handles. -/
def setFileSize (k size : ℕ) : Vfs :=
  { v with
    ramFiles := v.ramFiles.modify k fun file => file.resize size
    nodes := v.nodes.map fun node =>
      if node.ramFile = some k then { node with base := .ramData k, size := size } else node
    handles := v.handles.mapSlots fun h =>
      if v.onRamFile k h ∧ size < h.offset then { h with offset := size } else h }

def truncateRamFileThen (path : Path) (size : ℕ) : β :=
  match normalizePath path with
  | none => refuse v
  | some normalized =>
    if kMaxRamFileBytes < size then refuse v
    else
      match (v.find normalized).bind fun i => (v.nodeAt i).writableRamFile with
      | none => refuse v
      | some k => accept (v.setFileSize k size)

def setNodePath (i : ℕ) (path : PathRef) : Vfs :=
  { v with nodes := v.nodes.modify i fun node => { node with path := some path } }

/-- The path field of a link, a RAM file or a directory is overwritten, and the node points to it.
-/
def moveToLink (i k : ℕ) (path : Path) : Vfs :=
  { v with ramLinks := v.ramLinks.modify k fun link => { link with path := path } }.setNodePath i
    (.ramLink k)

def moveToFile (i k : ℕ) (path : Path) : Vfs :=
  { v with ramFiles := v.ramFiles.modify k fun file => { file with path := path } }.setNodePath i
    (.ramFile k)

def moveToDirectory (i k : ℕ) (path : Path) : Vfs :=
  { v with
    ramDirectories := v.ramDirectories.modify k fun d => { d with path := path } }.setNodePath i
      (.ramDirectory k)

/-- One round of the loop of `rename_ram_node`; `none` if the loop goes on. -/
def renameAt (old new : Path) (i : ℕ) : Option β :=
  let node := v.nodeAt i
  if v.pathOf node ≠ some old ∨ ¬node.writable ∨ node.diskBacked then none
  else
    match node.type, node.ramFile with
    | .memoryFile, some file =>
      match v.ramLinks.find fun link => link.used ∧ link.path = old with
      | some k => some (accept (v.moveToLink i k (copyPath new)))
      | none =>
        if ¬(v.ramFile file).used ∨ (v.ramFile file).path ≠ old then some (refuse v)
        else some (accept (v.moveToFile i file (copyPath new)))
    | .directory, none =>
      if ∃ child < v.nodes.length, child ≠ i ∧
          ∃ p ∈ v.pathOf (v.nodeAt child), pathHasPrefixChild p old then some (refuse v)
      else
        match v.ramDirectories.find fun d => d.used ∧ d.path = old with
        | some k => some (accept (v.moveToDirectory i k (copyPath new)))
        | none => none
    | _, _ => none

def renameRamNodeThen (oldPath newPath : Path) : β :=
  match normalizePath oldPath, copyPathChecked newPath with
  | some old, some new =>
    if old = new ∨ (v.find new).isSome ∨ ¬v.hasParentDirectory new then refuse v
    else ((List.range v.nodes.length).findSome? (v.renameAt accept refuse old new)).getD (refuse v)
  | _, _ => refuse v

/-- Clear the first link in use with this path. -/
def freeLink (path : Path) : Vfs :=
  match v.ramLinks.find fun link => link.used ∧ link.path = path with
  | some k => { v with ramLinks := v.ramLinks.set k {} }
  | none => v

/-- Clear the first directory in use with this path. -/
def freeDirectory (path : Path) : Vfs :=
  match v.ramDirectories.find fun d => d.used ∧ d.path = path with
  | some k => { v with ramDirectories := v.ramDirectories.set k {} }
  | none => v

/-- The loop that closes the gap a node leaves in the table. -/
def removeNode (i : ℕ) : Vfs := { v with nodes := v.nodes.eraseIdx i }

def stillLinked (file : ℕ) : Prop :=
  ∃ node ∈ v.nodes, node.type = .memoryFile ∧ node.ramFile = some file
  deriving Decidable

/-- Clear the record of a file to which no node refers. -/
def freeUnlinked (file : ℕ) : Vfs :=
  if v.stillLinked file then v else { v with ramFiles := v.ramFiles.set file {} }

def deleteRamFileThen (path : Path) : β :=
  match normalizePath path with
  | none => refuse v
  | some normalized =>
    match v.nodes.findIdx? fun node =>
        v.pathOf node = some normalized ∧ node.writable ∧ node.ramFile.isSome with
    | none => refuse v
    | some i =>
      match (v.nodeAt i).ramFile with
      | none => refuse v
      | some target =>
        if (v.handles.find fun h => v.onRamFile target h).isSome then refuse v
        else accept (((v.freeLink normalized).removeNode i).freeUnlinked target)

def createRamDirectoryThen (path : Path) : β :=
  match copyPathChecked path with
  | none => refuse v
  | some normalized =>
    if (v.find normalized).isSome ∨ ¬v.hasParentDirectory normalized then refuse v
    else
      match v.ramDirectories.find fun d => ¬d.used with
      | none => refuse v
      | some k =>
        match copyPathChecked normalized with
        | none => refuse v
        | some text =>
          let r := { v with
            ramDirectories := v.ramDirectories.set k { used := true, path := text } }.addNode
              (directoryNode k)
          if r.1 then accept r.2 else refuse { v with ramDirectories := v.ramDirectories.set k {} }

def deleteRamDirectoryThen (path : Path) : β :=
  match normalizePath path with
  | none => refuse v
  | some normalized =>
    if normalized.length ≤ 1 then refuse v
    else
      match v.nodes.findIdx? fun node =>
          v.pathOf node = some normalized ∧ node.type = .directory ∧ node.writable with
      | none => refuse v
      | some i =>
        if ∃ node ∈ v.nodes, ∃ p ∈ v.pathOf node, pathHasPrefixChild p normalized then
          refuse v
        else accept ((v.freeDirectory normalized).removeNode i)

end

/-! The functions themselves return true where they accept and false where they refuse. -/

def createRamFile : Path → Bool × Vfs := v.createRamFileThen (true, ·) (false, ·)

def linkRamFile : Path → Path → Bool × Vfs := v.linkRamFileThen (true, ·) (false, ·)

def truncateRamFile : Path → ℕ → Bool × Vfs := v.truncateRamFileThen (true, ·) (false, ·)

def renameRamNode : Path → Path → Bool × Vfs := v.renameRamNodeThen (true, ·) (false, ·)

def deleteRamFile : Path → Bool × Vfs := v.deleteRamFileThen (true, ·) (false, ·)

def createRamDirectory : Path → Bool × Vfs := v.createRamDirectoryThen (true, ·) (false, ·)

def deleteRamDirectory : Path → Bool × Vfs := v.deleteRamDirectoryThen (true, ·) (false, ·)

/-! ## Handles -/

def handleFor (id : ℕ) : Option ℕ :=
  if id = 0 then none else v.handles.find fun h => h.isOpen ∧ h.id = id

/-- `next_handle_id_++`, once more when the number drawn is 0: the number and the counter. -/
def takeHandleId (next : ℕ) : ℕ × ℕ :=
  let following (n : ℕ) := (n + 1) % 2 ^ 32
  if next = 0 then (following next, following (following next)) else (next, following next)

/-- Put a handle into the first entry that is not open. -/
def openHandle (node : Option ℕ) (dynamicVirtual : Bool) (path : Path) : ℕ × Vfs :=
  match v.handles.find fun h => ¬h.isOpen with
  | none => (0, v)
  | some k =>
    let id := takeHandleId v.nextHandleId
    (id.1,
      { v with
        handles := v.handles.set k
          { id := id.1, node := node, offset := 0, refCount := 1, isOpen := true
            dynamicVirtual := dynamicVirtual, path := copyPath path }
        nextHandleId := id.2 })

/-- `open`. -/
def openPath (out : Outside) (path : Path) : ℕ × Vfs :=
  match v.find path with
  | some i =>
    let node := v.nodeAt i
    if node.type ≠ .memoryFile ∧ node.type ≠ .characterDevice ∧ node.type ≠ .virtualFile then
      (0, v)
    else v.openHandle (some i) false ((v.pathOf node).getD [])
  | none =>
    match normalizePath path with
    | none => (0, v)
    | some normalized =>
      if out.dynamicProcFileSize normalized = 0 then (0, v)
      else v.openHandle none true normalized

/-- `node_size_for`. -/
def nodeSize (out : Outside) (node : Node) : ℕ :=
  if node.type = .virtualFile then (out.virtualFile node.virtualKind).length
  else
    match node.ramFile with
    | some k => (v.ramFile k).size
    | none => node.size

def setOffset (k offset : ℕ) : Vfs :=
  { v with handles := v.handles.modify k fun h => { h with offset := offset } }

/-- Read from a generated text. -/
def readText (k : ℕ) (text : List UInt8) (size : ℕ) : List UInt8 × Vfs :=
  let offset := (v.handle k).offset
  if text.length ≤ offset then ([], v)
  else
    let bytes := (text.drop offset).take size
    (bytes, v.setOffset k (offset + bytes.length))

/-- The bytes of a node that is not generated. -/
def nodeBytes (out : Outside) (node : Node) (offset size : ℕ) : List UInt8 :=
  match node.ramFile, node.base with
  | some k, _ => Bytes.load (v.ramFile k).data offset size
  | none, .address base => Bytes.load out.memory (base + offset) size
  | none, .ramData k => Bytes.load (v.ramFile k).data offset size

def readHandle (out : Outside) (id size : ℕ) : List UInt8 × Vfs :=
  match v.handleFor id with
  | none => ([], v)
  | some k =>
    let h := v.handle k
    if size = 0 then ([], v)
    else if h.dynamicVirtual then v.readText k (out.dynamicFile h.path) size
    else
      match h.node with
      | none => ([], v)
      | some i =>
        let node := v.nodeAt i
        match node.type with
        | .characterDevice =>
          match node.deviceKind with
          | .zero =>
            (List.replicate size 0, v.setOffset k ((h.offset + size) % 2 ^ 64))
          | .tty | .console =>
            let bytes := out.readInput size
            (bytes, v.setOffset k ((h.offset + bytes.length) % 2 ^ 64))
          | _ => ([], v)
        | .virtualFile => v.readText k (out.virtualFile node.virtualKind) size
        | _ =>
          let nodeSize := v.nodeSize out node
          if nodeSize ≤ h.offset then ([], v)
          else
            let toCopy := min size (nodeSize - h.offset)
            (v.nodeBytes out node h.offset toCopy, v.setOffset k (h.offset + toCopy))

/-- A file after bytes have been stored in it. -/
def storeBytes (file : RamFile) (offset : ℕ) (bytes : List UInt8) : RamFile :=
  { file with
    data := Bytes.store file.data offset bytes
    size := max file.size (offset + bytes.length) }

def writeHandle (out : Outside) (id : ℕ) (bytes : List UInt8) : ℕ × Vfs :=
  match v.handleFor id with
  | none => (0, v)
  | some k =>
    let h := v.handle k
    match h.node with
    | none => (0, v)
    | some i =>
      let node := v.nodeAt i
      let size := bytes.length
      if size = 0 then (0, v)
      else if node.type = .characterDevice then
        match node.deviceKind with
        | .null | .zero => (size, v.setOffset k ((h.offset + size) % 2 ^ 64))
        | .tty | .console =>
          let written := out.terminalWrite bytes
          (written, v.setOffset k ((h.offset + written) % 2 ^ 64))
        | .none => (0, v)
      else
        match node.writable, node.ramFile with
        | true, some f =>
          if kMaxRamFileBytes ≤ h.offset then (0, v)
          else
            let toCopy := min size (kMaxRamFileBytes - h.offset)
            let file := storeBytes (v.ramFile f) h.offset (bytes.take toCopy)
            (toCopy,
              { v.setOffset k (h.offset + toCopy) with
                ramFiles := v.ramFiles.set f file
                nodes := v.nodes.modify i fun node =>
                  { node with base := .ramData f, size := file.size } })
        | _, _ => (0, v)

def seekHandle (out : Outside) (id offset : ℕ) : Bool × Vfs :=
  match v.handleFor id with
  | none => (false, v)
  | some k =>
    let h := v.handle k
    if h.dynamicVirtual then
      if out.dynamicProcFileSize h.path < offset then (false, v) else (true, v.setOffset k offset)
    else
      match h.node with
      | none => (false, v)
      | some i =>
        if v.nodeSize out (v.nodeAt i) < offset then (false, v)
        else (true, v.setOffset k offset)

def retainHandle (id : ℕ) : Bool × Vfs :=
  match v.handleFor id with
  | none => (false, v)
  | some k =>
    if (v.handle k).refCount = 0xffffffff then (false, v)
    else
      (true,
        { v with handles := v.handles.modify k fun h => { h with refCount := h.refCount + 1 } })

def handleOffset (id : ℕ) : ℕ :=
  match v.handleFor id with
  | none => 0
  | some k => (v.handle k).offset

def close (id : ℕ) : Bool × Vfs :=
  match v.handleFor id with
  | none => (false, v)
  | some k =>
    if 1 < (v.handle k).refCount then
      (true,
        { v with handles := v.handles.modify k fun h => { h with refCount := h.refCount - 1 } })
    else (true, { v with handles := v.handles.set k {} })

/-! ## Reporting -/

/-- `link_count_for`. -/
def linkCount (node : Node) : ℕ :=
  match node.ramFile with
  | none => 1
  | some k =>
    let links := v.nodes.countP fun n => n.type = .memoryFile ∧ n.ramFile = some k
    if links = 0 then 1 else links

/-- `hybrid::VfsStatInfo`. -/
structure StatInfo where
  type : NodeType
  flags : BitVec 32
  size : ℕ
  links : ℕ
  path : Path
  deriving DecidableEq, Repr

/-- What `stat` reports about the entries of `/proc` that exist only while their process does;
`none` for paths that it looks up in the node table. -/
def dynamicStat (out : Outside) (normalized : Path) : Option (Option StatInfo) :=
  match out.dynamicKind normalized with
  | .none | .pidIo => none
  | .pidDirectory | .pidTask | .pidTaskTidDirectory =>
    some (some ⟨.directory, VfsNodeDirectory, 0, 1, copyPath normalized⟩)
  | .pidFd | .pidFdinfo =>
    let size := out.dynamicProcFileSize normalized
    some (some ⟨.directory, VfsNodeDirectory, size, 1, copyPath normalized⟩)
  | _ =>
    let size := out.dynamicProcFileSize normalized
    let flags := VfsNodeReadable ||| VfsNodeVirtual
    some (if size ≠ 0 then some ⟨.virtualFile, flags, size, 1, copyPath normalized⟩ else none)

def stat (out : Outside) (path : Path) : Option StatInfo :=
  match (normalizePath path).bind (dynamicStat out) with
  | some info => info
  | none =>
    match v.find path with
    | none => none
    | some i =>
      let node := v.nodeAt i
      match v.pathOf node with
      | none => none
      | some text =>
        if node.type = .empty then none
        else
          some ⟨node.type, node.abiFlags, v.nodeSize out node, v.linkCount node,
            copyPath text⟩

end Vfs
end IanOS
