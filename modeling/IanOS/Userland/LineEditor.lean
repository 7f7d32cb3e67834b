import IanOS.Lib.Text
import IanOS.Fs.Path
import Mathlib.Data.UInt

/-!
# The line editor of the shell

`interactive_shell_loop` of `userland/src/init.cpp` edits one line in a buffer of `kLineCapacity`
bytes, with its length and a cursor in variables of their own.  A key inserts, removes or moves;
some keys fetch a line of the history, and Tab completes the word before the cursor.

What is written to the terminal is left out, as is the command that Enter runs.  It may write into
the buffer; `Input.rest` is what it leaves there.
-/

namespace IanOS.InitShell

open Function (update)

open Text

abbrev Buffer := ℕ → UInt8

def kLineCapacity : ℕ := 64

def kHistoryCapacity : ℕ := 8

/-! ## The history -/

structure History where
  lines : ℕ → Buffer := fun _ _ => 0
  count : ℕ := 0
  next : ℕ := 0

namespace History

variable (h : History)

def push (line : Buffer) : History :=
  if line 0 = 0 then h
  else
    let lastIndex :=
      if h.count = 0 then kHistoryCapacity else (h.next + kHistoryCapacity - 1) % kHistoryCapacity
    if lastIndex ≠ kHistoryCapacity ∧ same (h.lines lastIndex) line kLineCapacity 0 = true then h
    else
      { lines := update h.lines h.next (copy kLineCapacity line)
        next := (h.next + 1) % kHistoryCapacity
        count := if h.count < kHistoryCapacity then h.count + 1 else h.count }

/-- `history_at`. -/
def entry (view : ℕ) : Buffer :=
  if view ≥ h.count then ofList []
  else
    let oldest := if h.count = kHistoryCapacity then h.next else 0
    h.lines ((oldest + view) % kHistoryCapacity)

end History

/-! ## The names that can be completed -/

def kCommands : List String :=
  ["help", "clear", "history", "exit", "echo", "status", "pid", "ids", "fgpgid", "ctx",
    "argv", "env",
   "export", "unset", "which", "stat", "counts", "spawn", "jobs", "fg", "bg", "stop", "usched",
   "nextuser", "uyielddemo", "upreemptdemo", "run", "kill", "wait", "reap", "pwd", "cd",
     "ls", "cat",
   "sh", "fds", "ps", "mem", "cpus", "devices", "fb", "ticks"]

def kExternalCommands : List String :=
  ["hello", "args", "cat", "ls", "uname", "hostname", "free", "meminfo", "uptime", "date", "rtc",
   "cal", "dmesg", "kmsg", "loadavg", "ps", "processes", "cmdline", "procstat", "pwd", "env",
   "sysinfo", "fastfetch", "sysctl", "id", "ids", "groups", "ctx", "echo", "sleep", "true", "false",
   "touch", "append", "rm", "cp", "mv", "dd", "wc", "grep", "tee", "mkdir", "rmdir",
     "err", "printenv",
   "stat", "statfs", "filesystems", "vfsstat", "file", "lsattr", "namei", "tree",
     "whoami", "basename",
   "dirname", "head", "tail", "test", "sort", "uniq", "find", "hexdump", "readelf", "sha256sum",
   "sha224sum", "sha512sum", "sha384sum", "sha1sum", "md5sum", "cmp", "cksum", "fold", "printf",
   "strings", "nl", "tr", "sed", "cut", "paste", "rev", "tac", "seq", "expr", "xargs", "yes", "od",
   "base64", "which", "sh", "duptest", "fds", "lsof", "fdinh", "ln", "readlink", "realpath",
   "truncate", "blk", "mount", "df", "du", "lsblk", "findmnt", "mountinfo", "iostat", "diskstats",
   "partitions", "lsmem", "iomem", "bootinfo", "fbset", "lspci", "lsdev", "devices", "irqstat",
   "interrupts", "mmstat", "buddyinfo", "heapinfo", "procvmstat", "netstat", "route",
     "ip", "ifconfig",
   "ethtool", "lsdrv", "lsmod", "modinfo", "pipeinfo", "pmap", "maps", "pcmdline", "proccomm",
   "procenv", "procwd", "procexe", "procroot", "procfdinfo", "proclimits", "procio", "proctask",
   "version", "limits", "imginfo", "abi", "features", "kill", "killall", "pgrep", "pidof", "nproc",
   "lscpu", "cpuinfo", "schedstat", "scheddebug", "vmstat", "top", "pstree", "uyield", "ubusy",
   "slowcat", "burst", "loop", "devio", "tty", "ttystat", "stty", "ttyread", "clear"]

/-- The tables of commands, in the order they are searched. -/
def commandNames : List (List UInt8) := (kCommands ++ kExternalCommands).map Path.ascii

/-- A text without a zero, as a system call hands it out. -/
abbrev CText := { text : List UInt8 // ∀ c ∈ text, c ≠ 0 }

/-- What the kernel answers when asked for the number of files and for the path of each. -/
structure Vfs where
  count : Option ℕ
  path : ℕ → Option CText

/-- The paths `complete_path_token` looks at. -/
def Vfs.paths (vfs : Vfs) : List CText :=
  match vfs.count with
  | none => []
  | some count => (List.range (min count 128)).filterMap vfs.path

/-! ## The editor -/

structure Editor where
  line : Buffer
  draft : Buffer
  length : ℕ := 0
  cursor : ℕ := 0
  historyView : ℕ
  history : History
  exited : Bool := false

/-- A key, with what the rest of the system does if it is asked. -/
structure Input where
  key : UInt8
  vfs : Vfs
  rest : Buffer

def isBlank (c : UInt8) : Bool := c = 0x20 ∨ c = 0x09

namespace Editor

variable (s : Editor)

def redrawInput (target : ℕ) : Editor :=
  { s with cursor := if target > s.length then s.length else target }

def replaceInput (text : Buffer) : Editor :=
  let line := copy kLineCapacity text
  let length := lengthUpTo line kLineCapacity 0
  { s with line := line, length := length }.redrawInput length

/-- A gap is made at the cursor and `c` put into it. -/
def insertAtCursor (c : UInt8) : Buffer :=
  let line := shiftUp s.line s.cursor (s.length + 1 - s.cursor)
  update (update line s.cursor c) (s.length + 1) 0

/-- `append_completion_suffix`, from letter `i` of the match on. -/
def appendCompletionSuffix (s : Editor) (found : Buffer) : ℕ → ℕ → Editor
  | 0, _ => s
  | n + 1, i =>
    if found i ≠ 0 ∧ s.length + 1 < kLineCapacity then
      appendCompletionSuffix
        { s with
          line := s.insertAtCursor (found i), cursor := s.cursor + 1, length := s.length + 1 }
        found n (i + 1)
    else s

/-- The entries of a table that begin with a token. -/
def matching (names : List (List UInt8)) (token : Buffer) : List (List UInt8) :=
  names.filter fun name => startsWith (ofList name) token kLineCapacity 0

/-- The token before the cursor, from `start` on. -/
def tokenFrom (start : ℕ) : Buffer :=
  fun i => if start + i < s.cursor ∧ i + 1 < kLineCapacity then s.line (start + i) else 0

/-- The number of matches and the editor, with the only match inserted and a space written after it.
-/
def completeCommandToken : ℕ × Editor :=
  let found := matching commandNames (s.tokenFrom 0)
  match found with
  | [name] =>
    let s := s.appendCompletionSuffix (ofList name) kLineCapacity s.cursor
    let s :=
      if s.length + 1 < kLineCapacity then
        { s with
          line := update (update s.line s.cursor 0x20) (s.length + 1) 0
          cursor := s.cursor + 1
          length := s.length + 1 }
      else s
    (1, s)
  | _ => (found.length, s)

/-- The place after the last blank before the cursor. -/
def tokenStart (line : Buffer) : ℕ → ℕ
  | 0 => 0
  | n + 1 => if isBlank (line n) then n + 1 else tokenStart line n

def completePathToken (vfs : Vfs) : ℕ × Editor :=
  let start := tokenStart s.line s.cursor
  let token := s.tokenFrom start
  if token 0 = 0 then (0, s)
  else
    let found := matching (vfs.paths.map Subtype.val) token
    match found with
    | [path] =>
      (1, s.appendCompletionSuffix (copy kLineCapacity (ofList path)) kLineCapacity
        (s.cursor - start))
    | _ => (found.length, s)

def completeInput (vfs : Vfs) : Editor :=
  let commandToken := (List.range s.cursor).all fun i => !isBlank (s.line i)
  let (count, s') := if commandToken then s.completeCommandToken else s.completePathToken vfs
  if count = 0 then s'
  else
    let s' := { s' with line := update s'.line s'.length 0 }
    if count = 1 then s'.redrawInput s'.cursor else s'

def deleteAtCursor : Editor :=
  if s.cursor < s.length then
    { s with
      line := shiftDown s.line s.cursor (s.length - s.cursor), length := s.length - 1 }.redrawInput
      s.cursor
  else s

def enter (rest : Buffer) : Editor :=
  let history := s.history.push (update s.line s.length 0)
  { s with
    line := update rest 0 0
    draft := update s.draft 0 0
    length := 0
    cursor := 0
    historyView := history.count
    history := history }

/-- The previous line of the history. -/
def earlier : Editor :=
  if s.history.count ≠ 0 ∧ s.historyView ≠ 0 then
    let draft := if s.historyView = s.history.count then copy kLineCapacity s.line else s.draft
    let view := s.historyView - 1
    { s with draft := draft, historyView := view }.replaceInput (s.history.entry view)
  else s

/-- The next line of the history, and the draft after the last. -/
def later : Editor :=
  if s.historyView < s.history.count then
    let view := s.historyView + 1
    { s with historyView := view }.replaceInput
      (if view = s.history.count then s.draft else s.history.entry view)
  else s

def backspace : Editor :=
  if s.cursor ≠ 0 then
    let target := s.cursor - 1
    { s with
      line := shiftDown s.line target (s.length - target)
      length := s.length - 1
      cursor := s.cursor - 1 }.redrawInput target
  else s

def type (c : UInt8) : Editor :=
  let line := s.insertAtCursor c
  let s := { s with line := line, length := s.length + 1 }.redrawInput (s.cursor + 1)
  { s with historyView := s.history.count, draft := copy kLineCapacity line }

def press (input : Input) : Editor :=
  let c := input.key
  if c = 0x11 ∨ c = 0x12 then s
  else if c = 0x0d ∨ c = 0x0a then s.enter input.rest
  else if c = 0x10 then s.earlier
  else if c = 0x0e then s.later
  else if c = 0x04 then
    if s.length = 0 then { s with exited := true } else s.deleteAtCursor
  else if c = 0x0c then s.redrawInput s.cursor
  else if c = 0x01 then s.redrawInput 0
  else if c = 0x05 then s.redrawInput s.length
  else if c = 0x02 then if s.cursor ≠ 0 then s.redrawInput (s.cursor - 1) else s
  else if c = 0x06 then if s.cursor < s.length then s.redrawInput (s.cursor + 1) else s
  else if c = 0x7f then s.deleteAtCursor
  else if c = 0x09 then s.completeInput input.vfs
  else if c = 0x08 then s.backspace
  else if c ≥ 32 ∧ c < 127 ∧ s.length + 1 < kLineCapacity then s.type c
  else s

/-- A shell that has exited reads no keys. -/
def step (input : Input) : Editor := if s.exited then s else s.press input

end Editor

/-- The loop begins: an empty text is put into the buffers. -/
def Editor.start (line draft : Buffer) (history : History) : Editor where
  line := update line 0 0
  draft := update draft 0 0
  historyView := history.count
  history := history

end IanOS.InitShell
