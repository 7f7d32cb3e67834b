import IanOS.Lib.WordStack

/-!
# The interrupt stubs

A model of `kernel/src/arch/x86_64/interrupt_stubs.asm`, instruction by instruction: the macros
that spill registers into per-processor tables and rebuild the processor's frame, the common path
that saves and restores all registers around `interrupt_dispatch`, and the delivery of an interrupt
and the `iretq` that the hardware performs.

Stack memory is a map from the addresses of words to words.  Every access is to an address that is
a multiple of eight, because delivery aligns the stack first, so distinct addresses never overlap.
The spill tables and the local interrupt controller's identification register are not stack memory
and are kept apart.  Flags set by the stubs' own instructions are never returned to the interrupted
program, so only the conditional jumps they decide are modelled.
-/

namespace IanOS

open Function

open WordStack (Word64 slot)

/-- The fifteen general registers other than the stack pointer. -/
structure Registers where
  rax : Word64
  rbx : Word64
  rcx : Word64
  rdx : Word64
  rsi : Word64
  rdi : Word64
  rbp : Word64
  r8 : Word64
  r9 : Word64
  r10 : Word64
  r11 : Word64
  r12 : Word64
  r13 : Word64
  r14 : Word64
  r15 : Word64
  deriving DecidableEq

/-! Writing one register. -/

namespace Registers

def setRax (v : Word64) (g : Registers) : Registers := { g with rax := v }

def setRbx (v : Word64) (g : Registers) : Registers := { g with rbx := v }

def setRcx (v : Word64) (g : Registers) : Registers := { g with rcx := v }

def setRdx (v : Word64) (g : Registers) : Registers := { g with rdx := v }

def setRsi (v : Word64) (g : Registers) : Registers := { g with rsi := v }

def setRdi (v : Word64) (g : Registers) : Registers := { g with rdi := v }

def setRbp (v : Word64) (g : Registers) : Registers := { g with rbp := v }

def setR8 (v : Word64) (g : Registers) : Registers := { g with r8 := v }

def setR9 (v : Word64) (g : Registers) : Registers := { g with r9 := v }

def setR10 (v : Word64) (g : Registers) : Registers := { g with r10 := v }

def setR11 (v : Word64) (g : Registers) : Registers := { g with r11 := v }

def setR12 (v : Word64) (g : Registers) : Registers := { g with r12 := v }

def setR13 (v : Word64) (g : Registers) : Registers := { g with r13 := v }

def setR14 (v : Word64) (g : Registers) : Registers := { g with r14 := v }

def setR15 (v : Word64) (g : Registers) : Registers := { g with r15 := v }

end Registers

/-- The eight spill tables `syscall_saved_*`. -/
inductive SpillTable
  | rax | rbx | rcx | rdx | rsi | rdi | r10 | r11
  deriving DecidableEq

/-- Processor and memory.  A spill table is indexed by the byte offset into it. -/
structure Cpu where
  gpr : Registers
  rsp : Word64
  rip : Word64
  rflags : Word64
  cs : Word64
  ss : Word64
  mem : Word64 → Word64
  saved : SpillTable → Word64 → Word64

/-- What the platform contributes: the stacks named by the task state segment, the identification
register of the local interrupt controller, and the addresses of the spill tables. -/
structure Platform where
  rsp0 : Word64
  ist1 : Word64
  lapicId : BitVec 32
  table : SpillTable → Word64

namespace Cpu

/-! ## Instructions -/

def push (s : Cpu) (v : Word64) : Cpu :=
  { s with rsp := s.rsp - 8, mem := update s.mem (s.rsp - 8) v }

/-- The word at `[rsp + offset]`. -/
def word (s : Cpu) (offset : ℕ) : Word64 := s.mem (s.rsp + BitVec.ofNat 64 offset)

/-- `mov [rsp + offset], v`. -/
def setWord (s : Cpu) (offset : ℕ) (v : Word64) : Cpu :=
  { s with mem := update s.mem (s.rsp + BitVec.ofNat 64 offset) v }

/-- `add rsp, n`. -/
def addRsp (s : Cpu) (n : ℕ) : Cpu := { s with rsp := s.rsp + BitVec.ofNat 64 n }

def setGpr (s : Cpu) (f : Registers → Registers) : Cpu := { s with gpr := f s.gpr }

/-- `mov reg, [rsp + offset]`, with the register given by how a word is put into it. -/
def load (s : Cpu) (offset : ℕ) (put : Word64 → Registers → Registers) : Cpu :=
  s.setGpr (put (s.word offset))

/-- `pop reg`. -/
def pop (s : Cpu) (put : Word64 → Registers → Registers) : Cpu := (s.load 0 put).addRsp 8

/-! ## The spill tables -/

/-- `LOAD_SCRATCH_INDEX`: the processor's byte offset into the tables, in `rbx`. -/
def loadScratchIndex (p : Platform) (s : Cpu) : Cpu :=
  let s := s.setGpr fun g => g.setRdx 0xffff800000100020#64
  let s := s.setGpr fun g => g.setRbx (p.lapicId.setWidth 64)
  let s := s.setGpr fun g => g.setRbx (g.rbx >>> 24)
  let s := s.setGpr fun g => g.setRbx (g.rbx &&& 31#64)
  s.setGpr fun g => g.setRbx (g.rbx <<< 3)

/-- Copy `rax` into a table: `lea rdx, [rel table]` and `mov [rdx + rbx], rax`. -/
def spill (p : Platform) (t : SpillTable) (s : Cpu) : Cpu :=
  let s := s.setGpr fun g => g.setRdx (p.table t)
  { s with saved := update s.saved t (update (s.saved t) s.gpr.rbx s.gpr.rax) }

/-- `RESTORE_SAVED`: copy a table's entry into the saved frame. -/
def restoreSaved (p : Platform) (t : SpillTable) (offset : ℕ) (s : Cpu) : Cpu :=
  let s := s.setGpr fun g => g.setRdx (p.table t)
  let s := s.setGpr fun g => g.setRax (s.saved t g.rbx)
  s.setWord offset s.gpr.rax

/-- `SAVE_SCRATCH`. -/
def saveScratch (p : Platform) (s : Cpu) : Cpu :=
  let s := s.push s.gpr.rax
  let s := s.push s.gpr.rbx
  let s := s.push s.gpr.rdx
  let s := s.loadScratchIndex p
  let s := (s.load 16 Registers.setRax).spill p .rax
  let s := (s.load 8 Registers.setRax).spill p .rbx
  let s := (s.setGpr fun g => g.setRax g.rcx).spill p .rcx
  let s := (s.load 0 Registers.setRax).spill p .rdx
  let s := (s.setGpr fun g => g.setRax g.rsi).spill p .rsi
  let s := (s.setGpr fun g => g.setRax g.rdi).spill p .rdi
  let s := (s.setGpr fun g => g.setRax g.r10).spill p .r10
  let s := (s.setGpr fun g => g.setRax g.r11).spill p .r11
  let s := s.pop Registers.setRdx
  let s := s.pop Registers.setRbx
  s.pop Registers.setRax

/-! ## Rebuilding the processor's frame -/

/-- `push_frame` of both macros: five words of the interrupted program's state, then the error
code and the vector. -/
def pushFrame (error vector : Word64) (s : Cpu) : Cpu :=
  let s := s.push s.gpr.r11
  let s := s.push s.gpr.rdx
  let s := s.push s.gpr.rcx
  let s := s.push s.gpr.rbx
  let s := s.push s.gpr.rax
  let s := s.push error
  s.push vector

/-- What the two macros share: read the processor's frame, `offset` bytes above the stack pointer,
and leave the stack pointer where the rebuilt frame goes.  For an interrupt from kernel mode the
macros take the frame to be three words long and compute the stack pointer from that. -/
def readFrame (offset : ℕ) (s : Cpu) : Cpu :=
  let s := s.load offset Registers.setRax
  let s := s.load (offset + 8) Registers.setRbx
  let s := s.load (offset + 16) Registers.setRcx
  if s.gpr.rbx &&& 3#64 ≠ 0 then
    let s := s.load (offset + 24) Registers.setRdx
    let s := s.load (offset + 32) Registers.setR11
    s.addRsp (offset + 40)
  else
    let s := s.setGpr fun g => g.setRdx (s.rsp + BitVec.ofNat 64 (offset + 24))
    let s := s.setGpr fun g => g.setR11 0x10#64
    s.addRsp (offset + 24)

/-- `NORMALIZE_NOERR`, up to the jump to `interrupt_common`. -/
def normalizeNoErr (p : Platform) (vector : ℕ) (s : Cpu) : Cpu :=
  let s := s.saveScratch p
  let s := s.readFrame 0
  s.pushFrame 0 (BitVec.ofNat 64 vector)

/-- `NORMALIZE_ERR`, up to the jump to `interrupt_common`; the error code lies below the frame. -/
def normalizeErr (p : Platform) (vector : ℕ) (s : Cpu) : Cpu :=
  let s := s.saveScratch p
  let s := s.load 0 Registers.setR10
  let s := s.readFrame 8
  s.pushFrame s.gpr.r10 (BitVec.ofNat 64 vector)

/-! ## The common path -/

open Registers in
/-- The fifteen pushes at the head of `interrupt_common`. -/
def pushRegisters (s : Cpu) : Cpu :=
  [rax, rbx, rcx, rdx, rsi, rdi, rbp, r8, r9, r10, r11, r12, r13, r14, r15].foldl
    (fun s r => s.push (r s.gpr)) s

/-- A sequence of `RESTORE_SAVED`. -/
def restoreAll (p : Platform) (entries : List (SpillTable × ℕ)) (s : Cpu) : Cpu :=
  entries.foldl (fun s e => s.restoreSaved p e.1 e.2) s

/-- The registers the macros use, with their offsets in the frame. -/
def scratchEntries : List (SpillTable × ℕ) :=
  [(.r11, 32), (.r10, 40), (.rdx, 88), (.rcx, 96), (.rbx, 104), (.rax, 112)]

/-- What is patched, once more and with two registers added, for a system call. -/
def syscallEntries : List (SpillTable × ℕ) :=
  [(.r11, 32), (.r10, 40), (.rdi, 72), (.rsi, 80), (.rdx, 88), (.rcx, 96), (.rbx, 104), (.rax, 112)]

/-- Patch the spilled registers into the frame. -/
def patchFrame (p : Platform) (s : Cpu) : Cpu :=
  let s := s.loadScratchIndex p
  let s := s.restoreAll p scratchEntries
  if s.word 120 ≠ 128 then s else s.restoreAll p syscallEntries

/-- The fifteen pops at `.restore`. -/
def popRegisters (s : Cpu) : Cpu :=
  let s := s.pop Registers.setR15
  let s := s.pop Registers.setR14
  let s := s.pop Registers.setR13
  let s := s.pop Registers.setR12
  let s := s.pop Registers.setR11
  let s := s.pop Registers.setR10
  let s := s.pop Registers.setR9
  let s := s.pop Registers.setR8
  let s := s.pop Registers.setRbp
  let s := s.pop Registers.setRdi
  let s := s.pop Registers.setRsi
  let s := s.pop Registers.setRdx
  let s := s.pop Registers.setRcx
  let s := s.pop Registers.setRbx
  s.pop Registers.setRax

/-- `iretq`: in 64-bit mode it takes five words off the stack, whatever the privilege level. -/
def iretq (s : Cpu) : Cpu :=
  { s with
    rip := s.word 0
    cs := s.word 8
    rflags := s.word 16
    rsp := s.word 24
    ss := s.word 32 }

/-- `interrupt_common`; `dispatch` is the call of `interrupt_dispatch`. -/
def interruptCommon (p : Platform) (dispatch : Cpu → Cpu) (s : Cpu) : Cpu :=
  let s := s.pushRegisters
  let s := s.patchFrame p
  let s := s.setGpr fun g => g.setRdi s.rsp
  let s := dispatch s
  let s := if s.gpr.rax = 0 then s else { s with rsp := s.gpr.rax }
  let s := s.popRegisters
  let s := s.addRsp 16
  s.iretq

/-! ## Delivery -/

/-- The vectors on which the processor pushes an error code. -/
def pushesErrorCode (vector : ℕ) : Bool := vector ∈ [8, 10, 11, 12, 13, 14, 17, 21, 29, 30]

/-- Only the double fault's gate names a stack of its own (`initialize_idt`). -/
def usesIst1 (vector : ℕ) : Bool := vector = 8

/-- The processor takes an interrupt: it selects the stack, aligns it to sixteen bytes and pushes
the interrupted program's state. -/
def deliver (p : Platform) (vector : ℕ) (error : Word64) (s : Cpu) : Cpu :=
  let base :=
    if usesIst1 vector then p.ist1 else if s.cs &&& 3#64 ≠ 0 then p.rsp0 else s.rsp
  let t := { s with rsp := base &&& ~~~15#64, cs := 0x08#64 }
  let t := t.push s.ss
  let t := t.push s.rsp
  let t := t.push s.rflags
  let t := t.push s.cs
  let t := t.push s.rip
  if pushesErrorCode vector then t.push error else t

end Cpu

/-! ## The stubs -/

inductive StubKind
  | noErr | err
  deriving DecidableEq, Repr

open StubKind in
/-- The lines `ISR_NOERR` and `ISR_ERR`, for vectors 0 to 31. -/
def isrStubs : List StubKind :=
  [noErr, noErr, noErr, noErr, noErr, noErr, noErr, noErr, err, noErr, err, err, err, err, err,
    noErr, noErr, err, noErr, noErr, noErr, err, noErr, noErr, noErr, noErr, noErr, noErr, noErr,
    err, err, noErr]

/-- The stub of each vector that has one: the exceptions, the sixteen interrupt lines, the timer,
the inter-processor interrupt and the system call. -/
def stubKind (vector : ℕ) : Option StubKind :=
  if vector < 32 then isrStubs[vector]?
  else if vector < 48 ∨ vector = 64 ∨ vector = 65 ∨ vector = 128 then some .noErr
  else none

/-- An interrupt, from its delivery to the final `iretq`. -/
def Cpu.interrupt (p : Platform) (dispatch : Cpu → Cpu) (kind : StubKind) (vector : ℕ)
    (error : Word64) (s : Cpu) : Cpu :=
  let s := s.deliver p vector error
  let s := match kind with
    | .noErr => s.normalizeNoErr p vector
    | .err => s.normalizeErr p vector
  s.interruptCommon p dispatch

end IanOS
