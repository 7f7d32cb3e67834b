import IanOS.Syscall.Dispatch
import IanOS.Userspace.HandleReferences
import IanOS.Userspace.Streams

/-!
# Redirected output

`Write` sends the text of a process to its standard output or standard error descriptor, and to the
terminal when that did not work.  The descriptors are on `/dev/tty` when a process is created; they
can be redirected to files and pipes.

The handler `write` comes with the bytes it passes to `terminal::write`.  A call is `Faithful` to a redirected descriptor when it passes no bytes to the terminal and reports as
many bytes as it appended.  The handler is faithful to pipes.  A file that takes no byte (a full or
read-only one, or a generated one) is taken for a missing descriptor, and the text is shown on the
terminal instead (`redirected_write_faithful_iff`).
-/

namespace IanOS

open Bytes List Table Machine Program

/-! ## The handler -/

namespace Syscall

open Result (notFound invalidPointer wouldBlock)

variable {V : Type}

/-- Address and length of the text. -/
def writeBuffer (arg0 arg1 arg2 : ℕ) : ℕ × ℕ := if arg2 = 0 then (arg0, arg1) else (arg1, arg2)

variable [FileSystem V] (ext : External V) (s : Machine V)

/-- What the handler does with the text of a caller's standard descriptor. -/
def toStandard (pid fd buffer size : ℕ) : (Result × List UInt8) × Machine V :=
  let r := s.writeFile pid fd buffer size
  if r.1 ≠ 0 then ((⟨r.1, kErrorNone⟩, []), r.2)
  else if r.2.pipeWriteWouldBlock pid fd then ((wouldBlock, []), r.2)
  else if r.2.isPipeFd pid fd then ((notFound, []), r.2)
  else ((⟨ext.written, kErrorNone⟩, load r.2.userByte buffer size), r.2)

lemma run_ite {α : Type} (c : Prop) [Decidable c] (p q : Code V α) :
    run exec (if c then p else q) s =
      if c then run exec p s else run exec q s :=
  apply_ite (fun p => run exec p s) c p q

lemma run_writeText (fd buffer size : ℕ) :
    run exec (writeText fd buffer size ext) s =
      if ¬ bufferAccepted buffer size then ((invalidPointer, []), s)
      else if (fd = kStdoutFd ∨ fd = kStderrFd) ∧ s.currentPid ≠ 0 then
        toStandard ext s s.currentPid (narrow fd) buffer size
      else ((⟨ext.written, kErrorNone⟩, load s.userByte buffer size), s) := by
  show run exec (if ¬ bufferAccepted buffer size then _
    else if (fd = kStdoutFd ∨ fd = kStderrFd) ∧ s.currentPid ≠ 0 then _ else _) s = _
  rw [run_ite, run_ite]
  congr 2
  let w := s.writeFile s.currentPid (narrow fd) buffer size
  show run exec (if w.1 ≠ 0 then _
    else if w.2.pipeWriteWouldBlock s.currentPid (narrow fd) then _
    else if w.2.isPipeFd s.currentPid (narrow fd) then _ else _) w.2 = _
  rw [run_ite, run_ite, run_ite]
  rfl

/-- On a standard descriptor of the caller. -/
lemma run_write_standard {fd : ℕ} (hfd : fd = kStdoutFd ∨ fd = kStderrFd)
    (hpid : s.currentPid ≠ 0) (arg1 arg2 : ℕ) :
    run exec (write fd arg1 arg2 ext) s =
      let b := writeBuffer fd arg1 arg2
      if bufferAccepted b.1 b.2 then toStandard ext s s.currentPid fd b.1 b.2
      else ((invalidPointer, []), s) := by
  have hnarrow : narrow fd = fd := by
    obtain rfl | rfl := hfd <;> rfl
  have htext (buffer size : ℕ) : run exec (writeText fd buffer size ext) s =
      if bufferAccepted buffer size then toStandard ext s s.currentPid fd buffer size
      else ((invalidPointer, []), s) := by
    rw [run_writeText, ite_not, if_pos (And.intro hfd hpid), hnarrow]
  rw [write, writeBuffer]
  by_cases hzero : arg2 = 0
  · rw [if_neg (by simp [hzero]), if_pos hzero, if_pos hzero]
    exact htext _ _
  · rw [if_pos ⟨hfd, hzero⟩, if_neg hzero]
    exact htext _ _

end Syscall

/-! ## Files that take bytes -/

namespace Vfs

variable (v : Vfs)

/-- The number `id` is that of handle `k`, which is open on node `i`. -/
structure OpenOn (id k i : ℕ) : Prop where
  handleFor : v.handleFor id = some k
  node : (v.handle k).node = some i

/-- Open on the terminal. -/
def OnTerminal (id : ℕ) : Prop :=
  ∃ k i, v.OpenOn id k i ∧ (v.nodeAt i).type = .characterDevice ∧
    ((v.nodeAt i).deviceKind = .tty ∨ (v.nodeAt i).deviceKind = .console)

/-- A device, or a writable RAM file with room behind the offset. -/
def Takes (id : ℕ) : Prop :=
  ∃ k i, v.OpenOn id k i ∧
    if (v.nodeAt i).type = .characterDevice then (v.nodeAt i).deviceKind ≠ .none
    else (v.nodeAt i).writable ∧ (v.nodeAt i).ramFile.isSome ∧
      (v.handle k).offset < kMaxRamFileBytes

/-- The first `n` bytes were stored in the file at the offset of its handle, or a device took all of
them. -/
def Appended (v' : Vfs) (id : ℕ) (bytes : List UInt8) (n : ℕ) : Prop :=
  ∃ k i, v.OpenOn id k i ∧ n ≤ bytes.length ∧
    if (v.nodeAt i).type = .characterDevice then n = bytes.length
    else ∃ f, (v.nodeAt i).ramFile = some f ∧
      v'.ramFile f = storeBytes (v.ramFile f) (v.handle k).offset (bytes.take n)

variable {v} {id : ℕ} {bytes : List UInt8}

lemma OpenOn.unique {k i k' i' : ℕ} (h : v.OpenOn id k i) (h' : v.OpenOn id k' i') :
    k = k' ∧ i = i' := by
  obtain rfl : k = k' := Option.some.inj (h.handleFor.symm.trans h'.handleFor)
  exact ⟨rfl, Option.some.inj (h.node.symm.trans h'.node)⟩

lemma writeHandle_appended (out : Outside) (hterm : ¬ v.OnTerminal id)
    (hbytes : bytes.length ≠ 0) :
    v.Takes id ∧ (v.writeHandle out id bytes).1 ≠ 0 ∧
        v.Appended (v.writeHandle out id bytes).2 id bytes (v.writeHandle out id bytes).1 ∨
      ¬ v.Takes id ∧ v.writeHandle out id bytes = (0, v) := by
  rw [writeHandle]
  cases hfor : v.handleFor id with
  | none =>
    refine .inr ⟨?_, rfl⟩
    rintro ⟨k, i, h, -⟩
    exact absurd (hfor.symm.trans h.handleFor) (by simp)
  | some k =>
    dsimp only
    cases hnode : (v.handle k).node with
    | none =>
      refine .inr ⟨?_, rfl⟩
      rintro ⟨k', i, h, -⟩
      obtain rfl : k = k' := Option.some.inj (hfor.symm.trans h.handleFor)
      exact absurd (hnode.symm.trans h.node) (by simp)
    | some i =>
      have hopens : v.OpenOn id k i := ⟨hfor, hnode⟩
      dsimp only
      rw [if_neg hbytes]
      split
      · next htype =>
        have htakes (hkind : (v.nodeAt i).deviceKind ≠ .none) : v.Takes id :=
          ⟨k, i, hopens, by rwa [if_pos htype]⟩
        have hall (v' : Vfs) : v.Appended v' id bytes bytes.length :=
          ⟨k, i, hopens, le_rfl, by rw [if_pos htype]⟩
        cases hkind : (v.nodeAt i).deviceKind with
        | null | zero => exact .inl ⟨htakes (by simp [hkind]), hbytes, hall _⟩
        | tty => exact absurd ⟨k, i, hopens, htype, .inl hkind⟩ hterm
        | console => exact absurd ⟨k, i, hopens, htype, .inr hkind⟩ hterm
        | none =>
          refine .inr ⟨?_, rfl⟩
          rintro ⟨k', i', h', hif⟩
          obtain ⟨rfl, rfl⟩ := hopens.unique h'
          rw [if_pos htype] at hif
          exact hif hkind
      · next htype =>
        have htakes : v.Takes id ↔ (v.nodeAt i).writable ∧ (v.nodeAt i).ramFile.isSome ∧
            (v.handle k).offset < kMaxRamFileBytes := by
          refine ⟨?_, fun h => ⟨k, i, hopens, by rwa [if_neg htype]⟩⟩
          rintro ⟨k', i', h', hif⟩
          obtain ⟨rfl, rfl⟩ := hopens.unique h'
          rwa [if_neg htype] at hif
        rw [htakes]
        cases hwrite : (v.nodeAt i).writable with
        | false => exact .inr ⟨by simp, rfl⟩
        | true =>
          cases hfile : (v.nodeAt i).ramFile with
          | none => exact .inr ⟨by simp, rfl⟩
          | some f =>
            dsimp only
            split_ifs with hfull
            · exact .inr ⟨fun h => absurd h.2.2 (not_lt.2 hfull), rfl⟩
            refine .inl ⟨⟨rfl, rfl, not_le.1 hfull⟩, ?_, k, i, hopens, Nat.min_le_left _ _, ?_⟩
            · omega
            · rw [if_neg htype]
              exact ⟨f, hfile, slot_set_self _ _ _⟩

/-- Writing moves no handle to another node and makes no node a device. -/
lemma onTerminal_writeHandle (out : Outside) (id' : ℕ) :
    (v.writeHandle out id bytes).2.OnTerminal id' ↔ v.OnTerminal id' := by
  have hsame {v' : Vfs} (hcount : v'.handles.count = v.handles.count)
      (hhandle : ∀ k, (v'.handle k).isOpen = (v.handle k).isOpen ∧
        (v'.handle k).id = (v.handle k).id ∧ (v'.handle k).node = (v.handle k).node)
      (hnode : ∀ i, (v'.nodeAt i).type = (v.nodeAt i).type ∧
        (v'.nodeAt i).deviceKind = (v.nodeAt i).deviceKind) :
      v'.OnTerminal id' ↔ v.OnTerminal id' := by
    have hfor : v'.handleFor id' = v.handleFor id' := by
      rw [handleFor, handleFor]
      congr 1
      refine find_congr hcount fun k _ => ?_
      rw [show v'.handles.slot k = v'.handle k from rfl, (hhandle k).1, (hhandle k).2.1]
      rfl
    have hopen (k i : ℕ) : v'.OpenOn id' k i ↔ v.OpenOn id' k i := by
      refine ⟨fun h => ⟨hfor ▸ h.handleFor, (hhandle k).2.2 ▸ h.node⟩,
        fun h => ⟨hfor.symm ▸ h.handleFor, (hhandle k).2.2.symm ▸ h.node⟩⟩
    simp only [OnTerminal, hopen, (hnode _).1, (hnode _).2]
  have hoff (k o j : ℕ) : ((v.setOffset k o).handle j).isOpen = (v.handle j).isOpen ∧
      ((v.setOffset k o).handle j).id = (v.handle j).id ∧
      ((v.setOffset k o).handle j).node = (v.handle j).node := by
    rw [handle, setOffset, slot_modify]
    split <;> exact ⟨rfl, rfl, rfl⟩
  have hchange : HandleChange v out _ (v.writeHandle out id bytes).2 := writeHandle_change id bytes
  generalize (v.writeHandle out id bytes).2 = v' at hchange ⊢
  cases hchange with
  | refuse => exact Iff.rfl
  | sought => exact hsame rfl (hoff _ _) fun _ => ⟨rfl, rfl⟩
  | @stored _ k i f _ hk hnode htype hfile hbytes hroom =>
    refine hsame rfl (hoff _ _) fun i' => ?_
    by_cases hi : i' < v.nodes.length
    · have hnode' : (v.stored k i f bytes).nodeAt i' = _ := nodeAt_modify rfl hi
      rw [hnode']
      split <;> exact ⟨rfl, rfl⟩
    · rw [nodeAt, nodeAt, getD_eq_default, getD_eq_default]
      · exact ⟨rfl, rfl⟩
      · exact not_lt.1 hi
      · rw [stored, length_modify]
        exact not_lt.1 hi

end Vfs

/-! ## Calls on a redirected descriptor -/

/-- The arguments of a `Write` on a standard descriptor, after its number. -/
structure WriteCall where
  arg1 : ℕ
  arg2 : ℕ
  ext : External Mounted

namespace Machine

open Syscall (write writeBuffer toStandard)

variable (s : Machine Mounted) (fd : ℕ) (c : WriteCall)

/-- The result of the call, and the bytes it shows on the terminal. -/
def callWrite : (Result × List UInt8) × Machine Mounted :=
  run exec (write fd c.arg1 c.arg2 c.ext) s

/-- The text the call is to write. -/
def text : List UInt8 :=
  load s.userByte (writeBuffer fd c.arg1 c.arg2).1 (writeBuffer fd c.arg1 c.arg2).2

/-- The entry of the caller's descriptor. -/
def callerFd : Option FileDescriptor :=
  (s.findOwner s.currentPid).bind fun j => lookupFd fd (s.fds j)

/-- Standard output or standard error of the caller is open on a file or a pipe. -/
structure Redirected : Prop where
  standard : fd = kStdoutFd ∨ fd = kStderrFd
  caller : s.currentPid ≠ 0
  elsewhere : ∃ e, s.callerFd fd = some e ∧ e.kind ≠ .empty ∧
    (e.kind = .vfs → ¬ s.vfs.vfs.OnTerminal e.vfsHandle)

/-- The first `n` bytes of a text are appended to what is behind a descriptor; those that wait for
the bytes in a pipe are then served. -/
def Appended (s' : Machine Mounted) (e : FileDescriptor) (text : List UInt8) (n : ℕ) : Prop :=
  match e.kind with
  | .vfs => s.vfs.vfs.Appended s'.vfs.vfs e.vfsHandle text n
  | .pipeWrite => ∃ k, s.findPipe e.pipeId = some k ∧ n ≤ text.length ∧
      s' = ((s.accept k (text.take n)).wakePipeWaiters e.pipeId true false).2
  | _ => False

/-- Nothing is shown on the terminal, and a call that succeeds returns the number of bytes it
appended. -/
def Faithful : Prop :=
  (s.callWrite fd c).1.2 = [] ∧ ((s.callWrite fd c).1.1.error = kErrorNone →
    ∃ e, s.callerFd fd = some e ∧
      s.Appended (s.callWrite fd c).2 e (s.text fd c) (s.callWrite fd c).1.1.value)

/-- If the buffer is accepted, the descriptor is on a pipe or on a file that takes bytes.  Two
entries can have the same number; `pipe_write_would_block` then finds a full pipe behind a later
one. -/
def TakesText : Prop :=
  bufferAccepted (writeBuffer fd c.arg1 c.arg2).1 (writeBuffer fd c.arg1 c.arg2).2 →
    ∀ e, s.callerFd fd = some e → e.kind = .vfs →
      s.vfs.vfs.Takes e.vfsHandle ∨ s.pipeWriteWouldBlock s.currentPid fd

/-! ## What a call leaves -/

/-- A function that changes no more than the offset of a descriptor. -/
def MovesOffset (g : FileDescriptor → FileDescriptor) : Prop :=
  ∀ d, ∃ offset, g d = { d with offset := offset }

/-- Processes and threads are the same up to offsets and to threads that were woken. -/
structure Steady {V : Type} (s s' : Machine V) : Prop where
  activePid : s'.activePid = s.activePid
  activeTid : s'.activeTid = s.activeTid
  processCount : s'.processes.count = s.processes.count
  threadCount : s'.threads.count = s.threads.count
  thread : ∀ i, (s'.thread i).tid = (s.thread i).tid ∧ (s'.thread i).pid = (s.thread i).pid ∧
    ((s'.thread i).state = .empty ↔ (s.thread i).state = .empty) ∧
    ((s'.thread i).state = .exited ↔ (s.thread i).state = .exited)
  process : ∀ j, ∃ g, MovesOffset g ∧ s'.process j =
    { s.process j with fileDescriptors := (s.process j).fileDescriptors.map g }

lemma moveOffset_id : MovesOffset id := fun d => ⟨d.offset, rfl⟩

lemma MovesOffset.find {g : FileDescriptor → FileDescriptor} (h : MovesOffset g)
    {p : FileDescriptor → Prop} [DecidablePred p]
    (hp : ∀ d offset, p { d with offset := offset } ↔ p d) (fds : List FileDescriptor) :
    (fds.map g).find? (fun d => p d) = (fds.find? fun d => p d).map g := by
  rw [find?_map]
  congr 2
  funext d
  obtain ⟨offset, hg⟩ := h d
  rw [Function.comp_apply, hg]
  exact decide_eq_decide.2 (hp d offset)

namespace Steady

variable {V : Type} {s s' : Machine V} {pid fd j : ℕ}

section

variable (h : Steady s s')
include h

lemma process_eq (j : ℕ) :
    (s'.process j).pid = (s.process j).pid ∧ (s'.process j).state = (s.process j).state := by
  obtain ⟨g, -, hg⟩ := h.process j
  rw [hg]
  exact ⟨rfl, rfl⟩

lemma live (j : ℕ) : (s'.process j).Live ↔ (s.process j).Live := by
  rw [Process.Live, Process.Live, (h.process_eq j).2]

lemma findLive (pid : ℕ) : s'.findLive pid = s.findLive pid :=
  find_congr h.processCount fun j _ =>
    and_congr (Eq.congr_left (h.process_eq j).1) (h.live j)

lemma findOwner (pid : ℕ) : s'.findOwner pid = s.findOwner pid := by
  have hfind : s'.findProcess pid = s.findProcess pid :=
    find_congr h.processCount fun j _ =>
      and_congr (Eq.congr_left (h.process_eq j).1) (not_congr (Eq.congr_left (h.process_eq j).2))
  rw [Machine.findOwner, Machine.findOwner, hfind]
  cases s.findProcess pid with
  | none => rfl
  | some j => simp only [h.live j]

lemma currentTid : s'.currentTid = s.currentTid :=
  currentTid_congr h.activeTid h.threadCount fun i => ⟨(h.thread i).1, (h.thread i).2.2⟩

lemma currentPid : s'.currentPid = s.currentPid := by
  have hfind : (s'.threads.find fun t => t.tid = s'.currentTid) =
      s.threads.find fun t => t.tid = s.currentTid := by
    rw [h.currentTid]
    exact find_congr h.threadCount fun i _ => Eq.congr_left (h.thread i).1
  rw [Machine.currentPid, Machine.currentPid, hfind, h.currentTid, h.activePid]
  simp only [h.findLive, (h.thread _).2.1]

/-- The entry of a descriptor is the same up to its offset. -/
lemma lookupFd (j fd : ℕ) :
    ∃ g, MovesOffset g ∧ lookupFd fd (s'.fds j) = (IanOS.lookupFd fd (s.fds j)).map g := by
  obtain ⟨g, hg, hproc⟩ := h.process j
  refine ⟨g, hg, ?_⟩
  rw [fds, hproc]
  exact hg.find (fun _ _ => Iff.rfl) _

lemma isPipeFd : s'.isPipeFd pid fd = s.isPipeFd pid fd := by
  rw [Machine.isPipeFd, Machine.isPipeFd, h.findLive]
  cases s.findLive pid with
  | none => rfl
  | some j =>
    obtain ⟨g, hg, hlook⟩ := h.lookupFd j fd
    dsimp only
    rw [hlook, Option.any_map]
    congr 1
    funext d
    obtain ⟨offset, hd⟩ := hg d
    rw [hd]

lemma pipeHasLiveReader (pipeId : ℕ) :
    s'.pipeHasLiveReader pipeId ↔ s.pipeHasLiveReader pipeId := by
  rw [Machine.pipeHasLiveReader, Machine.pipeHasLiveReader, pipeHasLiveEnd, pipeHasLiveEnd,
    h.processCount]
  refine and_congr_right fun _ => exists_congr fun j => and_congr_right fun _ =>
    and_congr (h.live j) ?_
  obtain ⟨g, hg, hproc⟩ := h.process j
  rw [hproc]
  simp only [mem_map, exists_exists_and_eq_and]
  refine exists_congr fun d => and_congr_right fun _ => ?_
  obtain ⟨offset, hd⟩ := hg d
  rw [hd]
  exact Iff.rfl

lemma pipeWriteWouldBlock (hpipes : s'.pipes = s.pipes) :
    s'.pipeWriteWouldBlock pid fd = s.pipeWriteWouldBlock pid fd := by
  rw [Machine.pipeWriteWouldBlock, Machine.pipeWriteWouldBlock, pipeWouldBlock, pipeWouldBlock,
    h.findLive]
  cases s.findLive pid with
  | none => rfl
  | some j =>
    obtain ⟨g, hg, hproc⟩ := h.process j
    have hfind : ((s'.fds j).find? fun e => e.Is fd ∧ e.kind = .pipeWrite) =
        ((s.fds j).find? fun e => e.Is fd ∧ e.kind = .pipeWrite).map g := by
      rw [fds, hproc]
      exact hg.find (fun _ _ => Iff.rfl) _
    dsimp only
    rw [hfind]
    cases (s.fds j).find? fun e => e.Is fd ∧ e.kind = .pipeWrite with
    | none => rfl
    | some e =>
      obtain ⟨offset, he⟩ := hg e
      rw [Option.map_some, he]
      simp only [h.pipeHasLiveReader, findPipe, pipe, hpipes]
      congr

end

lemma refl (s : Machine V) : Steady s s where
  activePid := rfl
  activeTid := rfl
  processCount := rfl
  threadCount := rfl
  thread _ := ⟨rfl, rfl, Iff.rfl, Iff.rfl⟩
  process j := ⟨id, moveOffset_id, by rw [map_id]⟩

/-- Bytes enter a pipe, and those that wait for them are served. -/
lemma accepted {k : ℕ} {bytes : List UInt8} (h : Woken (s.accept k bytes) s') : Steady s s' where
  activePid := by rw [h.frame]; rfl
  activeTid := by rw [h.frame]; rfl
  processCount := by rw [h.frame]; rfl
  threadCount := h.threadCount
  thread i := by
    obtain hsame | ⟨hblock, value, error, hwoken⟩ := h.thread i
    · rw [hsame]
      exact ⟨rfl, rfl, Iff.rfl, Iff.rfl⟩
    · have hblocked' : (s.thread i).state = .blocked := hblock
      rw [hwoken, hblocked']
      exact ⟨rfl, rfl, by simp [UserThread.complete], by simp [UserThread.complete]⟩
  process j := by
    refine ⟨id, moveOffset_id, ?_⟩
    rw [map_id, h.frame]
    rfl

lemma synced [FileSystem V] (vfs : V) (j handle offset : ℕ) :
    Steady s ({ s with vfs := vfs }.syncDescriptorOffsets j handle offset) := by
  rw [syncDescriptorOffsets]
  split_ifs with hzero
  · exact ⟨rfl, rfl, rfl, rfl, (refl s).thread, (refl s).process⟩
  refine ⟨rfl, rfl, rfl, rfl, fun _ => ⟨rfl, rfl, Iff.rfl, Iff.rfl⟩, fun k => ?_⟩
  rw [setFds, process_setProcess]
  split_ifs with hk
  · subst hk
    refine ⟨_, fun d => ?_, rfl⟩
    split_ifs
    · exact ⟨offset, rfl⟩
    · exact ⟨d.offset, rfl⟩
  · exact (refl s).process k

end Steady

/-! ## Writing to a redirected descriptor -/

section Outcome

variable {s} {fd} {pid j buffer size : ℕ} {e : FileDescriptor}

lemma findLive_of_findOwner {V : Type} {s : Machine V} (h : s.findOwner pid = some j) :
    s.findLive pid = some j := by
  obtain ⟨hfind, hlive⟩ := findOwner_eq_some h
  obtain ⟨hj, ⟨hpid, -⟩, hfirst⟩ := find_eq_some.1 hfind
  exact find_eq_some.2 ⟨hj, ⟨hpid, hlive⟩, fun i hi h => hfirst i hi ⟨h.1, h.2.1⟩⟩

/-- The outcomes of a write that is not to the terminal. -/
inductive Outcome (s : Machine Mounted) (e : FileDescriptor) (text : List UInt8) :
    ℕ × Machine Mounted → Prop
  | appended {n : ℕ} {s' : Machine Mounted} (hn : n ≠ 0) (h : s.Appended s' e text n)
      (htakes : e.kind = .vfs → s.vfs.vfs.Takes e.vfsHandle) : Outcome s e text (n, s')
  | failed {s' : Machine Mounted} (hpipes : s'.pipes = s.pipes)
      (htakes : e.kind = .vfs → ¬ s.vfs.vfs.Takes e.vfsHandle) : Outcome s e text (0, s')

lemma writeFile_file (hj : s.findOwner pid = some j) (he : lookupFd fd (s.fds j) = some e)
    (hkind : e.kind = .vfs) (hb : bufferAccepted buffer size) :
    s.writeFile pid fd buffer size =
      let r := s.vfs.vfs.writeHandle s.vfs.out e.vfsHandle (load s.userByte buffer size)
      (r.1, { s with vfs := { s.vfs with vfs := r.2 } }.syncDescriptorOffsets j e.vfsHandle
        (r.2.handleOffset e.vfsHandle)) := by
  rw [writeFile, hj]
  dsimp only
  rw [if_neg (not_or.2 ⟨hb.1, hb.2.1⟩), he]
  dsimp only
  rw [hkind]
  rfl

lemma pipe_outcome {k n : ℕ} (hkind : e.kind = .pipeWrite) (hk : s.findPipe e.pipeId = some k)
    (hn : n ≠ 0) (hsize : n ≤ size) :
    let s' := ((s.accept k (load s.userByte buffer n)).wakePipeWaiters e.pipeId true false).2
    Steady s s' ∧ (∀ id, s'.vfs.vfs.OnTerminal id ↔ s.vfs.vfs.OnTerminal id) ∧
      Outcome s e (load s.userByte buffer size) (n, s') := by
  intro s'
  have hwoken := (wakePipeWaiters_wakeups (s := s.accept k (load s.userByte buffer n))
    e.pipeId true false).woken
  have hvfs : s'.vfs = s.vfs := by
    show (wakePipeWaiters _ _ _ _).2.vfs = _
    rw [hwoken.frame]
    rfl
  have hfirst : (load s.userByte buffer size).take n = load s.userByte buffer n := by
    obtain ⟨rest, rfl⟩ := Nat.exists_eq_add_of_le hsize
    rw [load_add, take_left' (length_load _ _ _)]
  refine ⟨.accepted hwoken, fun id => by rw [hvfs], .appended hn ?_ fun h => ?_⟩
  · rw [Appended, hkind]
    exact ⟨k, hk, by rwa [length_load], by rw [hfirst]⟩
  · rw [hkind] at h
    cases h

lemma writeFile_outcome (hj : s.findOwner pid = some j) (he : lookupFd fd (s.fds j) = some e)
    (hterminal : e.kind = .vfs → ¬ s.vfs.vfs.OnTerminal e.vfsHandle)
    (hb : bufferAccepted buffer size) :
    Steady s (s.writeFile pid fd buffer size).2 ∧
      (∀ id, (s.writeFile pid fd buffer size).2.vfs.vfs.OnTerminal id ↔ s.vfs.vfs.OnTerminal id) ∧
      Outcome s e (load s.userByte buffer size) (s.writeFile pid fd buffer size) := by
  have hfailed (hkind : e.kind ≠ .vfs) : Steady s s ∧
      (∀ id, s.vfs.vfs.OnTerminal id ↔ s.vfs.vfs.OnTerminal id) ∧
      Outcome s e (load s.userByte buffer size) (0, s) :=
    ⟨.refl s, fun _ => Iff.rfl, .failed rfl fun h => absurd h hkind⟩
  by_cases hkind : e.kind = .vfs
  · rw [writeFile_file hj he hkind hb]
    have hlen : (load s.userByte buffer size).length ≠ 0 := by
      rw [length_load]
      exact hb.2.1
    have hterm (id : ℕ) : (s.vfs.vfs.writeHandle s.vfs.out e.vfsHandle
        (load s.userByte buffer size)).2.OnTerminal id ↔ s.vfs.vfs.OnTerminal id :=
      Vfs.onTerminal_writeHandle s.vfs.out id
    have hcases := Vfs.writeHandle_appended s.vfs.out (hterminal hkind) hlen
    generalize s.vfs.vfs.writeHandle s.vfs.out e.vfsHandle (load s.userByte buffer size) = r
      at hterm hcases ⊢
    obtain ⟨n, v⟩ := r
    have hsync (m : Machine Mounted) (offset : ℕ) :
        (m.syncDescriptorOffsets j e.vfsHandle offset).vfs = m.vfs ∧
          (m.syncDescriptorOffsets j e.vfsHandle offset).pipes = m.pipes := by
      rw [syncDescriptorOffsets]
      split_ifs <;> exact ⟨rfl, rfl⟩
    refine ⟨.synced _ _ _ _, fun id => by rw [(hsync _ _).1]; exact hterm id, ?_⟩
    obtain ⟨htakes, hn, happended⟩ | ⟨htakes, heq⟩ := hcases
    · refine .appended hn ?_ fun _ => htakes
      rw [Appended, hkind]
      rwa [(hsync _ _).1]
    · obtain ⟨rfl, -⟩ := Prod.mk.inj heq
      exact .failed (hsync _ _).2 fun _ => htakes
  · rw [writeFile, hj]
    dsimp only
    rw [if_neg (not_or.2 ⟨hb.1, hb.2.1⟩), he]
    dsimp only
    cases hk : e.kind with
    | empty | pipeRead => exact hfailed hkind
    | vfs => exact absurd hk hkind
    | pipeWrite =>
      split_ifs with hreader
      · cases hpipe : s.findPipe e.pipeId with
        | none => exact hfailed hkind
        | some k =>
          dsimp only
          split_ifs with hfull
          · exact hfailed hkind
          · refine pipe_outcome hk hpipe ?_ (Nat.min_le_left _ _)
            have := hb.2.1
            omega
      · exact hfailed hkind

end Outcome

variable {s fd c}

lemma Redirected.entry (h : s.Redirected fd) : ∃ j e, s.findOwner s.currentPid = some j ∧
    lookupFd fd (s.fds j) = some e ∧ s.callerFd fd = some e ∧ e.kind ≠ .empty ∧
    (e.kind = .vfs → ¬ s.vfs.vfs.OnTerminal e.vfsHandle) := by
  obtain ⟨e, he, hkind, hterm⟩ := h.elsewhere
  obtain ⟨j, hj, hlook⟩ := Option.bind_eq_some_iff.1 he
  exact ⟨j, e, hj, hlook, he, hkind, hterm⟩

lemma callWrite_eq (h : s.Redirected fd) :
    s.callWrite fd c =
      if bufferAccepted (writeBuffer fd c.arg1 c.arg2).1 (writeBuffer fd c.arg1 c.arg2).2 then
        toStandard c.ext s s.currentPid fd (writeBuffer fd c.arg1 c.arg2).1
          (writeBuffer fd c.arg1 c.arg2).2
      else ((.invalidPointer, []), s) :=
  Syscall.run_write_standard c.ext s h.standard h.caller c.arg1 c.arg2

/-- A call that is answered with an error and shows nothing. -/
lemma faithful_of_error {r : Result} {s' : Machine Mounted}
    (hcall : s.callWrite fd c = ((r, []), s'))
    (hne : r.error ≠ kErrorNone) : s.Faithful fd c := by
  rw [Faithful, hcall]
  exact ⟨rfl, fun hnone => absurd hnone hne⟩

theorem faithful_iff_takesText (h : s.Redirected fd) : s.Faithful fd c ↔ s.TakesText fd c := by
  obtain ⟨j, e, hj, hlookup, he, hkind, hterminal⟩ := h.entry
  have hcall := callWrite_eq (c := c) h
  split_ifs at hcall with hb
  · rw [toStandard] at hcall
    have htakes : s.TakesText fd c ↔ (e.kind = .vfs →
        s.vfs.vfs.Takes e.vfsHandle ∨ s.pipeWriteWouldBlock s.currentPid fd) := by
      refine ⟨fun ht => ht hb e he, fun ht _ e' he' => ?_⟩
      obtain rfl : e = e' := Option.some.inj (he.symm.trans he')
      exact ht
    rw [htakes]
    obtain ⟨hsteady, -, houtcome⟩ := writeFile_outcome hj hlookup hterminal hb
    generalize s.writeFile s.currentPid fd _ _ = r at hsteady houtcome hcall
    cases houtcome with
    | @appended n s' hn happended hfile =>
      rw [if_pos hn] at hcall
      refine iff_of_true ⟨by rw [hcall], fun _ => ⟨e, he, ?_⟩⟩ fun hvfs => .inl (hfile hvfs)
      rwa [hcall]
    | @failed s' hpipes hfile =>
      rw [if_neg (not_not.2 rfl)] at hcall
      rw [hsteady.pipeWriteWouldBlock hpipes, hsteady.isPipeFd] at hcall
      by_cases hblocks : s.pipeWriteWouldBlock s.currentPid fd
      · rw [if_pos hblocks] at hcall
        exact iff_of_true (faithful_of_error hcall (by decide)) fun _ => .inr hblocks
      rw [if_neg hblocks] at hcall
      have hpipe :
          s.isPipeFd s.currentPid fd = decide (e.kind = .pipeRead ∨ e.kind = .pipeWrite) := by
        rw [isPipeFd, findLive_of_findOwner hj]
        dsimp only
        rw [hlookup]
        rfl
      rw [hpipe] at hcall
      by_cases hvfs : e.kind = .vfs
      · rw [if_neg (by simp [hvfs])] at hcall
        refine iff_of_false (fun hfaithful => ?_) fun ht => ?_
        · have hshown := hfaithful.1
          rw [hcall] at hshown
          have hlength := congrArg length hshown
          rw [length_load] at hlength
          exact hb.2.1 hlength
        · exact (ht hvfs).elim (hfile hvfs) hblocks
      · have hend : e.kind = .pipeRead ∨ e.kind = .pipeWrite := by
          cases hk : e.kind with
          | empty => exact absurd hk hkind
          | vfs => exact absurd hk hvfs
          | pipeRead => exact .inl rfl
          | pipeWrite => exact .inr rfl
        rw [if_pos (decide_eq_true hend)] at hcall
        exact iff_of_true (faithful_of_error hcall (by decide)) fun h => absurd h hvfs
  · exact iff_of_true (faithful_of_error hcall (by decide)) fun h => absurd h hb

/-- The descriptor stays redirected. -/
theorem Redirected.callWrite (h : s.Redirected fd) (c : WriteCall) :
    (s.callWrite fd c).2.Redirected fd := by
  obtain ⟨j, e, hj, hlookup, he, hkind, hterminal⟩ := h.entry
  rw [callWrite_eq h]
  split_ifs with hb
  · obtain ⟨hsteady, hterm, -⟩ := writeFile_outcome hj hlookup hterminal hb
    rw [toStandard]
    generalize s.writeFile s.currentPid fd _ _ = r at hsteady hterm ⊢
    suffices hr : r.2.Redirected fd by
      split_ifs <;> exact hr
    obtain ⟨g, hg, hfd⟩ := hsteady.lookupFd j fd
    obtain ⟨offset, hge⟩ := hg e
    have hpid := hsteady.currentPid
    refine ⟨h.standard, hpid ▸ h.caller, { e with offset := offset }, ?_, hkind, fun hvfs => ?_⟩
    · rw [callerFd, hpid, hsteady.findOwner, hj, Option.bind_some, hfd, hlookup,
        Option.map_some, hge]
    · rw [hterm]
      exact hterminal hvfs
  · exact h

/-- A call on a redirected descriptor is faithful exactly when its buffer is refused or the
descriptor is on a pipe or on a file that takes bytes; and in a sequence of calls that are all such,
every call is faithful. -/
theorem redirected_write_faithful_iff (s : Machine Mounted) (fd : ℕ) (h : s.Redirected fd) :
    (∀ c, s.Faithful fd c ↔ s.TakesText fd c) ∧
    ∀ calls, Run.Allowed (fun s c => (s.callWrite fd c).2) (fun s c => s.TakesText fd c) s calls →
      Run.Allowed (fun s c => (s.callWrite fd c).2)
        (fun s c => s.Redirected fd ∧ s.Faithful fd c) s calls := by
  refine ⟨fun c => faithful_iff_takesText h, fun calls hcalls => ?_⟩
  induction calls generalizing s with
  | nil => trivial
  | cons c calls ih =>
    exact ⟨⟨h, (faithful_iff_takesText h).2 hcalls.1⟩, ih _ (h.callWrite c) hcalls.2⟩

lemma redirected_of_file {e : FileDescriptor} {k i : ℕ} (hpid : s.currentPid ≠ 0)
    (hfd : s.callerFd kStdoutFd = some e) (hkind : e.kind = .vfs)
    (hopen : s.vfs.vfs.OpenOn e.vfsHandle k i)
    (htype : (s.vfs.vfs.nodeAt i).type ≠ .characterDevice) : s.Redirected kStdoutFd := by
  refine ⟨.inl rfl, hpid, e, hfd, by simp [hkind], fun _ => ?_⟩
  rintro ⟨k', i', hopen', htype', -⟩
  obtain ⟨rfl, rfl⟩ := hopen.unique hopen'
  exact htype htype'

/-- A process starts to append its output to a file of this size. -/
def appending (size : ℕ) : Machine Mounted :=
  let files := (Vfs.booted (.directory (.ascii "/tmp") true :: terminalOnly)).run
    [.change (.createRamFile (.ascii "/tmp/out")),
      .change (.truncateRamFile (.ascii "/tmp/out") size)]
  let ops : List (Σ β, Op Mounted β) :=
    [⟨_, .environment { (default : Mounted) with vfs := files } fun _ => 0x41⟩,
      ⟨_, .createProcess ⟨0x400000, 1, 0x7ffffff000, fun va => va⟩⟩, ⟨_, .markRunnable 1⟩,
      ⟨_, .activateThread 1⟩, ⟨_, .redirectFileAppend 1 kStdoutFd (.ascii "/tmp/out")⟩]
  ops.foldl step (start default terminalOnly default)

def appendingFd (size : ℕ) : FileDescriptor :=
  makeVfsDescriptor kStdoutFd 4 (.ascii "/tmp/out") size

/-- A `Write` of three bytes. -/
def writeThree : WriteCall where
  arg1 := 0x1000
  arg2 := 3
  ext :=
    { result := .notFound, vfs := default, mem := fun _ => 0, input := [], written := 3
      image := none, argumentsAccepted := true }

/-- Three bytes are appended to a file that has five. -/
theorem redirected_write_faithful_short :
    (appending 5).Redirected kStdoutFd ∧ (appending 5).Faithful kStdoutFd writeThree := by
  have hfd : (appending 5).callerFd kStdoutFd = some (appendingFd 5) := by decide +kernel
  have hopen : (appending 5).vfs.vfs.OpenOn 4 3 4 := ⟨by decide +kernel, by decide +kernel⟩
  have htype : ((appending 5).vfs.vfs.nodeAt 4).type ≠ .characterDevice := by decide +kernel
  have h := redirected_of_file (by decide +kernel) hfd rfl hopen htype
  refine ⟨h, ((redirected_write_faithful_iff _ _ h).1 _).2 fun _ e he _ => .inl ?_⟩
  obtain rfl : appendingFd 5 = e := Option.some.inj (hfd.symm.trans he)
  exact ⟨3, 4, hopen, by rw [if_neg htype]; decide +kernel⟩

/-- The file has 4096 bytes, as many as a file can have.  The text is shown on the terminal, and the
call succeeds. -/
theorem redirected_write_shown :
    (appending 4096).Redirected kStdoutFd ∧
      ((appending 4096).callWrite kStdoutFd writeThree).1 =
        (⟨3, kErrorNone⟩, [0x41, 0x41, 0x41]) ∧
      ¬ (appending 4096).Faithful kStdoutFd writeThree := by
  have hfd : (appending 4096).callerFd kStdoutFd = some (appendingFd 4096) := by decide +kernel
  have hcall : ((appending 4096).callWrite kStdoutFd writeThree).1 =
      (⟨3, kErrorNone⟩, [0x41, 0x41, 0x41]) := by decide +kernel
  refine ⟨redirected_of_file (by decide +kernel) hfd rfl (k := 3) (i := 4)
    ⟨by decide +kernel, by decide +kernel⟩ (by decide +kernel), hcall, fun h => ?_⟩
  have hshown := h.1
  cases hshown

end Machine
end IanOS
