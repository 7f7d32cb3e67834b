import IanOS.Userspace.Invariant

/-!
# Elementary transitions

Every operation of the manager is a sequence of a few elementary transitions, each with the
condition under which the code performs it.  Those of `Wakeup` move bytes and complete blocked
calls, those of `Effect` are all that system calls do to the tables, and those of `Switch` move the
processor from one thread to another.  A property is shown to hold throughout all runs by showing
that each elementary transition preserves it.
-/

namespace IanOS.Machine

variable {V : Type} {s s' : Machine V}

/-- Only the file system, memory, the timers and the round-robin position may have changed. -/
def Idle (s s' : Machine V) : Prop :=
  s' = { s with
    lastUserPickIndex := s'.lastUserPickIndex
    currentSliceTicks := s'.currentSliceTicks
    foregroundProcessGroupId := s'.foregroundProcessGroupId
    vfs := s'.vfs, mem := s'.mem, pitTicks := s'.pitTicks, lapicTicks := s'.lapicTicks
    userPreemption := s'.userPreemption, lapicActive := s'.lapicActive }

/-- An idle change that leaves the file system alone. -/
def Still (s s' : Machine V) : Prop := Idle s s' ∧ s'.vfs = s.vfs

lemma Still.refl (s : Machine V) : Still s s := ⟨rfl, rfl⟩

/-- A change of a process's record that keeps its identity, its main thread, its state and its
address space, and the parent of an exited process. -/
structure Redescribed (p p' : Process) : Prop where
  pid : p'.pid = p.pid
  main : p'.mainThreadId = p.mainThreadId
  state : p'.state = p.state
  parent : p.state = .exited → p'.parentPid = p.parentPid
  root : p'.addressSpaceRoot = p.addressSpaceRoot
  owns : p'.ownsAddressSpace = p.ownsAddressSpace

/-- A change that concerns one process's record or none. -/
inductive Revision : Machine V → Machine V → Prop
  | idle {s s' : Machine V} (h : Idle s s') : Revision s s'
  | describe (s : Machine V) {j : ℕ} {f : Process → Process}
      (hf : Redescribed (s.process j) (f (s.process j))) : Revision s (s.setProcess j f)

/-- Filling in the fields of a wait. -/
def KeepsThread (wait : UserThread → UserThread) : Prop :=
  ∀ t, (wait t).tid = t.tid ∧ (wait t).pid = t.pid

/-- A reader's buffer is filled by writing memory. -/
def OnlyMemory (put : List UInt8 → Machine V → Machine V) : Prop :=
  ∀ bytes s, ∃ mem, put bytes s = { s with mem := mem }

/-- What moves bytes through pipes and completes blocked calls. -/
inductive Wakeup : Machine V → Machine V → Prop
  | memory (s : Machine V) (mem : ℕ → UInt8) : Wakeup s { s with mem := mem }
  | complete (s : Machine V) {i : ℕ} (value error : ℕ) (h : (s.thread i).state = .blocked) :
      Wakeup s (s.completeCall i value error)
  | deliver (s : Machine V) {k n : ℕ} {put : List UInt8 → Machine V → Machine V}
      (hput : OnlyMemory put) (hk : (s.pipe k).isOpen)
      (hn : (s.pipe k).readOffset + n ≤ (s.pipe k).size) : Wakeup s (s.deliver k n put)
  | accept (s : Machine V) {k : ℕ} {bytes : List UInt8} (hk : (s.pipe k).isOpen)
      (hfits : (s.pipe k).size + bytes.length ≤ kPipeCapacity) : Wakeup s (s.accept k bytes)

/-- What system calls do to the tables. -/
inductive Effect : Machine V → Machine V → Prop
  | revise {s s' : Machine V} (h : Revision s s') : Effect s s'
  | wakeup {s s' : Machine V} (h : Wakeup s s') : Effect s s'
  | openPipe (s : Machine V) {k : ℕ} (id next : ℕ) (hk : ¬ (s.pipe k).isOpen) :
      Effect s (({ s with nextPipeId := next }.setPipe k fun _ =>
        { id := id, isOpen := true }).record (.created k))
  | clearPipe (s : Machine V) (k : ℕ) : Effect s (s.setPipe k fun _ => {})
  | mapSpace (s : Machine V) (root : ℕ) (mapping : ℕ → ℕ) :
      Effect s { s with spaces := Function.update s.spaces root mapping }
  | enterProcess {s s' : Machine V} {j root : ℕ} {entry top : Word64} {owns : Bool}
      (h : s.enterProcess entry root top owns = some (j, s')) : Effect s s'
  | enterThread (s : Machine V) {j : ℕ} (hj : j < s.processes.count)
      (hlive : (s.process j).state ≠ .empty)
      (hnew : ∀ i < s.threads.count, (s.thread i).state ≠ .empty →
        (s.thread i).pid ≠ (s.process j).pid) : Effect s (s.createMainThread j).2
  | start (s : Machine V) {j : ℕ} (hj : j < s.processes.count)
      (hstate : (s.process j).state = .created) :
      Effect s (((s.setProcess j fun p => { p with state := .runnable }).claimActive
        (s.process j).pid).startThread (s.process j).mainThreadId)
  | stop (s : Machine V) {j : ℕ} (hj : j < s.processes.count)
      (hstate : (s.process j).state = .runnable) :
      Effect s (((s.setProcess j fun p => { p with state := .stopped }).parkThread
        (s.process j).mainThreadId).forgetActive (s.process j).pid (s.process j).mainThreadId)
  | continue (s : Machine V) {j : ℕ} (hj : j < s.processes.count)
      (hstate : (s.process j).state = .stopped) :
      Effect s (s.setProcess j fun p => { p with state := .runnable })
  | markExited (s : Machine V) {j : ℕ} (code : ℕ) (reason : ProcessTerminationReason)
      (hj : j < s.processes.count) (hlive : (s.process j).Live) :
      Effect s (s.markExited j code reason)
  | forgetActive (s : Machine V) {pid main : ℕ}
      (hnone : ∀ i < s.threads.count, (s.thread i).state = .running →
        (s.thread i).tid ≠ main ∧ (s.thread i).pid ≠ pid) :
      Effect s (s.forgetActive pid main)
  | reapThread (s : Machine V) {pid i : ℕ} (hi : i < s.threads.count)
      (hexited : ∃ j < s.processes.count, (s.process j).pid = pid ∧ (s.process j).state = .exited) :
      Effect s (reapThread pid s i)
  | reapProcess (s : Machine V) {j : ℕ} (hj : j < s.processes.count)
      (hstate : (s.process j).state = .exited)
      (hnone : ∀ i < s.threads.count, (s.thread i).state ≠ .empty →
        (s.thread i).pid ≠ (s.process j).pid) :
      Effect s ((s.forgetActivePid (s.process j).pid).setProcess j reapedProcess)

/-! ## What the switching functions do -/

/-- The state in which a thread has been made the running one. -/
def activated (s : Machine V) (tid next : ℕ) : Machine V :=
  let s := (s.demoteActive tid).setThread next fun t => { t with state := .running }
  { s with
    activeTid := (s.thread next).tid
    activePid := (s.thread next).pid
    currentSliceTicks := 0
    lastUserPickIndex := (s.threads.find fun t => t.tid = tid).getD s.lastUserPickIndex }

/-- What switches threads and blocks none: one is activated, one gets a context or a wait but keeps
its state, or the running one is parked. -/
inductive Turn : Machine V → Machine V → Prop
  | still (s : Machine V) : Turn s s
  | activate (s : Machine V) {tid next : ℕ} (hfind : s.findThread tid = some next)
      (hready : (s.thread next).state = .runnable ∨ (s.thread next).state = .running)
      (hrunnable : s.processRunnable (s.thread next).pid) : Turn s (s.activated tid next)
  | keep (s : Machine V) {i : ℕ} {f : UserThread → UserThread} (hlive : (s.thread i).state ≠ .empty)
      (hf : (f (s.thread i)).tid = (s.thread i).tid ∧ (f (s.thread i)).pid = (s.thread i).pid ∧
        (f (s.thread i)).state = (s.thread i).state) : Turn s (s.setThread i f)
  | park (s : Machine V) {i : ℕ} (hrun : (s.thread i).state = .running) :
      Turn s (s.setThread i fun t => { t.clearWait with state := .runnable })
  | switchSpace (s : Machine V) (cr3 : ℕ) : Turn s { s with cr3 := cr3 }

/-- What switches threads. -/
inductive Switch : Machine V → Machine V → Prop
  | turn {s s' : Machine V} (h : Turn s s') : Switch s s'
  | block (s : Machine V) {i : ℕ} {wait : UserThread → UserThread} (hwait : KeepsThread wait)
      (hrun : (s.thread i).state = .running) :
      Switch s (s.setThread i fun t => { wait t.clearWait with state := .blocked })

section

variable (s : Machine V)

/-- Nothing but the thread table changes. -/
lemma demoteActive_frame (tid : ℕ) :
    s.demoteActive tid = { s with threads := (s.demoteActive tid).threads } := by
  rw [demoteActive]
  split
  · exact onThread_frame _
  · rfl

@[simp] lemma count_demoteActive (tid : ℕ) :
    (s.demoteActive tid).threads.count = s.threads.count := by
  rw [demoteActive]
  split
  · exact count_onThread _
  · rfl

lemma thread_demoteActive (tid i : ℕ) :
    (s.demoteActive tid).thread i = s.thread i ∨ (s.thread i).state = .running ∧
      (s.demoteActive tid).thread i = { s.thread i with state := .runnable } := by
  rw [demoteActive]
  split
  · rw [parkThread, thread_onThread]
    split_ifs with _ hrun
    · exact .inr ⟨hrun, rfl⟩
    · exact .inl rfl
    · exact .inl rfl
  · exact .inl rfl

lemma thread_activated (tid next i : ℕ) : (s.activated tid next).thread i =
      if i = next then { (s.demoteActive tid).thread i with state := .running }
      else (s.demoteActive tid).thread i := by
  show ((s.demoteActive tid).setThread next fun t => { t with state := .running }).thread i = _
  rw [thread_setThread]

/-- Activation changes the thread table, what is active, and the round-robin position. -/
lemma activated_frame (tid next : ℕ) : s.activated tid next = { s with
        threads := (s.activated tid next).threads
        activeTid := (s.thread next).tid, activePid := (s.thread next).pid
        currentSliceTicks := 0
        lastUserPickIndex := (s.activated tid next).lastUserPickIndex } := by
  have hnext : ((s.activated tid next).thread next).tid = (s.thread next).tid ∧
      ((s.activated tid next).thread next).pid = (s.thread next).pid := by
    rw [thread_activated, if_pos rfl]
    obtain hsame | ⟨-, hparked⟩ := s.thread_demoteActive tid next
    · rw [hsame]
      exact ⟨rfl, rfl⟩
    · rw [hparked]
      exact ⟨rfl, rfl⟩
  rw [← hnext.1, ← hnext.2, activated]
  have hframe := s.demoteActive_frame tid
  generalize s.demoteActive tid = d at hframe
  obtain ⟨threads, rfl⟩ : ∃ threads, d = { s with threads := threads } := ⟨_, hframe⟩
  rfl

@[simp] lemma process_activated (tid next j : ℕ) :
    (s.activated tid next).process j = s.process j := by
  rw [activated_frame]
  rfl

lemma Turn.activateThread (tid : ℕ) : Turn s (s.activateThread tid).2 := by
  rw [Machine.activateThread]
  split
  · exact .still s
  next next hfind =>
    split_ifs with hstate hrunnable
    · exact .still s
    · exact .activate s hfind (not_not.1 fun hne => hstate (not_or.1 hne)) hrunnable
    · exact .still s

lemma saveActiveThreadFrame_cases (rip rsp : Word64) :
    (s.saveActiveThreadFrame rip rsp).2 = s ∨ ∃ i, s.currentThread = some i ∧
      (s.saveActiveThreadFrame rip rsp).2 =
        s.setThread i fun t => { t with entry := rip, userStackPointer := rsp } := by
  rw [saveActiveThreadFrame]
  split
  · exact .inl rfl
  next i hcur =>
    split_ifs
    · exact .inl rfl
    · exact .inl rfl
    · exact .inl rfl
    · exact .inr ⟨i, hcur, rfl⟩
    · exact .inl rfl

lemma Turn.saveFrame (rip rsp : Word64) : Turn s (s.saveActiveThreadFrame rip rsp).2 := by
  obtain hfail | ⟨i, hcur, hsave⟩ := saveActiveThreadFrame_cases s rip rsp
  · rw [hfail]
    exact .still s
  · rw [hsave]
    exact .keep s (findThread_eq_some (currentThread_eq_some hcur).1).2.2 ⟨rfl, rfl, rfl⟩

lemma Turn.saveRegisters (tid : ℕ) (frame : ExceptionFrame) :
    Turn s (s.saveUserRegisters tid frame) := by
  rw [saveUserRegisters, onThread]
  split
  · exact .still s
  · next hfind => exact .keep s (findThread_eq_some hfind).2.2 ⟨rfl, rfl, rfl⟩

lemma Turn.markRunnable : Turn s s.markActiveThreadRunnable.2 := by
  rw [markActiveThreadRunnable]
  split
  · exact .still s
  split_ifs with hrun
  · exact .still s
  · exact .park s (not_not.1 hrun)

lemma blockActiveThread_cases (check : UserThread → Prop) [DecidablePred check]
    (wait : UserThread → UserThread) :
    s.blockActiveThread check wait = (false, s) ∨ ∃ i, s.currentThread = some i ∧
      (s.thread i).state = .running ∧ s.blockActiveThread check wait =
        (true, s.setThread i fun t => { wait t.clearWait with state := .blocked }) := by
  rw [blockActiveThread]
  split
  · exact .inl rfl
  next i hcur =>
    split_ifs with hpass
    · exact .inl rfl
    · exact .inr ⟨i, hcur, not_not.1 (not_or.1 hpass).1, rfl⟩

/-- The two writes to the thread are one that leaves it running. -/
lemma Turn.unblock (check : UserThread → Prop) [DecidablePred check]
    {wait : UserThread → UserThread} (hwait : KeepsThread wait)
    (hdone : (s.blockActiveThread check wait).1) :
    Turn s ((s.blockActiveThread check wait).2.unblock s.currentTid) := by
  obtain hfail | ⟨i, hcur, hrun, hblock⟩ := blockActiveThread_cases s check wait
  · rw [hfail] at hdone
    cases hdone
  obtain ⟨hfind, htid, -⟩ := currentThread_eq_some hcur
  obtain ⟨htidWait, hpidWait⟩ := hwait (s.thread i).clearWait
  have hfind' : (s.blockActiveThread check wait).2.findThread s.currentTid = some i := by
    rw [hblock, ← htid, findThread_setThread htidWait (by simp [hrun]), hfind]
  rw [Machine.unblock, onThread_of_find hfind', hblock, setThread_setThread]
  exact .keep s (by simp [hrun]) ⟨htidWait, hpidWait, hrun.symm⟩

end

/-- A switch changes threads, what is active and the address space in use. -/
lemma Switch.frame (hs : Switch s s') :
    s' = { s with
      threads := s'.threads, activeTid := s'.activeTid, activePid := s'.activePid
      currentSliceTicks := s'.currentSliceTicks, lastUserPickIndex := s'.lastUserPickIndex
      cr3 := s'.cr3 } := by
  cases hs with
  | turn hturn =>
    cases hturn with
    | activate => rw [activated_frame]
    | still | keep | park | switchSpace => rfl
  | block => rfl

/-! ## Sequences -/

/-- A sequence of wakeups. -/
abbrev Wakeups : Machine V → Machine V → Prop := Relation.ReflTransGen Wakeup

/-- A sequence of effects. -/
abbrev Effects : Machine V → Machine V → Prop := Relation.ReflTransGen Effect

lemma Wakeups.effects (h : Wakeups s s') : Effects s s' := by
  induction h with
  | refl => exact .refl
  | tail _ hlast ih => exact ih.tail (.wakeup hlast)

end IanOS.Machine
