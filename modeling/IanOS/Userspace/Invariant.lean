import IanOS.Userspace.Operations

/-!
# The invariant of the process and thread tables

Identifiers of live records are distinct, positive and below the counters.  Every thread belongs to
a process whose main thread it is.  A running thread is the active one, of the active process, and
that process is runnable; a blocked thread's process has been started.
-/

namespace IanOS.Machine

variable {V : Type} {s s' : Machine V} {i j tid pid : ℕ} {f : UserThread → UserThread}

/-! ## Records after a write -/

@[simp] lemma process_setProcess (f : Process → Process) :
    (s.setProcess i f).process j = if j = i then f (s.process j) else s.process j :=
  s.processes.slot_modify i f j

@[simp] lemma thread_setThread (f : UserThread → UserThread) :
    (s.setThread i f).thread j = if j = i then f (s.thread j) else s.thread j :=
  s.threads.slot_modify i f j

@[simp] lemma pipe_setPipe (f : Pipe → Pipe) :
    (s.setPipe i f).pipe j = if j = i then f (s.pipe j) else s.pipe j :=
  s.pipes.slot_modify i f j

@[simp] lemma thread_setProcess (f : Process → Process) :
    (s.setProcess i f).thread j = s.thread j :=
  rfl

@[simp] lemma thread_record (e : Event) : (s.record e).thread j = s.thread j := rfl

@[simp] lemma pipe_record (e : Event) : (s.record e).pipe j = s.pipe j := rfl

lemma setThread_setThread (f g : UserThread → UserThread) :
    (s.setThread i f).setThread i g = s.setThread i fun t => g (f t) :=
  congrArg (fun threads => { s with threads := threads }) (s.threads.modify_modify i f g)

lemma thread_onThread (f : UserThread → UserThread) :
    (s.onThread tid f).thread j = if s.findThread tid = some j then f (s.thread j)
    else s.thread j := by
  rw [onThread]
  split
  · next h => simp [h]
  · next i h =>
    have hiff : some i = some j ↔ j = i := by rw [Option.some_inj, eq_comm]
    simp only [thread_setThread, h, hiff]

lemma onThread_of_find (h : s.findThread tid = some i) : s.onThread tid f = s.setThread i f := by
  rw [onThread, h]

section

variable (f : UserThread → UserThread)

/-- Nothing but the thread table changes. -/
lemma onThread_frame : s.onThread tid f = { s with threads := (s.onThread tid f).threads } := by
  rw [onThread]
  split <;> rfl

@[simp] lemma processes_onThread : (s.onThread tid f).processes = s.processes := by
  rw [onThread_frame]

@[simp] lemma pipes_onThread : (s.onThread tid f).pipes = s.pipes := by
  rw [onThread_frame]

@[simp] lemma log_onThread : (s.onThread tid f).log = s.log := by
  rw [onThread_frame]

@[simp] lemma count_onThread : (s.onThread tid f).threads.count = s.threads.count := by
  rw [onThread]
  split <;> rfl

end

/-! ## What a lookup finds -/

lemma findThread_eq_some (h : s.findThread tid = some i) :
    i < s.threads.count ∧ (s.thread i).tid = tid ∧ (s.thread i).state ≠ .empty := by
  obtain ⟨hi, ⟨htid, hstate⟩, -⟩ := Table.find_eq_some.1 h
  exact ⟨hi, htid, hstate⟩

lemma findProcess_eq_some (h : s.findProcess pid = some j) :
    j < s.processes.count ∧ (s.process j).pid = pid ∧ (s.process j).state ≠ .empty := by
  obtain ⟨hj, ⟨hpid, hstate⟩, -⟩ := Table.find_eq_some.1 h
  exact ⟨hj, hpid, hstate⟩

/-- A lookup of a thread looks only at identifiers and at which slots are unused. -/
lemma findThread_congr (hcount : s'.threads.count = s.threads.count)
    (hthread : ∀ i, (s'.thread i).tid = (s.thread i).tid ∧
      ((s'.thread i).state = .empty ↔ (s.thread i).state = .empty)) :
    s'.findThread tid = s.findThread tid := by
  apply Table.find_congr hcount
  intro i _
  obtain ⟨htid, hempty⟩ := hthread i
  have htid' : (s'.threads.slot i).tid = (s.threads.slot i).tid := htid
  rw [htid']
  exact and_congr_right' (not_congr hempty)

/-- A write that keeps the identifier and that a slot is in use does not change the lookup. -/
lemma findThread_setThread (htid : (f (s.thread i)).tid = (s.thread i).tid)
    (hempty : (f (s.thread i)).state = .empty ↔ (s.thread i).state = .empty) :
    (s.setThread i f).findThread tid = s.findThread tid := by
  refine findThread_congr rfl fun k => ?_
  rw [thread_setThread]
  split
  · next hk => exact hk ▸ ⟨htid, hempty⟩
  · exact ⟨rfl, Iff.rfl⟩

lemma onThread_setProcess (f : Process → Process) (g : UserThread → UserThread) :
    (s.setProcess j f).onThread tid g = (s.onThread tid g).setProcess j f := by
  have hfind : (s.setProcess j f).findThread tid = s.findThread tid := rfl
  rw [onThread, onThread, hfind]
  cases s.findThread tid <;> rfl

lemma findOwner_eq_some (h : s.findOwner pid = some j) :
    s.findProcess pid = some j ∧ (s.process j).Live := by
  rw [findOwner] at h
  split at h
  · cases h
  next k hk =>
    split at h
    · next hlive =>
      obtain rfl : k = j := Option.some.inj h
      exact ⟨hk, hlive⟩
    · cases h

lemma currentTid_eq (h : s.currentTid ≠ 0) : s.currentTid = s.activeTid := by
  unfold currentTid at h ⊢
  split_ifs at h ⊢ <;> first | rfl | exact absurd rfl h

/-- The current thread is the active one, and neither unused nor exited. -/
lemma currentThread_eq_some (h : s.currentThread = some i) :
    s.findThread s.activeTid = some i ∧ s.activeTid = s.currentTid ∧ s.currentTid ≠ 0 := by
  rw [currentThread] at h
  split at h
  · cases h
  · next hne =>
    have heq := currentTid_eq hne
    exact ⟨heq ▸ h, heq.symm, hne⟩

/-! ## The invariant -/

/-- See the head of the file. -/
structure Inv (s : Machine V) : Prop where
  counters : 0 < s.nextTid ∧ 0 < s.nextPid
  tids : s.threads.Distinct (fun t => t.state ≠ .empty) UserThread.tid
  tid_bounds : ∀ i < s.threads.count, (s.thread i).state ≠ .empty →
    0 < (s.thread i).tid ∧ (s.thread i).tid < s.nextTid
  pids : s.processes.Distinct (fun p => p.state ≠ .empty) Process.pid
  pid_bounds : ∀ j < s.processes.count, (s.process j).state ≠ .empty →
    0 < (s.process j).pid ∧ (s.process j).pid < s.nextPid
  owner : ∀ i < s.threads.count, (s.thread i).state ≠ .empty → ∃ j < s.processes.count,
    (s.process j).state ≠ .empty ∧ (s.process j).pid = (s.thread i).pid ∧
      (s.process j).mainThreadId = (s.thread i).tid
  running : ∀ i < s.threads.count, (s.thread i).state = .running →
    (s.thread i).tid = s.activeTid ∧ (s.thread i).pid = s.activePid ∧
      ∃ j < s.processes.count, (s.process j).pid = (s.thread i).pid ∧
      (s.process j).state = .runnable
  blocked : ∀ i < s.threads.count, (s.thread i).state = .blocked → ∀ j < s.processes.count,
    (s.process j).pid = (s.thread i).pid → (s.process j).state ≠ .created

namespace Inv

section

variable (h : Inv s)
include h

lemma findThread (hi : i < s.threads.count) (hstate : (s.thread i).state ≠ .empty) :
    s.findThread (s.thread i).tid = some i :=
  h.tids.find_eq hi hstate ⟨rfl, hstate⟩ fun _ ha => ⟨ha.2, ha.1⟩

lemma findProcess (hj : j < s.processes.count)
    (hstate : (s.process j).state ≠ .empty) : s.findProcess (s.process j).pid = some j :=
  h.pids.find_eq hj hstate ⟨rfl, hstate⟩ fun _ ha => ⟨ha.2, ha.1⟩

lemma processHas_iff {P : Process → Prop} :
    s.processHas pid P ↔ ∃ j < s.processes.count,
      (s.process j).pid = pid ∧ (s.process j).state ≠ .empty ∧ P (s.process j) := by
  constructor
  · rintro ⟨j, hj, hP⟩
    obtain ⟨hlt, hpid, hstate⟩ := findProcess_eq_some hj
    exact ⟨j, hlt, hpid, hstate, hP⟩
  · rintro ⟨j, hlt, rfl, hstate, hP⟩
    exact ⟨j, h.findProcess hlt hstate, hP⟩

lemma processRunnable_iff :
    s.processRunnable pid ↔ ∃ j < s.processes.count,
      (s.process j).pid = pid ∧ (s.process j).state = .runnable := by
  rw [processRunnable, h.processHas_iff]
  constructor
  · rintro ⟨j, hj, hpid, -, hstate⟩
    exact ⟨j, hj, hpid, hstate⟩
  · rintro ⟨j, hj, hpid, hstate⟩
    exact ⟨j, hj, hpid, by simp [hstate], hstate⟩

/-- A thread whose process is in slot `j` is the main thread of that process. -/
lemma owner_eq (hi : i < s.threads.count) (hstate : (s.thread i).state ≠ .empty)
    (hj : j < s.processes.count) (hlive : (s.process j).state ≠ .empty)
    (hpid : (s.process j).pid = (s.thread i).pid) :
    (s.process j).mainThreadId = (s.thread i).tid := by
  obtain ⟨k, hk, hklive, hkpid, hkmain⟩ := h.owner i hi hstate
  obtain rfl := h.pids k hk j hj hklive hlive (hkpid.trans hpid.symm)
  exact hkmain

lemma running_state (hi : i < s.threads.count)
    (hrun : (s.thread i).state = .running) (hj : j < s.processes.count)
    (hlive : (s.process j).state ≠ .empty) (hpid : (s.process j).pid = (s.thread i).pid) :
    (s.process j).state = .runnable := by
  obtain ⟨-, -, k, hk, hkpid, hkstate⟩ := h.running i hi hrun
  have hklive : (s.process k).state ≠ .empty := by simp [hkstate]
  obtain rfl := h.pids k hk j hj hklive hlive (hkpid.trans hpid.symm)
  exact hkstate

lemma running_unique {k : ℕ} (hi : i < s.threads.count) (hk : k < s.threads.count)
    (hirun : (s.thread i).state = .running) (hkrun : (s.thread k).state = .running) : i = k := by
  have hilive : (s.thread i).state ≠ .empty := by simp [hirun]
  have hklive : (s.thread k).state ≠ .empty := by simp [hkrun]
  exact h.tids i hi k hk hilive hklive
    ((h.running i hi hirun).1.trans (h.running k hk hkrun).1.symm)

end

section

variable (h : Inv s) (hprocs : s'.processes.count = s.processes.count)
  (hthreads : s'.threads.count = s.threads.count) (hnextTid : s'.nextTid = s.nextTid)
  (hnextPid : s'.nextPid = s.nextPid)
include h hprocs hthreads hnextTid hnextPid

/-- What has to be shown about a state whose live records are live records of a state that
satisfies the invariant. -/
lemma mono
    (hthread : ∀ i, (s'.thread i).state ≠ .empty →
      (s.thread i).state ≠ .empty ∧ (s'.thread i).tid = (s.thread i).tid)
    (hproc : ∀ j, (s'.process j).state ≠ .empty →
      (s.process j).state ≠ .empty ∧ (s'.process j).pid = (s.process j).pid)
    (howner : ∀ i < s.threads.count, (s'.thread i).state ≠ .empty → ∃ j < s.processes.count,
      (s'.process j).state ≠ .empty ∧ (s'.process j).pid = (s'.thread i).pid ∧
        (s'.process j).mainThreadId = (s'.thread i).tid)
    (hrunning : ∀ i < s.threads.count, (s'.thread i).state = .running →
      (s'.thread i).tid = s'.activeTid ∧ (s'.thread i).pid = s'.activePid ∧
        ∃ j < s.processes.count, (s'.process j).pid = (s'.thread i).pid ∧
          (s'.process j).state = .runnable)
    (hblock : ∀ i < s.threads.count, (s'.thread i).state = .blocked →
      ∀ j < s.processes.count, (s'.process j).pid = (s'.thread i).pid →
        (s'.process j).state ≠ .created) : Inv s' where
  counters := by
    rw [hnextTid, hnextPid]
    exact h.counters
  tids := by
    intro i hi k hk hilive hklive heq
    rw [hthreads] at hi hk
    obtain ⟨hilive', hitid⟩ := hthread i hilive
    obtain ⟨hklive', hktid⟩ := hthread k hklive
    exact h.tids i hi k hk hilive' hklive' (hitid.symm.trans (heq.trans hktid))
  tid_bounds := by
    intro i hi hlive
    obtain ⟨hlive', htid⟩ := hthread i hlive
    rw [htid, hnextTid]
    exact h.tid_bounds i (hthreads ▸ hi) hlive'
  pids := by
    intro j hj k hk hjlive hklive heq
    rw [hprocs] at hj hk
    obtain ⟨hjlive', hjpid⟩ := hproc j hjlive
    obtain ⟨hklive', hkpid⟩ := hproc k hklive
    exact h.pids j hj k hk hjlive' hklive' (hjpid.symm.trans (heq.trans hkpid))
  pid_bounds := by
    intro j hj hlive
    obtain ⟨hlive', hpid⟩ := hproc j hlive
    rw [hpid, hnextPid]
    exact h.pid_bounds j (hprocs ▸ hj) hlive'
  owner := by rwa [hthreads, hprocs]
  running := by rwa [hthreads, hprocs]
  blocked := by rwa [hthreads, hprocs]

/-- What has to be shown about a state with the same records, up to their states. -/
lemma keep
    (hthread : ∀ i, (s'.thread i).tid = (s.thread i).tid ∧ (s'.thread i).pid = (s.thread i).pid ∧
      ((s'.thread i).state = .empty ↔ (s.thread i).state = .empty))
    (hproc : ∀ j, (s'.process j).pid = (s.process j).pid ∧
      (s'.process j).mainThreadId = (s.process j).mainThreadId ∧
      ((s'.process j).state = .empty ↔ (s.process j).state = .empty))
    (hrunning : ∀ i < s.threads.count, (s'.thread i).state = .running →
      (s.thread i).tid = s'.activeTid ∧ (s.thread i).pid = s'.activePid ∧
        ∃ j < s.processes.count, (s.process j).pid = (s.thread i).pid ∧
          (s'.process j).state = .runnable)
    (hblock : ∀ i < s.threads.count, (s'.thread i).state = .blocked →
      ∀ j < s.processes.count, (s.process j).pid = (s.thread i).pid →
        (s'.process j).state ≠ .created) : Inv s' := by
  refine h.mono hprocs hthreads hnextTid hnextPid (fun i hlive => ?_) (fun j hlive => ?_) ?_ ?_ ?_
  · obtain ⟨htid, -, hempty⟩ := hthread i
    exact ⟨fun he => hlive (hempty.2 he), htid⟩
  · obtain ⟨hpid, -, hempty⟩ := hproc j
    exact ⟨fun he => hlive (hempty.2 he), hpid⟩
  · intro i hi hlive
    obtain ⟨htid, hpid, hempty⟩ := hthread i
    obtain ⟨j, hj, hjlive, hjpid, hjmain⟩ := h.owner i hi fun he => hlive (hempty.2 he)
    obtain ⟨hpid', hmain', hempty'⟩ := hproc j
    exact ⟨j, hj, fun he => hjlive (hempty'.1 he), by rw [hpid', hpid, hjpid],
      by rw [hmain', htid, hjmain]⟩
  · intro i hi hrun
    obtain ⟨htid, hpid, -⟩ := hthread i
    obtain ⟨hactive, hactivePid, j, hj, hjpid, hjstate⟩ := hrunning i hi hrun
    rw [htid, hpid]
    exact ⟨hactive, hactivePid, j, hj, by rw [(hproc j).1, hjpid], hjstate⟩
  · intro i hi hblocked' j hj hjpid
    obtain ⟨-, hpid, -⟩ := hthread i
    rw [(hproc j).1, hpid] at hjpid
    exact hblock i hi hblocked' j hj hjpid

end

end Inv
end IanOS.Machine
