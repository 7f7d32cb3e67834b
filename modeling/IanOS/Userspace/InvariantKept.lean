import IanOS.Userspace.Transitions

/-!
# Every transition keeps the invariant

One lemma for each elementary transition that touches what the invariant speaks of, and from them
`Inv.effect` and `Inv.switch`.
-/

namespace IanOS.Machine

open Nat

variable {V : Type} {s s' : Machine V} {i j : ℕ}

/-! ## New records -/

/-- What a new process is like, and that nothing else changes but the counter. -/
lemma enterProcess_eq_some {entry top : Word64} {root : ℕ} {owns : Bool}
    (h : s.enterProcess entry root top owns = some (j, s')) :
    ∃ p : Process, p.pid = s.nextPid ∧ p.state = .created ∧
      p.fileDescriptors = List.replicate kMaxProcessFileDescriptors {} ∧
      Table.Placed (fun p => p.state = .empty) s.processes s'.processes j p ∧
      s' = { s with processes := s'.processes, nextPid := s.nextPid + 1 } := by
  rw [enterProcess] at h
  split at h
  · cases h
  · next k t ht =>
    obtain ⟨rfl, rfl⟩ := Prod.mk.inj (Option.some.inj h)
    exact ⟨_, rfl, rfl, rfl, Table.allocate_placed ht _, rfl⟩

/-- What a new thread is like; its process learns its identifier. -/
lemma createMainThread_cases (h : (s.createMainThread j).2 = s') :
    s' = s ∨ ∃ (i : ℕ) (t : UserThread), t.tid = s.nextTid ∧ t.pid = (s.process j).pid ∧
      t.state = .created ∧ t.addressSpaceRoot = (s.process j).addressSpaceRoot ∧
      Table.Placed (fun t => t.state = .empty) s.threads s'.threads i t ∧
      s' = { s with threads := s'.threads, nextTid := s.nextTid + 1 }.setProcess j
        fun p => { p with mainThreadId := s.nextTid } := by
  rw [createMainThread] at h
  split at h
  · exact .inl h.symm
  split at h
  · exact .inl h.symm
  · next i t ht =>
    subst h
    exact .inr ⟨i, _, rfl, rfl, rfl, rfl, Table.allocate_placed ht _, rfl⟩

/-- The order of the writes of `exit_process` does not matter. -/
lemma markExited_eq (s : Machine V) (j code : ℕ) (reason : ProcessTerminationReason) :
    s.markExited j code reason =
      ((s.onThread (s.process j).mainThreadId exitedThread).setProcess j
        (markedProcess code reason)).record (.exited (s.process j).pid) := by
  have hfind : ((s.setProcess j (markedProcess code reason)).record
      (.exited (s.process j).pid)).findThread (s.process j).mainThreadId =
      s.findThread (s.process j).mainThreadId := rfl
  rw [markExited, onThread, onThread, hfind]
  cases s.findThread (s.process j).mainThreadId <;> rfl

namespace Inv

variable {f wait : UserThread → UserThread} {tid pid : ℕ}

section

variable (h : Inv s)
include h

/-- The invariant speaks only of the tables, the counters and the active identifiers. -/
lemma of_eq (heq : s' = { s with
      pipes := s'.pipes, lastUserPickIndex := s'.lastUserPickIndex
      currentSliceTicks := s'.currentSliceTicks
      foregroundProcessGroupId := s'.foregroundProcessGroupId, nextPipeId := s'.nextPipeId
      vfs := s'.vfs, spaces := s'.spaces, mem := s'.mem, cr3 := s'.cr3, pitTicks := s'.pitTicks
      lapicTicks := s'.lapicTicks, userPreemption := s'.userPreemption
      lapicActive := s'.lapicActive, log := s'.log }) : Inv s' := by
  rw [heq]
  exact ⟨h.counters, h.tids, h.tid_bounds, h.pids, h.pid_bounds, h.owner, h.running, h.blocked⟩

/-- A process changes and keeps its identity.  It stays runnable if its thread is running, and does
not become one that has not been started. -/
lemma setProcess {f : Process → Process} (hf : (f (s.process j)).pid = (s.process j).pid ∧
      (f (s.process j)).mainThreadId = (s.process j).mainThreadId)
    (hempty : (f (s.process j)).state = .empty ↔ (s.process j).state = .empty)
    (hrun : ∀ i < s.threads.count, (s.thread i).state = .running →
      (s.process j).pid = (s.thread i).pid → (s.process j).state = .runnable →
        (f (s.process j)).state = .runnable)
    (hcreated : (f (s.process j)).state = .created → (s.process j).state = .created) :
    Inv (s.setProcess j f) := by
  refine h.keep rfl rfl rfl rfl ?_ ?_ ?_ ?_
  · intro i
    exact ⟨rfl, rfl, Iff.rfl⟩
  · intro k
    rw [process_setProcess]
    split
    · next hk => exact hk ▸ ⟨hf.1, hf.2, hempty⟩
    · exact ⟨rfl, rfl, Iff.rfl⟩
  · intro i hi hrunning
    obtain ⟨htid, hpid, k, hk, hkpid, hkstate⟩ := h.running i hi hrunning
    refine ⟨htid, hpid, k, hk, hkpid, ?_⟩
    rw [process_setProcess]
    split
    · next hkj =>
      subst hkj
      exact hrun i hi hrunning hkpid hkstate
    · exact hkstate
  · intro i hi hblock k hk hpid
    have hnot := h.blocked i hi hblock k hk hpid
    rw [process_setProcess]
    split
    · next hkj =>
      subst hkj
      exact fun hnew => hnot (hcreated hnew)
    · exact hnot

lemma describe {f : Process → Process}
    (hf : Redescribed (s.process j) (f (s.process j))) : Inv (s.setProcess j f) :=
  h.setProcess ⟨hf.pid, hf.main⟩ (by rw [hf.state]) (fun _ _ _ _ hold => hf.state.trans hold)
    hf.state.symm.trans

/-- A thread changes and keeps its identity.  It does not begin to run, and it blocks only if it was
running. -/
lemma setThread_of (htid : (f (s.thread i)).tid = (s.thread i).tid)
    (hpid : (f (s.thread i)).pid = (s.thread i).pid)
    (hempty : (f (s.thread i)).state = .empty ↔ (s.thread i).state = .empty)
    (hrun : (f (s.thread i)).state = .running → (s.thread i).state = .running)
    (hblock : (f (s.thread i)).state = .blocked →
      (s.thread i).state = .blocked ∨ (s.thread i).state = .running) : Inv (s.setThread i f) := by
  refine h.keep rfl rfl rfl rfl ?_ ?_ ?_ ?_
  · intro k
    rw [thread_setThread]
    split
    · next hk => exact hk ▸ ⟨htid, hpid, hempty⟩
    · exact ⟨rfl, rfl, Iff.rfl⟩
  · intro k
    exact ⟨rfl, rfl, Iff.rfl⟩
  · intro k hk hrunning
    rw [thread_setThread] at hrunning
    split at hrunning
    · next hki =>
      subst hki
      exact h.running k hk (hrun hrunning)
    · exact h.running k hk hrunning
  · intro k hk hblocked j hj hkpid
    rw [thread_setThread] at hblocked
    split at hblocked
    · next hki =>
      subst hki
      obtain hwas | hwas := hblock hblocked
      · exact h.blocked k hk hwas j hj hkpid
      -- a running thread's process is runnable
      intro hcreated
      have hstate : (s.process j).state = .created := hcreated
      have hrunnable := h.running_state hk hwas hj (by simp [hstate]) hkpid
      simp [hstate] at hrunnable
    · exact h.blocked k hk hblocked j hj hkpid

/-- A thread changes, keeping its identity, to a state that is neither running nor blocked. -/
lemma setThread (hlive : (s.thread i).state ≠ .empty)
    (htid : (f (s.thread i)).tid = (s.thread i).tid)
    (hpid : (f (s.thread i)).pid = (s.thread i).pid)
    (hstate : (f (s.thread i)).state ≠ .empty ∧ (f (s.thread i)).state ≠ .running ∧
      (f (s.thread i)).state ≠ .blocked) : Inv (s.setThread i f) :=
  h.setThread_of htid hpid (iff_of_false hstate.1 hlive) (fun hrun => absurd hrun hstate.2.1)
    fun hblock => absurd hblock hstate.2.2

lemma complete (value error : ℕ) (hblock : (s.thread i).state = .blocked) :
    Inv (s.completeCall i value error) := by
  have hwoken : Inv (s.setThread i (UserThread.complete value error)) :=
    h.setThread (by simp [hblock]) rfl rfl (by simp [UserThread.complete])
  exact hwoken.of_eq rfl

/-- A thread changes and keeps its identity and its state. -/
lemma setThread_same
    (hf : (f (s.thread i)).tid = (s.thread i).tid ∧ (f (s.thread i)).pid = (s.thread i).pid ∧
      (f (s.thread i)).state = (s.thread i).state) : Inv (s.setThread i f) :=
  h.setThread_of hf.1 hf.2.1 (by rw [hf.2.2]) hf.2.2.symm.trans fun hblock =>
    .inl (hf.2.2.symm.trans hblock)

/-- The active identifiers may change to others that the running thread has. -/
lemma retarget (hrun : ∀ i < s.threads.count,
      (s.thread i).state = .running → (s.thread i).tid = tid ∧ (s.thread i).pid = pid) :
    Inv { s with activeTid := tid, activePid := pid } := by
  refine h.keep rfl rfl rfl rfl ?_ ?_ ?_ h.blocked
  · intro i
    exact ⟨rfl, rfl, Iff.rfl⟩
  · intro j
    exact ⟨rfl, rfl, Iff.rfl⟩
  · intro i hi hrunning
    obtain ⟨htid, hpid⟩ := hrun i hi hrunning
    exact ⟨htid, hpid, (h.running i hi hrunning).2.2⟩

lemma forgetActive {main : ℕ} (hnone : ∀ i < s.threads.count, (s.thread i).state = .running →
      (s.thread i).tid ≠ main ∧ (s.thread i).pid ≠ pid) : Inv (s.forgetActive pid main) := by
  apply h.retarget
  intro i hi hrun
  obtain ⟨htid, hpid, -⟩ := h.running i hi hrun
  obtain ⟨hmain, hne⟩ := hnone i hi hrun
  exact ⟨by rw [if_neg (htid ▸ hmain), htid], by rw [if_neg (hpid ▸ hne), hpid]⟩

/-- Identifiers of processes that have threads are positive. -/
lemma pid_pos (hi : i < s.threads.count) (hlive : (s.thread i).state ≠ .empty) :
    0 < (s.thread i).pid := by
  obtain ⟨j, hj, hjlive, hjpid, -⟩ := h.owner i hi hlive
  rw [← hjpid]
  exact (h.pid_bounds j hj hjlive).1

lemma claimActive (pid : ℕ) : Inv (s.claimActive pid) := by
  rw [Machine.claimActive]
  split
  · next hzero =>
    apply h.retarget
    intro i hi hrun
    -- a running thread's process would be the active one, but none is active
    have hpos := h.pid_pos hi (by simp [hrun])
    obtain ⟨-, hpid, -⟩ := h.running i hi hrun
    omega
  · exact h

/-! ## States of processes and threads -/

/-- A process is started or continued. -/
lemma resume (hlive : (s.process j).state ≠ .empty) :
    Inv (s.setProcess j fun p => { p with state := .runnable }) := by
  apply h.setProcess ⟨rfl, rfl⟩ (by simp [hlive]) (fun _ _ _ _ _ => rfl)
  simp

/-- A change of the thread that a lookup finds, to a state neither running nor blocked. -/
lemma onThread (hf : ∀ t, (f t).tid = t.tid ∧ (f t).pid = t.pid)
    (hstate : ∀ t, t.state ≠ .empty → (f t).state = t.state ∨
      (f t).state ≠ .empty ∧ (f t).state ≠ .running ∧ (f t).state ≠ .blocked) :
    Inv (s.onThread tid f) := by
  rw [Machine.onThread]
  split
  · exact h
  next i hfind =>
    obtain ⟨-, -, hlive⟩ := findThread_eq_some hfind
    obtain ⟨htid, hpid⟩ := hf (s.thread i)
    obtain hsame | hother := hstate (s.thread i) hlive
    · exact h.setThread_same ⟨htid, hpid, hsame⟩
    · exact h.setThread hlive htid hpid hother

lemma start (hstate : (s.process j).state = .created) :
    Inv (((s.setProcess j fun p => { p with state := .runnable }).claimActive
      (s.process j).pid).startThread (s.process j).mainThreadId) := by
  apply ((h.resume (by simp [hstate])).claimActive _).onThread
  · intro t
    split <;> exact ⟨rfl, rfl⟩
  intro t _
  split
  · exact .inr (by simp)
  · exact .inl rfl

/-- When the main thread of a process has left the processor, no thread of the process is running.
-/
lemma not_running_onThread (hf : ∀ t, (f t).state ≠ .running)
    (hj : j < s.processes.count) (hlive : (s.process j).state ≠ .empty) (hi : i < s.threads.count)
    (hrun : ((s.onThread (s.process j).mainThreadId f).thread i).state = .running) :
    ((s.onThread (s.process j).mainThreadId f).thread i).tid ≠ (s.process j).mainThreadId ∧
      ((s.onThread (s.process j).mainThreadId f).thread i).pid ≠ (s.process j).pid := by
  rw [thread_onThread] at hrun ⊢
  split at hrun
  · exact absurd hrun (hf _)
  next hfind =>
    have hmain : (s.thread i).tid ≠ (s.process j).mainThreadId := by
      intro heq
      exact hfind (heq ▸ h.findThread hi (by simp [hrun]))
    rw [if_neg hfind]
    refine ⟨hmain, fun hpid => ?_⟩
    exact hmain (h.owner_eq hi (by simp [hrun]) hj hlive hpid.symm).symm

/-- A process and its main thread change their states together, and the thread leaves the
processor. -/
lemma leave {g : Process → Process}
    (hf : ∀ t, (f t).tid = t.tid ∧ (f t).pid = t.pid ∧ (f t).state ≠ .running)
    (hstate : ∀ t, t.state ≠ .empty → (f t).state = t.state ∨
      (f t).state ≠ .empty ∧ (f t).state ≠ .running ∧ (f t).state ≠ .blocked)
    (hg : (g (s.process j)).pid = (s.process j).pid ∧
      (g (s.process j)).mainThreadId = (s.process j).mainThreadId)
    (hnew : (g (s.process j)).state ≠ .empty ∧ (g (s.process j)).state ≠ .created)
    (hj : j < s.processes.count) (hlive : (s.process j).state ≠ .empty) :
    Inv ((s.setProcess j g).onThread (s.process j).mainThreadId f) := by
  have hleft : Inv (s.onThread (s.process j).mainThreadId f) :=
    h.onThread (fun t => ⟨(hf t).1, (hf t).2.1⟩) hstate
  have hproc : (s.onThread (s.process j).mainThreadId f).process j = s.process j := by
    rw [process, processes_onThread, process]
  rw [onThread_setProcess]
  apply hleft.setProcess
  · rwa [hproc]
  · rw [hproc]
    exact iff_of_false hnew.1 hlive
  · intro i hi hrun hpid
    rw [count_onThread] at hi
    have hne := (h.not_running_onThread (fun t => (hf t).2.2) hj hlive hi hrun).2
    rw [hproc] at hpid
    exact absurd hpid.symm hne
  · rw [hproc]
    exact fun hcreated => absurd hcreated hnew.2

lemma stop (hj : j < s.processes.count) (hstate : (s.process j).state = .runnable) :
    Inv (((s.setProcess j fun p => { p with state := .stopped }).parkThread
      (s.process j).mainThreadId).forgetActive (s.process j).pid (s.process j).mainThreadId) := by
  have hlive : (s.process j).state ≠ .empty := by simp [hstate]
  have hparks (t : UserThread) :
      let t' := if t.state = .running then { t with state := .runnable } else t
      t'.tid = t.tid ∧ t'.pid = t.pid ∧ t'.state ≠ .running := by
    intro t'
    by_cases hrun : t.state = .running
    · simp [t', hrun]
    · simp [t', hrun]
  have hparked : Inv ((s.setProcess j fun p => { p with state := .stopped }).parkThread
      (s.process j).mainThreadId) := by
    apply h.leave hparks _ ⟨rfl, rfl⟩ (by simp) hj hlive
    intro t _
    split
    · exact .inr (by simp)
    · exact .inl rfl
  apply hparked.forgetActive
  intro i hi hrun
  rw [parkThread, onThread_setProcess] at hi hrun ⊢
  apply h.not_running_onThread (fun t => (hparks t).2.2) hj hlive _ hrun
  rwa [← count_onThread]

lemma markExited {code : ℕ} {reason : ProcessTerminationReason}
    (hj : j < s.processes.count) (hlive : (s.process j).Live) :
    Inv (s.markExited j code reason) := by
  have hmarked : Inv ((s.setProcess j (markedProcess code reason)).onThread
      (s.process j).mainThreadId exitedThread) := by
    apply h.leave (f := exitedThread)
      (fun t => ⟨rfl, rfl, by simp [exitedThread]⟩) _ ⟨rfl, rfl⟩
        (by simp [markedProcess]) hj hlive.1
    intro t _
    exact .inr (by simp [exitedThread])
  rw [markExited_eq, ← onThread_setProcess]
  -- the log entry changes nothing the invariant looks at
  exact hmarked.of_eq rfl

lemma enterProcess {entry top : Word64} {root : ℕ} {owns : Bool}
    (he : s.enterProcess entry root top owns = some (j, s')) : Inv s' := by
  obtain ⟨p, hpid, hstate, -, hplaced, hs'⟩ := enterProcess_eq_some he
  have hthread (i : ℕ) : s'.thread i = s.thread i := by rw [hs']; rfl
  have hcount : s'.threads.count = s.threads.count := by rw [hs']
  have hold {k : ℕ} (hk : k < s'.processes.count) (hkj : k ≠ j) :
      k < s.processes.count ∧ s'.process k = s.process k := hplaced.old k hk hkj
  have hnew : s'.process j = p := hplaced.new
  -- an old process is in a slot that was not free
  have hkept {k : ℕ} (hk : k < s.processes.count) (hlive : (s.process k).state ≠ .empty) :
      k < s'.processes.count ∧ s'.process k = s.process k := by
    have hkj : k ≠ j := fun hkj => hlive (hkj ▸ hplaced.wasFree (hkj ▸ hk))
    exact ⟨hk.trans_le hplaced.le, (hold (hk.trans_le hplaced.le) hkj).2⟩
  -- no thread has the new identifier
  have hfresh {i : ℕ} (hi : i < s.threads.count) (hlive : (s.thread i).state ≠ .empty) :
      (s.thread i).pid ≠ s.nextPid := by
    obtain ⟨k, hk, hklive, hkpid, -⟩ := h.owner i hi hlive
    have := (h.pid_bounds k hk hklive).2
    omega
  refine ⟨?_, ?_, ?_, ?_, ?_, ?_, ?_, ?_⟩
  · rw [hs']
    exact ⟨h.counters.1, succ_pos _⟩
  · rw [hs']
    exact h.tids
  · rw [hs']
    exact h.tid_bounds
  · apply hplaced.distinct h.pids
    intro k hk hlive heq
    have := (h.pid_bounds k hk hlive).2
    have : (s.process k).pid = p.pid := heq
    omega
  · intro k hk hlive
    have hnext : s'.nextPid = s.nextPid + 1 := by rw [hs']
    by_cases hkj : k = j
    · rw [hkj, hnew, hpid, hnext]
      exact ⟨h.counters.2, lt_succ_self _⟩
    obtain ⟨hk', hslot⟩ := hold hk hkj
    rw [hslot] at hlive ⊢
    have := h.pid_bounds k hk' hlive
    omega
  · intro i hi hlive
    rw [hthread] at hlive ⊢
    obtain ⟨k, hk, hklive, hkpid, hkmain⟩ := h.owner i (hcount ▸ hi) hlive
    obtain ⟨hk', hslot⟩ := hkept hk hklive
    exact ⟨k, hk', by rwa [hslot], by rwa [hslot], by rwa [hslot]⟩
  · intro i hi hrun
    rw [hthread] at hrun ⊢
    obtain ⟨htid, hpid', k, hk, hkpid, hkstate⟩ := h.running i (hcount ▸ hi) hrun
    obtain ⟨hk', hslot⟩ := hkept hk (by simp [hkstate])
    refine ⟨?_, ?_, k, hk', by rwa [hslot], by rwa [hslot]⟩ <;> rwa [hs']
  · intro i hi hblock k hk hkpid
    rw [hthread] at hblock hkpid
    have hlive : (s.thread i).state ≠ .empty := by simp [hblock]
    by_cases hkj : k = j
    · rw [hkj, hnew, hpid] at hkpid
      exact absurd hkpid.symm (hfresh (hcount ▸ hi) hlive)
    · obtain ⟨hk', hslot⟩ := hold hk hkj
      rw [hslot] at hkpid ⊢
      exact h.blocked i (hcount ▸ hi) hblock k hk' hkpid

lemma enterThread (hj : j < s.processes.count) (hlive : (s.process j).state ≠ .empty)
    (hnew : ∀ i < s.threads.count, (s.thread i).state ≠ .empty →
      (s.thread i).pid ≠ (s.process j).pid) (he : (s.createMainThread j).2 = s') : Inv s' := by
  obtain rfl | ⟨i, t, htid, hpid, hstate, -, hplaced, hs'⟩ := createMainThread_cases he
  · exact h
  have hproc (k : ℕ) : (s'.process k).pid = (s.process k).pid ∧
      (s'.process k).state = (s.process k).state ∧ (s'.process k).mainThreadId =
        if k = j then s.nextTid else (s.process k).mainThreadId := by
    rw [hs', process_setProcess]
    split <;> exact ⟨rfl, rfl, rfl⟩
  have hcount : s'.processes.count = s.processes.count := by rw [hs']; rfl
  have hold {k : ℕ} (hk : k < s'.threads.count) (hki : k ≠ i) :
      k < s.threads.count ∧ s'.thread k = s.thread k := hplaced.old k hk hki
  have hslot : s'.thread i = t := hplaced.new
  refine ⟨?_, ?_, ?_, ?_, ?_, ?_, ?_, ?_⟩
  · rw [hs']
    exact ⟨succ_pos _, h.counters.2⟩
  · apply hplaced.distinct h.tids
    intro k hk hklive heq
    have hlt := (h.tid_bounds k hk hklive).2
    have htid' : (s.thread k).tid = t.tid := heq
    omega
  · intro k hk hklive
    have hnext : s'.nextTid = s.nextTid + 1 := by rw [hs']; rfl
    by_cases hki : k = i
    · rw [hki, hslot, htid, hnext]
      exact ⟨h.counters.1, lt_succ_self _⟩
    obtain ⟨hk', hsame⟩ := hold hk hki
    rw [hsame] at hklive ⊢
    have hbounds := h.tid_bounds k hk' hklive
    omega
  · intro k hk l hl hklive hllive heq
    exact h.pids k (hcount ▸ hk) l (hcount ▸ hl) ((hproc k).2.1.symm.trans_ne hklive)
      ((hproc l).2.1.symm.trans_ne hllive) ((hproc k).1.symm.trans (heq.trans (hproc l).1))
  · intro k hk hklive
    rw [(hproc k).2.1] at hklive
    have hnext : s'.nextPid = s.nextPid := by rw [hs']; rfl
    rw [(hproc k).1, hnext]
    exact h.pid_bounds k (hcount ▸ hk) hklive
  · intro k hk hklive
    by_cases hki : k = i
    · rw [hki, hslot]
      refine ⟨j, hcount ▸ hj, (hproc j).2.1 ▸ hlive, (hproc j).1.trans hpid.symm, ?_⟩
      rw [(hproc j).2.2, if_pos rfl, htid]
    obtain ⟨hk', hsame⟩ := hold hk hki
    rw [hsame] at hklive ⊢
    obtain ⟨l, hl, hllive, hlpid, hlmain⟩ := h.owner k hk' hklive
    -- process `j` had no thread
    have hlj : l ≠ j := fun hlj => hnew k hk' hklive (hlj ▸ hlpid.symm)
    refine ⟨l, hcount ▸ hl, (hproc l).2.1 ▸ hllive, (hproc l).1.trans hlpid, ?_⟩
    rw [(hproc l).2.2, if_neg hlj, hlmain]
  · intro k hk hrun
    have hki : k ≠ i := by
      rintro rfl
      simp [hslot, hstate] at hrun
    obtain ⟨hk', hsame⟩ := hold hk hki
    rw [hsame] at hrun ⊢
    obtain ⟨hactiveTid, hactivePid, l, hl, hlpid, hlstate⟩ := h.running k hk' hrun
    refine ⟨?_, ?_, l, hcount ▸ hl, (hproc l).1.trans hlpid,
      (hproc l).2.1.trans hlstate⟩ <;> rwa [hs']
  · intro k hk hblock l hl hlpid
    have hki : k ≠ i := by
      rintro rfl
      simp [hslot, hstate] at hblock
    obtain ⟨hk', hsame⟩ := hold hk hki
    rw [hsame] at hblock hlpid
    rw [(hproc l).1] at hlpid
    rw [(hproc l).2.1]
    exact h.blocked k hk' hblock l (hcount ▸ hl) hlpid

/-! ## Reaping -/

lemma reapThread (hi : i < s.threads.count) : Inv (Machine.reapThread pid s i) := by
  rw [Machine.reapThread]
  split
  · next hmatch =>
    refine h.mono rfl rfl rfl rfl ?_ ?_ ?_ ?_ ?_
    · intro k hlive
      rw [thread_setThread] at hlive ⊢
      split at hlive
      · exact absurd rfl hlive
      · next hki =>
        rw [if_neg hki]
        exact ⟨hlive, rfl⟩
    · intro k hlive
      exact ⟨hlive, rfl⟩
    · intro k hk hlive
      rw [thread_setThread] at hlive ⊢
      split at hlive
      · exact absurd rfl hlive
      · next hki =>
        rw [if_neg hki]
        exact h.owner k hk hlive
    · intro k hk hrun
      rw [thread_setThread] at hrun ⊢
      split at hrun
      · cases hrun
      next hki =>
        rw [if_neg hki]
        have hrun' : (s.thread k).state = .running := hrun
        have hlive : (s.thread k).state ≠ .empty := by simp [hrun']
        obtain ⟨htid, hpid, hproc⟩ := h.running k hk hrun
        -- the running thread is another one, so it stays the active one
        have hne : ¬ s.activeTid = (s.thread i).tid := fun heq =>
          hki (h.tids k hk i hi hlive hmatch.2 (htid.trans heq))
        exact ⟨htid.trans (if_neg hne).symm, hpid, hproc⟩
    · intro k hk hblock
      rw [thread_setThread] at hblock ⊢
      split at hblock
      · cases hblock
      · next hki =>
        rw [if_neg hki]
        exact h.blocked k hk hblock
  · exact h

lemma reapProcess (hnone : ∀ i < s.threads.count, (s.thread i).state ≠ .empty →
      (s.thread i).pid ≠ (s.process j).pid) :
    Inv ((s.forgetActivePid (s.process j).pid).setProcess j reapedProcess) := by
  have hforgot : Inv (s.forgetActivePid (s.process j).pid) := by
    apply h.retarget
    intro i hi hrun
    obtain ⟨htid, hpid, -⟩ := h.running i hi hrun
    have hne := hnone i hi (by simp [hrun])
    rw [hpid] at hne
    exact ⟨htid, by rw [if_neg hne, hpid]⟩
  -- a thread's process is not the one reaped
  have hother {i k : ℕ} (hi : i < s.threads.count) (hlive : (s.thread i).state ≠ .empty)
      (hpid : (s.process k).pid = (s.thread i).pid) : k ≠ j := fun hkj =>
    hnone i hi hlive (hkj ▸ hpid.symm)
  refine hforgot.mono rfl rfl rfl rfl ?_ ?_ ?_ ?_ ?_
  · intro i hlive
    exact ⟨hlive, rfl⟩
  · intro k hlive
    rw [process_setProcess] at hlive ⊢
    split at hlive
    · exact absurd rfl hlive
    · next hkj =>
      rw [if_neg hkj]
      exact ⟨hlive, rfl⟩
  · intro i hi hlive
    obtain ⟨k, hk, hklive, hkpid, hkmain⟩ := h.owner i hi hlive
    refine ⟨k, hk, ?_⟩
    rw [process_setProcess, if_neg (hother hi hlive hkpid)]
    exact ⟨hklive, hkpid, hkmain⟩
  · intro i hi hrun
    have hlive : (s.thread i).state ≠ .empty := by
      have hrun' : (s.thread i).state = .running := hrun
      simp [hrun']
    obtain ⟨htid, hpid, k, hk, hkpid, hkstate⟩ := hforgot.running i hi hrun
    refine ⟨htid, hpid, k, hk, ?_⟩
    rw [process_setProcess, if_neg (hother hi hlive hkpid)]
    exact ⟨hkpid, hkstate⟩
  · intro i hi hblock k hk hkpid
    rw [process_setProcess] at hkpid ⊢
    split
    · simp [reapedProcess]
    · next hkj =>
      rw [if_neg hkj] at hkpid
      exact h.blocked i hi hblock k hk hkpid

end

/-! ## Switching -/

lemma initializeManager (s : Machine V) : Inv s.initializeManager where
  counters := ⟨one_pos, one_pos⟩
  tids := fun _ hi => absurd hi (not_lt_zero _)
  tid_bounds := fun _ hi => absurd hi (not_lt_zero _)
  pids := fun _ hj => absurd hj (not_lt_zero _)
  pid_bounds := fun _ hj => absurd hj (not_lt_zero _)
  owner := fun _ hi => absurd hi (not_lt_zero _)
  running := fun _ hi => absurd hi (not_lt_zero _)
  blocked := fun _ hi => absurd hi (not_lt_zero _)

section

variable (h : Inv s)
include h

lemma running_demoteActive (hi : i < s.threads.count)
    (hrun : ((s.demoteActive tid).thread i).state = .running) : s.findThread tid = some i := by
  rw [Machine.demoteActive] at hrun
  split at hrun
  · rw [Machine.parkThread, thread_onThread] at hrun
    split at hrun
    · split at hrun
      · cases hrun
      · contradiction
    · next hfind =>
      -- the running thread is the active one, which has been parked
      have hactive := (h.running i hi hrun).1
      exact absurd (hactive ▸ h.findThread hi (by simp [hrun])) hfind
  · next hsame =>
    have hlive : (s.thread i).state ≠ .empty := by simp [hrun]
    have hactive := (h.running i hi hrun).1
    have hpos := (h.tid_bounds i hi hlive).1
    have htid : (s.thread i).tid = tid := by
      by_contra hne
      exact hsame ⟨by omega, by omega⟩
    exact htid ▸ h.findThread hi hlive

lemma activate {tid next : ℕ} (hfind : s.findThread tid = some next)
    (hrunnable : s.processRunnable (s.thread next).pid) : Inv (s.activated tid next) := by
  have hlive := (findThread_eq_some hfind).2.2
  have hthread (k : ℕ) : ((s.activated tid next).thread k).tid = (s.thread k).tid ∧
      ((s.activated tid next).thread k).pid = (s.thread k).pid ∧
      (((s.activated tid next).thread k).state = .empty ↔ (s.thread k).state = .empty) := by
    rw [thread_activated]
    obtain hsame | ⟨hrun, hparked⟩ := s.thread_demoteActive tid k
    · rw [hsame]
      split
      · next hk => exact ⟨rfl, rfl, by simp [hk, hlive]⟩
      · exact ⟨rfl, rfl, Iff.rfl⟩
    · rw [hparked]
      split <;> exact ⟨rfl, rfl, by simp [hrun]⟩
  refine h.keep ?_ (count_demoteActive s tid) ?_ ?_ hthread ?_ ?_ ?_
  · rw [activated_frame]
  · rw [activated_frame]
  · rw [activated_frame]
  · intro k
    rw [process_activated]
    exact ⟨rfl, rfl, Iff.rfl⟩
  · intro i hi hrun
    have hi' : i = next := by
      rw [thread_activated] at hrun
      split at hrun
      · assumption
      · exact (Option.some.inj (hfind.symm.trans (h.running_demoteActive hi hrun))).symm
    subst hi'
    have htid : (s.activated tid i).activeTid = (s.thread i).tid := by rw [activated_frame]
    have hpid : (s.activated tid i).activePid = (s.thread i).pid := by rw [activated_frame]
    rw [htid, hpid]
    obtain ⟨j, hj, hjpid, hjstate⟩ := h.processRunnable_iff.1 hrunnable
    exact ⟨rfl, rfl, j, hj, hjpid, by rwa [process_activated]⟩
  · intro i hi hblock j hj hpid
    rw [process_activated]
    apply h.blocked i hi _ j hj hpid
    rw [thread_activated] at hblock
    split at hblock
    · cases hblock
    obtain hsame | ⟨-, hparked⟩ := s.thread_demoteActive tid i
    · rwa [hsame] at hblock
    · rw [hparked] at hblock
      cases hblock

/-! ## Every transition -/

lemma revise (hr : Revision s s') : Inv s' := by
  cases hr with
  | idle hidle =>
    rw [hidle]
    exact h.of_eq rfl
  | describe hf => exact h.describe hf

lemma wakeup (hw : Wakeup s s') : Inv s' := by
  cases hw with
  | memory | accept => exact h.of_eq rfl
  | complete value error hblock => exact h.complete value error hblock
  | deliver hput =>
    obtain ⟨mem, hmem⟩ := hput (Bytes.load (s.pipe _).data (s.pipe _).readOffset _) s
    rw [Machine.deliver, hmem]
    exact h.of_eq rfl

lemma effect (he : Effect s s') : Inv s' := by
  cases he with
  | revise hr => exact h.revise hr
  | wakeup hw => exact h.wakeup hw
  | openPipe | clearPipe | mapSpace => exact h.of_eq rfl
  | enterProcess henter => exact h.enterProcess henter
  | enterThread hj hlive hnew => exact h.enterThread hj hlive hnew rfl
  | start _ hstate => exact h.start hstate
  | stop hj hstate => exact h.stop hj hstate
  | «continue» _ hstate => exact h.resume (by simp [hstate])
  | markExited code reason hj hlive => exact h.markExited hj hlive
  | forgetActive hnone => exact h.forgetActive hnone
  | reapThread hi => exact h.reapThread hi
  | reapProcess _ _ hnone => exact h.reapProcess hnone

lemma effects (he : Effects s s') : Inv s' := by
  induction he with
  | refl => exact h
  | tail _ hlast ih => exact ih.effect hlast

lemma «switch» (hs : Switch s s') : Inv s' := by
  cases hs with
  | turn hturn =>
    cases hturn with
    | still => exact h
    | activate hfind _ hrunnable => exact h.activate hfind hrunnable
    | keep _ hf => exact h.setThread_same hf
    | park hrun => exact h.setThread (by simp [hrun]) rfl rfl (by simp)
    | switchSpace => exact h.of_eq rfl
  | block hwait hrun =>
    obtain ⟨htid, hpid⟩ := hwait (s.thread _).clearWait
    exact h.setThread_of htid hpid (by simp [hrun]) (by simp) fun _ => .inr hrun

end

end Inv
end IanOS.Machine
