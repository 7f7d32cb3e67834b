import IanOS.Userspace.HandleReferences

/-!
# The preemption gate

`update_user_preemption_gate` enables the preemption of user threads when more than one of them can
be scheduled, and disables it otherwise.  It is called when a process starts, exits, is reaped or
continues, and when a thread waits for a child.  The other functions that make a thread schedulable
or stop it from being so leave the gate as it is: it is wrong after them unless enough threads are
left, or too few are waiting (`GateOk`).
-/

namespace IanOS

open List Machine

namespace Machine

variable {V : Type} {s s' : Machine V} {i j : ℕ} {callerPid groupId : ℕ}

/-! ## Files -/

namespace Rest

lemma of_steps (h : FileSteps s s') : Rest s s' := by
  induction h with
  | refl => exact refl s
  | tail _ hlast ih =>
    cases hlast with
    | vfs => exact ih.trans (of_tables rfl rfl rfl rfl)
    | describe hf => exact ih.trans (setProcess hf.pid (by rw [hf.state]))

end Rest

namespace Wakes

lemma wakePipeWaiters (s : Machine V) (pipeId : ℕ) (readers writers : Bool) :
    Wakes s (s.wakePipeWaiters pipeId readers writers).2 :=
  of_woken (wakePipeWaiters_wakeups pipeId readers writers).woken

lemma cleanupPipe (s : Machine V) (pipeId : ℕ) : Wakes s (s.cleanupPipeIfUnreferenced pipeId).2 :=
  cleanupPipeIfUnreferenced_induction
    (fun _ _ h => h.trans (wakePipeWaiters _ pipeId _ _))
    (fun _ _ h => h.trans (Rest.wakes (.of_tables rfl rfl rfl rfl))) (Rest.refl s).wakes

lemma of_files (h : FileActs s s') : Wakes s s' := by
  induction h with
  | refl => exact (Rest.refl s).wakes
  | @tail m _ _ hlast ih =>
    refine ih.trans ?_
    cases hlast with
    | step hstep => exact (Rest.of_steps (.single hstep)).wakes
    | memory => exact Rest.wakes (.of_tables rfl rfl rfl rfl)
    | @read pipeId k n put hput =>
      obtain ⟨mem, hmem⟩ := deliver_eq hput
      refine Wakes.trans (Rest.wakes ?_) (wakePipeWaiters _ _ _ _)
      rw [hmem]
      exact .of_tables rfl rfl rfl rfl
    | write =>
      refine Wakes.trans (Rest.wakes ?_) (wakePipeWaiters _ _ _ _)
      exact .of_tables rfl rfl rfl rfl
    | close ids =>
      refine foldlRecOn _ _ (Rest.setProcess rfl Iff.rfl).wakes
        fun m' hm' id _ => hm'.trans (cleanupPipe m' id)

end Wakes

/-! ## Processes -/

namespace Rest

/-- A record that is not runnable goes into a slot that was not in use. -/
lemma enterProcess {entry top : Word64} {root : ℕ} {owns : Bool}
    (h : s.enterProcess entry root top owns = some (j, s')) : Rest s s' := by
  obtain ⟨p, -, hstate, -, hplaced, hs'⟩ := enterProcess_eq_some h
  have hthread (i : ℕ) : s'.thread i = s.thread i := by
    rw [hs']
    rfl
  have hthreads : s'.threads.count = s.threads.count := by rw [hs']
  have hin (t : UserThread) : s'.InRunnable t ↔ s.InRunnable t := by
    constructor
    · rintro ⟨k, hk, hpid, hrunnable⟩
      have hkj : k ≠ j := by
        rintro rfl
        have hnew : s'.process k = p := hplaced.new
        rw [hnew, hstate] at hrunnable
        cases hrunnable
      obtain ⟨hk', hslot⟩ := hplaced.old k hk hkj
      have hsame : s'.process k = s.process k := hslot
      rw [hsame] at hpid hrunnable
      exact ⟨k, hk', hpid, hrunnable⟩
    · rintro ⟨k, hk, hpid, hrunnable⟩
      have hkj : k ≠ j := by
        rintro rfl
        have hfree : (s.process k).state = .empty := hplaced.wasFree hk
        rw [hfree] at hrunnable
        cases hrunnable
      have hk' := hk.trans_le hplaced.le
      have hsame : s'.process k = s.process k := (hplaced.old k hk' hkj).2
      exact ⟨k, hk', by rwa [hsame], by rwa [hsame]⟩
  refine ⟨by rw [hs'], by rw [hs'], fun i => ?_, fun i hi => ?_⟩
  · rw [Schedulable, Schedulable, hthread, hthreads, hin]
  · rwa [Suspended, hthread, hthreads, hin] at hi

lemma createMainThread (s : Machine V) (j : ℕ) : Rest s (s.createMainThread j).2 := by
  obtain hsame | ⟨i, t, -, -, hstate, -, hplaced, hs'⟩ :=
    createMainThread_cases rfl
  · rw [hsame]
    exact refl s
  generalize (s.createMainThread j).2 = s' at hplaced hs'
  have hin (t : UserThread) : s'.InRunnable t ↔ s.InRunnable t := by
    refine exists_congr fun k => ?_
    rw [hs', process_setProcess]
    split <;> exact Iff.rfl
  have hnew : s'.thread i = t := hplaced.new
  have hother (k : ℕ) (hk : k < s'.threads.count) (hki : k ≠ i) :
      k < s.threads.count ∧ s'.thread k = s.thread k := hplaced.old k hk hki
  refine ⟨by rw [hs']; rfl, by rw [hs']; rfl, fun k => ⟨?_, ?_⟩, ?_⟩
  · rintro ⟨hk, hready, hrunnable⟩
    have hki : k ≠ i := by
      rintro rfl
      rw [hnew, UserThread.Ready, hstate] at hready
      rcases hready with h | h <;> cases h
    obtain ⟨hk', hsame⟩ := hother k hk hki
    rw [hsame] at hready hrunnable
    exact ⟨hk', hready, (hin _).1 hrunnable⟩
  · rintro ⟨hk, hready, hrunnable⟩
    have hki : k ≠ i := by
      rintro rfl
      have hfree : (s.thread k).state = .empty := hplaced.wasFree hk
      rw [UserThread.Ready, hfree] at hready
      rcases hready with h | h <;> cases h
    have hk' := hk.trans_le hplaced.le
    rw [Schedulable, (hother k hk' hki).2, hin]
    exact ⟨hk', hready, hrunnable⟩
  · rintro k ⟨hk, hblock, hrunnable⟩
    have hki : k ≠ i := by
      rintro rfl
      rw [hnew, hstate] at hblock
      cases hblock
    obtain ⟨hk', hsame⟩ := hother k hk hki
    rw [hsame] at hblock hrunnable
    exact ⟨hk', hblock, (hin _).1 hrunnable⟩

lemma createProcess [FileSystem V] (s : Machine V) (image : ProcessImage) :
    Rest s (s.createProcess image).2 := by
  have hmap : Rest s { s with spaces := Function.update s.spaces image.root image.mapping } :=
    of_tables rfl rfl rfl rfl
  rw [Machine.createProcess]
  dsimp only
  split
  · exact hmap
  next j s' henter =>
    have hthread := (hmap.trans (enterProcess henter)).trans (createMainThread s' j)
    split
    · exact hthread
    · have hlive := mt ((Aside.createMainThread s' j).empty j).1 (enterProcess_live henter)
      exact hthread.trans (of_steps (installDefaultStandardFds_filed hlive).acts)

lemma createProcessStub [FileSystem V] (s : Machine V) (entry : Word64) (root : ℕ) :
    Rest s (s.createProcessStub entry root).2 := by
  rw [Machine.createProcessStub]
  split
  · exact refl s
  · split
    · exact refl s
    · next j s' henter =>
        exact (enterProcess henter).trans
          (of_steps (installDefaultStandardFds_filed (enterProcess_live henter)).acts)

end Rest

/-! ## Stopping a group -/

/-- `stop_process_group` stops this process. -/
def StopTarget (s : Machine V) (callerPid groupId j : ℕ) : Prop :=
  (s.process j).state = .runnable ∧ (s.process j).processGroupId = groupId ∧
    (s.process j).pid ≠ callerPid ∧ (s.process j).parentPid = callerPid
  deriving Decidable

/-- The threads that are schedulable after it. -/
def remaining (s : Machine V) (callerPid groupId : ℕ) : Finset ℕ :=
  s.schedulables.filter fun i => ∃ j < s.processes.count, (s.process j).pid = (s.thread i).pid ∧
    (s.process j).state = .runnable ∧ ¬ s.StopTarget callerPid groupId j

/-- The loop of `stop_process_group` after its first `n` rounds. -/
structure StoppedBelow (s : Machine V) (callerPid groupId n : ℕ) (s' : Machine V) : Prop where
  gate : s'.userPreemption = s.userPreemption
  timer : s'.lapicConfigures = s.lapicConfigures
  processCount : s'.processes.count = s.processes.count
  threadCount : s'.threads.count = s.threads.count
  thread : ∀ i, (s'.thread i).pid = (s.thread i).pid ∧ ((s'.thread i).Ready ↔ (s.thread i).Ready)
  process : ∀ j, s'.process j = if j < n ∧ s.StopTarget callerPid groupId j then
    { s.process j with state := .stopped } else s.process j

lemma thread_parkThread (s : Machine V) (tid i : ℕ) :
    ((s.parkThread tid).thread i).pid = (s.thread i).pid ∧
      (((s.parkThread tid).thread i).Ready ↔ (s.thread i).Ready) := by
  rw [parkThread, thread_onThread]
  split_ifs with hfind hrun
  · exact ⟨rfl, iff_of_true (.inl rfl) (.inr hrun)⟩
  · exact ⟨rfl, Iff.rfl⟩
  · exact ⟨rfl, Iff.rfl⟩

lemma StoppedBelow.member {n : ℕ} {r : ℕ × Machine V} (h : StoppedBelow s callerPid groupId n r.2) :
    StoppedBelow s callerPid groupId (n + 1) (stopMember callerPid groupId r n).2 := by
  have hn : r.2.process n = s.process n := by
    rw [h.process, if_neg fun hlt => lt_irrefl n hlt.1]
  have hother {j : ℕ} (hj : j ≠ n) : (j < n + 1 ∧ s.StopTarget callerPid groupId j) =
      (j < n ∧ s.StopTarget callerPid groupId j) := by
    rw [Nat.lt_succ_iff_lt_or_eq, or_iff_left hj]
  rw [stopMember, hn]
  split
  · next htarget =>
    have hproc (j : ℕ) (m : Machine V) (tid : ℕ) : (m.parkThread tid).process j = m.process j := by
      show (m.parkThread tid).processes.slot j = m.processes.slot j
      rw [parkThread, processes_onThread]
    have hgate (m : Machine V) (tid : ℕ) : (m.parkThread tid).userPreemption = m.userPreemption ∧
        (m.parkThread tid).lapicConfigures = m.lapicConfigures := by
      rw [parkThread, onThread_frame]
      exact ⟨rfl, rfl⟩
    refine ⟨(hgate _ _).1.trans h.gate, (hgate _ _).2.trans h.timer, ?_, ?_, fun i => ?_,
      fun j => ?_⟩
    · exact (congrArg Table.count (processes_onThread _)).trans h.processCount
    · exact (count_onThread _).trans h.threadCount
    · obtain ⟨hpid, hready⟩ := thread_parkThread
        (r.2.setProcess n fun p => { p with state := .stopped }) (s.process n).mainThreadId i
      exact ⟨hpid.trans (h.thread i).1, hready.trans (h.thread i).2⟩
    refine (hproc j _ _).trans ?_
    rw [process_setProcess]
    by_cases hj : j = n
    · subst hj
      rw [if_pos rfl, hn, if_pos ⟨Nat.lt_succ_self j, htarget⟩]
    · rw [if_neg hj, h.process]
      simp only [hother hj]
  · next htarget =>
    refine ⟨h.gate, h.timer, h.processCount, h.threadCount, h.thread, fun j => ?_⟩
    rw [h.process]
    by_cases hj : j = n
    · subst hj
      rw [if_neg fun hlt => lt_irrefl j hlt.1, if_neg fun ht => htarget ht.2]
    · simp only [hother hj]

lemma stoppedBelow_fold (s : Machine V) (callerPid groupId n : ℕ) :
    StoppedBelow s callerPid groupId n
      ((range n).foldl (stopMember callerPid groupId) (0, s)).2 := by
  induction n with
  | zero => exact ⟨rfl, rfl, rfl, rfl, fun _ => ⟨rfl, Iff.rfl⟩, fun j => (if_neg (by omega)).symm⟩
  | succ n ih =>
    rw [range_succ, foldl_append, foldl_cons, foldl_nil]
    exact ih.member

lemma StoppedBelow.schedulables (h : StoppedBelow s callerPid groupId s.processes.count s') :
    s'.schedulables = s.remaining callerPid groupId := by
  have hin (i : ℕ) : s'.InRunnable (s'.thread i) ↔
      ∃ j < s.processes.count, (s.process j).pid = (s.thread i).pid ∧
        (s.process j).state = .runnable ∧ ¬ s.StopTarget callerPid groupId j := by
    rw [InRunnable, h.processCount, (h.thread i).1]
    refine exists_congr fun j => and_congr_right fun hj => ?_
    rw [h.process j]
    by_cases htarget : s.StopTarget callerPid groupId j
    · rw [if_pos ⟨hj, htarget⟩]
      exact iff_of_false (fun hstopped => by cases hstopped.2) fun hleft => hleft.2.2 htarget
    · rw [if_neg fun hboth => htarget hboth.2]
      simp only [htarget, not_false_eq_true, and_true]
  ext i
  rw [mem_schedulables, remaining, Finset.mem_filter, mem_schedulables, Schedulable, hin,
    h.threadCount, (h.thread i).2, Schedulable]
  constructor
  · rintro ⟨hi, hready, j, hj, hpid, hrunnable, hspared⟩
    exact ⟨⟨hi, hready, j, hj, hpid, hrunnable⟩, j, hj, hpid, hrunnable, hspared⟩
  · rintro ⟨⟨hi, hready, -⟩, hleft⟩
    exact ⟨hi, hready, hleft⟩

/-- At most one thread is schedulable before, or more than one is left. -/
def StopOk (s : Machine V) (callerPid groupId : ℕ) : Prop :=
  s.schedulableThreadCount ≤ 1 ∨ 1 < (s.remaining callerPid groupId).card
  deriving Decidable

lemma Tracks.stopProcessGroup (h : Tracks s) (hok : s.StopOk callerPid groupId) :
    Tracks (s.stopProcessGroup callerPid groupId).2 := by
  rw [Machine.stopProcessGroup]
  split
  · exact h
  have hstopped := stoppedBelow_fold s callerPid groupId s.processes.count
  have hle : (s.remaining callerPid groupId).card ≤ s.schedulables.card :=
    Finset.card_le_card (Finset.filter_subset _ _)
  rw [StopOk, schedulableThreadCount_eq] at hok
  refine h.congr hstopped.gate hstopped.timer ?_
  rw [hstopped.schedulables]
  omega

/-! ## Functions that end with the update -/

@[simp] lemma lapicConfigures_onThread (s : Machine V) (tid : ℕ) (f : UserThread → UserThread) :
    (s.onThread tid f).lapicConfigures = s.lapicConfigures := by
  rw [onThread_frame]

lemma Tracks.markRunnable (h : Tracks s) (pid : ℕ) : Tracks (s.markRunnable pid).2 := by
  rw [Machine.markRunnable]
  split
  · exact h
  split
  · exact h
  · refine tracks_update ?_
    rw [startThread, lapicConfigures_onThread, claimActive]
    split <;> exact h.timer

/-- The loop counts the members it changes. -/
lemma continueMember_idle (callerPid groupId : ℕ) (r : ℕ × Machine V) (j : ℕ) :
    continueMember callerPid groupId r j = r ∨ r.1 < (continueMember callerPid groupId r j).1 := by
  rw [continueMember]
  split
  · exact .inr (Nat.lt_succ_self _)
  · exact .inl rfl

lemma Tracks.continueProcessGroup (h : Tracks s) (callerPid groupId : ℕ) :
    Tracks (s.continueProcessGroup callerPid groupId).2 := by
  have htimer (js : List ℕ) : (js.foldl (continueMember callerPid groupId)
      (0, s)).2.lapicConfigures = s.lapicConfigures := by
    refine foldlRecOn (motive := fun r : ℕ × Machine V =>
      r.2.lapicConfigures = s.lapicConfigures) js _ rfl fun r hr j _ => ?_
    rw [continueMember]
    split <;> exact hr
  rw [Machine.continueProcessGroup]
  split
  · exact h
  dsimp only
  split
  · next hzero =>
    have hidle : (range s.processes.count).foldl (continueMember callerPid groupId) (0, s) =
        (0, s) := (Run.foldl_idle (continueMember_idle callerPid groupId) hzero).1
    rwa [hidle]
  · exact tracks_update ((htimer _).trans h.timer)

lemma Tracks.exitProcess (h : Tracks s) (pid code : ℕ) (reason : ProcessTerminationReason) :
    Tracks (s.exitProcess pid code reason).2 := by
  rw [Machine.exitProcess]
  split
  · exact h
  next j _ =>
    have hwoken := Wakes.of_woken (wakeAtExit_wakeups (s.markExited j code reason)
      (pipeEnds .pipeRead (s.fds j)) (pipeEnds .pipeWrite (s.fds j)) pid code).woken
    refine tracks_update (hwoken.timer.trans ?_)
    rw [markExited, lapicConfigures_onThread]
    exact h.timer

lemma Tracks.killProcessGroup (h : Tracks s) (callerPid groupId code : ℕ)
    (reason : ProcessTerminationReason) :
    Tracks (s.killProcessGroup callerPid groupId code reason).2 := by
  rw [Machine.killProcessGroup]
  split
  · exact h
  split
  · exact h
  refine foldlRecOn (motive := fun r : ℕ × Machine V => Tracks r.2) _ _ h fun r hr j _ => ?_
  rw [killMember]
  split
  · exact hr.exitProcess _ _ _
  · exact hr

lemma Tracks.reapExited [FileSystem V] (h : Tracks s) (pid : ℕ) : Tracks (s.reapExited pid).2 := by
  rw [Machine.reapExited]
  split
  · exact h
  next j _ =>
    split
    · exact h
    refine tracks_update ?_
    have hreaped : ((range (s.closeAll j).threads.count).foldl (reapThread pid)
        (s.closeAll j)).lapicConfigures = s.lapicConfigures := by
      refine foldlRecOn
        (motive := fun m : Machine V => m.lapicConfigures = s.lapicConfigures) _ _
        (Wakes.of_files (closeAll_files j)).timer fun m hm i _ => ?_
      rw [reapThread]
      split <;> exact hm
    exact hreaped.trans h.timer

lemma Tracks.exitUserThread (h : Tracks s) (frame : ExceptionFrame) (code : ℕ) :
    Tracks (s.exitUserThreadFromFrame frame code).2.2 := by
  rw [exitUserThreadFromFrame]
  split
  · exact h
  have hexit := h.exitProcess s.currentPid code .exited
  generalize s.exitProcess s.currentPid code .exited = e at hexit
  dsimp only
  split
  · exact hexit
  have hselect := hexit.rest (selectNextRunnableThread_calm e.2).toRest
  split
  · exact hselect
  next next _ =>
    have hnext := hselect.rest (.turn (.activateThread e.2.selectNextRunnableThread.2 next.tid))
    split
    · exact hnext
    · split
      · exact hnext
      · exact hnext.rest (.of_tables rfl rfl rfl rfl)

/-! ## Every operation -/

/-- The operation leaves the gate right: it ends with the update or does not change which threads
are schedulable; it blocks a thread while there are not exactly two that are schedulable; it stops
processes, but at most one thread was schedulable or more than one is left; or it wakes threads, but
threads compete already, or would not if all that are waiting were woken. -/
def GateOk (s : Machine V) : (Σ β, Op V β) → Prop
  | ⟨_, .initializeManager⟩ => s.schedulableThreadCount ≤ 1
  | ⟨_, .stopProcessGroup callerPid groupId⟩ => s.StopOk callerPid groupId
  | ⟨_, .blockActiveThreadOnPipe ..⟩ | ⟨_, .blockActiveThreadOnProcess _⟩
  | ⟨_, .blockActiveThreadOnAnyProcess⟩ | ⟨_, .blockActiveThreadUntil _⟩
  | ⟨_, .blockUserPipeSyscallFromFrame ..⟩ | ⟨_, .blockUserSleepSyscallFromFrame ..⟩ =>
    s.schedulableThreadCount ≠ 2
  | ⟨_, .wakePipeWaiters ..⟩ | ⟨_, .wakeProcessWaiters ..⟩ | ⟨_, .wakeSleepers _⟩
  | ⟨_, .attachPipeFd ..⟩ | ⟨_, .closePipe _⟩ | ⟨_, .readFile ..⟩ | ⟨_, .writeFile ..⟩
  | ⟨_, .closeFile ..⟩ => s.WakeOk
  -- `SetUserPreemption` sets the gate whatever the threads do
  | ⟨_, .enableUserPreemption⟩ => False
  | _ => True

lemma Tracks.step [FileSystem V] (h : Tracks s) (o : Σ β, Op V β) (hok : s.GateOk o) :
    Tracks (s.step o) := by
  obtain ⟨β, o⟩ := o
  cases o with
  | initializeManager =>
    have hoff : ¬ s.userPreemption := fun hon => absurd (h.gate.1 hon) (not_lt.2 hok)
    exact ⟨h.timer, iff_of_false hoff (Nat.not_lt_zero 1)⟩
  | createProcess => exact h.rest (.createProcess s _)
  | createProcessStub => exact h.rest (.createProcessStub s _ _)
  | markRunnable => exact h.markRunnable _
  | setParent => exact h.rest (setParent_calm _ _).toRest
  | setProcessGroup => exact h.rest (setProcessGroup_calm _ _ _).toRest
  | setForegroundProcessGroup => exact h.rest (setForegroundProcessGroup_calm _ _).toRest
  | killProcessGroup => exact h.killProcessGroup _ _ _ _
  | stopProcessGroup => exact h.stopProcessGroup hok
  | continueProcessGroup => exact h.continueProcessGroup _ _
  | exitProcess => exact h.exitProcess _ _ _
  | reapExited => exact h.reapExited _
  | activateThread => exact h.rest (.turn (.activateThread s _))
  | saveActiveThreadFrame => exact h.rest (.turn (.saveFrame s _ _))
  | markActiveThreadRunnable => exact h.rest (.turn (.markRunnable s))
  | blockActiveThreadOnPipe | blockActiveThreadOnProcess | blockActiveThreadOnAnyProcess
  | blockActiveThreadUntil => exact h.loses (.blockActiveThread s _ _) hok
  | wakePipeWaiters => exact h.wakes (.wakePipeWaiters s _ _ _) hok
  | wakeProcessWaiters => exact h.wakes (.of_woken (wakeProcessWaiters_wakeups _ _).woken) hok
  | wakeSleepers => exact h.wakes (.of_woken (wakeSleepers_wakeups _).woken) hok
  | restoreContext => exact h.rest (restoreContext_calm s _).toRest
  | selectNextRunnableThread => exact h.rest (selectNextRunnableThread_calm s).toRest
  | openFile => exact h.rest (.of_steps (openFile_filed s _ _).acts)
  | redirectFile => exact h.rest (.of_steps (redirectFile_filed s _ _ _).acts)
  | redirectFileAppend => exact h.rest (.of_steps (redirectFileAppend_filed s _ _ _).acts)
  | createPipe => exact h.rest (createPipe_calm s).toRest
  | attachPipeFd => exact h.wakes (.of_files (attachPipeFd_filed s _ _ _ _).acts) hok
  | closePipe => exact h.wakes (.cleanupPipe s _) hok
  | readFile => exact h.wakes (.of_files (readFile_filed s _ _ _ _).acts) hok
  | writeFile => exact h.wakes (.of_files (writeFile_filed s _ _ _ _).acts) hok
  | seekFile => exact h.rest (.of_steps (seekFile_filed s _ _ _).acts)
  | closeFile => exact h.wakes (.of_files (closeFile_filed s _ _).acts) hok
  | duplicateFile => exact h.rest (.of_steps (duplicateFile_filed s _ _).acts)
  | duplicateFileTo => exact h.rest (.of_steps (duplicateFileTo_filed s _ _ _).acts)
  | inheritStandardFds => exact h.rest (.of_steps (inheritStandardFds_filed s _ _).acts)
  | setCurrentDirectory => exact h.rest (.of_steps (setCurrentDirectory_filed s _ _).acts)
  | updateUserPreemptionGate => exact tracks_update h.timer
  | noteCurrentUserTick => exact h.rest (noteCurrentUserTick_calm s).toRest
  | userTimesliceExpired => exact h.rest (userTimesliceExpired_calm s).toRest
  | yieldUserThreadFromFrame | preemptUserThreadFromFrame =>
    exact h.rest (switchFromFrame_calm s _).toRest
  | blockUserPipeSyscallFromFrame => exact h.loses (blockUserPipe_outcome s _ _ _).loses hok
  | blockUserWaitSyscallFromFrame => exact (blockUserWait_outcome s _ _).tracks h
  | blockUserWaitAnySyscallFromFrame => exact (blockUserWaitAny_outcome s _).tracks h
  | blockUserSleepSyscallFromFrame => exact h.loses (blockUserSleep_outcome s _ _).loses hok
  | exitUserThreadFromFrame => exact h.exitUserThread _ _
  | enableUserPreemption => exact hok.elim
  | pitNoteTick | lapicNoteTick | stopLapicTimer | storeUser | environment =>
    exact h.rest (.of_tables rfl rfl rfl rfl)

instance (s : Machine V) (o : Σ β, Op V β) : Decidable (s.GateOk o) := by
  unfold GateOk
  split <;> infer_instance

/-- After every run of operations all of which meet the condition, preemption is enabled exactly
when more than one thread is schedulable. -/
theorem preemption_gate_tracks [FileSystem V] (s : Machine V) (htimer : s.lapicConfigures)
    (hboot : s.userPreemption = false) (ops : List (Σ β, Op V β))
    (hops : Run.Allowed step GateOk s.initializeManager ops) :
    let s' := ops.foldl step s.initializeManager
    s'.userPreemption ↔ 1 < s'.schedulableThreadCount := by
  have hstart : Tracks s.initializeManager :=
    ⟨htimer, iff_of_false (by rw [initializeManager, hboot]; exact Bool.false_ne_true)
      (Nat.not_lt_zero 1)⟩
  exact (hops.foldl (fun s o h hok => h.step o hok) hstart).gate

/-- So many processes start, and the thread of the first becomes active. -/
def competitors (n : ℕ) : List (Σ β, Op Mounted β) :=
  (range n).flatMap (fun k => [⟨_, .createProcess ⟨0x400000, k + 1, 0x7ffffff000, fun va => va⟩⟩,
    ⟨_, .markRunnable (k + 1)⟩]) ++ [⟨_, .activateThread 1⟩]

/-- A machine whose timer works, with the terminal as its only file. -/
def timed : Machine Mounted :=
  { (default : Machine Mounted) with
    lapicConfigures := true
    vfs := Mounted.booted terminalOnly default }

/-- A frame of a thread in user mode. -/
def userFrame : ExceptionFrame where
  gpr := Registers.zero
  vector := 0x80
  error := 0
  rip := 0x400000
  cs := 0x23
  rflags := 0x202
  rsp := 0x7fffffeff0
  ss := 0x1b

/-- Of three threads one goes to sleep. -/
theorem preemption_gate_tracks_three :
    let ops := competitors 3 ++ [⟨_, .blockUserSleepSyscallFromFrame userFrame 5⟩]
    let s := ops.foldl step timed.initializeManager
    s.schedulableThreadCount = 2 ∧ (s.userPreemption ↔ 1 < s.schedulableThreadCount) := by
  intro ops s
  exact ⟨by decide +kernel, preemption_gate_tracks timed rfl rfl ops (by decide +kernel)⟩

/-- Of two threads one goes to sleep, and preemption stays enabled for the one that is left. -/
theorem preemption_gate_left_enabled :
    let before := (competitors 2).foldl step timed.initializeManager
    let s := before.step ⟨_, .blockUserSleepSyscallFromFrame userFrame 5⟩
    (before.schedulableThreadCount = 2 ∧ before.userPreemption) ∧
      s.schedulableThreadCount = 1 ∧ s.userPreemption := by
  decide +kernel

end Machine
end IanOS
