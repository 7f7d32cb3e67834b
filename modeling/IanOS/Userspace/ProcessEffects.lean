import IanOS.Userspace.FileEffects

/-!
# The process functions

Each function of `Processes` is a sequence of effects.  Those in which no process comes or goes are
quiet; their loops over a process group are described by what has happened to the group so far.
-/

namespace IanOS.Machine

open List

variable {V : Type} {s s' : Machine V} {j pid : ℕ}

/-! ## Changes outside the tables -/

lemma startLapicSystemTick_still (s : Machine V) : Still s s.startLapicSystemTick.2 := by
  rw [startLapicSystemTick]
  split <;> exact ⟨rfl, rfl⟩

lemma enableUserPreemption_still (s : Machine V) : Still s s.enableUserPreemption.2 := by
  have hstart := startLapicSystemTick_still s
  rw [enableUserPreemption]
  split
  · exact ⟨rfl, rfl⟩
  split
  · refine ⟨?_, hstart.2⟩
    rw [hstart.1]
    rfl
  · exact hstart

lemma updateUserPreemptionGate_still (s : Machine V) : Still s s.updateUserPreemptionGate.2 := by
  rw [updateUserPreemptionGate]
  split
  · exact enableUserPreemption_still s
  · exact ⟨rfl, rfl⟩

lemma gate_quiet (s : Machine V) : Quiet s s.updateUserPreemptionGate.2 :=
  .of_still (updateUserPreemptionGate_still s)

/-! ## Creation -/

lemma enterProcess_live {entry top : Word64} {root : ℕ} {owns : Bool}
    (he : s.enterProcess entry root top owns = some (j, s')) : (s'.process j).state ≠ .empty := by
  obtain ⟨p, -, hstate, -, hplaced, -⟩ := enterProcess_eq_some he
  have hnew : s'.process j = p := hplaced.new
  simp [hnew, hstate]

/-- The process that has just been entered has no thread. -/
lemma enterProcess_new (h : Inv s) {entry top : Word64} {root : ℕ} {owns : Bool}
    (he : s.enterProcess entry root top owns = some (j, s')) :
    j < s'.processes.count ∧ (s'.process j).state ≠ .empty ∧ ∀ i < s'.threads.count,
      (s'.thread i).state ≠ .empty → (s'.thread i).pid ≠ (s'.process j).pid := by
  obtain ⟨p, hpid, -, -, hplaced, hs'⟩ := enterProcess_eq_some he
  have hnew : s'.process j = p := hplaced.new
  refine ⟨hplaced.lt, enterProcess_live he, ?_⟩
  intro i hi hlive
  rw [hnew, hpid]
  rw [hs'] at hi hlive ⊢
  obtain ⟨k, hk, hklive, hkpid, -⟩ := h.owner i hi hlive
  have hlt := (h.pid_bounds k hk hklive).2
  have hpid' : (s.thread i).pid < s.nextPid := hkpid ▸ hlt
  exact hpid'.ne

section
variable [FileSystem V]

lemma createProcess_effects (h : Inv s) (image : ProcessImage) :
    Effects s (s.createProcess image).2 := by
  have hmap : Effects s
      { s with spaces := Function.update s.spaces image.root image.mapping } :=
    .single (.mapSpace s image.root image.mapping)
  have hinv := h.effects hmap
  rw [createProcess]
  dsimp only
  split
  · exact hmap
  next j s₁ henter =>
    obtain ⟨hj, hlive, hnew⟩ := enterProcess_new hinv henter
    have hthread : Effects s (s₁.createMainThread j).2 :=
      (hmap.tail (.enterProcess henter)).tail (.enterThread s₁ hj hlive hnew)
    split
    · exact hthread
    · have hkept := mt ((Aside.createMainThread s₁ j).empty j).1 hlive
      exact hthread.trans (FileSteps.effects (installDefaultStandardFds_filed hkept).acts)

lemma createProcessStub_effects (s : Machine V) (entry : Word64) (root : ℕ) :
    Effects s (s.createProcessStub entry root).2 := by
  rw [createProcessStub]
  split
  · exact .refl
  split
  · exact .refl
  · next j s₁ henter =>
    have hlive := enterProcess_live henter
    exact .head (.enterProcess henter)
      (FileSteps.effects (installDefaultStandardFds_filed hlive).acts)

end

lemma markRunnable_quiet (pid : ℕ) : Quiet s (s.markRunnable pid).2 := by
  rw [markRunnable]
  split
  · exact .refl s
  next j hj =>
    obtain ⟨hlt, hpid, hlive⟩ := findProcess_eq_some hj
    split
    · exact .refl s
    · next hstate =>
      rw [← hpid]
      refine Quiet.trans (.of_effects (.single ?_) (.start hlive _ _)) (gate_quiet _)
      exact .start s hlt (not_not.1 hstate)

/-! ## Parents and groups -/

lemma setParent_calm (pid parentPid : ℕ) : Calm s (s.setParent pid parentPid).2 := by
  rw [setParent]
  split
  · exact .refl s
  next j hj =>
    split
    · exact .refl s
    have hlive := (findOwner_eq_some hj).2
    exact .describe ⟨rfl, rfl, rfl, fun hexit => absurd hexit hlive.2, rfl, rfl⟩ rfl

lemma setProcessGroup_calm (callerPid pid groupId : ℕ) :
    Calm s (s.setProcessGroup callerPid pid groupId).2 := by
  rw [setProcessGroup]
  split
  · exact .refl s
  split
  · exact .refl s
  · split
    · exact .refl s
    · exact .describe ⟨rfl, rfl, rfl, fun _ => rfl, rfl, rfl⟩ rfl

lemma setForegroundProcessGroup_calm (callerPid groupId : ℕ) :
    Calm s (s.setForegroundProcessGroup callerPid groupId).2 := by
  rw [setForegroundProcessGroup]
  split
  · exact .refl s
  split
  · exact .refl s
  next c _ =>
    generalize (if groupId = 0 then (s.process c).processGroupId else groupId) = target
    dsimp only
    split
    · exact .refl s
    · split
      · exact .of_still ⟨rfl, rfl⟩ rfl
      · exact .refl s

lemma stopProcessGroup_quiet (callerPid groupId : ℕ) :
    Quiet s (s.stopProcessGroup callerPid groupId).2 := by
  rw [stopProcessGroup]
  split
  · exact .refl s
  refine foldlRecOn (motive := fun r : ℕ × Machine V => Quiet s r.2) _ _ (.refl s) ?_
  intro r hr j hj
  rw [stopMember]
  split
  · next hmember =>
    have hlt : j < r.2.processes.count := hr.aside.count ▸ mem_range.1 hj
    have hlive : (r.2.process j).state ≠ .empty := by rw [hmember.1]; decide
    exact hr.trans (.of_effects (.single (.stop r.2 hlt hmember.1)) (.stop hlive _ _ _))
  · exact hr

lemma continueProcessGroup_quiet (callerPid groupId : ℕ) :
    Quiet s (s.continueProcessGroup callerPid groupId).2 := by
  rw [continueProcessGroup]
  split
  · exact .refl s
  have hfold :
      Quiet s ((range s.processes.count).foldl (continueMember callerPid groupId) (0, s)).2 := by
    refine foldlRecOn (motive := fun r : ℕ × Machine V => Quiet s r.2) _ _ (.refl s) ?_
    intro r hr j hj
    rw [continueMember]
    split
    · next hmember =>
      have hlt : j < r.2.processes.count := hr.aside.count ▸ mem_range.1 hj
      have hlive : (r.2.process j).state ≠ .empty := by rw [hmember.1]; decide
      exact hr.trans (.of_effects (.single (.continue r.2 hlt hmember.1))
        (.setState rfl nofun hlive ⟨rfl, rfl, rfl⟩))
    · exact hr
  dsimp only
  split
  · exact hfold
  · exact hfold.trans (gate_quiet _)

/-! ## Exit -/

lemma exitProcess_quiet (s : Machine V) (pid code : ℕ) (reason : ProcessTerminationReason) :
    Quiet s (s.exitProcess pid code reason).2 := by
  rw [exitProcess]
  split
  · exact .refl s
  next j hj =>
    have hmarked := Aside.markExited (findOwner_eq_some hj).2.1 code reason
    have hwakes := wakeAtExit_wakeups (s.markExited j code reason) (pipeEnds .pipeRead (s.fds j))
      (pipeEnds .pipeWrite (s.fds j)) pid code
    refine Quiet.trans ⟨fun h => (exit_effects h hj _ _).course, ?_⟩ (gate_quiet _)
    exact (hmarked.trans (.wakeups hwakes)).trans (.of_tables rfl rfl rfl)

lemma killProcessGroup_quiet (callerPid groupId code : ℕ) (reason : ProcessTerminationReason) :
    Quiet s (s.killProcessGroup callerPid groupId code reason).2 := by
  rw [killProcessGroup]
  split
  · exact .refl s
  split
  · exact .refl s
  refine foldlRecOn (motive := fun r : ℕ × Machine V => Quiet s r.2) _ _ (.refl s) ?_
  intro r hr j _
  rw [killMember]
  split
  · exact hr.trans (exitProcess_quiet _ _ _ _)
  · exact hr

/-! ## Reaping -/

lemma processes_cleanupPipeIfUnreferenced (id : ℕ) :
    (s.cleanupPipeIfUnreferenced id).2.processes = s.processes :=
  cleanupPipeIfUnreferenced_induction (P := fun s' => s'.processes = s.processes)
    (fun _ _ h => (wakePipeWaiters_wakeups _ _ _).woken.processes.trans h) (fun _ _ h => h) rfl

lemma processes_foldl_cleanup (ids : List ℕ) :
    (ids.foldl (fun s id => (s.cleanupPipeIfUnreferenced id).2) s).processes = s.processes := by
  apply foldlRecOn (motive := fun s' : Machine V => s'.processes = s.processes)
  · rfl
  · intro s' hs' id _
    rw [processes_cleanupPipeIfUnreferenced, hs']

section
variable [FileSystem V]

/-- All descriptors are closed, and every pipe that loses an end is looked at. -/
lemma closeAll_files (j : ℕ) : FileActs s (s.closeAll j) :=
  .tail (.single (.step (.vfs s _))) (.close _ _)

lemma process_closeAll (j k : ℕ) : ((s.closeAll j).process k).pid = (s.process k).pid ∧
    ((s.closeAll j).process k).state = (s.process k).state := by
  rw [closeAll, process, processes_foldl_cleanup]
  show ((Machine.setProcess _ j _).process k).pid = _ ∧
    ((Machine.setProcess _ j _).process k).state = _
  rw [process_setProcess]
  split <;> exact ⟨rfl, rfl⟩

lemma findProcess_closeAll (j : ℕ) : (s.closeAll j).findProcess pid = s.findProcess pid := by
  apply Table.find_congr
  · rw [closeAll, processes_foldl_cleanup]
    rfl
  intro k _
  obtain ⟨hpid, hstate⟩ := process_closeAll (s := s) j k
  rw [process, process] at hpid hstate
  rw [hpid, hstate]

lemma reapExited_effects (pid : ℕ) : Effects s (s.reapExited pid).2 := by
  rw [reapExited]
  split
  · exact .refl
  next j hj =>
    split
    · exact .refl
    next hstate =>
      have hfind : (s.closeAll j).findProcess pid = some j := by
        rw [findProcess_closeAll, hj]
      have hexit : ((s.closeAll j).process j).state = .exited := by
        rw [(process_closeAll j j).2]
        exact not_not.1 hstate
      exact ((closeAll_files j).effects.trans (reap_effects hfind hexit)).tail
        (.revise (.idle (updateUserPreemptionGate_still _).1))

end

end IanOS.Machine
