import IanOS.Userspace.Courses

/-!
# Runs of the manager

Most operations are quiet (`quiet_step`); the others are sequences of effects (`effects_step`), or
start the manager.  So every operation is a course (`course_step`), and what effects and switches
preserve holds in every run: the invariant of the tables (`Inv.run`), and with it that there is at
most one running thread (`single_running`).
-/

namespace IanOS

variable {V : Type} {β : Type}

/-- The start of the manager. -/
def Op.starts : Op V β → Bool
  | .initializeManager => true
  | _ => false

namespace Machine

/-- The operations that change no descriptor, and in which no process comes or goes. -/
def KeepsDescriptors : Op V β → Bool
  | .initializeManager | .environment _ _ | .createProcess _ | .createProcessStub _ _
  | .reapExited _ | .openFile _ _ | .redirectFile _ _ _ | .redirectFileAppend _ _ _
  | .attachPipeFd _ _ _ _ | .readFile _ _ _ _ | .writeFile _ _ _ _ | .seekFile _ _ _
  | .closeFile _ _ | .duplicateFile _ _ | .duplicateFileTo _ _ _ | .inheritStandardFds _ _
  | .setCurrentDirectory _ _ => false
  | _ => true

variable [FileSystem V] {s : Machine V}

theorem quiet_step (s : Machine V) (o : Op V β) (ho : KeepsDescriptors o) :
    Quiet s (exec o s).2 := by
  cases o with
  | markRunnable => exact markRunnable_quiet _
  | setParent => exact (setParent_calm _ _).toQuiet
  | setProcessGroup => exact (setProcessGroup_calm _ _ _).toQuiet
  | setForegroundProcessGroup => exact (setForegroundProcessGroup_calm _ _).toQuiet
  | killProcessGroup => exact killProcessGroup_quiet _ _ _ _
  | stopProcessGroup => exact stopProcessGroup_quiet _ _
  | continueProcessGroup => exact continueProcessGroup_quiet _ _
  | exitProcess => exact exitProcess_quiet s _ _ _
  | wakePipeWaiters => exact .of_wakeups (wakePipeWaiters_wakeups _ _ _)
  | wakeProcessWaiters => exact .of_wakeups (wakeProcessWaiters_wakeups _ _)
  | wakeSleepers => exact .of_wakeups (wakeSleepers_wakeups _)
  | selectNextRunnableThread => exact (selectNextRunnableThread_calm s).toQuiet
  | createPipe => exact (createPipe_calm s).toQuiet
  | closePipe =>
    exact .of_effects (cleanupPipeIfUnreferenced_effects _) (.cleanupPipeIfUnreferenced s _)
  | updateUserPreemptionGate => exact gate_quiet s
  | noteCurrentUserTick => exact (noteCurrentUserTick_calm s).toQuiet
  | userTimesliceExpired => exact (userTimesliceExpired_calm s).toQuiet
  | enableUserPreemption => exact .of_still (enableUserPreemption_still s)
  | pitNoteTick | lapicNoteTick | stopLapicTimer | storeUser => exact .of_still ⟨rfl, rfl⟩
  | activateThread => exact .of_switch (.turn (.activateThread s _))
  | saveActiveThreadFrame => exact .of_switch (.turn (.saveFrame s _ _))
  | markActiveThreadRunnable => exact .of_switch (.turn (.markRunnable s))
  | blockActiveThreadOnPipe => exact .of_switch (blocks_pipe s _ _ _ _ _).block
  | blockActiveThreadOnProcess => exact .of_switch (blocks_process s _).block
  | blockActiveThreadOnAnyProcess => exact .of_switch (blocks_any s).block
  | blockActiveThreadUntil => exact .of_switch (blocks_until s _).block
  | restoreContext => exact (restoreContext_calm s _).toQuiet
  | yieldUserThreadFromFrame | preemptUserThreadFromFrame =>
    exact (switchFromFrame_calm s _).toQuiet
  | blockUserPipeSyscallFromFrame => exact (blockUserPipe_outcome s _ _ _).toQuiet
  | blockUserWaitSyscallFromFrame => exact (blockUserWait_outcome s _ _).toQuiet
  | blockUserWaitAnySyscallFromFrame => exact (blockUserWaitAny_outcome s _).toQuiet
  | blockUserSleepSyscallFromFrame => exact (blockUserSleep_outcome s _ _).toQuiet
  | exitUserThreadFromFrame => exact exitUserThreadFromFrame_quiet s _ _
  | _ => cases ho

/-- The operations on descriptors. -/
def OnDescriptors : Op V β → Bool
  | .openFile _ _ | .redirectFile _ _ _ | .redirectFileAppend _ _ _ | .attachPipeFd _ _ _ _
  | .readFile _ _ _ _ | .writeFile _ _ _ _ | .seekFile _ _ _ | .closeFile _ _ | .duplicateFile _ _
  | .duplicateFileTo _ _ _ | .inheritStandardFds _ _ | .setCurrentDirectory _ _ => true
  | _ => false

theorem files_step (s : Machine V) (o : Op V β) (ho : OnDescriptors o) :
    Filed FileAct s (exec o s).2 := by
  cases o with
  | openFile => exact (openFile_filed s _ _).files
  | redirectFile => exact (redirectFile_filed s _ _ _).files
  | redirectFileAppend => exact (redirectFileAppend_filed s _ _ _).files
  | attachPipeFd => exact attachPipeFd_filed s _ _ _ _
  | readFile => exact readFile_filed s _ _ _ _
  | writeFile => exact writeFile_filed s _ _ _ _
  | seekFile => exact (seekFile_filed s _ _ _).files
  | closeFile => exact closeFile_filed s _ _
  | duplicateFile => exact (duplicateFile_filed s _ _).files
  | duplicateFileTo => exact (duplicateFileTo_filed s _ _ _).files
  | inheritStandardFds => exact (inheritStandardFds_filed s _ _).files
  | setCurrentDirectory => exact (setCurrentDirectory_filed s _ _).files
  | _ => cases ho

/-- The other operations, the start of the manager apart, are sequences of effects. -/
theorem effects_step (h : Inv s) (o : Op V β) (ho : ¬KeepsDescriptors o) (hstart : ¬o.starts) :
    Effects s (exec o s).2 := by
  cases o with
  | initializeManager => exact absurd rfl hstart
  | environment => exact .single (.revise (.idle rfl))
  | createProcess => exact createProcess_effects h _
  | createProcessStub => exact createProcessStub_effects s _ _
  | reapExited => exact reapExited_effects _
  | openFile | redirectFile | redirectFileAppend | attachPipeFd | readFile | writeFile | seekFile
  | closeFile | duplicateFile | duplicateFileTo | inheritStandardFds | setCurrentDirectory =>
    exact FileActs.effects (files_step s _ rfl).acts
  | _ => exact absurd rfl ho

/-- Every operation is a course. -/
theorem course_step (h : Inv s) (o : Op V β) : Course s (exec o s).2 := by
  by_cases ho : KeepsDescriptors o
  · exact (quiet_step s o ho).course h
  by_cases hstart : o.starts
  · cases o with
    | initializeManager => exact .single (.inr (.inr rfl))
    | _ => cases hstart
  · exact (effects_step h o ho hstart).course

/-! ## The running thread -/

lemma Inv.step (h : Inv s) (o : Σ β, Op V β) : Inv (s.step o) := h.course (course_step h o.2)

/-- The invariant of the tables holds in every run. -/
theorem Inv.run (h : Inv s) (ops : List (Σ β, Op V β)) : Inv (ops.foldl Machine.step s) := by
  induction ops generalizing s with
  | nil => exact h
  | cons o ops ih => exact ih (h.step o)

/-- After every sequence of operations from the start of the manager at most one thread is running,
and it is the active thread, of the active process, which is runnable. -/
theorem single_running (s : Machine V) (ops : List (Σ β, Op V β)) :
    let s' := ops.foldl step s.initializeManager
    (∀ i < s'.threads.count, ∀ k < s'.threads.count,
      (s'.thread i).state = .running → (s'.thread k).state = .running → i = k) ∧
    ∀ i < s'.threads.count, (s'.thread i).state = .running →
      (s'.thread i).tid = s'.activeTid ∧ (s'.thread i).pid = s'.activePid ∧
        s'.processRunnable (s'.thread i).pid := by
  intro s'
  have hinv : Inv s' := (Inv.initializeManager s).run ops
  refine ⟨fun i hi k hk hirun hkrun => hinv.running_unique hi hk hirun hkrun, ?_⟩
  intro i hi hrun
  obtain ⟨htid, hpid, hprocess⟩ := hinv.running i hi hrun
  exact ⟨htid, hpid, hinv.processRunnable_iff.2 hprocess⟩

end Machine
end IanOS
