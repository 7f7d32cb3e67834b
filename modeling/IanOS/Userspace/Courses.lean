import IanOS.Userspace.ProcessEffects

/-!
# The routines that switch threads

They are quiet: courses of idle changes and of switches between threads.  Those that do not block
their caller are calm.  A routine that blocks its caller first saves the caller's context, which
leaves everything else undisturbed; then blocking is a switch, and so is undoing it when the
successor cannot be activated.  What comes of it for the threads that can be scheduled is its
`BlockOutcome`.
-/

namespace IanOS.Machine

variable {V : Type} {s s' s'' : Machine V} {i : ℕ}
  {fd size targetPid : ℕ} {writeEnd : Bool} {frame : ExceptionFrame}
  {block finish : Machine V → Bool × Machine V}

/-! ## Saving the context of a thread -/

/-- Which thread is current depends on the identifiers of the threads and on which are in use. -/
lemma currentTid_congr (hactive : s'.activeTid = s.activeTid)
    (hcount : s'.threads.count = s.threads.count)
    (hthread : ∀ i, (s'.thread i).tid = (s.thread i).tid ∧
      ((s'.thread i).state = .empty ↔ (s.thread i).state = .empty) ∧
      ((s'.thread i).state = .exited ↔ (s.thread i).state = .exited)) :
    s'.currentTid = s.currentTid := by
  have hfind : (s'.threads.find fun t =>
      t.tid = s'.activeTid ∧ t.state ≠ .empty ∧ t.state ≠ .exited) =
      s.threads.find fun t => t.tid = s.activeTid ∧ t.state ≠ .empty ∧ t.state ≠ .exited := by
    refine Table.find_congr hcount fun i _ => ?_
    obtain ⟨htid, hempty, hexit⟩ := hthread i
    rw [hactive]
    exact and_congr (Eq.congr_left htid) (and_congr (not_congr hempty) (not_congr hexit))
  rw [Machine.currentTid, Machine.currentTid, hfind, hactive]

/-- Nothing has changed by which the current thread is found. -/
structure Undisturbed (s s' : Machine V) : Prop where
  active : s'.activeTid = s.activeTid
  count : s'.threads.count = s.threads.count
  thread : ∀ i, (s'.thread i).tid = (s.thread i).tid ∧ (s'.thread i).state = (s.thread i).state

namespace Undisturbed

lemma trans (h : Undisturbed s s') (h' : Undisturbed s' s'') : Undisturbed s s'' where
  active := h'.active.trans h.active
  count := h'.count.trans h.count
  thread i := ⟨(h'.thread i).1.trans (h.thread i).1, (h'.thread i).2.trans (h.thread i).2⟩

lemma of_still (h : Still s s') : Undisturbed s s' := by
  rw [h.1]
  exact ⟨rfl, rfl, fun _ => ⟨rfl, rfl⟩⟩

/-- A write of a thread's context. -/
lemma of_setThread {f : UserThread → UserThread}
    (hf : ∀ t, (f t).tid = t.tid ∧ (f t).state = t.state) :
    Undisturbed s (s.setThread i f) := by
  refine ⟨rfl, rfl, fun k => ?_⟩
  rw [thread_setThread]
  split
  · exact hf _
  · exact ⟨rfl, rfl⟩

lemma saveFrame (s : Machine V) (rip rsp : Word64) :
    Undisturbed s (s.saveActiveThreadFrame rip rsp).2 := by
  obtain hfail | ⟨i, -, hsave⟩ := saveActiveThreadFrame_cases s rip rsp
  · rw [hfail]
    exact of_still (.refl s)
  · rw [hsave]
    exact of_setThread fun _ => ⟨rfl, rfl⟩

lemma saveRegisters (s : Machine V) (tid : ℕ) (frame : ExceptionFrame) :
    Undisturbed s (s.saveUserRegisters tid frame) := by
  rw [saveUserRegisters, onThread]
  split
  · exact of_still (.refl s)
  · exact of_setThread fun _ => ⟨rfl, rfl⟩

lemma currentTid (h : Undisturbed s s') : s'.currentTid = s.currentTid := by
  refine currentTid_congr h.active h.count fun i => ⟨(h.thread i).1, ?_, ?_⟩ <;> rw [(h.thread i).2]

end Undisturbed

/-! ## Blocking -/

/-- Blocking the active thread is a switch.  It fails without effect, and undoing it is calm. -/
structure Blocks (s : Machine V) (b : Bool × Machine V) : Prop where
  block : Switch s b.2
  loses : Loses s b.2
  failed : ¬b.1 → b.2 = s
  undone : b.1 → Calm s (b.2.unblock s.currentTid)

lemma Blocks.of_check {check : UserThread → Prop} [DecidablePred check]
    {wait : UserThread → UserThread} (hwait : KeepsThread wait) :
    Blocks s (s.blockActiveThread check wait) := by
  refine ⟨?_, .blockActiveThread s check wait, fun hfailed => ?_,
    fun hdone => .of_turn (.unblock s check hwait hdone)⟩
  all_goals obtain hfail | ⟨i, -, hrun, hblock⟩ := blockActiveThread_cases s check wait
  · rw [hfail]
    exact .turn (.still s)
  · rw [hblock]
    exact .block s hwait hrun
  · rw [hfail]
  · rw [hblock] at hfailed
    exact absurd rfl hfailed

lemma blocks_pipe (s : Machine V) (pipeId : ℕ) (writeEnd : Bool) (fd buffer size : ℕ) :
    Blocks s (s.blockActiveThreadOnPipe pipeId writeEnd fd buffer size) :=
  .of_check fun _ => ⟨rfl, rfl⟩

lemma blocks_process (s : Machine V) (targetPid : ℕ) :
    Blocks s (s.blockActiveThreadOnProcess targetPid) :=
  .of_check fun _ => ⟨rfl, rfl⟩

lemma blocks_any (s : Machine V) : Blocks s s.blockActiveThreadOnAnyProcess :=
  .of_check fun _ => ⟨rfl, rfl⟩

lemma blocks_until (s : Machine V) (wakeTick : ℕ) : Blocks s (s.blockActiveThreadUntil wakeTick) :=
  .of_check fun _ => ⟨rfl, rfl⟩

/-! ## Switching from a frame -/

lemma selectNextRunnableThread_still (s : Machine V) : Still s s.selectNextRunnableThread.2 ∧
    s.selectNextRunnableThread.2.userPreemption = s.userPreemption := by
  rw [selectNextRunnableThread]
  split
  · exact ⟨⟨rfl, rfl⟩, rfl⟩
  · split <;> exact ⟨⟨rfl, rfl⟩, rfl⟩

lemma selectNextRunnableThread_calm (s : Machine V) : Calm s s.selectNextRunnableThread.2 :=
  .of_still (selectNextRunnableThread_still s).1 (selectNextRunnableThread_still s).2

lemma save_calm (s : Machine V) (rip rsp : Word64) (frame : ExceptionFrame) :
    Calm s ((s.saveActiveThreadFrame rip rsp).2.saveUserRegisters s.currentTid frame) :=
  (Calm.of_turn (.saveFrame s rip rsp)).trans (.of_turn (.saveRegisters ..))

lemma switchToNext_calm (s : Machine V) (tid : ℕ) (frame : ExceptionFrame) :
    Calm s (s.switchToNext tid frame).2.2 := by
  have hselect := selectNextRunnableThread_calm s
  rw [switchToNext]
  dsimp only
  split
  · exact hselect.trans (.activate _ _)
  next next _ =>
    split
    · exact hselect.trans (.activate _ _)
    have hnext := hselect.trans (.activate s.selectNextRunnableThread.2 next.tid)
    split
    · exact hnext.trans (.activate _ _)
    · split
      · exact hnext.trans (.activate _ _)
      · exact hnext.trans (.of_turn (.switchSpace ..))

lemma switchFromFrame_calm (s : Machine V) (frame : ExceptionFrame) :
    Calm s (s.switchFromFrame frame).2.2 := by
  rw [switchFromFrame]
  split
  · exact .refl s
  dsimp only
  split
  · exact .of_turn (.saveFrame s _ _)
  have hparked := (save_calm s frame.rip frame.rsp frame).trans (.of_turn (.markRunnable _))
  split
  · exact hparked
  · exact hparked.trans (switchToNext_calm _ _ _)

lemma activateThread_failed {tid : ℕ} (h : ¬ (s.activateThread tid).1) :
    (s.activateThread tid).2 = s := by
  rw [activateThread] at h ⊢
  split at h
  · rfl
  split_ifs at h ⊢
  · rfl
  · exact absurd rfl h
  · rfl

/-- What comes of a blocking routine, which is quiet: as far as the gate is concerned nothing, or
the caller was blocked and the routine got to its end. -/
structure BlockOutcome (s : Machine V) (finish : Machine V → Bool × Machine V)
    (s' : Machine V) : Prop
    extends Quiet s s' where
  threads : Rest s s' ∨ ∃ m, Loses s m ∧ Rest (finish m).2 s'

lemma Calm.outcome (h : Calm s s') : BlockOutcome s finish s' := ⟨h.toQuiet, .inl h.toRest⟩

lemma BlockOutcome.after (h : Calm s s') (ho : BlockOutcome s' finish s'') :
    BlockOutcome s finish s'' := by
  refine ⟨h.toQuiet.trans ho.toQuiet, ?_⟩
  obtain hrest | ⟨m, hloses, hrest⟩ := ho.threads
  · exact .inl (h.toRest.trans hrest)
  · exact .inr ⟨m, h.trans_loses hloses, hrest⟩

lemma BlockOutcome.loses (h : BlockOutcome s (fun m => (true, m)) s') : Loses s s' := by
  obtain hrest | ⟨m, hloses, hrest⟩ := h.threads
  · exact hrest.loses
  · exact hloses.trans_rest hrest

lemma BlockOutcome.tracks (h : BlockOutcome s updateUserPreemptionGate s') (ht : Tracks s) :
    Tracks s' := by
  obtain hrest | ⟨m, hloses, hrest⟩ := h.threads
  · exact ht.rest hrest
  · exact (tracks_update (hloses.timer.trans ht.timer)).rest hrest

/-- The end of a blocking routine. -/
lemma blockAndSwitch_outcome {next : UserLaunchContext} {nextSlot : ℕ}
    (hfinish : ∀ s, Still s (finish s).2) (hblock : ∀ s, Blocks s (block s)) :
    BlockOutcome s finish (s.blockAndSwitch s.currentTid frame next nextSlot block finish).2.2 := by
  rw [blockAndSwitch]
  dsimp only
  split
  · exact (Calm.of_turn (.saveFrame s _ _)).outcome
  have hsave := save_calm s frame.rip frame.rsp frame
  have hsaved := (Undisturbed.saveFrame s frame.rip frame.rsp).trans
    (Undisturbed.saveRegisters _ s.currentTid frame)
  generalize (s.saveActiveThreadFrame frame.rip frame.rsp).2.saveUserRegisters s.currentTid
    frame = s₁ at hsave hsaved ⊢
  have hblocks := hblock s₁
  split
  · next hfailed =>
    rw [hblocks.failed hfailed]
    exact hsave.outcome
  next hdone =>
    split
    · next hstay =>
      -- the successor was not activated, so nothing has changed since
      rw [activateThread_failed hstay, ← hsaved.currentTid]
      exact (hsave.trans (hblocks.undone (not_not.1 hdone))).outcome
    · have hact := Calm.activate (block s₁).2 next.tid
      have hquiet := (hsave.toQuiet.trans (.of_switch hblocks.block)).trans
        (hact.toQuiet.trans (.of_still (hfinish _)))
      have hloses := (hsave.trans_loses hblocks.loses).trans_rest hact.toRest
      split
      · exact ⟨hquiet, .inr ⟨_, hloses, .refl _⟩⟩
      · have hspace (cr3 : ℕ) := Calm.of_turn
          (.switchSpace (finish ((block s₁).2.activateThread next.tid).2).2 cr3)
        exact ⟨hquiet.trans (hspace _).toQuiet, .inr ⟨_, hloses, (hspace _).toRest⟩⟩

/-- A blocking routine. -/
lemma blockFromFrame_outcome {error : ℕ} {prepare : Machine V → Machine V}
    (hprepare : ∀ s, Still s (prepare s) ∧ (prepare s).userPreemption = s.userPreemption)
    (hfinish : ∀ s, Still s (finish s).2) (hblock : ∀ s, Blocks s (block s)) :
    BlockOutcome s finish (s.blockFromFrame frame error prepare block finish).2.2 := by
  have hselect := selectNextRunnableThread_calm s
  rw [blockFromFrame]
  split
  · exact hselect.outcome
  next next _ =>
    split
    · exact hselect.outcome
    split
    · exact hselect.outcome
    next nextSlot _ =>
      obtain ⟨hprep, hgate⟩ := hprepare s.selectNextRunnableThread.2
      have hcalm := hselect.trans (.of_still hprep hgate)
      have hstill :=
        (Undisturbed.of_still (selectNextRunnableThread_still s).1).trans (.of_still hprep)
      generalize prepare s.selectNextRunnableThread.2 = s₁ at hcalm hstill ⊢
      rw [← hstill.currentTid]
      exact .after hcalm (blockAndSwitch_outcome hfinish hblock)

lemma blockUserPipe_outcome (s : Machine V) (frame : ExceptionFrame) (writeEnd : Bool) (fd : ℕ) :
    BlockOutcome s (fun m => (true, m))
      (s.blockUserPipeSyscallFromFrame frame writeEnd fd).2.2 := by
  rw [blockUserPipeSyscallFromFrame]
  split
  · exact (Calm.refl s).outcome
  split
  · exact (Calm.refl s).outcome
  · exact blockFromFrame_outcome (fun s => ⟨.refl s, rfl⟩) Still.refl fun s =>
      blocks_pipe s _ _ _ _ _

lemma blockUserWait_outcome (s : Machine V) (frame : ExceptionFrame) (targetPid : ℕ) :
    BlockOutcome s updateUserPreemptionGate
      (s.blockUserWaitSyscallFromFrame frame targetPid).2.2 := by
  rw [blockUserWaitSyscallFromFrame]
  split
  · exact (Calm.refl s).outcome
  · exact blockFromFrame_outcome (fun s => ⟨.refl s, rfl⟩) updateUserPreemptionGate_still
      fun s => blocks_process s _

lemma blockUserWaitAny_outcome (s : Machine V) (frame : ExceptionFrame) :
    BlockOutcome s updateUserPreemptionGate (s.blockUserWaitAnySyscallFromFrame frame).2.2 := by
  rw [blockUserWaitAnySyscallFromFrame]
  split
  · exact (Calm.refl s).outcome
  · exact blockFromFrame_outcome (fun s => ⟨.refl s, rfl⟩) updateUserPreemptionGate_still blocks_any

lemma ensureTick_still (s : Machine V) :
    Still s s.ensureTick ∧ s.ensureTick.userPreemption = s.userPreemption := by
  rw [ensureTick, startLapicSystemTick]
  split_ifs <;> exact ⟨⟨rfl, rfl⟩, rfl⟩

lemma blockUserSleep_outcome (s : Machine V) (frame : ExceptionFrame) (deltaTicks : ℕ) :
    BlockOutcome s (fun m => (true, m))
      (s.blockUserSleepSyscallFromFrame frame deltaTicks).2.2 := by
  rw [blockUserSleepSyscallFromFrame]
  split
  · exact (Calm.refl s).outcome
  · exact blockFromFrame_outcome ensureTick_still Still.refl fun s => blocks_until s _

lemma exitUserThreadFromFrame_quiet (s : Machine V) (frame : ExceptionFrame) (code : ℕ) :
    Quiet s (s.exitUserThreadFromFrame frame code).2.2 := by
  rw [exitUserThreadFromFrame]
  split
  · exact .refl s
  have hexit := exitProcess_quiet s s.currentPid code .exited
  dsimp only
  split
  · exact hexit
  have hselect := hexit.trans (selectNextRunnableThread_calm _).toQuiet
  split
  · exact hselect
  next next _ =>
    have hnext := hselect.trans (Calm.activate _ next.tid).toQuiet
    split
    · exact hnext
    · split
      · exact hnext
      · exact hnext.trans (.of_switch (.turn (.switchSpace ..)))

lemma restoreContext_calm (s : Machine V) (context : UserExecutionContext) :
    Calm s (s.restoreContext context).2 := by
  rw [restoreContext]
  split
  · exact .refl s
  split
  · split_ifs
    · exact .refl s
    · exact .refl s
    · exact .refl s
    · exact .activate s context.tid
  · exact .refl s

lemma noteCurrentUserTick_calm (s : Machine V) : Calm s s.noteCurrentUserTick.2 := by
  rw [noteCurrentUserTick]
  split
  · exact .refl s
  · split_ifs <;> exact .of_still ⟨rfl, rfl⟩ rfl

lemma userTimesliceExpired_calm (s : Machine V) : Calm s s.userTimesliceExpired.2 := by
  rw [userTimesliceExpired]
  split_ifs <;> exact .of_still ⟨rfl, rfl⟩ rfl

end IanOS.Machine
