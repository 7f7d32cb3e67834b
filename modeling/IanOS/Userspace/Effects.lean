import IanOS.Userspace.Wakeups

/-!
# Effects of exit, reaping and closing

Three stretches of code belong together although they take several steps: a process exits and all
who wait for it are woken, the threads of a process are reaped and then the process, a descriptor is
closed and the pipes it named are looked at.  Each is a sequence of the effects of `Transitions`,
and so is every operation that does not switch threads.  A property that every effect keeps is
therefore kept by every such operation.
-/

namespace IanOS.Machine

open List

variable {V : Type} {s s' : Machine V}
  {j code pid : ℕ} {reason : ProcessTerminationReason}

/-- A sequence of effects, of switches between threads and of starts of the manager. -/
abbrev Course : Machine V → Machine V → Prop :=
  Relation.ReflTransGen fun s s' => Effect s s' ∨ Switch s s' ∨ s' = s.initializeManager

/-! ## Exit -/

lemma wakeAtExit_wakeups (s : Machine V) (readerPipes writerPipes : List ℕ) (pid code : ℕ) :
    Wakeups s (s.wakeAtExit readerPipes writerPipes pid code) := by
  have hfold (readers writers : Bool) (ids : List ℕ) (s : Machine V) :
      Wakeups s (ids.foldl (fun s id => (s.wakePipeWaiters id readers writers).2) s) := by
    apply foldlRecOn
    · exact .refl
    · intro s' hs' id _
      exact hs'.trans (wakePipeWaiters_wakeups id readers writers)
  exact ((hfold false true readerPipes s).trans (hfold true false writerPipes _)).trans
    (wakeProcessWaiters_wakeups pid code)

/-- After the process has been marked no thread of it is running, and no wakeup changes this. -/
lemma not_running_wakeAtExit (h : Inv s) (hj : j < s.processes.count) (hlive : (s.process j).Live)
    (hw : Woken (s.markExited j code reason) s') (i : ℕ) (hi : i < s'.threads.count)
    (hrun : (s'.thread i).state = .running) :
    (s'.thread i).tid ≠ (s.process j).mainThreadId ∧ (s'.thread i).pid ≠ (s.process j).pid := by
  obtain hsame | ⟨-, value, error, hdone⟩ := hw.thread i
  · rw [hw.threadCount, markExited_eq] at hi
    rw [hsame, markExited_eq, thread_record, thread_setProcess] at hrun ⊢
    apply h.not_running_onThread (fun t => by simp [exitedThread]) hj hlive.1 _ hrun
    rwa [← count_onThread]
  · rw [hdone] at hrun
    cases hrun

lemma thread_reapThread (pid k i : ℕ) :
    (reapThread pid s k).thread i =
      if i = k ∧ (s.thread i).pid = pid ∧ (s.thread i).state ≠ .empty then {} else s.thread i := by
  unfold reapThread
  by_cases hik : i = k
  · subst hik
    split
    · next hmatch => rw [thread_setThread, if_pos rfl, if_pos ⟨rfl, hmatch⟩]
    · next hmatch => rw [if_neg fun h => hmatch h.2]
  · have hother : ¬ (i = k ∧ (s.thread i).pid = pid ∧ (s.thread i).state ≠ .empty) :=
      fun h => hik h.1
    rw [if_neg hother]
    split
    · rw [thread_setThread, if_neg hik]
      rfl
    · rfl

/-- What the loop of `reap_exited` leaves of a thread. -/
lemma thread_foldl_reapThread (pid : ℕ) (slots : List ℕ) (i : ℕ) :
    (slots.foldl (reapThread pid) s).thread i =
      if i ∈ slots ∧ (s.thread i).pid = pid ∧ (s.thread i).state ≠ .empty then {}
      else s.thread i := by
  induction slots generalizing s with
  | nil => simp
  | cons k slots ih =>
    rw [foldl_cons, ih, thread_reapThread]
    by_cases hmatch : (s.thread i).pid = pid ∧ (s.thread i).state ≠ .empty
    · by_cases hik : i = k
      · subst hik
        simp [hmatch]
      · simp [hik]
    · simp [hmatch]

/-- Reaping a thread changes the thread table and what is active. -/
lemma reapThread_eq (s : Machine V) (pid k : ℕ) :
    ∃ threads tid, reapThread pid s k = { s with threads := threads, activeTid := tid } ∧
      threads.count = s.threads.count := by
  rw [reapThread]
  split <;> exact ⟨_, _, rfl, rfl⟩

/-- The state after the loop of `reap_exited`. -/
lemma foldl_reapThread_eq (s : Machine V) (pid : ℕ) (slots : List ℕ) :
    ∃ threads tid,
      slots.foldl (reapThread pid) s = { s with threads := threads, activeTid := tid } ∧
      threads.count = s.threads.count := by
  induction slots generalizing s with
  | nil => exact ⟨_, _, rfl, rfl⟩
  | cons k slots ih =>
    obtain ⟨threads, tid, hfirst, hcount⟩ := reapThread_eq s pid k
    obtain ⟨threads', tid', hrest, hcount'⟩ := ih { s with threads := threads, activeTid := tid }
    rw [foldl_cons, hfirst]
    exact ⟨threads', tid', hrest, hcount'.trans hcount⟩

lemma foldl_reapThread_effects {slots : List ℕ} (hslots : ∀ i ∈ slots, i < s.threads.count)
    (hexit : ∃ j < s.processes.count, (s.process j).pid = pid ∧ (s.process j).state = .exited) :
    Effects s (slots.foldl (reapThread pid) s) := by
  induction slots generalizing s with
  | nil => exact .refl
  | cons k slots ih =>
    have hfirst : Effect s (reapThread pid s k) :=
      .reapThread s (hslots k mem_cons_self) hexit
    obtain ⟨threads, tid, heq, hcount⟩ := reapThread_eq s pid k
    rw [foldl_cons]
    rw [heq] at hfirst ⊢
    exact (ih (s := { s with threads := threads, activeTid := tid })
      (fun i hi => hcount ▸ hslots i (mem_cons_of_mem _ hi)) hexit).head hfirst

lemma reap_effects (hj : s.findProcess pid = some j) (hstate : (s.process j).state = .exited) :
    Effects s ((((range s.threads.count).foldl (reapThread pid) s).forgetActivePid
      pid).setProcess j reapedProcess) := by
  obtain ⟨hlt, hpid, -⟩ := findProcess_eq_some hj
  obtain ⟨threads, tid, heq, hcount⟩ := s.foldl_reapThread_eq pid (range s.threads.count)
  apply (foldl_reapThread_effects (fun i hi => mem_range.1 hi) ⟨j, hlt, hpid, hstate⟩).tail
  have hgone (i : ℕ) (hi : i < threads.count) (hlive : (threads.slot i).state ≠ .empty) :
      (threads.slot i).pid ≠ pid := by
    have hslot : threads.slot i = ((range s.threads.count).foldl (reapThread pid) s).thread i := by
      rw [heq]
      rfl
    rw [hslot, thread_foldl_reapThread] at hlive ⊢
    split at hlive
    · exact absurd rfl hlive
    · next hkept =>
      rw [if_neg hkept]
      intro hmatch
      exact hkept ⟨mem_range.2 (hcount ▸ hi), hmatch, hlive⟩
  rw [heq, ← hpid]
  refine .reapProcess { s with threads := threads, activeTid := tid } hlt hstate ?_
  rwa [← hpid] at hgone

lemma exit_effects (h : Inv s) (hj : s.findOwner pid = some j) (readerPipes writerPipes : List ℕ) :
    Effects s (((s.markExited j code reason).wakeAtExit readerPipes writerPipes pid
      code).forgetActive pid (s.process j).mainThreadId) := by
  obtain ⟨hfind, hlive⟩ := findOwner_eq_some hj
  obtain ⟨hlt, hpid, -⟩ := findProcess_eq_some hfind
  have hwakes := wakeAtExit_wakeups (s.markExited j code reason) readerPipes writerPipes pid code
  refine .tail (.head (.markExited s code reason hlt hlive) hwakes.effects) (.forgetActive _ ?_)
  rw [← hpid]
  rw [← hpid] at hwakes
  exact not_running_wakeAtExit h hlt hlive hwakes.woken

lemma close_effects {fds : List FileDescriptor} (ids : List ℕ) :
    Effects s (ids.foldl (fun s id => (s.cleanupPipeIfUnreferenced id).2) (s.setFds j fds)) := by
  have hset : Revision s (s.setFds j fds) :=
    .describe s ⟨rfl, rfl, rfl, fun _ => rfl, rfl, rfl⟩
  apply foldlRecOn
  · exact .single (.revise hset)
  · intro s' hs' id _
    exact hs'.trans (cleanupPipeIfUnreferenced_effects id)

lemma Inv.course (h : Inv s) (hc : Course s s') : Inv s' := by
  induction hc with
  | refl => exact h
  | tail _ hlast ih =>
    obtain he | hs | rfl := hlast
    · exact ih.effect he
    · exact ih.switch hs
    · exact .initializeManager _

lemma Effects.course (he : Effects s s') : Course s s' :=
  he.lift id fun _ _ => .inl

end IanOS.Machine
