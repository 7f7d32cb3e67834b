import IanOS.Userspace.Aside

/-!
# Schedulable threads and the preemption gate

A thread is schedulable when it is runnable or running in a runnable process.  The relations `Rest`,
`Wakes` and `Loses` say of two states that the preemption gate is the same and how the threads that
are schedulable have changed; they compose, so that a routine is settled by its steps.  A routine
that is at rest and quiet is `Calm`.

A state `Tracks` when preemption is enabled exactly if more than one thread is schedulable, and the
relations keep this under a condition on the state before.
-/

namespace IanOS

open Finset

/-- Neither created nor blocked nor exited. -/
def UserThread.Ready (t : UserThread) : Prop := t.state = .runnable ∨ t.state = .running
  deriving Decidable

namespace Machine

variable {V : Type} {s s' s'' : Machine V} {i j : ℕ}

/-! ## Schedulable threads -/

/-- The process of the thread is runnable. -/
def InRunnable (s : Machine V) (t : UserThread) : Prop :=
  ∃ j < s.processes.count, (s.process j).pid = t.pid ∧ (s.process j).state = .runnable

instance (s : Machine V) (t : UserThread) : Decidable (s.InRunnable t) :=
  inferInstanceAs (Decidable (∃ j < _, _))

def Schedulable (s : Machine V) (i : ℕ) : Prop :=
  i < s.threads.count ∧ (s.thread i).Ready ∧ s.InRunnable (s.thread i)
  deriving Decidable

/-- A thread that is schedulable once it is woken. -/
def Suspended (s : Machine V) (i : ℕ) : Prop :=
  i < s.threads.count ∧ (s.thread i).state = .blocked ∧ s.InRunnable (s.thread i)
  deriving Decidable

def schedulables (s : Machine V) : Finset ℕ := (range s.threads.count).filter s.Schedulable

@[simp] lemma mem_schedulables : i ∈ s.schedulables ↔ s.Schedulable i := by
  rw [schedulables, mem_filter, mem_range]
  exact ⟨fun h => h.2, fun h => ⟨h.1, h⟩⟩

lemma schedulableThreadCount_eq (s : Machine V) :
    s.schedulableThreadCount = s.schedulables.card := by
  have hfilter : (List.range s.threads.count).filter (fun i =>
      ((s.thread i).state = .runnable ∨ (s.thread i).state = .running) ∧
        (s.processes.find fun p => p.pid = (s.thread i).pid ∧ p.state = .runnable).isSome) =
      (List.range s.threads.count).filter fun i => s.Schedulable i := by
    refine List.filter_congr fun i hi => decide_eq_decide.2 ?_
    rw [Table.find_isSome]
    exact ⟨fun h => ⟨List.mem_range.1 hi, h⟩, fun h => h.2⟩
  rw [schedulableThreadCount, hfilter]
  rfl

/-! ## How they change -/

/-- The gate and what it depends on are the same. -/
structure Rest (s s' : Machine V) : Prop where
  gate : s'.userPreemption = s.userPreemption
  timer : s'.lapicConfigures = s.lapicConfigures
  schedulable : ∀ i, s'.Schedulable i ↔ s.Schedulable i
  waiting : ∀ i, s'.Suspended i → s.Suspended i

/-- The gate is the same, and threads that were waiting may have become schedulable. -/
structure Wakes (s s' : Machine V) : Prop where
  gate : s'.userPreemption = s.userPreemption
  timer : s'.lapicConfigures = s.lapicConfigures
  kept : ∀ i, s.Schedulable i → s'.Schedulable i
  new : ∀ i, s'.Schedulable i → s.Schedulable i ∨ s.Suspended i
  waiting : ∀ i, s'.Suspended i → s.Suspended i

/-- The gate is the same, and at most one thread is no longer schedulable. -/
structure Loses (s s' : Machine V) : Prop where
  gate : s'.userPreemption = s.userPreemption
  timer : s'.lapicConfigures = s.lapicConfigures
  only : ∀ i, s'.Schedulable i → s.Schedulable i
  others : ∃ k, ∀ i ≠ k, s.Schedulable i → s'.Schedulable i

/-- The timer works, and preemption is enabled when threads compete. -/
structure Tracks (s : Machine V) : Prop where
  timer : s.lapicConfigures
  gate : s.userPreemption ↔ 1 < s.schedulableThreadCount

lemma Rest.refl (s : Machine V) : Rest s s := ⟨rfl, rfl, fun _ => Iff.rfl, fun _ => id⟩

lemma Rest.trans (h : Rest s s') (h' : Rest s' s'') : Rest s s'' where
  gate := h'.gate.trans h.gate
  timer := h'.timer.trans h.timer
  schedulable i := (h'.schedulable i).trans (h.schedulable i)
  waiting i := fun hi => h.waiting i (h'.waiting i hi)

lemma Rest.wakes (h : Rest s s') : Wakes s s' where
  gate := h.gate
  timer := h.timer
  kept i := (h.schedulable i).2
  new i := fun hi => .inl ((h.schedulable i).1 hi)
  waiting := h.waiting

lemma Wakes.trans (h : Wakes s s') (h' : Wakes s' s'') : Wakes s s'' where
  gate := h'.gate.trans h.gate
  timer := h'.timer.trans h.timer
  kept i := fun hi => h'.kept i (h.kept i hi)
  new i hi := by
    obtain hready | hwait := h'.new i hi
    · exact h.new i hready
    · exact .inr (h.waiting i hwait)
  waiting i := fun hi => h.waiting i (h'.waiting i hi)

lemma Rest.loses (h : Rest s s') : Loses s s' where
  gate := h.gate
  timer := h.timer
  only i := (h.schedulable i).1
  others := ⟨0, fun i _ => (h.schedulable i).2⟩

lemma Rest.trans_loses (h : Rest s s') (h' : Loses s' s'') : Loses s s'' where
  gate := h'.gate.trans h.gate
  timer := h'.timer.trans h.timer
  only i := fun hi => (h.schedulable i).1 (h'.only i hi)
  others := by
    obtain ⟨k, hk⟩ := h'.others
    exact ⟨k, fun i hi hs => hk i hi ((h.schedulable i).2 hs)⟩

lemma Loses.trans_rest (h : Loses s s') (h' : Rest s' s'') : Loses s s'' where
  gate := h'.gate.trans h.gate
  timer := h'.timer.trans h.timer
  only i := fun hi => h.only i ((h'.schedulable i).1 hi)
  others := by
    obtain ⟨k, hk⟩ := h.others
    exact ⟨k, fun i hi hs => (h'.schedulable i).2 (hk i hi hs)⟩

/-! ## What keeps the gate right -/

lemma Tracks.congr (h : Tracks s) (hgate : s'.userPreemption = s.userPreemption)
    (htimer : s'.lapicConfigures = s.lapicConfigures)
    (hcount : 1 < s'.schedulables.card ↔ 1 < s.schedulables.card) : Tracks s' where
  timer := htimer.trans h.timer
  gate := by
    rw [hgate, h.gate, schedulableThreadCount_eq, schedulableThreadCount_eq, hcount]

lemma Tracks.rest (h : Tracks s) (hr : Rest s s') : Tracks s' := by
  have hsame : s'.schedulables = s.schedulables := by
    ext i
    rw [mem_schedulables, mem_schedulables, hr.schedulable]
  exact h.congr hr.gate hr.timer (by rw [hsame])

/-- The threads that can be woken. -/
def suspended (s : Machine V) : Finset ℕ := (range s.threads.count).filter s.Suspended

/-- Threads compete already, or do not even if all that can be are woken. -/
def WakeOk (s : Machine V) : Prop :=
  1 < s.schedulableThreadCount ∨ s.schedulableThreadCount + s.suspended.card ≤ 1
  deriving Decidable

lemma Tracks.wakes (h : Tracks s) (hw : Wakes s s') (hok : s.WakeOk) : Tracks s' := by
  have hsubset : s.schedulables ⊆ s'.schedulables := fun i hi =>
    mem_schedulables.2 (hw.kept i (mem_schedulables.1 hi))
  have hnew : s'.schedulables ⊆ s.schedulables ∪ s.suspended := fun i hi => by
    refine mem_union.2 ((hw.new i (mem_schedulables.1 hi)).imp mem_schedulables.2 fun hwait => ?_)
    exact mem_filter.2 ⟨mem_range.2 hwait.1, hwait⟩
  have hle := card_le_card hsubset
  have hge := (card_le_card hnew).trans (card_union_le _ _)
  rw [WakeOk, schedulableThreadCount_eq] at hok
  refine h.congr hw.gate hw.timer ?_
  omega

lemma Tracks.loses (h : Tracks s) (hl : Loses s s') (hok : s.schedulableThreadCount ≠ 2) :
    Tracks s' := by
  have hsubset : s'.schedulables ⊆ s.schedulables := fun i hi =>
    mem_schedulables.2 (hl.only i (mem_schedulables.1 hi))
  obtain ⟨k, hk⟩ := hl.others
  have herase : s.schedulables.erase k ⊆ s'.schedulables := fun i hi => by
    obtain ⟨hne, hi⟩ := mem_erase.1 hi
    exact mem_schedulables.2 (hk i hne (mem_schedulables.1 hi))
  have hle := card_le_card hsubset
  have hge := card_le_card herase
  have herased := pred_card_le_card_erase (s := s.schedulables) (a := k)
  rw [schedulableThreadCount_eq] at hok
  refine h.congr hl.gate hl.timer ?_
  omega

/-! ## States with the same tables -/

lemma Rest.of_tables (hgate : s'.userPreemption = s.userPreemption)
    (htimer : s'.lapicConfigures = s.lapicConfigures) (hthreads : s'.threads = s.threads)
    (hprocs : s'.processes = s.processes) : Rest s s' := by
  have hthread (i : ℕ) : s'.thread i = s.thread i := by rw [thread, thread, hthreads]
  have hproc (j : ℕ) : s'.process j = s.process j := by rw [process, process, hprocs]
  refine ⟨hgate, htimer, fun i => ?_, fun i => ?_⟩
  · simp only [Schedulable, InRunnable, hthread, hproc, hthreads, hprocs]
  · simp only [Suspended, InRunnable, hthread, hproc, hthreads, hprocs]
    exact id

lemma updateUserPreemptionGate_eq (htimer : s.lapicConfigures) : ∃ active,
    s.updateUserPreemptionGate = (true, { s with
        userPreemption := decide (1 < s.schedulableThreadCount), lapicActive := active }) := by
  rw [updateUserPreemptionGate]
  split_ifs with hmany
  · rw [enableUserPreemption, decide_eq_true hmany]
    cases hactive : s.lapicActive with
    | true => exact ⟨true, by simp [hactive]⟩
    | false =>
      rw [startLapicSystemTick, if_pos htimer]
      exact ⟨true, rfl⟩
  · rw [decide_eq_false hmany]
    exact ⟨s.lapicActive, rfl⟩

/-- The function itself sets the gate right. -/
lemma tracks_update (htimer : s.lapicConfigures) : Tracks s.updateUserPreemptionGate.2 := by
  obtain ⟨active, hupdate⟩ := updateUserPreemptionGate_eq htimer
  rw [hupdate]
  exact ⟨htimer, decide_eq_true_iff⟩

namespace Rest

variable {f : UserThread → UserThread}

lemma setProcess {f : Process → Process} (hpid : (f (s.process j)).pid = (s.process j).pid)
    (hstate : (f (s.process j)).state = .runnable ↔ (s.process j).state = .runnable) :
    Rest s (s.setProcess j f) := by
  have hin (t : UserThread) : (s.setProcess j f).InRunnable t ↔ s.InRunnable t := by
    refine exists_congr fun k => and_congr_right fun _ => ?_
    rw [process_setProcess]
    split
    · next hk => rw [hk, hpid, hstate]
    · exact Iff.rfl
  exact ⟨rfl, rfl, fun i => and_congr_right fun _ => and_congr_right fun _ => hin _,
    fun i hi => ⟨hi.1, hi.2.1, (hin _).1 hi.2.2⟩⟩

lemma setThread (hpid : (f (s.thread i)).pid = (s.thread i).pid)
    (hready : (f (s.thread i)).Ready ↔ (s.thread i).Ready)
    (hblock : (f (s.thread i)).state = .blocked → (s.thread i).state = .blocked) :
    Rest s (s.setThread i f) := by
  have hin (k : ℕ) : (s.setThread i f).InRunnable ((s.setThread i f).thread k) ↔
      s.InRunnable (s.thread k) := by
    refine exists_congr fun j => and_congr_right fun _ => and_congr_left fun _ => ?_
    rw [thread_setThread]
    split
    · next hk => rw [hk, hpid]; rfl
    · exact Iff.rfl
  refine ⟨rfl, rfl, fun k => and_congr_right fun _ => and_congr ?_ (hin k),
    fun k hk => ⟨hk.1, ?_, (hin k).1 hk.2.2⟩⟩
  · rw [thread_setThread]
    split
    · next hk => rw [hk, hready]
    · exact Iff.rfl
  · have hstate := hk.2.1
    rw [thread_setThread] at hstate
    split at hstate
    · next hki =>
      rw [hki] at hstate ⊢
      exact hblock hstate
    · exact hstate

lemma onThread {tid : ℕ} (hpid : ∀ t, (f t).pid = t.pid) (hready : ∀ t, (f t).Ready ↔ t.Ready)
    (hblock : ∀ t, (f t).state = .blocked → t.state = .blocked) : Rest s (s.onThread tid f) := by
  rw [Machine.onThread]
  split
  · exact refl s
  · exact setThread (hpid _) (hready _) (hblock _)

end Rest

/-! ## Single steps -/

lemma Wakes.of_woken (h : Woken s s') : Wakes s s' := by
  have hproc (j : ℕ) : s'.process j = s.process j := by
    rw [h.frame]
    rfl
  have hprocs : s'.processes.count = s.processes.count := by rw [h.frame]
  have hpid (i : ℕ) : (s'.thread i).pid = (s.thread i).pid := by
    obtain hsame | ⟨-, value, error, hdone⟩ := h.thread i
    · rw [hsame]
    · rw [hdone]
      rfl
  have hin (i : ℕ) : s'.InRunnable (s'.thread i) ↔ s.InRunnable (s.thread i) := by
    simp only [InRunnable, hproc, hprocs, hpid]
  refine ⟨by rw [h.frame], by rw [h.frame],
    fun i hi => ⟨h.threadCount ▸ hi.1, ?_, (hin i).2 hi.2.2⟩,
    fun i hi => ?_, fun i hi => ⟨h.threadCount ▸ hi.1, ?_, (hin i).1 hi.2.2⟩⟩
  · obtain hsame | ⟨-, value, error, hdone⟩ := h.thread i
    · rw [hsame]
      exact hi.2.1
    · rw [hdone]
      exact .inl rfl
  · obtain hsame | ⟨hblock, -⟩ := h.thread i
    · exact .inl ⟨h.threadCount ▸ hi.1, hsame ▸ hi.2.1, (hin i).1 hi.2.2⟩
    · exact .inr ⟨h.threadCount ▸ hi.1, hblock, (hin i).1 hi.2.2⟩
  · have hstate := hi.2.1
    obtain hsame | ⟨-, value, error, hdone⟩ := h.thread i
    · rwa [hsame] at hstate
    · rw [hdone] at hstate
      cases hstate

/-! ## Switching between threads -/

namespace Rest

section

variable (s : Machine V)

lemma parkThread (tid : ℕ) : Rest s (s.parkThread tid) := by
  refine onThread (fun t => ?_) (fun t => ?_) fun t => ?_
  · split <;> rfl
  · split
    · next hrun => exact iff_of_true (.inl rfl) (.inr hrun)
    · exact Iff.rfl
  · split
    · exact fun h => nomatch h
    · exact id

lemma demoteActive (tid : ℕ) : Rest s (s.demoteActive tid) := by
  rw [Machine.demoteActive]
  split
  · exact parkThread s _
  · exact refl s

end

lemma turn (ht : Turn s s') : Rest s s' := by
  cases ht with
  | still => exact refl s
  | @activate tid next _ hready =>
    have hdemoted : ((s.demoteActive tid).thread next).Ready := by
      obtain hsame | ⟨-, hparked⟩ := s.thread_demoteActive tid next
      · rwa [hsame]
      · rw [hparked]
        exact .inl rfl
    have hset : Rest (s.demoteActive tid)
        ((s.demoteActive tid).setThread next fun t => { t with state := .running }) :=
      setThread rfl (iff_of_true (.inr rfl) hdemoted) fun h => nomatch h
    exact ((demoteActive s tid).trans hset).trans (of_tables rfl rfl rfl rfl)
  | keep _ hf =>
    exact setThread hf.2.1 (by rw [UserThread.Ready, hf.2.2]; rfl) hf.2.2.symm.trans
  | park hrun => exact setThread rfl (iff_of_true (.inl rfl) (.inr hrun)) fun h => nomatch h
  | switchSpace => exact of_tables rfl rfl rfl rfl

end Rest

/-! ## Blocking -/

/-- A thread is blocked, and of the rest at most what does not matter changes. -/
lemma Loses.setThread {f : UserThread → UserThread} (hstate : ∀ t, (f t).state = .blocked) :
    Loses s (s.setThread i f) := by
  have hother (k : ℕ) (hk : k ≠ i) : (s.setThread i f).Schedulable k ↔ s.Schedulable k := by
    have hthread : (s.setThread i f).thread k = s.thread k := by rw [thread_setThread, if_neg hk]
    rw [Schedulable, Schedulable, hthread]
    exact Iff.rfl
  refine ⟨rfl, rfl, fun k hk => ?_, i, fun k hk => (hother k hk).2⟩
  by_cases hki : k = i
  · have hready := hk.2.1
    rw [hki, thread_setThread, if_pos rfl, UserThread.Ready, hstate] at hready
    rcases hready with h | h <;> cases h
  · exact (hother k hki).1 hk

lemma Loses.blockActiveThread (s : Machine V) (check : UserThread → Prop) [DecidablePred check]
    (wait : UserThread → UserThread) : Loses s (s.blockActiveThread check wait).2 := by
  obtain hfail | ⟨i, -, -, hblock⟩ := blockActiveThread_cases s check wait
  · rw [hfail]
    exact (Rest.refl s).loses
  · rw [hblock]
    exact Loses.setThread fun _ => rfl

/-! ## Calm routines -/

/-- A routine that leaves processes, descriptors and what the gate depends on alone. -/
structure Calm (s s' : Machine V) : Prop extends Quiet s s', Rest s s'

namespace Calm

lemma refl (s : Machine V) : Calm s s := ⟨.refl s, .refl s⟩

lemma trans (h : Calm s s') (h' : Calm s' s'') : Calm s s'' :=
  ⟨h.toQuiet.trans h'.toQuiet, h.toRest.trans h'.toRest⟩

lemma of_still (h : Still s s') (hgate : s'.userPreemption = s.userPreemption) : Calm s s' := by
  refine ⟨.of_still h, .of_tables hgate ?_ ?_ ?_⟩ <;> rw [h.1]

lemma describe {f : Process → Process} (hf : Redescribed (s.process j) (f (s.process j)))
    (hfds : (f (s.process j)).fileDescriptors = (s.process j).fileDescriptors) :
    Calm s (s.setProcess j f) :=
  ⟨.describe hf hfds, .setProcess hf.pid (by rw [hf.state])⟩

lemma of_turn (ht : Turn s s') : Calm s s' := ⟨.of_switch (.turn ht), .turn ht⟩

lemma activate (s : Machine V) (tid : ℕ) : Calm s (s.activateThread tid).2 :=
  .of_turn (.activateThread s tid)

end Calm

end Machine
end IanOS
