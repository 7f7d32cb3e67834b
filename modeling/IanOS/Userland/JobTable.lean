import IanOS.Lib.Run
import IanOS.Userland.Jobs
import Mathlib.Data.List.GetD

/-!
# No child is forgotten

The ids of the jobs in the table are distinct, whatever is done.  A process that is recorded in a
job is to leave the table only when the kernel has reaped it.  This fails in two ways: when the
table is full, a new job takes the place of the first one, and when some of the processes of a job
are reaped, the whole job is forgotten.  `JobOp.Orderly` excludes the two, and then the table
forgets no child, `jobs_remembered`.
-/

namespace IanOS.InitShell

open List JobTable Nat

open Function (update_of_ne update_self)

variable {job : Job} {pid n : ℕ} {pids : List ℕ} {t : JobTable}

/-! ## The table -/

namespace JobTable

variable {t : JobTable} {pid i j : ℕ}

/-- A process is recorded in the job at a place of the table. -/
def Tracks (t : JobTable) (i pid : ℕ) : Prop :=
  i < kJobCapacity ∧ (t.jobs i).active = true ∧ (t.jobs i).has pid = true

/-- A process is recorded in a job. -/
def Records (t : JobTable) (pid : ℕ) : Prop := ∃ i, t.Tracks i pid

instance (t : JobTable) (pid : ℕ) : Decidable (t.Records pid) :=
  inferInstanceAs (Decidable (∃ i, i < kJobCapacity ∧ _))

lemma tracks_of_findJob (h : t.findJob pid = some i) : t.Tracks i pid := by
  rw [findJob] at h
  split_ifs at h
  have htest := find?_some h
  rw [Bool.and_eq_true] at htest
  exact ⟨mem_range.1 (mem_of_find?_eq_some h), htest.1, htest.2⟩

lemma findJob_eq_none (h : ∀ i, ¬t.Tracks i pid) : t.findJob pid = none := by
  cases hfind : t.findJob pid with
  | none => rfl
  | some i => exact absurd (tracks_of_findJob hfind) (h i)

/-- A process that only one job has is found there. -/
lemma findJob_eq_some (hpid : pid ≠ 0) (h : t.Tracks i pid) (honly : ∀ k, t.Tracks k pid → k = i) :
    t.findJob pid = some i := by
  cases hfind : t.findJob pid with
  | none =>
    rw [findJob, if_neg hpid, find?_eq_none] at hfind
    refine absurd ?_ (hfind i (mem_range.2 h.1))
    rw [Bool.and_eq_true]
    exact h.2
  | some k => rw [honly k (tracks_of_findJob hfind)]

lemma freeSlot_spec (h : t.freeSlot = some i) : i < kJobCapacity ∧ (t.jobs i).active = false := by
  have htest := find?_some h
  exact ⟨mem_range.1 (mem_of_find?_eq_some h), by simpa using htest⟩

/-! ## Ids -/

/-- The ids of the jobs are distinct. -/
def Distinct (t : JobTable) : Prop :=
  ∀ i < kJobCapacity, ∀ j < kJobCapacity, (t.jobs i).active = true → (t.jobs j).active = true →
    (t.jobs i).jobId = (t.jobs j).jobId → i = j

/-- The ids of the jobs are distinct, and below the next one. -/
structure Ids (t : JobTable) : Prop where
  pos : 0 < t.nextJobId
  bounds : ∀ i, (t.jobs i).active = true → (t.jobs i).jobId ≠ 0 ∧ (t.jobs i).jobId < t.nextJobId
  distinct : ∀ i j, (t.jobs i).active = true → (t.jobs j).active = true →
    (t.jobs i).jobId = (t.jobs j).jobId → i = j

/-- One place of the table changes. -/
lemma Ids.update (h : t.Ids) {job : Job} {next : ℕ} (hnext : t.nextJobId ≤ next)
    (hid : job.active = true → job.jobId ≠ 0 ∧ job.jobId < next ∧
      ∀ j ≠ i, (t.jobs j).active = true → (t.jobs j).jobId ≠ job.jobId) :
    Ids { jobs := Function.update t.jobs i job, nextJobId := next } where
  pos := h.pos.trans_le hnext
  bounds := by
    intro k hk
    dsimp only at hk ⊢
    rcases eq_or_ne k i with rfl | hne
    · rw [update_self] at hk ⊢
      exact ⟨(hid hk).1, (hid hk).2.1⟩
    · rw [update_of_ne hne] at hk ⊢
      exact ⟨(h.bounds k hk).1, (h.bounds k hk).2.trans_le hnext⟩
  distinct := by
    intro k l hk hl heq
    dsimp only at hk hl heq
    rcases eq_or_ne k i with rfl | hki
    · rcases eq_or_ne l k with rfl | hlk
      · rfl
      · rw [update_self] at hk heq
        rw [update_of_ne hlk] at hl heq
        exact absurd heq.symm ((hid hk).2.2 l hlk hl)
    · rw [update_of_ne hki] at hk heq
      rcases eq_or_ne l i with rfl | hli
      · rw [update_self] at hl heq
        exact absurd heq ((hid hl).2.2 k hki hk)
      · rw [update_of_ne hli] at hl heq
        exact h.distinct k l hk hl heq

lemma Ids.forgetJob (h : t.Ids) (pid : ℕ) : (t.forgetJob pid).Ids := by
  rw [JobTable.forgetJob]
  cases t.findJob pid with
  | none => exact h
  | some i => exact h.update le_rfl fun hactive => nomatch hactive

lemma Ids.note (h : t.Ids) (i status : ℕ) : (t.note i status).Ids :=
  h.update le_rfl fun hactive =>
    ⟨(h.bounds i hactive).1, (h.bounds i hactive).2,
      fun _ hne hj heq => hne (h.distinct _ _ hj hactive heq)⟩

lemma Ids.record (h : t.Ids) (pid : ℕ) (pids : List ℕ) : (t.record pid pids).Ids := by
  rw [JobTable.record]
  generalize t.slotFor pid = i
  have hpos := h.pos
  rw [idFor]
  split_ifs with hkeep
  · dsimp only
    rw [if_neg hkeep.2]
    refine h.update le_rfl fun _ => ⟨hkeep.2, (h.bounds i hkeep.1).2, fun j hne hj heq => ?_⟩
    exact hne (h.distinct j i hj hkeep.1 heq)
  · dsimp only
    rw [if_neg hpos.ne']
    exact h.update (le_succ _) fun _ =>
      ⟨hpos.ne', lt_succ_self _, fun j _ hj => (h.bounds j hj).2.ne⟩

end JobTable

lemma Shell.table_waitJobProcesses (s : Shell) (i : ℕ) (a : Answers) :
    (s.waitJobProcesses i a).2 = s ∨
      ∃ status, (s.waitJobProcesses i a).2 = { s with table := s.table.note i status } := by
  rw [waitJobProcesses]
  dsimp only
  split_ifs
  · exact .inr ⟨_, rfl⟩
  · exact .inl rfl

/-- `bg` and `stop` change the status at most. -/
lemma Shell.commandGroup_cases (s : Shell) (target : Target) (a : Answers) :
    s.commandGroup target a = s ∨ s.commandGroup target a = { s with lastStatus := 0 } := by
  rw [commandGroup]
  by_cases hpid : s.commandPidOrLast target = 0
  · exact .inl (if_pos hpid)
  rw [if_neg hpid]
  split
  · exact .inl rfl
  split_ifs
  · exact .inl rfl
  · exact .inr rfl
  · exact .inl rfl

lemma Shell.table_spawnAll (s : Shell) (gaps : List ℕ) : (s.spawnAll gaps).2.table = s.table := by
  induction gaps generalizing s with
  | nil => rfl
  | cons gap gaps ih => exact ih (s.spawn gap).2

namespace JobTable.Ids

variable {s : Shell} {i : ℕ} {a : Answers}

lemma waitJobProcesses (h : s.table.Ids) : (s.waitJobProcesses i a).2.table.Ids := by
  rcases s.table_waitJobProcesses i a with heq | ⟨status, heq⟩
  · rwa [heq]
  · rw [heq]
    exact h.note i status

lemma reapJobProcesses (h : s.table.Ids) : (s.reapJobProcesses i a).table.Ids := by
  rw [Shell.reapJobProcesses]
  split_ifs
  · exact h.forgetJob _
  · exact h

lemma finishPipeline (h : s.table.Ids) {group : ℕ} {background : Bool} :
    (s.finishPipeline group background a).table.Ids := by
  rw [Shell.finishPipeline]
  split_ifs
  · assumption
  · split
    · exact h
    · exact reapJobProcesses (waitJobProcesses h)

/-- The ids stay distinct, whatever is done. -/
lemma step (h : s.table.Ids) (op : JobOp × Answers) : (s.step op).table.Ids := by
  obtain ⟨op, a⟩ := op
  cases op with
  | launch gap =>
    dsimp only [Shell.step, Shell.launch, Shell.spawn, rememberJob]
    split_ifs
    · exact h
    · exact h.record _ _
  | exec => exact h
  | pipeline gaps background =>
    dsimp only [Shell.step, Shell.runPipeline]
    have htable := s.table_spawnAll (gaps.take kMaxPipelineStages)
    generalize s.spawnAll (gaps.take kMaxPipelineStages) = spawned at htable
    have hjob : (spawned.2.table.rememberPipelineJob (spawned.1.headD 0) spawned.1).Ids := by
      rw [htable, rememberPipelineJob]
      split_ifs
      · exact h
      · exact h.record _ _
    exact finishPipeline hjob
  | fg target =>
    dsimp only [Shell.step, Shell.commandFg]
    split_ifs
    · exact h
    split
    · exact h
    · exact reapJobProcesses (waitJobProcesses h)
  | bg target =>
    dsimp only [Shell.step, Shell.commandBg]
    rcases s.commandGroup_cases target a with heq | heq <;> rwa [heq]
  | stop target =>
    dsimp only [Shell.step, Shell.commandStop]
    rcases s.commandGroup_cases target a with heq | heq <;> rwa [heq]
  | wait target =>
    dsimp only [Shell.step, Shell.commandWait]
    split_ifs
    · exact h
    · split
      · exact h
      · split_ifs <;> exact waitJobProcesses h
  | waitAny child =>
    dsimp only [Shell.step]
    rcases child with _ | ⟨pid, code⟩
    · exact h
    dsimp only [Shell.commandWaitAny]
    split
    · exact h
    · exact h.note _ _
  | reap target =>
    dsimp only [Shell.step, Shell.commandReap]
    split_ifs with hpid hreap
    · exact h
    · split
      · exact reapJobProcesses h
      · exact h.forgetJob _
    · split
      · exact reapJobProcesses h
      · exact h
  | suspend pid =>
    dsimp only [Shell.step]
    split
    · exact h
    · exact h.update le_rfl fun hactive => ⟨(h.bounds _ hactive).1, (h.bounds _ hactive).2,
        fun _ hne hj heq => hne (h.distinct _ _ hj hactive heq)⟩

end JobTable.Ids

/-! ## Processes -/

/-- A job in the table has its processes in order, the first of them leading the group. -/
structure Job.Whole (job : Job) : Prop where
  pos : 0 < job.processCount
  le : job.processCount ≤ kMaxJobProcesses
  first : job.pids 0 = job.pid
  ne_zero : ∀ j < job.processCount, job.pids j ≠ 0

lemma Job.Whole.has_iff (h : job.Whole) : job.has pid = true ↔ pid ∈ job.members := by
  rw [has, members, decide_eq_true_iff, if_neg h.pos.ne', min_eq_left h.le, mem_filter,
    mem_map, decide_eq_true_iff]
  constructor
  · rintro (rfl | ⟨j, hj, rfl⟩)
    · have hne := h.ne_zero 0 h.pos
      rw [h.first] at hne
      exact ⟨⟨0, mem_range.2 h.pos, h.first⟩, hne⟩
    · exact ⟨⟨j, hj, rfl⟩, h.ne_zero j (mem_range.1 hj)⟩
  · rintro ⟨⟨j, hj, rfl⟩, -⟩
    exact .inr ⟨j, hj, rfl⟩

lemma Job.Whole.has_pid (h : job.Whole) : job.has job.pid = true ∧ job.pid ≠ 0 := by
  refine ⟨by simp [has], ?_⟩
  have hne := h.ne_zero 0 h.pos
  rwa [h.first] at hne

/-- The jobs of the table have processes of their own, whose ids have been given out. -/
structure JobTable.Sound (t : JobTable) (nextPid : ℕ) : Prop where
  pos : 0 < nextPid
  whole : ∀ i < kJobCapacity, (t.jobs i).active = true → (t.jobs i).Whole
  lt : ∀ i pid, t.Tracks i pid → pid < nextPid
  disjoint : ∀ i j pid, t.Tracks i pid → t.Tracks j pid → i = j

/-- What a command does to the children of the shell. -/
structure Shell.Carries (s s' : Shell) : Prop where
  sound : s'.table.Sound s'.kernel.nextPid
  reaped : ∀ pid ∈ s.kernel.reaped, pid ∈ s'.kernel.reaped
  records : ∀ pid, s.table.Records pid → s'.table.Records pid ∨ pid ∈ s'.kernel.reaped

lemma Shell.Carries.trans {s s' s'' : Shell} (h : s.Carries s') (h' : s'.Carries s'') :
    s.Carries s'' := by
  refine ⟨h'.sound, fun pid hpid => h'.reaped pid (h.reaped pid hpid), fun pid hpid => ?_⟩
  rcases h.records pid hpid with hkept | hdone
  · exact h'.records pid hkept
  · exact .inr (h'.reaped pid hdone)

namespace JobTable.Sound

variable {t : JobTable} {n i : ℕ} {m k pid : ℕ} {f : Job → Job}

lemma mono (h : t.Sound n) (hle : n ≤ m) : t.Sound m :=
  ⟨h.pos.trans_le hle, h.whole, fun i pid ht => (h.lt i pid ht).trans_le hle, h.disjoint⟩

/-- A status is noted in a job. -/
lemma tracks_update (hf : ∀ job, (f job).active = job.active ∧ (f job).has = job.has) :
    JobTable.Tracks { t with jobs := Function.update t.jobs i (f (t.jobs i)) } k pid ↔
    t.Tracks k pid := by
  rw [Tracks, Tracks]
  dsimp only
  rcases eq_or_ne k i with rfl | hne
  · rw [update_self, (hf _).1, (hf _).2]
  · rw [update_of_ne hne]

lemma update (h : t.Sound n) (hf : ∀ job, (f job).active = job.active ∧ (f job).has = job.has)
    (hwhole : ∀ job, Job.Whole job → (f job).Whole) :
    JobTable.Sound { t with jobs := Function.update t.jobs i (f (t.jobs i)) } n := by
  refine ⟨h.pos, fun k hk hactive => ?_, fun k pid ht => h.lt k pid ((tracks_update hf).1 ht),
    fun k l pid hk hl => h.disjoint k l pid ((tracks_update hf).1 hk) ((tracks_update hf).1 hl)⟩
  dsimp only at hactive ⊢
  rcases eq_or_ne k i with rfl | hne
  · rw [update_self] at hactive ⊢
    rw [(hf _).1] at hactive
    exact hwhole _ (h.whole k hk hactive)
  · rw [update_of_ne hne] at hactive ⊢
    exact h.whole k hk hactive

/-- The job of a process is found by its leader. -/
lemma findJob_pid (h : t.Sound n) (hi : i < kJobCapacity) (hactive : (t.jobs i).active = true) :
    t.findJob (t.jobs i).pid = some i := by
  obtain ⟨hhas, hne⟩ := (h.whole i hi hactive).has_pid
  exact findJob_eq_some hne ⟨hi, hactive, hhas⟩ fun k hk => h.disjoint k i _ hk ⟨hi, hactive, hhas⟩

lemma tracks_forget :
    JobTable.Tracks { t with jobs := Function.update t.jobs i {} } k pid ↔ k ≠ i ∧
    t.Tracks k pid := by
  rw [Tracks, Tracks]
  dsimp only
  rcases eq_or_ne k i with rfl | hne
  · rw [update_self]
    simp
  · rw [update_of_ne hne]
    simp [hne]

lemma forget (h : t.Sound n) : JobTable.Sound { t with jobs := Function.update t.jobs i {} } n := by
  refine ⟨h.pos, fun k hk hactive => ?_, fun k pid ht => h.lt k pid (tracks_forget.1 ht).2,
    fun k l pid hk hl => h.disjoint k l pid (tracks_forget.1 hk).2 (tracks_forget.1 hl).2⟩
  dsimp only at hactive ⊢
  rcases eq_or_ne k i with rfl | hne
  · rw [update_self] at hactive
    cases hactive
  · rw [update_of_ne hne] at hactive ⊢
    exact h.whole k hk hactive

/-- A job with processes of its own is put into a free place. -/
lemma put (h : t.Sound n) (next : ℕ) {job : Job} (hi : i < kJobCapacity)
    (hfree : (t.jobs i).active = false) (hwhole : job.Whole)
    (hnew : ∀ pid, job.has pid = true → n ≤ pid ∧ pid < m) (hle : n ≤ m) :
    JobTable.Sound { jobs := Function.update t.jobs i job, nextJobId := next } m ∧
      ∀ pid, t.Records pid → JobTable.Records
        { jobs := Function.update t.jobs i job, nextJobId := next } pid := by
  have htracks :
    ∀ k pid, JobTable.Tracks { jobs := Function.update t.jobs i job, nextJobId := next } k pid →
      k = i ∧ job.has pid = true ∨ k ≠ i ∧ t.Tracks k pid := by
    intro k pid hk
    rcases eq_or_ne k i with rfl | hne
    · obtain ⟨-, -, hhas⟩ := hk
      dsimp only at hhas
      rw [update_self] at hhas
      exact .inl ⟨rfl, hhas⟩
    · refine .inr ⟨hne, ?_⟩
      rw [Tracks] at hk
      dsimp only at hk
      rwa [update_of_ne hne] at hk
  refine ⟨⟨h.pos.trans_le hle, fun k hk hactive => ?_, fun k pid hk => ?_,
    fun k l pid hk hl => ?_⟩, ?_⟩
  · dsimp only at hactive ⊢
    rcases eq_or_ne k i with rfl | hne
    · rwa [update_self]
    · rw [update_of_ne hne] at hactive ⊢
      exact h.whole k hk hactive
  · rcases htracks k pid hk with ⟨-, hhas⟩ | ⟨-, hold⟩
    · exact (hnew pid hhas).2
    · exact (h.lt k pid hold).trans_le hle
  · -- the processes of the new job have ids that no other job has
    rcases htracks k pid hk with ⟨rfl, hhas⟩ | ⟨hne, hold⟩
    · rcases htracks l pid hl with ⟨rfl, -⟩ | ⟨-, hold⟩
      · rfl
      · exact absurd (h.lt l pid hold) (not_lt.2 (hnew pid hhas).1)
    · rcases htracks l pid hl with ⟨rfl, hhas⟩ | ⟨-, hold'⟩
      · exact absurd (h.lt k pid hold) (not_lt.2 (hnew pid hhas).1)
      · exact h.disjoint k l pid hold hold'
  · rintro pid ⟨k, hk, hactive, hhas⟩
    have hne : k ≠ i := by
      rintro rfl
      rw [hfree] at hactive
      cases hactive
    refine ⟨k, hk, ?_⟩
    dsimp only
    rw [update_of_ne hne]
    exact ⟨hactive, hhas⟩

end JobTable.Sound

lemma Job.whole_start (jobId : ℕ) (hle : (pid :: pids).length ≤ kMaxJobProcesses)
    (hpids : ∀ p ∈ pid :: pids, p ≠ 0) : (Job.start jobId pid (pid :: pids)).Whole := by
  rw [Job.start, min_eq_left hle]
  have hpos : 0 < (pid :: pids).length := succ_pos _
  refine ⟨hpos, hle, ?_, fun j hj => ?_⟩
  · dsimp only
    rw [if_pos hpos, getD_cons_zero]
  · dsimp only at hj ⊢
    rw [if_pos hj, getD_eq_getElem _ _ hj]
    exact hpids _ (getElem_mem hj)

lemma Job.members_start (jobId : ℕ) (hle : (pid :: pids).length ≤ kMaxJobProcesses)
    (hpids : ∀ p ∈ pid :: pids, p ≠ 0) :
    (Job.start jobId pid (pid :: pids)).members = pid :: pids := by
  have hlist : (range (pid :: pids).length).map
      (fun j => if j < (pid :: pids).length then (pid :: pids).getD j 0 else 0) = pid :: pids := by
    refine ext_getElem (by simp) fun j hj hj' => ?_
    rw [getElem_map, getElem_range, if_pos hj', getD_eq_getElem _ _ hj']
  rw [Job.members, Job.start, min_eq_left hle, min_eq_left hle]
  dsimp only
  rw [if_neg (length_eq_zero_iff.not.2 (cons_ne_nil _ _)), hlist]
  exact filter_eq_self.2 fun p hp => decide_eq_true (hpids p hp)

/-- A job with new processes is recorded while there is a free place, and each of them finds it. -/
lemma JobTable.Sound.record {m : ℕ} (h : t.Sound n) (hfree : t.freeSlot.isSome = true)
    (hle : (pid :: pids).length ≤ kMaxJobProcesses) (hnew : ∀ p ∈ pid :: pids, n ≤ p ∧ p < m) :
    (t.record pid (pid :: pids)).Sound m ∧
      (∀ p, t.Records p → (t.record pid (pid :: pids)).Records p) ∧
      ∃ i, ((t.record pid (pid :: pids)).jobs i).members = pid :: pids ∧
        ∀ p ∈ pid :: pids, (t.record pid (pid :: pids)).findJob p = some i := by
  obtain ⟨hge, hlt⟩ := hnew pid mem_cons_self
  have hnone : t.findJob pid = none :=
    findJob_eq_none fun k hk => absurd (h.lt k pid hk) (not_lt.2 hge)
  obtain ⟨i, hslot⟩ := Option.isSome_iff_exists.1 hfree
  obtain ⟨hi, hinactive⟩ := freeSlot_spec hslot
  have hplace :
    t.slotFor pid = i := by rw [slotFor, hnone, hslot, Option.getD_none, Option.getD_some]
  have hpos : ∀ p ∈ pid :: pids, p ≠ 0 := fun p hp => (h.pos.trans_le (hnew p hp).1).ne'
  have hwhole := Job.whole_start (t.idFor (t.jobs i)).1 hle hpos
  have hmembers := Job.members_start (t.idFor (t.jobs i)).1 hle hpos
  rw [JobTable.record, hplace]
  obtain ⟨hsound, hrecs⟩ := h.put (t.idFor (t.jobs i)).2 hi hinactive hwhole
    (fun p hp => hnew p (hmembers ▸ hwhole.has_iff.1 hp)) (by omega)
  refine ⟨hsound, hrecs, i, ?_, fun p hp => ?_⟩
  · dsimp only
    rw [update_self, hmembers]
  · suffices htracks : JobTable.Tracks _ i p from
      findJob_eq_some (hpos p hp) htracks fun k hk => hsound.disjoint k i p hk htracks
    rw [Tracks]
    dsimp only
    rw [update_self]
    exact ⟨hi, rfl, hwhole.has_iff.2 (by rwa [hmembers])⟩

/-! ## Commands -/

/-- If one process of a job is reaped, the others are reaped with it or have been before. -/
def Job.ReapedWhole (job : Job) (a : Answers) (reaped : List ℕ) : Prop :=
  (∃ pid ∈ job.members, a.reap pid = true) → ∀ pid ∈ job.members, a.reap pid = true ∨ pid ∈ reaped

/-- A new job finds a free place, and a job is reaped as a whole. -/
def JobOp.Orderly (s : Shell) (op : JobOp × Answers) : Prop :=
  match op.1 with
  | .launch _ => s.table.freeSlot.isSome = true
  | .pipeline gaps background =>
    s.table.freeSlot.isSome = true ∧
      (background = false → ∀ pid ∈ (s.spawnAll (gaps.take kMaxPipelineStages)).1,
        ∀ pid' ∈ (s.spawnAll (gaps.take kMaxPipelineStages)).1, op.2.reap pid = op.2.reap pid')
  | .fg target | .reap target =>
    ∀ i ∈ s.table.findJob (s.commandPidOrLast target),
      (s.table.jobs i).ReapedWhole op.2 s.kernel.reaped
  | _ => True

namespace Shell

variable {s : Shell} {i : ℕ} {a : Answers}

/-- The shell has a table that is in order. -/
def Sound (s : Shell) : Prop := s.table.Sound s.kernel.nextPid

lemma Sound.refl (h : s.Sound) : s.Carries s := ⟨h, fun _ hp => hp, fun _ hp => .inl hp⟩

lemma Sound.status (h : s.Sound) (status : ℕ) : s.Carries { s with lastStatus := status } :=
  ⟨h, fun _ hp => hp, fun _ hp => .inl hp⟩

/-- The flags of a job change. -/
lemma Sound.update (h : s.Sound) {f : Job → Job}
    (hf : ∀ job, (f job).active = job.active ∧ (f job).has = job.has)
    (hwhole : ∀ job, Job.Whole job → (f job).Whole) (i : ℕ) :
    s.Carries { s with table.jobs := Function.update s.table.jobs i (f (s.table.jobs i)) } :=
  ⟨JobTable.Sound.update h hf hwhole, fun _ hp => hp,
    fun _ ⟨k, hk⟩ => .inl ⟨k, (JobTable.Sound.tracks_update hf).2 hk⟩⟩

lemma Sound.note (h : s.Sound) (i status : ℕ) :
    s.Carries { s with table := s.table.note i status } :=
  h.update (f := fun job => { job with lastStatus := status, waited := true })
    (fun _ => ⟨rfl, rfl⟩) (fun _ hw => ⟨hw.pos, hw.le, hw.first, hw.ne_zero⟩) i

lemma Sound.waitJobProcesses (h : s.Sound) (i : ℕ) (a : Answers) :
    s.Carries (s.waitJobProcesses i a).2 := by
  rcases s.table_waitJobProcesses i a with heq | ⟨status, heq⟩
  · rw [heq]
    exact h.refl
  · rw [heq]
    exact h.note i status

/-- To wait for a job does not change what the job is. -/
lemma jobs_waitJobProcesses (s : Shell) (i : ℕ) (a : Answers) :
    ((s.waitJobProcesses i a).2.table.jobs i).active = (s.table.jobs i).active ∧
      ((s.waitJobProcesses i a).2.table.jobs i).members = (s.table.jobs i).members ∧
      (s.waitJobProcesses i a).2.kernel = s.kernel := by
  rcases s.table_waitJobProcesses i a with heq | ⟨status, heq⟩
  · rw [heq]
    exact ⟨rfl, rfl, rfl⟩
  rw [heq]
  dsimp only [note]
  rw [update_self]
  exact ⟨rfl, rfl, rfl⟩

lemma Sound.reapJobProcesses (h : s.Sound) (hi : i < kJobCapacity)
    (hactive : (s.table.jobs i).active = true)
    (hall : (s.table.jobs i).ReapedWhole a s.kernel.reaped) :
    s.Carries (s.reapJobProcesses i a) := by
  rw [Shell.reapJobProcesses]
  split_ifs with hdone
  · rw [JobTable.forgetJob, h.findJob_pid hi hactive]
    obtain ⟨first, hfirst⟩ := exists_mem_of_ne_nil _ hdone
    obtain ⟨hmember, hreaped⟩ := mem_filter.1 hfirst
    refine ⟨h.forget, fun pid hp => mem_append_right _ hp, fun pid hp => ?_⟩
    obtain ⟨k, hk⟩ := hp
    rcases eq_or_ne k i with rfl | hne
    · right
      have hpid := (h.whole k hi hactive).has_iff.1 hk.2.2
      rcases hall ⟨first, hmember, hreaped⟩ pid hpid with hnow | hbefore
      · exact mem_append_left _ (mem_filter.2 ⟨hpid, hnow⟩)
      · exact mem_append_right _ hbefore
    · exact .inl ⟨k, JobTable.Sound.tracks_forget.2 ⟨hne, hk⟩⟩
  · exact ⟨h, fun pid hp => mem_append_right _ hp, fun pid hp => .inl hp⟩

/-- The processes of a pipeline have new ids. -/
lemma spawnAll_spec (s : Shell) (gaps : List ℕ) :
    (s.spawnAll gaps).1.length = gaps.length ∧
    s.kernel.nextPid ≤ (s.spawnAll gaps).2.kernel.nextPid ∧
      (s.spawnAll gaps).2.kernel.reaped = s.kernel.reaped ∧
      ∀ pid ∈ (s.spawnAll gaps).1,
        s.kernel.nextPid ≤ pid ∧ pid < (s.spawnAll gaps).2.kernel.nextPid := by
  induction gaps generalizing s with
  | nil => exact ⟨rfl, le_rfl, rfl, fun _ hpid => absurd hpid not_mem_nil⟩
  | cons gap gaps ih =>
    obtain ⟨hlen, hle, hreaped, hpids⟩ := ih (s.spawn gap).2
    have hstart : (s.spawn gap).2.kernel.nextPid = s.kernel.nextPid + gap + 1 := rfl
    dsimp only [spawnAll]
    refine ⟨by rw [length_cons, hlen, length_cons], by omega, hreaped, fun pid hpid => ?_⟩
    rcases mem_cons.1 hpid with rfl | hlater
    · exact ⟨le_add_right _ _, hle⟩
    · have hbounds := hpids pid hlater
      omega

section

variable (h : s.Sound)
include h

lemma Sound.launch (gap : ℕ) (hfree : s.table.freeSlot.isSome = true) :
    s.Carries (s.launch gap) := by
  have hpos := h.pos
  have hone : [s.kernel.nextPid + gap].length ≤ kMaxJobProcesses := by
    rw [length_singleton]
    decide
  obtain ⟨hsound, hrecs, -⟩ := JobTable.Sound.record (m := s.kernel.nextPid + gap + 1) h hfree hone
    fun p hp => by
      rw [mem_singleton.1 hp]
      omega
  dsimp only [Shell.launch, spawn, rememberJob]
  rw [if_neg (by omega)]
  exact ⟨hsound, fun _ hp => hp, fun p hp => .inl (hrecs p hp)⟩

lemma Sound.waitReap (hi : i < kJobCapacity) (hactive : (s.table.jobs i).active = true)
    (hall : (s.table.jobs i).ReapedWhole a s.kernel.reaped) (status : ℕ) :
    s.Carries (({ (s.waitJobProcesses i a).2 with lastStatus := status } : Shell).reapJobProcesses i
      a) := by
  have hwait := h.waitJobProcesses i a
  obtain ⟨hsame, hmembers, hkernel⟩ := s.jobs_waitJobProcesses i a
  generalize (s.waitJobProcesses i a).2 = s' at hwait hsame hmembers hkernel
  have hsound : Sound { s' with lastStatus := status } := hwait.sound
  refine hwait.trans (Sound.status hwait.sound status |>.trans ?_)
  refine hsound.reapJobProcesses hi (hsame.trans hactive) ?_
  rw [Job.ReapedWhole] at hall ⊢
  rwa [hmembers, hkernel]

lemma Sound.finishPipeline {group : ℕ} {background : Bool}
    (hall : background = false → ∀ i, s.table.Tracks i group →
      (s.table.jobs i).ReapedWhole a s.kernel.reaped) :
    s.Carries (s.finishPipeline group background a) := by
  rw [Shell.finishPipeline]
  split_ifs with hback
  · exact h.status 0
  cases hfind : s.table.findJob group with
  | none => exact h.status 0
  | some i =>
    have htracks := tracks_of_findJob hfind
    have hdone := h.waitReap htracks.1 htracks.2.1 (hall (Bool.eq_false_iff.2 hback) i htracks)
      (s.waitJobProcesses i a).2.lastStatus
    exact ⟨hdone.sound, hdone.reaped, hdone.records⟩

/-- Once its stages are started, a pipeline is a job that each of its processes finds. -/
lemma Sound.started (hfree : s.table.freeSlot.isSome = true) {gaps : List ℕ} (hne : gaps ≠ []) :
    ∃ (s' : Shell) (i group : ℕ), s.Carries s' ∧ s'.kernel.reaped = s.kernel.reaped ∧
      (s.spawnAll (gaps.take kMaxPipelineStages)).1 = (s'.table.jobs i).members ∧
      s'.table.findJob group = some i ∧
      (∀ p ∈ (s'.table.jobs i).members, p ≠ 0 ∧ s'.table.findJob p = some i) ∧
      ∀ background a, s.runPipeline gaps background a = s'.finishPipeline group background a := by
  have htable := s.table_spawnAll (gaps.take kMaxPipelineStages)
  obtain ⟨hlen, hle, hreaped, hpids⟩ := s.spawnAll_spec (gaps.take kMaxPipelineStages)
  unfold Shell.runPipeline
  generalize s.spawnAll (gaps.take kMaxPipelineStages) = spawned at htable hlen hle hreaped hpids ⊢
  obtain ⟨_ | ⟨pid, pids⟩, s'⟩ := spawned
  · cases gaps with
    | nil => exact absurd rfl hne
    | cons gap gaps => cases hlen
  dsimp only at htable hlen hle hreaped hpids ⊢
  have hshort : (pid :: pids).length ≤ kMaxJobProcesses := by
    rw [hlen, length_take]
    exact min_le_left _ _
  obtain ⟨hsound, hrecs, i, hmembers, hfind⟩ := JobTable.Sound.record h hfree hshort hpids
  have hpos : ∀ p ∈ pid :: pids, p ≠ 0 := fun p hp => (h.pos.trans_le (hpids p hp).1).ne'
  refine ⟨{ s' with table := s.table.record pid (pid :: pids) }, i, pid,
    ⟨hsound, fun p hp => by rwa [hreaped], fun p hp => .inl (hrecs p hp)⟩, hreaped, hmembers.symm,
    hfind pid mem_cons_self, fun p hp => ?_, fun background a => ?_⟩
  · rw [hmembers] at hp
    exact ⟨hpos p hp, hfind p hp⟩
  · rw [headD_cons, htable, rememberPipelineJob,
      if_neg (not_or.2 ⟨hpos pid mem_cons_self, cons_ne_nil _ _⟩)]

/-- A pipeline is recorded, and if it is not in the background it is waited for and reaped. -/
lemma Sound.runPipeline (gaps : List ℕ) (background : Bool)
    (hok : JobOp.Orderly s (.pipeline gaps background, a)) :
    s.Carries (s.runPipeline gaps background a) := by
  obtain ⟨hfree, hreap⟩ := hok
  cases gaps with
  | nil => cases background <;> exact h.status 0
  | cons gap gaps =>
    obtain ⟨s', i, group, hstart, -, hmembers, hgroup, -, hrun⟩ :=
      h.started hfree (cons_ne_nil gap gaps)
    rw [hrun]
    refine hstart.trans (Sound.finishPipeline hstart.sound fun hback k hk => ?_)
    -- the job is the one just recorded, so its processes are those of the pipeline
    cases hstart.sound.disjoint k i group hk (tracks_of_findJob hgroup)
    rintro ⟨p, hp, hdone⟩ q hq
    rw [← hmembers] at hp hq
    exact .inl ((hreap hback p hp q hq).symm.trans hdone)

lemma Sound.commandGroup (target : Target) (a : Answers) : s.Carries (s.commandGroup target a) := by
  rcases s.commandGroup_cases target a with heq | heq
  · rw [heq]
    exact h.refl
  · rw [heq]
    exact h.status 0

/-- A single process is reaped. -/
lemma Sound.reapOne {pid : ℕ}
    (hone : ∀ i ∈ s.table.findJob pid, (s.table.jobs i).members = [pid]) :
    s.Carries { s with
      kernel.reaped := pid :: s.kernel.reaped, table := s.table.forgetJob pid } := by
  rw [JobTable.forgetJob]
  cases hfind : s.table.findJob pid with
  | none => exact ⟨h, fun _ hp => mem_cons_of_mem _ hp, fun _ hp => .inl hp⟩
  | some i =>
    refine ⟨h.forget, fun _ hp => mem_cons_of_mem _ hp, fun p hp => ?_⟩
    obtain ⟨k, hk⟩ := hp
    rcases eq_or_ne k i with rfl | hne
    · have hmember := (h.whole k hk.1 hk.2.1).has_iff.1 hk.2.2
      rw [hone k hfind, mem_singleton] at hmember
      exact .inr (hmember ▸ mem_cons_self)
    · exact .inl ⟨k, JobTable.Sound.tracks_forget.2 ⟨hne, hk⟩⟩

lemma Sound.commandReap (target : Target) (hok : JobOp.Orderly s (.reap target, a)) :
    s.Carries (s.commandReap target a) := by
  rw [Shell.commandReap]
  dsimp only [JobOp.Orderly] at hok ⊢
  generalize s.commandPidOrLast target = pid at hok ⊢
  by_cases hpid : pid = 0
  · rw [if_pos hpid]
    exact h.refl
  rw [if_neg hpid]
  split
  · next i hfilter =>
    obtain ⟨hfind, -⟩ := Option.filter_eq_some_iff.1 hfilter
    have htracks := tracks_of_findJob hfind
    exact h.reapJobProcesses htracks.1 htracks.2.1 (hok i hfind)
  · next hfilter =>
    split_ifs
    · refine h.reapOne fun i hfind => ?_
      -- a job that is not reaped as a whole has the one process
      have htracks := tracks_of_findJob hfind
      have hwhole := h.whole i htracks.1 htracks.2.1
      have hcount : (s.table.jobs i).processCount = 1 := by
        have hle := Option.filter_eq_none_iff.1 hfilter i hfind
        have hpos := hwhole.pos
        rw [decide_eq_true_iff] at hle
        omega
      have hmember := hwhole.has_iff.1 htracks.2.2
      rw [Job.members, if_neg hwhole.pos.ne', hcount] at hmember ⊢
      simp_all [kMaxJobProcesses]
    · exact h.refl

/-- No command loses a process while jobs find a free place and are reaped as a whole. -/
lemma Sound.step (op : JobOp × Answers) (hok : JobOp.Orderly s op) : s.Carries (s.step op) := by
  obtain ⟨op, a⟩ := op
  cases op with
  | launch => exact h.launch _ hok
  | exec gap =>
    dsimp only [Shell.step, spawn]
    exact ⟨h.mono (by dsimp only; omega), fun _ hp => hp, fun _ hp => .inl hp⟩
  | pipeline => exact h.runPipeline _ _ hok
  | fg target =>
    dsimp only [Shell.step, commandFg, JobOp.Orderly] at hok ⊢
    split_ifs
    · exact h.refl
    split
    · exact h.refl
    · next i hfind =>
      have htracks := tracks_of_findJob hfind
      exact h.waitReap htracks.1 htracks.2.1 (hok i hfind) _
  | bg | stop => exact h.commandGroup _ a
  | wait target =>
    dsimp only [Shell.step, commandWait]
    split_ifs
    · exact h.refl
    split
    · exact h.refl
    next i hfind =>
      have hwait := h.waitJobProcesses i a
      split_ifs
      · exact hwait.trans (Sound.status hwait.sound _)
      · exact hwait
  | waitAny child =>
    dsimp only [Shell.step]
    rcases child with _ | ⟨pid, code⟩
    · exact h.refl
    dsimp only [commandWaitAny]
    split
    · exact h.status code
    · next i hfind => exact (h.note i code).trans (Sound.status (h.note i code).sound code)
  | reap => exact h.commandReap _ hok
  | suspend pid =>
    dsimp only [Shell.step]
    split
    · exact h.refl
    · next i hfind =>
      exact h.update (f := fun job => { job with waited := false }) (fun _ => ⟨rfl, rfl⟩)
        (fun _ hw => ⟨hw.pos, hw.le, hw.first, hw.ne_zero⟩) i

end

lemma sound_initial : Sound {} := by
  refine ⟨one_pos, fun i _ hactive => ?_, fun i pid hi => ?_, fun i j pid hi => ?_⟩
  · cases hactive
  · cases hi.2.1
  · cases hi.2.1

/-- Along a run the shell loses no process. -/
lemma Sound.run (h : s.Sound) (ops : List (JobOp × Answers))
    (hok : Run.Allowed Shell.step JobOp.Orderly s ops) : s.Carries (ops.foldl Shell.step s) := by
  induction ops generalizing s with
  | nil => exact h.refl
  | cons op ops ih =>
    have hstep := h.step op hok.1
    exact hstep.trans (ih hstep.sound hok.2)

/-- The jobs have distinct ids after any commands.  If every new job finds a free place in the table
and every job is reaped as a whole, then a process that is recorded after some of the commands is
recorded after the others, or the kernel has reaped it. -/
theorem jobs_remembered (ops ops' : List (JobOp × Answers)) :
    (ops.foldl step {}).table.Distinct ∧
      (Run.Allowed step JobOp.Orderly {} (ops ++ ops') → ∀ pid,
        (ops.foldl step {}).table.Records pid →
        ((ops ++ ops').foldl step {}).table.Records pid ∨
          pid ∈ ((ops ++ ops').foldl step {}).kernel.reaped) := by
  constructor
  · have hids : (ops.foldl step {}).table.Ids := by
      refine foldlRecOn ops step (motive := fun s => s.table.Ids) ?_ fun s h op _ => h.step op
      exact ⟨one_pos, fun _ hactive => (nomatch hactive), fun _ _ hactive => (nomatch hactive)⟩
    exact fun i _ j _ => hids.distinct i j
  · intro hok pid hpid
    rw [Run.allowed_append] at hok
    have hsound := (Sound.run sound_initial ops hok.1).sound
    rw [foldl_append]
    exact (Sound.run hsound ops' hok.2).records pid hpid

theorem jobs_remembered_reap :
    let a : Answers := ⟨fun _ => some 0, fun _ => true, true⟩
    let s : Shell := [(JobOp.launch 0, a), (.launch 2, a)].foldl step {}
    s.table.Records 4 ∧ ((s.step (.reap (.pid 4), a)).table.Records 4 ∨
      4 ∈ (s.step (.reap (.pid 4), a)).kernel.reaped) := by
  intro a s
  have hrecords : s.table.Records 4 := by decide +kernel
  refine ⟨hrecords,
    (jobs_remembered [(.launch 0, a), (.launch 2, a)] [(.reap (.pid 4), a)]).2 ?_ 4 hrecords⟩
  exact ⟨rfl, rfl, fun i _ _ _ _ => .inl rfl, trivial⟩

/-- The ninth job takes the place of the first, whose process was never reaped. -/
theorem ninth_job_replaces_first :
    let a : Answers := ⟨fun _ => some 0, fun _ => true, true⟩
    let s : Shell := (replicate 8 (JobOp.launch 0, a)).foldl step {}
    s.table.Records 1 ∧ ¬(s.step (.launch 0, a)).table.Records 1 ∧
      (s.step (.launch 0, a)).kernel.reaped = [] := by
  decide +kernel

end Shell

end IanOS.InitShell
