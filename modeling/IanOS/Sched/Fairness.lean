import IanOS.Lib.Run
import IanOS.Sched.Scheduler

/-!
# Runs of the kernel scheduler

Every step that leaves the processor first gives the current thread another state (`prepare`), then
calls `pick_next`, and then makes the thread that was picked the running one (`Resumed`).  The
routes through the source differ in what they count and save, but not in this.  From it follow the
invariant of the scheduler and, along the ring of slots, that a thread that is ready is picked.
-/

namespace IanOS.Sched

open RoundRobin List Option

namespace Scheduler

variable {s s' t : Scheduler} {c d n i : ℕ} {o : Step} {rsp : Word64} {ops : List Step}

lemma thread_setThread (f : Thread → Thread) :
    (s.setThread c f).thread i = if i = c then f (s.thread i) else s.thread i :=
  s.threads.slot_modify c f i

/-! ## Before the choice -/

/-- The state in which a step of thread `c` calls `pick_next`. -/
def prepare (s : Scheduler) (c : ℕ) : Step → Scheduler
  | .create _ _ => s
  | .yield _ => { s with yieldCount := s.yieldCount + 1 }.setState c .ready
  | .block _ => s.setState c .blocked
  | .sleep wakeTick _ =>
    (s.setThread c fun t => { t with wakeTick := wakeTick }).setState c .sleeping
  | .exit _ => s.setThread c fun t => { t with state := .dead }
  | .interrupt rsp ticks => ((s.saveRsp c rsp).parkCurrent c).wakeSleepers ticks

/-- The thread's wake tick has come at this step. -/
def Woken (o : Step) (t : Thread) : Prop :=
  ∃ rsp ticks, o = .interrupt rsp ticks ∧ t.wakeTick ≤ ticks

/-- The current thread has left the processor, and sleepers may have been woken. -/
structure Prepared (c : ℕ) (o : Step) (s t : Scheduler) : Prop where
  count : t.threads.count = s.threads.count
  idle : t.idle = s.idle
  current : t.current = s.current
  index : t.currentIndex = s.currentIndex
  left : (t.thread c).state ≠ .running
  parked : (∃ rsp ticks, o = .interrupt rsp ticks) → (t.thread c).state = .ready
  other : ∀ i, i ≠ c → (t.thread i).state = (s.thread i).state ∧
      (t.thread i).wakeTick = (s.thread i).wakeTick ∨
    (s.thread i).state = .sleeping ∧ (t.thread i).state = .ready ∧ Woken o (s.thread i)

lemma thread_wakeSleepers (ticks : ℕ) : (s.wakeSleepers ticks).thread i =
    if i < s.threads.count then wakeSleeper ticks (s.thread i) else s.thread i :=
  (s.threads.foldl_modify_range _ _).2 i

/-- A step of the thread itself changes its record only. -/
lemma prepared_self (ho : ∀ rsp ticks, o ≠ .interrupt rsp ticks)
    (hframe : t = { s with yieldCount := t.yieldCount, threads := t.threads })
    (hcount : t.threads.count = s.threads.count) (hleft : (t.thread c).state ≠ .running)
    (hother : ∀ i, i ≠ c → t.thread i = s.thread i) : Prepared c o s t where
  count := hcount
  idle := by rw [hframe]
  current := by rw [hframe]
  index := by rw [hframe]
  left := hleft
  parked := fun ⟨rsp, ticks, heq⟩ => absurd heq (ho rsp ticks)
  other i hi := by
    rw [hother i hi]
    exact .inl ⟨rfl, rfl⟩

lemma prepared_interrupt {ticks : ℕ} (hrun : (s.thread c).state = .running) :
    Prepared c (.interrupt rsp ticks) s (s.prepare c (.interrupt rsp ticks)) := by
  have hsaved : ((s.saveRsp c rsp).thread c).state = .running := by
    rwa [saveRsp, thread_setThread, if_pos rfl]
  rw [prepare, parkCurrent, if_pos hsaved]
  have hself : (((s.saveRsp c rsp).setState c .ready).thread c).state = .ready := by
    rw [setState, thread_setThread, if_pos rfl]
  have hother {i : ℕ} (hi : i ≠ c) :
      ((s.saveRsp c rsp).setState c .ready).thread i = s.thread i := by
    rw [setState, thread_setThread, if_neg hi, saveRsp, thread_setThread, if_neg hi]
  -- the thread that was interrupted is not asleep
  have hparked : ((((s.saveRsp c rsp).setState c .ready).wakeSleepers ticks).thread c).state =
      .ready := by
    rw [thread_wakeSleepers, wakeSleeper, hself]
    simp [hself]
  refine ⟨?_, rfl, rfl, rfl, ?_, fun _ => hparked, fun i hi => ?_⟩
  · exact (Table.foldl_modify_range _ _ _).1
  · rw [hparked]
    decide
  rw [thread_wakeSleepers, hother hi]
  split
  · rw [wakeSleeper]
    split
    · next hasleep => exact .inr ⟨hasleep.1, rfl, rsp, ticks, rfl, hasleep.2⟩
    · exact .inl ⟨rfl, rfl⟩
  · exact .inl ⟨rfl, rfl⟩

lemma prepared_prepare (hrun : (s.thread c).state = .running) (hpicks : o.picks) :
    Prepared c o s (s.prepare c o) := by
  cases o with
  | create => cases hpicks
  | yield rsp =>
    refine prepared_self (by simp) rfl rfl ?_ fun i hi => ?_
    · simp [prepare, setState, thread_setThread]
    · simp only [prepare, setState, thread_setThread, if_neg hi]
      rfl
  | block rsp | sleep wakeTick rsp =>
    refine prepared_self (by simp) rfl rfl ?_ fun i hi => ?_
    · simp [prepare, setState, thread_setThread]
    · simp only [prepare, setState, thread_setThread, if_neg hi]
  | exit rsp =>
    refine prepared_self (by simp) rfl rfl ?_ fun i hi => ?_
    · simp [prepare, thread_setThread]
    · simp only [prepare, thread_setThread, if_neg hi]
  | interrupt => exact prepared_interrupt hrun

/-! ## The choice -/

/-- `pick_next` returns the first thread that waits, or else the idle thread. -/
lemma pickNext_cases (hindex : t.currentIndex < t.threads.count) (hidle : t.idle = some d) :
    (∃ n, pick t.threads.count t.currentIndex t.Waiting = some n ∧
      t.pickNext = (some n, { t with currentIndex := n })) ∨
    (∀ i < t.threads.count, ¬ t.Waiting i) ∧ t.pickNext = (some d, t) := by
  rw [pickNext, if_neg (by omega)]
  cases hpick : pick t.threads.count t.currentIndex t.Waiting with
  | some n => exact .inl ⟨n, rfl, rfl⟩
  | none =>
    rw [← hidle]
    exact .inr ⟨pick_eq_none.1 hpick, rfl⟩

/-- The thread in slot `n` has become the running one. -/
structure Resumed (n : ℕ) (t s' : Scheduler) : Prop where
  count : s'.threads.count = t.threads.count
  idle : s'.idle = t.idle
  current : s'.current = some n
  index : s'.currentIndex = t.currentIndex
  state : ∀ i, (s'.thread i).state = if i = n then .running else (t.thread i).state
  wakeTick : ∀ i, (s'.thread i).wakeTick = (t.thread i).wakeTick

lemma resumed_resume (n : ℕ) (t : Scheduler) : Resumed n t (t.resume n) := by
  refine ⟨rfl, rfl, rfl, rfl, fun i => ?_, fun i => ?_⟩
  · rw [resume, thread_setThread]
    split <;> rfl
  · rw [resume, thread_setThread]
    split <;> rfl

/-- Counting and saving do not matter. -/
lemma Resumed.setThread (h : Resumed n t s') {f : Thread → Thread}
    (hf : ∀ t, (f t).state = t.state ∧ (f t).wakeTick = t.wakeTick) (c : ℕ) :
    Resumed n t (s'.setThread c f) := by
  refine ⟨h.count, h.idle, h.current, h.index, fun i => ?_, fun i => ?_⟩
  · rw [← h.state i, thread_setThread]
    split
    · exact (hf _).1
    · rfl
  · rw [← h.wakeTick i, thread_setThread]
    split
    · exact (hf _).2
    · rfl

lemma Resumed.counters (h : Resumed n t s') (switches preemptions : ℕ) :
    Resumed n t { s' with switchCount := switches, preemptCount := preemptions } :=
  ⟨h.count, h.idle, h.current, h.index, h.state, h.wakeTick⟩

lemma resumed_countSwitch (n : ℕ) (t : Scheduler) : Resumed n t ((t.resume n).countSwitch n) := by
  refine ((resumed_resume n t).counters _ _).setThread ?_ n
  exact fun _ => ⟨rfl, rfl⟩

lemma Resumed.saveRsp (h : Resumed n t s') (c : ℕ) (rsp : Word64) :
    Resumed n t (s'.saveRsp c rsp) := by
  refine h.setThread ?_ c
  exact fun _ => ⟨rfl, rfl⟩

lemma resumed_same (ht : t.current = some c) : Resumed c t (t.setState c .running) := by
  have hsame : t.setState c .running = t.resume c := by
    rw [resume, ← ht, setState]
  rw [hsame]
  exact resumed_resume c t

lemma resumed_switch {q : ThreadState} (hc : s.current = some c) (ht : t.current = some c)
    (hpick : (s.setState c q).pickNext = (some n, t)) :
    Resumed n t (s.switchFromCurrent q rsp) := by
  rw [switchFromCurrent, hc]
  dsimp only
  rw [hpick]
  dsimp only
  split
  · next heq =>
    rw [heq]
    exact resumed_same ht
  · exact (resumed_countSwitch n t).saveRsp c rsp

lemma resumed_perform (hc : s.current = some c) (ht : t.current = some c)
    (hperm : s.Permitted o) (hpicks : o.picks)
    (hpick : (s.prepare c o).pickNext = (some n, t)) : Resumed n t (s.perform o) := by
  have hchange (hother : s.current ≠ s.idle) (f : Thread → Thread) :
      s.changeCurrent f = s.setThread c f := by
    have hne : s.idle ≠ some c := fun heq => hother (hc.trans heq.symm)
    rw [changeCurrent, hc]
    exact if_neg hne
  cases o with
  | create => cases hpicks
  | yield rsp =>
    have hyield : s.perform (.yield rsp) =
        { s with yieldCount := s.yieldCount + 1 }.switchFromCurrent .ready rsp := by
      rw [perform, yield, hc]
    rw [hyield]
    exact resumed_switch hc ht hpick
  | block => exact resumed_switch hc ht hpick
  | sleep wakeTick rsp =>
    rw [perform, sleepCurrentUntil, hchange hperm]
    exact resumed_switch hc ht hpick
  | exit rsp =>
    rw [prepare] at hpick
    rw [perform, exitCurrentThread, hchange hperm, hpick, hc]
    exact ((resumed_resume n t).counters _ _).saveRsp c rsp
  | interrupt rsp ticks =>
    rw [prepare] at hpick
    rw [perform, scheduleFromInterrupt, hc]
    dsimp only
    rw [hpick]
    dsimp only
    split
    · next heq =>
      rw [heq]
      exact resumed_same ht
    · exact (resumed_countSwitch n t).counters _ _

/-! ## The invariant -/

/-- The idle thread is in slot `d`.  The thread that is running is the current one and no other, the
idle thread is ready unless it is running, and then no other thread is ready. -/
structure Inv (d : ℕ) (s : Scheduler) : Prop where
  idle : s.idle = some d
  idle_lt : d < s.threads.count
  capacity : s.threads.count ≤ kMaxThreads
  index : s.currentIndex < s.threads.count
  running : ∃ c < s.threads.count, s.current = some c ∧
    ∀ i < s.threads.count, (s.thread i).state = .running ↔ i = c
  idleReady : s.current ≠ some d → (s.thread d).state = .ready
  idleAlone : s.current = some d → ∀ i < s.threads.count, i ≠ d → (s.thread i).state ≠ .ready

/-- What a step does that picks a thread: `t` is the state in which the choice is made, and `n` the
thread that is chosen. -/
structure Turn (d : ℕ) (o : Step) (s s' : Scheduler) (c n : ℕ) (t : Scheduler) : Prop where
  current : s.current = some c
  prepared : Prepared c o s t
  count : s'.threads.count = s.threads.count
  idle : s'.idle = s.idle
  lt : n < s.threads.count
  next : s'.current = some n
  state : ∀ i, (s'.thread i).state = if i = n then .running else (t.thread i).state
  wakeTick : ∀ i, (s'.thread i).wakeTick = (t.thread i).wakeTick
  choice : n ≠ d ∧ s'.currentIndex = n ∧ (t.thread n).state = .ready ∧
      (∀ i < s.threads.count, i ≠ d → (t.thread i).state = .ready →
        wait kMaxThreads s.currentIndex n ≤ wait kMaxThreads s.currentIndex i) ∨
    n = d ∧ s'.currentIndex = s.currentIndex ∧
      ∀ i < s.threads.count, i ≠ d → (t.thread i).state ≠ .ready

lemma waiting_iff (h : t.idle = some d) : t.Waiting i ↔ i ≠ d ∧ (t.thread i).state = .ready := by
  rw [Waiting, h, ne_eq, some_inj]

lemma Inv.turn (h : Inv d s) (hperm : s.Permitted o) (hpicks : o.picks) :
    ∃ c n t, Turn d o s (s.perform o) c n t := by
  obtain ⟨c, hc, hcur, hrunning⟩ := h.running
  have hprep := prepared_prepare ((hrunning c hc).2 rfl) hpicks
  have hidle : (s.prepare c o).idle = some d := hprep.idle.trans h.idle
  have hindex : (s.prepare c o).currentIndex < (s.prepare c o).threads.count := by
    rw [hprep.index, hprep.count]
    exact h.index
  obtain ⟨n, hpick, hnext⟩ | ⟨hnone, hnext⟩ := pickNext_cases hindex hidle
  · have hresumed := resumed_perform (t := { s.prepare c o with currentIndex := n }) hcur
      (hprep.current.trans hcur) hperm hpicks hnext
    obtain ⟨hn, hwait, -⟩ := (pick_eq_some hindex).1 hpick
    rw [waiting_iff hidle] at hwait
    refine ⟨c, n, s.prepare c o, hcur, hprep, hresumed.count.trans hprep.count,
      hresumed.idle.trans hprep.idle, hprep.count ▸ hn, hresumed.current, hresumed.state,
      hresumed.wakeTick, .inl ⟨hwait.1, hresumed.index, hwait.2, fun i hi hne hready => ?_⟩⟩
    rw [← hprep.index]
    have hcap : (s.prepare c o).threads.count ≤ kMaxThreads := hprep.count ▸ h.capacity
    exact wait_le_of_pick hindex hcap hpick (hprep.count ▸ hi) ((waiting_iff hidle).2 ⟨hne, hready⟩)
  · have hresumed := resumed_perform hcur (hprep.current.trans hcur) hperm hpicks hnext
    refine ⟨c, d, s.prepare c o, hcur, hprep, hresumed.count.trans hprep.count,
      hresumed.idle.trans hprep.idle, h.idle_lt, hresumed.current, hresumed.state,
      hresumed.wakeTick, .inr ⟨rfl, hresumed.index.trans hprep.index, fun i hi hne hready => ?_⟩⟩
    exact hnone i (hprep.count ▸ hi) ((waiting_iff hidle).2 ⟨hne, hready⟩)

namespace Turn

variable (h : Inv d s) (hturn : Turn d o s s' c n t)

include h hturn

lemma running_iff (hi : i < s.threads.count) : (s.thread i).state = .running ↔ i = c := by
  obtain ⟨c', -, hcur, hrunning⟩ := h.running
  obtain rfl : c' = c := some.inj (hcur.symm.trans hturn.current)
  exact hrunning i hi

section

variable (hperm : s.Permitted o)
include hperm

lemma idle_ready : (t.thread d).state = .ready := by
  by_cases hdc : d = c
  · have hidle : s.current = s.idle := by rw [hturn.current, h.idle, hdc]
    have ho : ∃ rsp ticks, o = .interrupt rsp ticks := by
      cases o with
      | interrupt => exact ⟨_, _, rfl⟩
      | _ => exact absurd hidle hperm
    rw [hdc]
    exact hturn.prepared.parked ho
  · have hne : s.current ≠ some d := by
      rw [hturn.current]
      exact fun heq => hdc (some.inj heq).symm
    obtain ⟨hsame, -⟩ | ⟨-, hready, -⟩ := hturn.prepared.other d hdc
    · rw [hsame]
      exact h.idleReady hne
    · exact hready

/-- The thread that is chosen is ready when the choice is made. -/
lemma next_ready : (t.thread n).state = .ready := by
  obtain ⟨-, -, hready, -⟩ | ⟨rfl, -, -⟩ := hturn.choice
  · exact hready
  · exact hturn.idle_ready h hperm

/-- A thread that is not ready when the choice is made is left alone. -/
lemma state_of_ne (hi : (t.thread i).state ≠ .ready) :
    (s'.thread i).state = (t.thread i).state := by
  have hne : i ≠ n := fun heq => hi (heq ▸ hturn.next_ready h hperm)
  rw [hturn.state, if_neg hne]

lemma inv : Inv d s' := by
  refine ⟨hturn.idle.trans h.idle, hturn.count ▸ h.idle_lt, hturn.count ▸ h.capacity, ?_,
    ⟨n, hturn.count ▸ hturn.lt, hturn.next, fun i hi => ?_⟩, fun hne => ?_, fun heq i hi hne => ?_⟩
  · rw [hturn.count]
    obtain ⟨-, hindex, -⟩ | ⟨-, hindex, -⟩ := hturn.choice
    · rw [hindex]
      exact hturn.lt
    · rw [hindex]
      exact h.index
  · rw [hturn.state]
    split
    · next heq => exact iff_of_true rfl heq
    next hne =>
      refine iff_of_false (fun hrun => ?_) hne
      by_cases hic : i = c
      · exact hturn.prepared.left (hic ▸ hrun)
      obtain ⟨hsame, -⟩ | ⟨-, hready, -⟩ := hturn.prepared.other i hic
      · rw [hsame, hturn.running_iff h (hturn.count ▸ hi)] at hrun
        exact hic hrun
      · rw [hready] at hrun
        cases hrun
  · rw [hturn.state, if_neg fun heq => hne (by rw [hturn.next, heq])]
    exact hturn.idle_ready h hperm
  · obtain rfl : n = d := some.inj (hturn.next.symm.trans heq)
    rw [hturn.state, if_neg hne]
    obtain ⟨hne', -⟩ | ⟨-, -, hnone⟩ := hturn.choice
    · exact absurd rfl hne'
    · exact hnone i (hturn.count ▸ hi) hne

end

end Turn

/-- A new thread is ready, and nothing else changes. -/
structure Created (s s' : Scheduler) : Prop where
  frame : s' = { s with threads := s'.threads, nextId := s'.nextId }
  count : s.threads.count ≤ s'.threads.count ∧
    s'.threads.count ≤ max s.threads.count kMaxThreads
  old : ∀ i < s.threads.count, s'.thread i = s.thread i
  new : ∀ i < s'.threads.count, s.threads.count ≤ i → (s'.thread i).state = .ready

/-- A thread that is created is ready and gets the next slot. -/
lemma createKernelThread_cases (s : Scheduler) (entry : Word64) (stackMapped : Bool) :
    s.createKernelThread entry stackMapped = (none, s) ∨ s.threads.count < kMaxThreads ∧
      ∃ new : Thread, new.state = .ready ∧
        s.createKernelThread entry stackMapped = (some s.threads.count, s.addThread new) := by
  rw [createKernelThread]
  split
  · exact .inl rfl
  · next hroom =>
    split
    · exact .inl rfl
    · exact .inr ⟨not_le.1 (not_or.1 hroom).1, _, rfl, rfl⟩

lemma thread_addThread (new : Thread) :
    (s.addThread new).thread i = if i = s.threads.count then new else s.thread i :=
  Function.update_apply _ _ _ _

lemma created_createKernelThread (s : Scheduler) (entry : Word64) (stackMapped : Bool) :
    Created s (s.createKernelThread entry stackMapped).2 := by
  obtain hfail | ⟨hroom, new, hready, hnew⟩ := s.createKernelThread_cases entry stackMapped
  · rw [hfail]
    exact ⟨rfl, ⟨le_rfl, le_max_left _ _⟩, fun _ _ => rfl, fun i hi hge => absurd hi (not_lt.2 hge)⟩
  rw [hnew]
  refine ⟨rfl, ⟨Nat.le_succ _, le_max_of_le_right hroom⟩, fun i hi => ?_, fun i hi hge => ?_⟩
  · rw [thread_addThread, if_neg hi.ne]
  · have hi : i < s.threads.count + 1 := hi
    rw [thread_addThread, if_pos (by omega), hready]

lemma Inv.create (h : Inv d s) (hperm : s.current ≠ s.idle) (hcreated : Created s s') :
    Inv d s' := by
  obtain ⟨c, hc, hcur, hrunning⟩ := h.running
  have hcurrent' : s'.current = s.current := by rw [hcreated.frame]
  have hidle' : s'.idle = s.idle := by rw [hcreated.frame]
  have hindex' : s'.currentIndex = s.currentIndex := by rw [hcreated.frame]
  have hle := hcreated.count.1
  have hne : s'.current ≠ some d := by
    rwa [hcurrent', ← h.idle]
  refine ⟨hidle'.trans h.idle, h.idle_lt.trans_le hle, ?_, ?_,
    ⟨c, hc.trans_le hle, hcurrent'.trans hcur, fun i hi => ?_⟩, fun _ => ?_,
    fun heq => absurd heq hne⟩
  · exact hcreated.count.2.trans (max_le h.capacity le_rfl)
  · rw [hindex']
    exact h.index.trans_le hle
  · obtain hold | hnew := lt_or_ge i s.threads.count
    · rw [hcreated.old i hold]
      exact hrunning i hold
    · rw [hcreated.new i hi hnew]
      exact iff_of_false (by decide) (by omega)
  · rw [hcreated.old d h.idle_lt]
    exact h.idleReady (hcurrent' ▸ hne)

section

variable (h : Inv d s) (hperm : s.Permitted o)
include h hperm

/-- What a permitted step does. -/
lemma Inv.cases :
    o.picks = false ∧ s.current ≠ s.idle ∧ Created s (s.perform o) ∨
      o.picks ∧ ∃ c n t, Turn d o s (s.perform o) c n t := by
  cases hpicks : o.picks with
  | true => exact .inr ⟨rfl, h.turn hperm hpicks⟩
  | false =>
    cases o with
    | create => exact .inl ⟨rfl, hperm, created_createKernelThread s _ _⟩
    | _ => cases hpicks

lemma Inv.perform : Inv d (s.perform o) := by
  obtain ⟨-, hother, hcreated⟩ | ⟨-, c, n, t, hturn⟩ := h.cases hperm
  · exact h.create hother hcreated
  · exact hturn.inv h hperm

lemma Inv.count_le : s.threads.count ≤ (s.perform o).threads.count := by
  obtain ⟨-, -, hcreated⟩ | ⟨-, c, n, t, hturn⟩ := h.cases hperm
  · exact hcreated.count.1
  · exact hturn.count.ge

/-- A thread that is neither running nor ready stays as it is, unless it is woken. -/
lemma Inv.keeps (hi : i < s.threads.count)
    (hrunning : (s.thread i).state ≠ .running) (hready : (s.thread i).state ≠ .ready)
    (hasleep : (s.thread i).state = .sleeping → ¬ Woken o (s.thread i)) :
    ((s.perform o).thread i).state = (s.thread i).state ∧
      ((s.perform o).thread i).wakeTick = (s.thread i).wakeTick := by
  obtain ⟨-, -, hcreated⟩ | ⟨-, c, n, t, hturn⟩ := h.cases hperm
  · rw [hcreated.old i hi]
    exact ⟨rfl, rfl⟩
  have hic : i ≠ c := fun heq => hrunning ((hturn.running_iff h hi).2 heq)
  obtain ⟨hsame, htick⟩ | ⟨hsleeping, -, hwoken⟩ := hturn.prepared.other i hic
  · rw [hturn.wakeTick, htick, ← hsame]
    exact ⟨hturn.state_of_ne h hperm (hsame ▸ hready), rfl⟩
  · exact absurd hwoken (hasleep hsleeping)

/-- A thread that is ready stays ready, with fewer slots before it after every choice, or is chosen.
-/
lemma Inv.waits (hi : i < s.threads.count) (hid : i ≠ d)
    (hready : (s.thread i).state = .ready) :
    (o.picks ∧ (s.perform o).current = some i) ∨ ((s.perform o).thread i).state = .ready ∧
      wait kMaxThreads (s.perform o).currentIndex i + (if o.picks then 1 else 0) ≤
        wait kMaxThreads s.currentIndex i := by
  obtain ⟨hpicks, -, hcreated⟩ | ⟨hpicks, c, n, t, hturn⟩ := h.cases hperm
  · have hindex : (s.perform o).currentIndex = s.currentIndex := by rw [hcreated.frame]
    rw [hcreated.old i hi, hindex, hpicks]
    exact .inr ⟨hready, le_rfl⟩
  have hic : i ≠ c := by
    intro heq
    rw [(hturn.running_iff h hi).2 heq] at hready
    cases hready
  have hready' : (t.thread i).state = .ready := by
    obtain ⟨hsame, -⟩ | ⟨-, hwoken, -⟩ := hturn.prepared.other i hic
    · rw [hsame, hready]
    · exact hwoken
  by_cases hin : i = n
  · exact .inl ⟨hpicks, hin ▸ hturn.next⟩
  refine .inr ⟨?_, ?_⟩
  · rw [hturn.state, if_neg hin, hready']
  rw [if_pos hpicks]
  obtain ⟨-, hindex, -, hfirst⟩ | ⟨-, -, hnone⟩ := hturn.choice
  · rw [hindex]
    have hcap := h.capacity
    exact wait_lt (h.index.trans_le hcap) (hi.trans_le hcap)
      (hturn.lt.trans_le hcap) (Ne.symm hin) (hfirst i hi hid hready')
  · exact absurd hready' (hnone i hi hid)

end

/-! ## Runs -/

lemma inv_initializeScheduler (m : Scheduler) {idleEntry : Word64} {stackMapped : Bool}
    (hidle : (m.initializeScheduler idleEntry stackMapped).idle.isSome) :
    Inv 1 (m.initializeScheduler idleEntry stackMapped) := by
  obtain hfail | ⟨-, new, hready, hnew⟩ :=
    m.bootstrap.createKernelThread_cases idleEntry stackMapped
  · rw [initializeScheduler, hfail] at hidle
    cases hidle
  have hinit : m.initializeScheduler idleEntry stackMapped =
      { m.bootstrap.addThread new with idle := some 1 } := by
    rw [initializeScheduler, hnew]
    rfl
  have hthread (i : ℕ) : (m.initializeScheduler idleEntry stackMapped).thread i =
      if i = 1 then new else if i = 0 then { id := 1, state := .running } else m.thread i := by
    rw [hinit]
    exact (thread_addThread new).trans (if_congr Iff.rfl rfl (Function.update_apply _ _ _ _))
  have hcount : (m.initializeScheduler idleEntry stackMapped).threads.count = 2 := by
    rw [hinit]
    rfl
  have hcur : (m.initializeScheduler idleEntry stackMapped).current = some 0 := by
    rw [hinit]
    rfl
  refine ⟨by rw [hinit], by omega, by rw [hcount]; decide, ?_, ⟨0, by omega, hcur, fun i hi => ?_⟩,
    fun _ => ?_, fun heq => ?_⟩
  · rw [hcount, hinit]
    exact Nat.zero_lt_two
  · rw [hthread]
    obtain rfl | rfl : i = 0 ∨ i = 1 := by omega
    · simp
    · simp [hready]
  · rw [hthread, if_pos rfl, hready]
  · rw [hcur] at heq
    cases heq

section

variable (h : Inv d s) (hops : Run.Allowed Scheduler.perform Permitted s ops)
include h hops

lemma Inv.run :
    Inv d (ops.foldl Scheduler.perform s) :=
  hops.foldl (fun _ _ h hperm => h.perform hperm) h

lemma Inv.dead_run
    (hi : i < s.threads.count) (hdead : (s.thread i).state = .dead) :
    ((ops.foldl Scheduler.perform s).thread i).state = .dead := by
  induction ops generalizing s with
  | nil => exact hdead
  | cons o ops ih =>
    have hkeeps := h.keeps hops.1 hi (by simp [hdead]) (by simp [hdead]) (by simp [hdead])
    exact ih (h.perform hops.1) hops.2 (hi.trans_le (h.count_le hops.1)) (hkeeps.1.trans hdead)

/-- A thread sleeps at least until an interrupt finds its wake tick in the past. -/
lemma Inv.sleeping_run
    (hi : i < s.threads.count) (hasleep : (s.thread i).state = .sleeping)
    (hearly : ∀ rsp ticks, .interrupt rsp ticks ∈ ops → ticks < (s.thread i).wakeTick) :
    ((ops.foldl Scheduler.perform s).thread i).state = .sleeping := by
  induction ops generalizing s with
  | nil => exact hasleep
  | cons o ops ih =>
    have hnot : ¬ Woken o (s.thread i) := by
      rintro ⟨rsp, ticks, rfl, hle⟩
      have := hearly rsp ticks mem_cons_self
      omega
    obtain ⟨hstate, htick⟩ :=
      h.keeps hops.1 hi (by simp [hasleep]) (by simp [hasleep]) fun _ => hnot
    refine ih (h.perform hops.1) hops.2 (hi.trans_le (h.count_le hops.1)) (hstate.trans hasleep)
      fun rsp ticks hmem => ?_
    rw [htick]
    exact hearly rsp ticks (mem_cons_of_mem _ hmem)

/-- A run with more choices than there are slots before a ready thread chooses it. -/
lemma Inv.picked_run
    (hi : i < s.threads.count) (hid : i ≠ d) (hready : (s.thread i).state = .ready)
    (hpicks : wait kMaxThreads s.currentIndex i < ops.countP Step.picks) :
    ∃ before o after, ops = before ++ o :: after ∧ o.picks ∧
      before.countP Step.picks ≤ wait kMaxThreads s.currentIndex i ∧
      ((before ++ [o]).foldl Scheduler.perform s).current = some i := by
  induction ops generalizing s with
  | nil => cases hpicks
  | cons o ops ih =>
    obtain ⟨ho, hcur⟩ | ⟨hready', hless⟩ := h.waits hops.1 hi hid hready
    · exact ⟨[], o, ops, rfl, ho, Nat.zero_le _, hcur⟩
    rw [countP_cons] at hpicks
    obtain ⟨before, o', after, rfl, ho', hcount, hcur⟩ := ih (h.perform hops.1) hops.2
      (hi.trans_le (h.count_le hops.1)) hready' (by omega)
    refine ⟨o :: before, o', after, rfl, ho', ?_, hcur⟩
    rw [countP_cons]
    omega

end

/-- In every run of permitted steps from the start with an idle thread, exactly one thread is
running, and it is the current one.  A dead thread stays dead, a sleeping thread sleeps until its
wake tick, the idle thread runs only while no other is ready, and a ready thread is picked among the
next 32 picks. -/
theorem kernel_scheduler_correct (m : Scheduler) (idleEntry : Word64) (stackMapped : Bool)
    (hidle : (m.initializeScheduler idleEntry stackMapped).idle.isSome) (ops more : List Step)
    (hops : Run.Allowed Scheduler.perform Permitted
      (m.initializeScheduler idleEntry stackMapped) ops)
    (hmore : Run.Allowed Scheduler.perform Permitted
      (ops.foldl Scheduler.perform (m.initializeScheduler idleEntry stackMapped)) more) :
    let s := ops.foldl Scheduler.perform (m.initializeScheduler idleEntry stackMapped)
    let s' := more.foldl Scheduler.perform s
    (∃ c < s.threads.count, s.current = some c ∧
      ∀ i < s.threads.count, (s.thread i).state = .running ↔ i = c) ∧
    (∀ i < s.threads.count, (s.thread i).state = .dead →
      (s'.thread i).state = .dead ∧ s'.current ≠ some i) ∧
    (∀ i < s.threads.count, (s.thread i).state = .sleeping →
      (∀ rsp ticks, .interrupt rsp ticks ∈ more → ticks < (s.thread i).wakeTick) →
      (s'.thread i).state = .sleeping) ∧
    (s.current = s.idle → ∀ i < s.threads.count, some i ≠ s.idle → (s.thread i).state ≠ .ready) ∧
    ∀ i < s.threads.count, some i ≠ s.idle → (s.thread i).state = .ready →
      32 ≤ more.countP Step.picks →
      ∃ before o after, more = before ++ o :: after ∧ o.picks ∧
        (before ++ [o]).countP Step.picks ≤ 32 ∧
        ((before ++ [o]).foldl Scheduler.perform s).current = some i := by
  intro s s'
  have h : Inv 1 s := (inv_initializeScheduler m hidle).run hops
  refine ⟨h.running, fun i hi hdead => ?_, fun i hi hasleep hearly => ?_, fun heq i hi hne => ?_,
    fun i hi hne hready hmany => ?_⟩
  · have hdead' := h.dead_run hmore hi hdead
    refine ⟨hdead', fun hcurrent => ?_⟩
    obtain ⟨c, hc, hcurrent', hrunning⟩ := (h.run hmore).running
    obtain rfl : c = i := some.inj (hcurrent'.symm.trans hcurrent)
    rw [(hrunning c hc).2 rfl] at hdead'
    cases hdead'
  · exact h.sleeping_run hmore hi hasleep hearly
  · rw [h.idle] at heq hne
    exact h.idleAlone heq i hi fun heq' => hne (congrArg some heq')
  · have hid : i ≠ 1 := fun heq => hne (by rw [h.idle, heq])
    have hwait : wait kMaxThreads s.currentIndex i < kMaxThreads :=
      wait_lt_size (h.index.trans_le h.capacity) (hi.trans_le h.capacity)
    obtain ⟨before, o, after, hsplit, ho, hcount, hcurrent⟩ :=
      h.picked_run hmore hi hid hready (hwait.trans_le hmany)
    refine ⟨before, o, after, hsplit, ho, ?_, hcurrent⟩
    rw [countP_append, countP_singleton, if_pos ho]
    exact hcount.trans_lt hwait

/-- Two threads are created, the bootstrap thread sleeps until tick 5, and the first of the two
gives way to the second. -/
def twoWorkers : List Step := [.create 1 true, .create 1 true, .sleep 5 0, .yield 0]

/-- The bootstrap thread sleeps through 32 interrupts at tick 3, and the thread that gave way runs
again. -/
theorem kernel_scheduler_two_workers :
    let s := twoWorkers.foldl Scheduler.perform (initializeScheduler default 1 true)
    let more := replicate 32 (Step.interrupt 0 3)
    (s.thread 0).state = .sleeping ∧ (s.thread 2).state = .ready ∧
    ((more.foldl Scheduler.perform s).thread 0).state = .sleeping ∧
      ∃ before o after, more = before ++ o :: after ∧ o.picks ∧
        (before ++ [o]).countP Step.picks ≤ 32 ∧
        ((before ++ [o]).foldl Scheduler.perform s).current = some 2 := by
  intro s more
  have hasleep : (s.thread 0).state = .sleeping := by decide +kernel
  have hready : (s.thread 2).state = .ready := by decide +kernel
  obtain ⟨-, -, hsleeping, -, hpicked⟩ := kernel_scheduler_correct default 1 true (by decide)
    twoWorkers more (by decide +kernel) (by decide +kernel)
  refine ⟨hasleep, hready, hsleeping 0 (by decide +kernel) hasleep fun rsp ticks hmem => ?_,
    hpicked 2 (by decide +kernel) (by decide +kernel) hready (by decide)⟩
  have htick : (s.thread 0).wakeTick = 5 := by decide +kernel
  obtain ⟨-, rfl⟩ := Step.interrupt.inj (eq_of_mem_replicate hmem)
  rw [htick]
  decide

end Scheduler
end IanOS.Sched
