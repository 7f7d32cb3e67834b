import IanOS.Smp.WorkOrder
import IanOS.Mm.Vmm
import IanOS.Mm.AddressSpaceRun

/-!
# Invalidating a page on every processor

`VirtualMemoryManager::unmap_page` clears an entry, invalidates the page on the processor it runs on
and, unless the local timer is active, calls `shootdown_remote_tlbs`, which puts a command into the
work queue of one processor after the other and waits for each.  What these calls return is not
looked at.

The state is that of the code on the one processor together with the work queues of all the others,
which run at the same time.  The invalidations since the entry was cleared are recorded.
-/

namespace IanOS.Smp

open List List.Subset

open Paging (MappingResult)
open Function (update_of_ne update_self)

def kMaxCpus : ℕ := 32

/-- `CpuState`, as far as `shootdown_remote_tlbs` looks at it. -/
structure CpuState where
  cpuId : ℕ
  online : Bool
  bootstrap : Bool
  deriving DecidableEq, Repr

/-- The table of processors.  `initialize_from_acpi` numbers them in order, and leaves out those the
table has no room for. -/
structure CpuTopology where
  cpus : List CpuState
  count_le : cpus.length ≤ kMaxCpus
  numbered : ∀ (i : ℕ) (cpu : CpuState), cpus[i]? = some cpu → cpu.cpuId = i

/-- The loop looks at processor `i`, or waits for it in `enqueue_ap_work`, or `unmap_page` has
returned. -/
inductive Phase
  | next (i : ℕ)
  | waiting (i : ℕ)
  | returned
  deriving DecidableEq, Repr

structure Shootdown where
  queues : ℕ → State
  phase : Phase
  invalidated : List (ℕ × Word64)

inductive Event
  /-- The next step of the code.  `sent` is what `send_fixed_ipi` returns, if it is called. -/
  | code (sent : Bool)
  | interrupt (cpu : ℕ)
  | target (cpu : ℕ)
  deriving DecidableEq, Repr

/-- The processors `shootdown_remote_tlbs` does not skip. -/
def CpuState.Remote (cpu : CpuState) : Prop := cpu.online = true ∧ cpu.bootstrap = false
  deriving Decidable

/-- The commands a step of the handler executes. -/
def Handler.executes : Handler → List Work
  | .execute _ work => [work]
  | _ => []

/-- The command makes the processor that executes it invalidate a page. -/
def Work.Invalidates (w : Work) : Prop := w.command = kApWorkInvalidatePage ∧ w.argument ≠ 0
  deriving Decidable

namespace Shootdown

variable (topology : CpuTopology) (virt : Word64) (s : Shootdown)

/-- The loop of `shootdown_remote_tlbs`.  The checks of `queue_tlb_shootdown` and the first one of
`enqueue_ap_work` are about the same entry of the table again. -/
def code (sent : Bool) : Shootdown :=
  match s.phase with
  | .next i =>
    match topology.cpus[i]? with
    | none => { s with phase := .returned }
    | some cpu =>
      if cpu.Remote then
        { s with
          queues := Function.update s.queues i
            ((s.queues i).enqueue ⟨kApWorkInvalidatePage, virt⟩)
          phase := .waiting i }
      else { s with phase := .next (i + 1) }
  | .waiting i =>
    let q := (s.queues i).producer sent
    { s with
      queues := Function.update s.queues i q
      phase := if q.call = none then .next (i + 1) else .waiting i }
  | .returned => s

def interrupt (cpu : ℕ) : Shootdown :=
  { s with queues := Function.update s.queues cpu (s.queues cpu).interrupt }

def target (cpu : ℕ) : Shootdown :=
  { s with
    queues := Function.update s.queues cpu (s.queues cpu).target
    invalidated := s.invalidated ++
      (((s.queues cpu).handler.executes.filter fun w => w.Invalidates).map
        fun w => (cpu, w.argument)) }

def step : Shootdown → Event → Shootdown
  | s, .code sent => s.code topology virt sent
  | s, .interrupt cpu => s.interrupt cpu
  | s, .target cpu => s.target cpu

end Shootdown

/-- `unmap_page` on processor `self`, up to the loop of `shootdown_remote_tlbs`. -/
def unmapPage (memory : Paging.State) (root virt : Word64) (self : ℕ) (lapicTimerActive : Bool)
    (queues : ℕ → State) : MappingResult × Paging.State × Shootdown :=
  let r := Vmm.unmapPage memory root virt
  if r.1.ok then
    (r.1, r.2, ⟨queues, if lapicTimerActive ∨ virt = 0 then .returned else .next 0, [(self, virt)]⟩)
  else (r.1, r.2, ⟨queues, .returned, []⟩)

/-! ## Progress of the loop -/

/-- The command of the call has been accepted. -/
def Call.Accepted (c : Call) : Prop :=
  match c.stage with
  | .sendIpi | .poll _ => True
  | _ => False

/-- The call looks for the last time. -/
def Stage.Last : Stage → Prop
  | .poll i => kApWorkPolls ≤ i + 1
  | _ => False

instance : ∀ stage : Stage, Decidable stage.Last
  | .poll _ => inferInstanceAs (Decidable (_ ≤ _))
  | .readTail | .writeCommand | .writeArgument | .writeTail | .sendIpi => .isFalse id

/-- The interrupt is sent, and the target answers in time. -/
def Call.Attended (done : BitVec 32) (sent : Bool) (c : Call) : Prop :=
  (c.stage = .sendIpi → sent = true) ∧ (c.stage.Last → done ≠ c.before)
  deriving Decidable

lemma executed_target (s : State) : s.target.executed = s.executed ++ s.handler.executes := by
  rw [State.target]
  cases s.handler with
  | execute k work => rfl
  | _ => exact (append_nil _).symm

/-- A step of a call that is attended to: the call goes on, or its command has been executed. -/
lemma Solitary.producer_attended {s : State} {n : ℕ} {c : Call} {sent : Bool} (h : Solitary s n)
    (hcall : s.call = some c) (hattended : c.Attended s.queue.done sent) :
    (∃ c', (s.producer sent).call = some c' ∧ c'.work = c.work ∧
      (c'.Accepted → c.Accepted ∧ (s.producer sent).accepted = s.accepted ∨
        s.accepted.length < (s.producer sent).accepted.length)) ∨
    ((s.producer sent).call = none ∧ (s.producer sent).accepted = s.accepted ∧ c.Accepted ∧
      s.executed[s.accepted.length - 1]? = some c.work) := by
  have halone := h.alone c hcall
  rw [Call.Alone] at halone
  rw [State.producer]
  simp only [hcall]
  cases hstage : c.stage with
  | readTail =>
    simp only [hstage] at halone ⊢
    -- the queue is empty
    have hempty : ¬kApWorkQueueSize ≤ (s.queue.tail - c.before).toNat := by
      rw [h.inv.tail, halone.2, halone.1, toNat_ofNat_sub le_rfl (Nat.le_add_right _ _),
        Nat.sub_self]
      decide
    rw [if_neg hempty]
    exact .inl ⟨_, rfl, rfl, fun hno => hno.elim⟩
  | writeCommand | writeArgument => exact .inl ⟨_, rfl, rfl, fun hno => hno.elim⟩
  | writeTail => exact .inl ⟨_, rfl, rfl, fun _ => .inr (by simp)⟩
  | sendIpi =>
    rw [if_pos (hattended.1 hstage)]
    exact .inl ⟨_, rfl, rfl, fun _ => .inl ⟨by rw [Call.Accepted, hstage]; trivial, rfl⟩⟩
  | poll i =>
    have haccept : c.Accepted := by rw [Call.Accepted, hstage]; trivial
    dsimp only
    by_cases hdone : s.queue.done = c.before
    · rw [if_neg (not_not.2 hdone)]
      split_ifs with hmore
      · exact .inl ⟨_, rfl, rfl, fun _ => .inl ⟨haccept, rfl⟩⟩
      have hlast : c.stage.Last := by
        rw [hstage]
        exact Nat.not_lt.1 hmore
      exact absurd hdone (hattended.2 hlast)
    · rw [if_pos hdone]
      exact .inr ⟨rfl, rfl, haccept, h.answered hcall hstage hdone⟩

variable {topology : CpuTopology} {virt : Word64} {base : ℕ → ℕ} {s : Shootdown}

/-- The queues, with the commands each has executed since it had executed `base` of them. -/
structure Recorded (base : ℕ → ℕ) (s : Shootdown) : Prop where
  solitary : ∀ j, ∃ n, Solitary (s.queues j) n
  base_le : ∀ j, base j ≤ (s.queues j).executed.length
  logged : ∀ j k w, base j ≤ k → (s.queues j).executed[k]? = some w → w.Invalidates →
    (j, w.argument) ∈ s.invalidated

/-- The processors before number `i` have invalidated the page. -/
def Reached (topology : CpuTopology) (virt : Word64) (i : ℕ) (s : Shootdown) : Prop :=
  ∀ j < i, ∀ cpu, topology.cpus[j]? = some cpu → cpu.Remote → (j, virt) ∈ s.invalidated

/-- What the loop has achieved. -/
def Achieved (topology : CpuTopology) (virt : Word64) (base : ℕ → ℕ) (s : Shootdown) : Prop :=
  match s.phase with
  | .next i => Reached topology virt i s ∧ ∀ j, (s.queues j).call = none
  | .waiting i => Reached topology virt i s ∧ (∀ j, j ≠ i → (s.queues j).call = none) ∧
      ∃ c, (s.queues i).call = some c ∧ c.work = ⟨kApWorkInvalidatePage, virt⟩ ∧
        (c.Accepted → base i < (s.queues i).accepted.length)
  | .returned => Reached topology virt topology.cpus.length s

lemma Reached.mono {s' : Shootdown} {i : ℕ} (h : Reached topology virt i s)
    (hsub : s.invalidated ⊆ s'.invalidated) : Reached topology virt i s' :=
  fun j hj cpu hcpu hremote => hsub (h j hj cpu hcpu hremote)

lemma Reached.succ {i : ℕ} (h : Reached topology virt i s)
    (hi : ∀ cpu, topology.cpus[i]? = some cpu → cpu.Remote → (i, virt) ∈ s.invalidated) :
    Reached topology virt (i + 1) s := by
  intro j hj
  rcases Nat.lt_succ_iff_lt_or_eq.1 hj with hj | rfl
  · exact h j hj
  · exact hi

lemma Recorded.update (h : Recorded base s) {j : ℕ} {q : State} {log : List (ℕ × Word64)}
    {phase : Phase}
    (hq : ∃ n, Solitary q n) {ws : List Work} (hexec : q.executed = (s.queues j).executed ++ ws)
    (hsub : s.invalidated ⊆ log) (hws : ∀ w ∈ ws, w.Invalidates → (j, w.argument) ∈ log) :
    Recorded base ⟨Function.update s.queues j q, phase, log⟩ := by
  refine ⟨fun l => ?_, fun l => ?_, fun l k w hk hw hinv => ?_⟩
  · rcases eq_or_ne l j with rfl | hne
    · simpa only [update_self] using hq
    · simpa only [update_of_ne hne] using h.solitary l
  · rcases eq_or_ne l j with rfl | hne
    · simp only [update_self, hexec, length_append]
      exact (h.base_le l).trans (Nat.le_add_right _ _)
    · simpa only [update_of_ne hne] using h.base_le l
  rcases eq_or_ne l j with rfl | hne
  · simp only [update_self, hexec] at hw
    rcases Nat.lt_or_ge k (s.queues l).executed.length with hold | hnew
    · rw [getElem?_append_left hold] at hw
      exact hsub (h.logged l k w hk hw hinv)
    · rw [getElem?_append_right hnew] at hw
      exact hws w (mem_of_getElem? hw) hinv
  · simp only [update_of_ne hne] at hw
    exact hsub (h.logged l k w hk hw hinv)

lemma Recorded.target (h : Recorded base s) (cpu : ℕ) : Recorded base (s.target cpu) := by
  obtain ⟨n, hn⟩ := h.solitary cpu
  refine h.update hn.target (executed_target _) (subset_append_left _ _) fun w hw hinv => ?_
  refine mem_append_right _ (mem_map.2 ⟨w, ?_, rfl⟩)
  exact mem_filter.2 ⟨hw, by simpa using hinv⟩

lemma Recorded.interrupt (h : Recorded base s) (cpu : ℕ) : Recorded base (s.interrupt cpu) := by
  obtain ⟨n, hn⟩ := h.solitary cpu
  have hexec : (s.queues cpu).interrupt.executed = (s.queues cpu).executed ++ [] := by
    rw [append_nil, State.interrupt]
    split <;> rfl
  exact h.update ⟨n, hn.interrupt⟩ hexec (refl _) fun w hw => absurd hw not_mem_nil

/-- The steps of the targets do not disturb the loop. -/
lemma Achieved.frame {s' : Shootdown} (h : Achieved topology virt base s)
    (hphase : s'.phase = s.phase)
    (hsub : s.invalidated ⊆ s'.invalidated) (hcall : ∀ j, (s'.queues j).call = (s.queues j).call)
    (haccept : ∀ j, (s'.queues j).accepted = (s.queues j).accepted) :
    Achieved topology virt base s' := by
  rw [Achieved] at h ⊢
  rw [hphase]
  simp only [hcall, haccept]
  cases hs : s.phase with
  | next i | waiting i =>
    rw [hs] at h
    exact ⟨h.1.mono hsub, h.2⟩
  | returned =>
    rw [hs] at h
    exact h.mono hsub

/-! ## The steps of the loop -/

/-- Every queue is empty when the loop comes to it, and every call is attended to. -/
def Attended (topology : CpuTopology) (s : Shootdown) : Event → Prop
  | .code sent =>
    match s.phase with
    | .next i => ∀ cpu ∈ topology.cpus[i]?, cpu.Remote →
        (s.queues i).queue.done = (s.queues i).queue.tail
    | .waiting i => ∀ c ∈ (s.queues i).call, c.Attended (s.queues i).queue.done sent
    | .returned => True
  | _ => True

variable {sent : Bool} {i : ℕ}

section

variable (h : Recorded base s)
include h

lemma Recorded.phase (phase : Phase) : Recorded base { s with phase := phase } :=
  ⟨h.solitary, h.base_le, h.logged⟩

/-- The loop calls `enqueue_ap_work`. -/
lemma Recorded.enqueue (work : Work) (phase : Phase)
    (hempty : (s.queues i).queue.done = (s.queues i).queue.tail) : Recorded base
      { s with
        queues := Function.update s.queues i ((s.queues i).enqueue work), phase := phase } := by
  obtain ⟨n, hn⟩ := h.solitary i
  have hexec : ((s.queues i).enqueue work).executed = (s.queues i).executed ++ [] := by
    rw [append_nil, State.enqueue]
    split <;> rfl
  exact h.update ⟨n, hn.enqueue work fun _ => hempty⟩ hexec (refl _) fun w hw =>
    absurd hw not_mem_nil

lemma Recorded.producer (phase : Phase) : Recorded base
    { s with
      queues := Function.update s.queues i ((s.queues i).producer sent), phase := phase } := by
  obtain ⟨n, hn⟩ := h.solitary i
  have hexec : ((s.queues i).producer sent).executed = (s.queues i).executed ++ [] := by
    rw [append_nil]
    exact (hn.returns_producer sent).1
  exact h.update ⟨n, hn.producer sent⟩ hexec (refl _) fun w hw => absurd hw not_mem_nil

/-- The loop comes to a processor. -/
lemma achieved_next (hphase : s.phase = .next i)
    (hachieved : Achieved topology virt base s) (hok : Attended topology s (.code sent)) :
    Recorded base (s.code topology virt sent) ∧
    Achieved topology virt base (s.code topology virt sent) := by
  rw [Achieved, hphase] at hachieved
  obtain ⟨hreached, hidle⟩ := hachieved
  rw [Attended, hphase] at hok
  rw [Shootdown.code, hphase]
  dsimp only
  cases hcpu : topology.cpus[i]? with
  | none =>
    refine ⟨h.phase _, fun j hj => hreached j (hj.trans_le ?_)⟩
    exact getElem?_eq_none_iff.1 hcpu
  | some cpu =>
    dsimp only
    split_ifs with hremote
    · refine ⟨h.enqueue _ _ (hok cpu hcpu hremote), hreached, fun j hj => ?_, ?_⟩
      · simp only [update_of_ne hj, hidle]
      · simp only [update_self, State.enqueue, hidle]
        exact ⟨_, rfl, rfl, fun hno => hno.elim⟩
    · refine ⟨h.phase _, hreached.succ fun cpu' hcpu' hremote' => ?_, hidle⟩
      obtain rfl : cpu = cpu' := Option.some.inj (hcpu.symm.trans hcpu')
      exact absurd hremote' hremote

/-- The loop waits for a processor. -/
lemma achieved_waiting (hphase : s.phase = .waiting i) (hvirt : virt ≠ 0)
    (hachieved : Achieved topology virt base s) (hok : Attended topology s (.code sent)) :
    Recorded base (s.code topology virt sent) ∧
    Achieved topology virt base (s.code topology virt sent) := by
  rw [Achieved, hphase] at hachieved
  obtain ⟨hreached, hidle, c, hcall, hwork, hbase⟩ := hachieved
  rw [Attended, hphase] at hok
  obtain ⟨n, hn⟩ := h.solitary i
  have hlen : base i ≤ (s.queues i).accepted.length := (h.base_le i).trans hn.inv.inOrder.length_le
  rw [Shootdown.code, hphase]
  dsimp only
  refine ⟨h.producer _, ?_⟩
  have hself : Function.update s.queues i ((s.queues i).producer sent) i =
      (s.queues i).producer sent := update_self _ _ _
  have hothers (j : ℕ) (hj : j ≠ i) :
      (Function.update s.queues i ((s.queues i).producer sent) j).call = none := by
    rw [update_of_ne hj]
    exact hidle j hj
  obtain ⟨c', hcall', hwork', haccept⟩ | ⟨hcall', -, haccept, hexec⟩ :=
    hn.producer_attended hcall (hok c hcall)
  · rw [Achieved, hcall']
    refine ⟨hreached, hothers, c', (congrArg State.call hself).trans hcall', hwork'.trans hwork,
      fun hc' => ?_⟩
    · refine lt_of_lt_of_eq ?_ (congrArg (fun q => q.accepted.length) hself).symm
      obtain ⟨hc, hsame⟩ | hmore := haccept hc'
      · rw [hsame]
        exact hbase hc
      · exact hlen.trans_lt hmore
  · rw [Achieved, if_pos hcall']
    refine ⟨hreached.succ fun _ _ _ => ?_, fun j => ?_⟩
    · have hlogged := h.logged i _ c.work (Nat.le_sub_one_of_lt (hbase haccept)) hexec
      rw [hwork] at hlogged
      exact hlogged ⟨rfl, hvirt⟩
    · rcases eq_or_ne j i with rfl | hj
      · exact (congrArg State.call hself).trans hcall'
      · exact hothers j hj

end

lemma achieved_step {e : Event} (hvirt : virt ≠ 0)
    (h : Recorded base s ∧ Achieved topology virt base s) (hok : Attended topology s e) :
    Recorded base (s.step topology virt e) ∧
    Achieved topology virt base (s.step topology virt e) := by
  have hcalls {cpu : ℕ} {q : State} (hcall : q.call = (s.queues cpu).call)
      (haccept : q.accepted = (s.queues cpu).accepted) (j : ℕ) :
      (Function.update s.queues cpu q j).call = (s.queues j).call ∧
        (Function.update s.queues cpu q j).accepted = (s.queues j).accepted := by
    rcases eq_or_ne j cpu with rfl | hne
    · rw [update_self]
      exact ⟨hcall, haccept⟩
    · rw [update_of_ne hne]
      exact ⟨rfl, rfl⟩
  cases e with
  | code sent =>
    cases hphase : s.phase with
    | next => exact achieved_next h.1 hphase h.2 hok
    | waiting => exact achieved_waiting h.1 hphase hvirt h.2 hok
    | returned =>
      rwa [Shootdown.step, Shootdown.code, hphase]
  | interrupt cpu =>
    have hsame : (s.queues cpu).interrupt.call = (s.queues cpu).call ∧
        (s.queues cpu).interrupt.accepted = (s.queues cpu).accepted := by
      rw [State.interrupt]
      split <;> exact ⟨rfl, rfl⟩
    exact ⟨h.1.interrupt cpu, h.2.frame rfl (refl _)
      (fun j => (hcalls hsame.1 hsame.2 j).1) fun j => (hcalls hsame.1 hsame.2 j).2⟩
  | target cpu =>
    obtain ⟨hcall, haccept, -, -⟩ := target_history (s.queues cpu)
    exact ⟨h.1.target cpu, h.2.frame rfl (subset_append_left _ _)
      (fun j => (hcalls hcall haccept j).1) fun j => (hcalls hcall haccept j).2⟩

lemma invalidated_step (s : Shootdown) (e : Event) :
    s.invalidated ⊆ (s.step topology virt e).invalidated := by
  cases e with
  | code sent =>
    rw [Shootdown.step, Shootdown.code]
    split
    · split
      · exact refl _
      · split_ifs <;> exact refl _
    · exact refl _
    · exact refl _
  | interrupt => exact refl _
  | target => exact subset_append_left _ _

/-- In every run of the loop: if the local timer is not active, the page is not the first one, the
processor that runs `unmap_page` is the one marked as bootstrap, every queue is empty when the loop
comes to it and every call is attended to, then every online processor has invalidated the page when
`unmap_page` returns. -/
theorem unmap_page_invalidates (topology : CpuTopology) (memory : Paging.State) (root virt : Word64)
    (self : ℕ) (queues : ℕ → State) (events : List Event)
    (hqueues : ∀ j, (queues j).call = none ∧ ∃ actions : List Action,
      queues j = actions.foldl State.step .start)
    (hok : (unmapPage memory root virt self false queues).1.ok = true) (hvirt : virt ≠ 0)
    (hself : ∀ cpu ∈ topology.cpus, cpu.online = true → cpu.bootstrap = true → cpu.cpuId = self)
    (hrun : Run.Allowed (Shootdown.step topology virt) (Attended topology)
      (unmapPage memory root virt self false queues).2.2 events)
    (hreturned : (events.foldl (Shootdown.step topology virt)
      (unmapPage memory root virt self false queues).2.2).phase = .returned) :
    ∀ cpu ∈ topology.cpus, cpu.online = true → (cpu.cpuId, virt) ∈
      (events.foldl (Shootdown.step topology virt)
        (unmapPage memory root virt self false queues).2.2).invalidated := by
  have hstart : (unmapPage memory root virt self false queues).2.2 =
      ⟨queues, .next 0, [(self, virt)]⟩ := by
    rw [unmapPage] at hok ⊢
    split_ifs at hok ⊢ with hunmap
    · next hreturn => exact absurd hreturn (not_or.2 ⟨id, hvirt⟩)
    · rfl
    · exact absurd hok hunmap
  rw [hstart] at hrun hreturned ⊢
  have hrecorded : Recorded (fun j => (queues j).executed.length)
      ⟨queues, .next 0, [(self, virt)]⟩ := by
    refine ⟨fun j => ?_, fun j => le_rfl, fun j k w hk hw _ => ?_⟩
    · obtain ⟨hcall, actions, hactions⟩ := hqueues j
      obtain ⟨n, hinv⟩ := Inv.run actions
      rw [← hactions] at hinv
      exact ⟨n, hinv, fun c hc => absurd (hcall.symm.trans hc) nofun⟩
    · exact absurd (List.getElem?_eq_some_iff.1 hw).1 (Nat.not_lt.2 hk)
  have hachieved : Achieved topology virt (fun j => (queues j).executed.length)
      ⟨queues, .next 0, [(self, virt)]⟩ :=
    ⟨fun j hj => absurd hj (Nat.not_lt_zero j), fun j => (hqueues j).1⟩
  obtain ⟨⟨-, hfinal⟩, hlocal⟩ := hrun.foldl
    (P := fun s => (Recorded (fun j => (queues j).executed.length) s ∧
      Achieved topology virt (fun j => (queues j).executed.length) s) ∧ (self,
        virt) ∈ s.invalidated)
    (fun s e h hstep => ⟨achieved_step hvirt h.1 hstep, invalidated_step s e h.2⟩)
    ⟨⟨hrecorded, hachieved⟩, mem_singleton_self _⟩
  rw [Achieved, hreturned] at hfinal
  intro cpu hcpu honline
  obtain ⟨i, hi, hget⟩ := mem_iff_getElem.1 hcpu
  have hsome : topology.cpus[i]? = some cpu := List.getElem?_eq_some_iff.2 ⟨hi, hget⟩
  cases hbootstrap : cpu.bootstrap with
  | true =>
    rwa [hself cpu hcpu honline hbootstrap]
  | false =>
    rw [topology.numbered i cpu hsome]
    exact hfinal i hi cpu hsome ⟨honline, hbootstrap⟩

/-! ## Two processors -/

/-- One page is mapped, at `0x4000`. -/
def onePage : Paging.State where
  pmm := Paging.State.eightPages.pmm
  words a := if a = 0x1000 then 0x2003 else if a = 0x2000 then 0x3003 else if a = 0x3000 then 0x4003
    else if a = 0x4020 then 0x9003 else 0

def twoCpus : CpuTopology where
  cpus := [⟨0, true, true⟩, ⟨1, true, false⟩]
  count_le := by decide
  numbered := by
    intro i cpu hcpu
    match i, hcpu with
    | 0, hcpu => exact (Option.some.inj hcpu) ▸ rfl
    | 1, hcpu => exact (Option.some.inj hcpu) ▸ rfl

/-- The loop skips the first processor, and calls the second one, which answers. -/
def shootdownEvents : List Event :=
  replicate 7 (.code true) ++ .interrupt 1 :: replicate 10 (.target 1) ++ replicate 2 (.code true)

instance (topology : CpuTopology) (s : Shootdown) : ∀ e : Event, Decidable (Attended topology s e)
  | .code sent =>
    match h : s.phase with
    | .next _ => decidable_of_iff _ (by rw [Attended, h])
    | .waiting _ => decidable_of_iff _ (by rw [Attended, h])
    | .returned => .isTrue (by rw [Attended, h]; trivial)
  | .interrupt _ | .target _ => .isTrue trivial

theorem unmap_page_invalidates_two :
    let s := shootdownEvents.foldl (Shootdown.step twoCpus 0x4000)
      (unmapPage onePage 0x1000 0x4000 0 false fun _ => .start).2.2
    s.phase = .returned ∧ ∀ cpu ∈ twoCpus.cpus, cpu.online = true →
      (cpu.cpuId, 0x4000) ∈ s.invalidated := by
  intro s
  have hreturned : s.phase = .returned := by decide +kernel
  exact ⟨hreturned, unmap_page_invalidates twoCpus onePage 0x1000 0x4000 0 _ shootdownEvents
    (fun _ => ⟨rfl, [], rfl⟩) (by decide +kernel) (by decide) (by decide)
      (by decide +kernel) hreturned⟩

/-- The second processor, which is online, has not invalidated the page when `unmap_page` has
returned: while the local timer is active, in which case it returns at once and reports success, and
with the timer inactive, if the interrupt cannot be sent. -/
theorem unmap_page_unattended :
    let unmap (timer : Bool) := unmapPage onePage 0x1000 0x4000 0 timer fun _ => .start
    let s := (replicate 8 (.code false)).foldl (Shootdown.step twoCpus 0x4000) (unmap false).2.2
    ⟨1, true, false⟩ ∈ twoCpus.cpus ∧
      ((unmap true).1 = ⟨true, "ok"⟩ ∧ (unmap true).2.2.phase = .returned ∧
        (1, 0x4000) ∉ (unmap true).2.2.invalidated) ∧
      (unmap false).1 = ⟨true, "ok"⟩ ∧ s.phase = .returned ∧ (1, 0x4000) ∉ s.invalidated := by
  decide +kernel

end IanOS.Smp
