import IanOS.Lib.RoundRobin
import IanOS.Userspace.HandleReferences
import IanOS.Userspace.Runs

/-!
# Choosing a thread

`select_next_runnable_thread` tries the slots of the thread table in cyclic order, beginning behind
the last choice.  The first runnable thread of a runnable process decides: when its instruction or
stack pointer is not mapped, the function fails at once, without a look at the other threads and
without moving on.  So the choice is complete and fair exactly as long as no such thread is tried
before the threads that can be launched.
-/

namespace IanOS.Machine

open RoundRobin Nat

variable {V : Type} {s s' : Machine V} {i j k : ℕ}

/-! ## Slots that are not in use -/

/-- A slot that is not in use has no identifier. -/
def Cleared (s : Machine V) : Prop :=
  ∀ i < s.threads.count, (s.thread i).state = .empty → (s.thread i).tid = 0

namespace Cleared

variable {f : UserThread → UserThread}

section

variable (h : Cleared s)
include h

lemma of_threads (heq : s'.threads = s.threads) : Cleared s' := by
  intro i hi hempty
  rw [thread, heq] at hempty ⊢
  exact h i (heq ▸ hi) hempty

lemma setProcess (j : ℕ) (f : Process → Process) : Cleared (s.setProcess j f) :=
  h.of_threads rfl

lemma forgetActive (pid main : ℕ) : Cleared (s.forgetActive pid main) :=
  h.of_threads rfl

/-- What has to be shown when no slot comes into use. -/
lemma keep (hcount : s'.threads.count = s.threads.count)
    (hthread : ∀ i, (s'.thread i).state = .empty → (s'.thread i).tid = 0 ∨
      (s.thread i).state = .empty ∧ (s'.thread i).tid = (s.thread i).tid) : Cleared s' := by
  intro i hi hempty
  obtain hzero | ⟨hwas, htid⟩ := hthread i hempty
  · exact hzero
  · rw [htid]
    exact h i (hcount ▸ hi) hwas

lemma setThread (hf : (f (s.thread i)).state = .empty → (f (s.thread i)).tid = 0 ∨
      (s.thread i).state = .empty ∧ (f (s.thread i)).tid = (s.thread i).tid) :
    Cleared (s.setThread i f) := by
  refine h.keep rfl fun k => ?_
  rw [thread_setThread]
  split
  · next hk => exact hk ▸ hf
  · exact fun hempty => .inr ⟨hempty, rfl⟩

lemma onThread {tid : ℕ} (hf : ∀ t, (f t).state = .empty → t.state = .empty ∧ (f t).tid = t.tid) :
    Cleared (s.onThread tid f) := by
  rw [Machine.onThread]
  split
  · exact h
  · exact h.setThread fun hempty => .inr (hf _ hempty)

lemma wakeup (hw : Wakeup s s') : Cleared s' := by
  refine h.keep hw.woken.threadCount fun i hempty => ?_
  obtain hsame | ⟨-, value, error, hdone⟩ := hw.woken.thread i
  · rw [hsame] at hempty ⊢
    exact .inr ⟨hempty, rfl⟩
  · rw [hdone] at hempty
    cases hempty

lemma enterThread (he : (s.createMainThread j).2 = s') : Cleared s' := by
  obtain rfl | ⟨i, t, -, -, hstate, -, hplaced, -⟩ := createMainThread_cases he
  · exact h
  intro k hk hempty
  by_cases hki : k = i
  · have hnew : s'.thread k = t := hki ▸ hplaced.new
    rw [hnew, hstate] at hempty
    cases hempty
  · obtain ⟨hk', hslot⟩ := hplaced.old k hk hki
    have hsame : s'.thread k = s.thread k := hslot
    rw [hsame] at hempty ⊢
    exact h k hk' hempty

lemma parkThread (tid : ℕ) : Cleared (s.parkThread tid) := by
  refine h.onThread fun t => ?_
  split
  · exact fun hempty => nomatch hempty
  · exact fun hempty => ⟨hempty, rfl⟩

lemma effect (he : Effect s s') : Cleared s' := by
  cases he with
  | revise hr =>
    cases hr with
    | idle hidle =>
      rw [hidle]
      exact h.of_threads rfl
    | describe => exact h.setProcess _ _
  | wakeup hw => exact h.wakeup hw
  | openPipe | clearPipe | mapSpace | reapProcess => exact h.of_threads rfl
  | enterProcess henter =>
    obtain ⟨_, -, -, -, -, hs'⟩ := enterProcess_eq_some henter
    exact h.of_threads (by rw [hs'])
  | enterThread => exact h.enterThread rfl
  | start =>
    rw [startThread]
    refine onThread (h.of_threads ?_) fun t => ?_
    · rw [claimActive]
      split <;> rfl
    · split
      · rintro ⟨⟩
      · exact fun hempty => ⟨hempty, rfl⟩
  | stop => exact ((h.setProcess _ _).parkThread _).forgetActive _ _
  | «continue» => exact h.setProcess _ _
  | markExited code reason =>
    rw [markExited_eq]
    have hexit (tid : ℕ) : Cleared (s.onThread tid exitedThread) :=
      h.onThread (by rintro _ ⟨⟩)
    exact (hexit _).of_threads rfl
  | forgetActive => exact h.forgetActive _ _
  | reapThread =>
    rw [Machine.reapThread]
    split
    · exact (h.of_threads rfl).setThread fun _ => .inl rfl
    · exact h

lemma activate (tid next : ℕ) : Cleared (s.activated tid next) := by
  refine h.keep ?_ fun i => ?_
  · rw [activated]
    exact count_demoteActive s tid
  rw [thread_activated]
  split
  · rintro ⟨⟩
  obtain hsame | ⟨-, hparked⟩ := s.thread_demoteActive tid i
  · rw [hsame]
    exact fun hempty => .inr ⟨hempty, rfl⟩
  · rw [hparked]
    rintro ⟨⟩

lemma «switch» (hs : Switch s s') : Cleared s' := by
  cases hs with
  | turn hturn =>
    cases hturn with
    | still => exact h
    | activate => exact h.activate _ _
    | keep hlive hf => exact h.setThread fun hempty => absurd (hf.2.2.symm.trans hempty) hlive
    | park => exact h.setThread (by rintro ⟨⟩)
    | switchSpace => exact h.of_threads rfl
  | block => exact h.setThread (by rintro ⟨⟩)

end

end Cleared

lemma Cleared.course (h : Cleared s) (hc : Course s s') : Cleared s' := by
  induction hc with
  | refl => exact h
  | tail _ hlast ih =>
    obtain heffect | hswitch | rfl := hlast
    · exact ih.effect heffect
    · exact ih.switch hswitch
    · exact fun i hi => absurd hi (not_lt_zero i)

/-- The two invariants the choice of a thread rests on. -/
structure InOrder (s : Machine V) : Prop where
  inv : Inv s
  cleared : Cleared s

lemma InOrder.course (h : InOrder s) (hc : Course s s') : InOrder s' :=
  ⟨h.inv.course hc, h.cleared.course hc⟩

lemma InOrder.initializeManager (s : Machine V) : InOrder s.initializeManager :=
  ⟨.initializeManager s, fun i hi => absurd hi (not_lt_zero i)⟩

lemma InOrder.run [FileSystem V] (h : InOrder s) (ops : List (Σ β, Op V β)) :
    InOrder (ops.foldl Machine.step s) := by
  induction ops generalizing s with
  | nil => exact h
  | cons o ops ih =>
    have hcourse : Course s (s.step o) := course_step h.inv o.2
    exact ih (h.course hcourse)

/-- The slot of a live thread is the only one with its identifier. -/
lemma InOrder.find_tid (h : InOrder s) (hi : i < s.threads.count)
    (hlive : (s.thread i).state ≠ .empty) :
    (s.threads.find fun t => t.tid = (s.thread i).tid) = some i := by
  have hpos := (h.inv.tid_bounds i hi hlive).1
  rw [Table.find_eq_some]
  refine ⟨hi, rfl, fun j hj htid => ?_⟩
  have htid : (s.thread j).tid = (s.thread i).tid := htid
  have hjlive : (s.thread j).state ≠ .empty := by
    intro hempty
    have := h.cleared j (hj.trans hi) hempty
    omega
  have := h.inv.tids j (hj.trans hi) i hi hjlive hlive htid
  omega

/-! ## The choice -/

/-- A runnable thread of a runnable process. -/
def Candidate (s : Machine V) (i : ℕ) : Prop :=
  (s.thread i).state = .runnable ∧ s.processRunnable (s.thread i).pid
  deriving Decidable

/-- The instruction pointer and the stack pointer of the thread are mapped. -/
def PointersMapped (s : Machine V) (i : ℕ) : Prop :=
  s.translate (s.thread i).addressSpaceRoot (s.thread i).entry.toNat ≠ 0 ∧
    s.translate (s.thread i).addressSpaceRoot (s.thread i).userStackPointer.toNat ≠ 0
  deriving Decidable

/-- A thread that can be launched. -/
def Launchable (s : Machine V) (i : ℕ) : Prop :=
  i < s.threads.count ∧ s.Candidate i ∧ s.PointersMapped i
  deriving Decidable

/-- The number of slots that are tried before slot `i`. -/
def turn (s : Machine V) (i : ℕ) : ℕ :=
  wait s.threads.count (s.lastUserPickIndex % s.threads.count) i

/-- A runnable thread of a runnable process that cannot be launched has a thread that can be
launched before it, if there is one at all. -/
def Unobstructed (s : Machine V) : Prop :=
  ∀ i < s.threads.count, s.Candidate i → ¬ s.PointersMapped i →
    (∃ j, s.Launchable j) → ∃ j, s.Launchable j ∧ s.turn j < s.turn i

lemma selectNextRunnableThread_eq (s : Machine V) : s.selectNextRunnableThread =
    match pick s.threads.count s.lastUserPickIndex s.Candidate with
    | none => (none, s)
    | some index =>
      match s.buildLaunchContext (s.thread index).tid with
      | none => (none, s)
      | some context => (some context, { s with lastUserPickIndex := index }) :=
  rfl

lemma pick_candidate (hcount : 0 < s.threads.count) :
    pick s.threads.count s.lastUserPickIndex s.Candidate = some j ↔
      j < s.threads.count ∧ s.Candidate j ∧
        ∀ i < s.threads.count, s.Candidate i → s.turn j ≤ s.turn i := by
  rw [pick, ← order_mod, ← pick, pick_eq_some (mod_lt _ hcount)]
  rfl

lemma Candidate.live (h : s.Candidate i) : (s.thread i).state ≠ .empty := by
  rw [h.1]
  decide

lemma Inv.buildLaunchContext (h : Inv s) (hi : i < s.threads.count) (hcand : s.Candidate i) :
    (s.PointersMapped i ∧ ∃ context, s.buildLaunchContext (s.thread i).tid = some context ∧
      context.tid = (s.thread i).tid) ∨
    (¬ s.PointersMapped i ∧ s.buildLaunchContext (s.thread i).tid = none) := by
  rw [Machine.buildLaunchContext, h.findThread hi hcand.live]
  dsimp only
  rw [if_neg (by simp [hcand.1]), if_neg (not_not.2 hcand.2)]
  split
  · next hentry => exact .inr ⟨fun hmap => hmap.1 hentry, rfl⟩
  · next hentry =>
    split
    · next hstack => exact .inr ⟨fun hmap => hmap.2 hstack, rfl⟩
    · next hstack => exact .inl ⟨⟨hentry, hstack⟩, _, rfl, rfl⟩

/-- What the function does: it chooses the candidate that is tried first, or fails. -/
lemma Inv.select_cases (h : Inv s) :
    (∃ j, j < s.threads.count ∧ s.Candidate j ∧ s.PointersMapped j ∧
      (∀ i < s.threads.count, s.Candidate i → s.turn j ≤ s.turn i) ∧
      ∃ context, context.tid = (s.thread j).tid ∧
        s.selectNextRunnableThread = (some context, { s with lastUserPickIndex := j })) ∨
    s.selectNextRunnableThread = (none, s) ∧ ((∀ i < s.threads.count, ¬ s.Candidate i) ∨
      ∃ j, j < s.threads.count ∧ s.Candidate j ∧ ¬ s.PointersMapped j ∧
        ∀ i < s.threads.count, s.Candidate i → s.turn j ≤ s.turn i) := by
  rw [selectNextRunnableThread_eq]
  cases hpick : pick s.threads.count s.lastUserPickIndex s.Candidate with
  | none => exact .inr ⟨rfl, .inl (pick_eq_none.1 hpick)⟩
  | some j =>
    have hcount : 0 < s.threads.count := by
      by_contra hzero
      have hnone : pick s.threads.count s.lastUserPickIndex s.Candidate = none :=
        pick_eq_none.2 fun i hi => absurd hi (by omega)
      rw [hpick] at hnone
      cases hnone
    obtain ⟨hj, hcand, hfirst⟩ := (pick_candidate hcount).1 hpick
    dsimp only
    obtain ⟨hmap, context, hbuild, htid⟩ | ⟨hmap, hbuild⟩ :=
      h.buildLaunchContext hj hcand
    · rw [hbuild]
      exact .inl ⟨j, hj, hcand, hmap, hfirst, context, htid, rfl⟩
    · rw [hbuild]
      exact .inr ⟨rfl, .inr ⟨j, hj, hcand, hmap, hfirst⟩⟩

/-- The function succeeds exactly when it should, exactly when no thread that cannot be launched is
in the way of those that can. -/
lemma Inv.select_complete_iff (h : Inv s) :
    (s.selectNextRunnableThread.1.isSome ↔ ∃ i, s.Launchable i) ↔ s.Unobstructed := by
  obtain ⟨j, hj, hcand, hmap, hfirst, context, -, hselect⟩ | ⟨hselect, hwhy⟩ :=
    h.select_cases
  · have hlaunch : s.Launchable j := ⟨hj, hcand, hmap⟩
    rw [hselect]
    refine iff_of_true ⟨fun _ => ⟨j, hlaunch⟩, fun _ => rfl⟩ fun i hi hi' hnot _ => ⟨j, hlaunch, ?_⟩
    refine lt_of_le_of_ne (hfirst i hi hi') fun heq => ?_
    -- no two slots have the same distance
    have hsame := wait_inj (mod_lt _ (by omega)) hj hi heq
    exact hnot (hsame ▸ hmap)
  · rw [hselect]
    obtain hnone | ⟨j, hj, hcand, hnot, hfirst⟩ := hwhy
    · have hno : ¬ ∃ i, s.Launchable i := fun ⟨i, hi, hcand, _⟩ => hnone i hi hcand
      refine iff_of_true ⟨fun hsome => (nomatch hsome), fun hex => absurd hex hno⟩ ?_
      exact fun i hi hcand => absurd hcand (hnone i hi)
    constructor
    · rintro hiff i - - - hex
      exact nomatch hiff.2 hex
    intro hclear
    refine ⟨fun hsome => (nomatch hsome), fun hex => ?_⟩
    obtain ⟨k, ⟨hk, hkcandidate, -⟩, hless⟩ := hclear j hj hcand hnot hex
    have := hfirst k hk hkcandidate
    omega

/-! ## Rounds of choosing and activating -/

/-- One choice and the activation of the thread that was chosen: its identifier, and the state. -/
def round (s : Machine V) : Option ℕ × Machine V :=
  let r := s.selectNextRunnableThread
  match r.1 with
  | none => (none, r.2)
  | some context => (some context.tid, (r.2.activateThread context.tid).2)

/-- The state after `k` rounds. -/
def rounds (s : Machine V) (k : ℕ) : Machine V := (fun s => s.round.2)^[k] s

/-- Round `k` chooses the thread in slot `i`. -/
def ChosenAt (s : Machine V) (k i : ℕ) : Prop := (s.rounds k).round.1 = some (s.thread i).tid

lemma rounds_succ (s : Machine V) (k : ℕ) : s.rounds (k + 1) = s.round.2.rounds k := rfl

/-- The thread in slot `j` has been activated; other threads that can be launched are left alone. -/
structure Activated (j : ℕ) (s s' : Machine V) : Prop where
  count : s'.threads.count = s.threads.count
  tid : ∀ i, (s'.thread i).tid = (s.thread i).tid
  last : s'.lastUserPickIndex = j
  launchable : ∀ i, i ≠ j → s.Launchable i → s'.Launchable i

lemma InOrder.activated (h : InOrder s) (hj : j < s.threads.count) (hcand : s.Candidate j) :
    ({ s with lastUserPickIndex := j }.activateThread (s.thread j).tid).1 ∧
      Activated j s ({ s with lastUserPickIndex := j }.activateThread (s.thread j).tid).2 := by
  have hfind := h.inv.findThread hj hcand.live
  set s₁ : Machine V := { s with lastUserPickIndex := j }
  have hact : s₁.activateThread (s.thread j).tid = (true, s₁.activated (s.thread j).tid j) := by
    have hfind₁ : s₁.findThread (s.thread j).tid = some j := hfind
    have hstate : (s₁.thread j).state = .runnable := hcand.1
    have hproc : s₁.processRunnable (s₁.thread j).pid := hcand.2
    rw [activateThread, hfind₁]
    dsimp only
    rw [if_neg (by simp [hstate]), if_neg (not_not.2 hproc)]
    rfl
  rw [hact]
  have hthread (i : ℕ) : ((s₁.activated (s.thread j).tid j).thread i).tid = (s.thread i).tid := by
    rw [thread_activated]
    obtain hkept | ⟨-, hparked⟩ := s₁.thread_demoteActive (s.thread j).tid i
    · split <;> rw [hkept] <;> rfl
    · split <;> rw [hparked] <;> rfl
  have hcount : (s₁.activated (s.thread j).tid j).threads.count = s.threads.count :=
    count_demoteActive s₁ (s.thread j).tid
  refine ⟨rfl, hcount, hthread, ?_, fun i hne hi => ?_⟩
  · have hslot : (s₁.activated (s.thread j).tid j).threads.find
        (fun t => t.tid = (s.thread j).tid) = some j := by
      rw [← h.find_tid hj hcand.live]
      refine Table.find_congr hcount fun i _ => ?_
      have htid : ((s₁.activated (s.thread j).tid j).threads.slot i).tid =
          (s.threads.slot i).tid := hthread i
      rw [htid]
    show ((s₁.activated (s.thread j).tid j).threads.find fun t => t.tid =
      (s.thread j).tid).getD _ = j
    rw [hslot, Option.getD_some]
  obtain ⟨hlt, hcandidate', hmap⟩ := hi
  have hkept : (s₁.activated (s.thread j).tid j).thread i = s.thread i := by
    rw [thread_activated, if_neg hne]
    obtain hkept | ⟨hrun, -⟩ := s₁.thread_demoteActive (s.thread j).tid i
    · exact hkept
    · cases hcandidate'.1.symm.trans hrun
  have hframe := s₁.activated_frame (s.thread j).tid j
  have hprocs : (s₁.activated (s.thread j).tid j).processes = s.processes := by rw [hframe]
  have hspaces : (s₁.activated (s.thread j).tid j).spaces = s.spaces := by rw [hframe]
  refine ⟨hcount ▸ hlt, ⟨?_, ?_⟩, ?_⟩
  · rw [hkept]
    exact hcandidate'.1
  · simpa only [hkept, processRunnable, processHas, findProcess, process, hprocs]
      using hcandidate'.2
  · rw [PointersMapped, hkept]
    simpa only [PointersMapped, translate, hspaces] using hmap

lemma InOrder.round_cases (h : InOrder s) :
    (∃ j, s.Launchable j ∧ (∀ i, s.Launchable i → s.turn j ≤ s.turn i) ∧
      s.round.1 = some (s.thread j).tid ∧ Activated j s s.round.2) ∨
    s.round = (none, s) ∧ ¬ s.selectNextRunnableThread.1.isSome := by
  obtain ⟨j, hj, hcand, hmap, hfirst, context, htid, hselect⟩ | ⟨hselect, -⟩ :=
    h.inv.select_cases
  · have hround : s.round = (some (s.thread j).tid,
        ({ s with lastUserPickIndex := j }.activateThread (s.thread j).tid).2) := by
      rw [round, hselect, ← htid]
    rw [hround]
    exact .inl ⟨j, ⟨hj, hcand, hmap⟩, fun i hi => hfirst i hi.1 hi.2.1, rfl,
      (h.activated hj hcand).2⟩
  · refine .inr ⟨?_, ?_⟩
    · rw [round, hselect]
    · rw [hselect]
      exact Bool.false_ne_true

lemma InOrder.round (h : InOrder s) : InOrder s.round.2 := by
  rw [Machine.round]
  have hselect := h.course ((selectNextRunnableThread_calm s).course h.inv)
  cases s.selectNextRunnableThread.1 with
  | none => exact hselect
  | some context => exact hselect.course ((Calm.activate _ context.tid).course hselect.inv)

lemma chosenAt_succ (htid : (s.round.2.thread i).tid = (s.thread i).tid) :
    s.ChosenAt (k + 1) i ↔ s.round.2.ChosenAt k i := by
  rw [ChosenAt, ChosenAt, rounds_succ, htid]

/-- A round that chooses another thread leaves a launchable one launchable, with fewer slots before
it. -/
lemma InOrder.round_other (h : InOrder s) (hi : s.Launchable i) (hsome : s.round.1.isSome)
    (hother : ¬ s.ChosenAt 0 i) :
    s.round.2.Launchable i ∧ s.round.2.turn i < s.turn i ∧
      (s.round.2.thread i).tid = (s.thread i).tid := by
  obtain ⟨j, hj, hfirst, hround, hactivated⟩ | ⟨hround, -⟩ := h.round_cases
  · have hne : j ≠ i := fun heq => hother (heq ▸ hround)
    refine ⟨hactivated.launchable i hne.symm hi, ?_, hactivated.tid i⟩
    have hturn := wait_lt (mod_lt _ (by have := hi.1; omega)) hi.1 hj.1 hne (hfirst i hi)
    rwa [turn, hactivated.count, hactivated.last, mod_eq_of_lt hj.1]
  · rw [hround] at hsome
    cases hsome

lemma round_isSome (s : Machine V) : s.round.1.isSome = s.selectNextRunnableThread.1.isSome := by
  rw [round]
  cases s.selectNextRunnableThread.1 <;> rfl

/-- Where a thread can be launched, a round fails only because of a thread in the way. -/
lemma InOrder.round_isSome_iff (h : InOrder s) (hi : s.Launchable i) :
    s.round.1.isSome ↔ s.Unobstructed := by
  rw [← h.inv.select_complete_iff, round_isSome, iff_true_right (a := ∃ i, s.Launchable i) ⟨i, hi⟩]

/-- Fairness: as long as no thread is in the way, a launchable thread is chosen once the slots
before it have had their turn. -/
lemma InOrder.chosen_of_unobstructed (h : InOrder s) (hi : s.Launchable i) {w : ℕ}
    (hw : s.turn i ≤ w) (hclear : ∀ k ≤ w, (∀ k' < k, ¬ s.ChosenAt k' i) →
      (s.rounds k).Unobstructed) : ∃ k ≤ w, s.ChosenAt k i := by
  induction w generalizing s with
  | zero =>
    by_contra hnone
    push Not at hnone
    have hother := hnone 0 le_rfl
    have hsome := (h.round_isSome_iff hi).2 (hclear 0 le_rfl fun k' hk' => absurd hk' (by omega))
    have := (h.round_other hi hsome hother).2.1
    omega
  | succ w ih =>
    by_cases hother : s.ChosenAt 0 i
    · exact ⟨0, zero_le _, hother⟩
    have hsome :=
      (h.round_isSome_iff hi).2 (hclear 0 (zero_le _) fun k' hk' => absurd hk' (by omega))
    obtain ⟨hi', hless, htid⟩ := h.round_other hi hsome hother
    obtain ⟨k, hk, hchosen⟩ := ih h.round hi' (by omega) fun k hk hbefore => by
      refine hclear (k + 1) (by omega) fun k' hk' => ?_
      cases k' with
      | zero => exact hother
      | succ k' =>
        rw [chosenAt_succ htid]
        exact hbefore k' (by omega)
    exact ⟨k + 1, by omega, (chosenAt_succ htid).2 hchosen⟩

/-- A failed round changes nothing, so none of the following ones succeeds. -/
lemma not_chosenAt_of_fails (hround : s.round = (none, s)) (k i : ℕ) : ¬ s.ChosenAt k i := by
  have hsame : s.rounds k = s := by
    induction k with
    | zero => rfl
    | succ k ih => rw [rounds_succ, hround, ih]
  rw [ChosenAt, hsame, hround]
  exact fun heq => nomatch heq

lemma InOrder.isSome_of_chosenAt (h : InOrder s) (hchosen : s.ChosenAt k i) : s.round.1.isSome := by
  obtain ⟨j, -, -, hround, -⟩ | ⟨hround, -⟩ := h.round_cases
  · rw [hround, Option.isSome_some]
  · exact absurd hchosen (not_chosenAt_of_fails hround k i)

/-- A thread that is chosen at some time had no thread in its way until then. -/
lemma InOrder.unobstructed_of_chosen (h : InOrder s) (hi : s.Launchable i) {K : ℕ}
    (hchosen : s.ChosenAt K i) (hbefore : ∀ k' < k, ¬ s.ChosenAt k' i) :
    (s.rounds k).Unobstructed := by
  induction k generalizing s K with
  | zero => exact (h.round_isSome_iff hi).1 (h.isSome_of_chosenAt hchosen)
  | succ k ih =>
    have hother : ¬ s.ChosenAt 0 i := hbefore 0 (succ_pos k)
    obtain ⟨hi', -, htid⟩ := h.round_other hi (h.isSome_of_chosenAt hchosen) hother
    cases K with
    | zero => exact absurd hchosen hother
    | succ K =>
      refine ih h.round hi' ((chosenAt_succ htid).1 hchosen) fun k' hk' => ?_
      rw [← chosenAt_succ htid]
      exact hbefore (k' + 1) (by omega)

/-- In every state of a run, the function that chooses a thread succeeds whenever a thread can be
launched exactly as long as no other runnable thread is in the way.  A thread that can be launched
is chosen within as many rounds as there are slots exactly when nothing gets in the way until then.
-/
theorem selection_complete_and_fair_iff [FileSystem V] (m : Machine V)
    (ops : List (Σ β, Op V β)) :
    let s := ops.foldl step m.initializeManager
    ((s.selectNextRunnableThread.1.isSome ↔ ∃ i, s.Launchable i) ↔ s.Unobstructed) ∧
    ∀ i, s.Launchable i →
      ((∃ k < s.threads.count, s.ChosenAt k i) ↔
        ∀ k < s.threads.count, (∀ k' < k, ¬ s.ChosenAt k' i) → (s.rounds k).Unobstructed) := by
  intro s
  have h : InOrder s := (InOrder.initializeManager m).run ops
  refine ⟨h.inv.select_complete_iff, fun i hi => ⟨?_, fun hclear => ?_⟩⟩
  · rintro ⟨K, -, hchosen⟩ k - hbefore
    exact h.unobstructed_of_chosen hi hchosen hbefore
  have hcount : 0 < s.threads.count := (zero_le i).trans_lt hi.1
  have hturn : s.turn i < s.threads.count := wait_lt_size (mod_lt _ hcount) hi.1
  obtain ⟨k, hk, hchosen⟩ := h.chosen_of_unobstructed hi (le_sub_one_of_lt hturn)
    fun k hk => hclear k (by omega)
  exact ⟨k, by omega, hchosen⟩

/-- Translation through the address space of a process with two segments, one page each at
`0x40000000` and `0x40010000`: the kernel's identity window up to 256 MiB, the two pages and the
four of the stack, with frames of the process from `frame` on, and nothing else. -/
def loadedMapping (frame va : ℕ) : ℕ :=
  if va < 0x10000000 then va
  else if va / 0x1000 = 0x40000 then frame + va % 0x1000
  else if va / 0x1000 = 0x40010 then frame + 0x1000 + va % 0x1000
  else if 0x7fffffb000 ≤ va ∧ va < 0x7ffffff000 then frame + 0x2000 + (va - 0x7fffffb000)
  else 0

/-- Two processes that can run, the second with this entry point. -/
def twoProcesses (entry : Word64) : List (Σ β, Op Mounted β) :=
  [⟨_, .createProcess ⟨0x40000000, 0x200000, 0x7ffffff000, loadedMapping 0x210000⟩⟩,
    ⟨_, .createProcess ⟨entry, 0x300000, 0x7ffffff000, loadedMapping 0x310000⟩⟩,
    ⟨_, .markRunnable 1⟩, ⟨_, .markRunnable 2⟩]

/-- Both begin in their first segment. -/
def competing : List (Σ β, Op Mounted β) := twoProcesses 0x40000000

/-- The thread of the first has to wait for the second. -/
theorem selection_fair_competing :
    let s := competing.foldl step (start default terminalOnly default)
    s.Launchable 0 ∧ s.turn 0 = 1 ∧ ((∃ k < s.threads.count, s.ChosenAt k 0) ↔
      ∀ k < s.threads.count, (∀ k' < k, ¬ s.ChosenAt k' 0) → (s.rounds k).Unobstructed) := by
  intro s
  have hlaunch : s.Launchable 0 := by decide +kernel
  exact ⟨hlaunch, by decide +kernel, (selection_complete_and_fair_iff _ competing).2 0 hlaunch⟩

/-- The entry point of the second lies between its segments: the loader checks that it is not below
the first and not above the last, but not that it is on one of their pages. -/
def astray : List (Σ β, Op Mounted β) := twoProcesses 0x40008000

/-- The first thread can be launched, but the second is tried before it, and the first is never
chosen. -/
theorem selection_blocked :
    let s := astray.foldl step (start default terminalOnly default)
    s.Launchable 0 ∧ s.selectNextRunnableThread.1.isNone ∧ ∀ k, ¬ s.ChosenAt k 0 := by
  intro s
  have h : InOrder s := (InOrder.initializeManager _).run astray
  have hfails : s.selectNextRunnableThread.1.isNone := by decide +kernel
  refine ⟨by decide +kernel, hfails, fun k hchosen => ?_⟩
  have hsome := h.isSome_of_chosenAt hchosen
  rw [round_isSome, Option.isNone_iff_eq_none.1 hfails] at hsome
  cases hsome

end IanOS.Machine
