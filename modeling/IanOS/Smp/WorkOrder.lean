import IanOS.Smp.WorkQueue

/-!
# What the work queue guarantees

In every run the commands are executed in the order in which they were accepted, each at most once
and with its own argument.  What a call of `enqueue_ap_work` returns is another matter: it takes any
progress of the counter for its own.  Its answer can be trusted if the queue is empty when it is
called.
-/

namespace IanOS.Smp

open List Function

variable {s : State} {n : ℕ} {i k : ℕ} {l l' : List Work}

/-! ## The invariant -/

/-- What is in a slot. -/
def Queue.cell (q : Queue) (k : ℕ) : Work := ⟨q.commands k, q.args k⟩

lemma Queue.cell_commands (q : Queue) (command : BitVec 32) (h : k ≠ i) :
    { q with commands := update q.commands i command }.cell k = q.cell k := by
  dsimp only [cell]
  rw [update_of_ne h]

lemma Queue.cell_args (q : Queue) (argument : Word64) (h : k ≠ i) :
    { q with args := update q.args i argument }.cell k = q.cell k := by
  dsimp only [cell]
  rw [update_of_ne h]

/-- The commands that have been executed and are not counted as done. -/
def Handler.inFlight : Handler → ℕ
  | .clearCommand _ | .clearArgument _ | .loadDone | .storeDone _ => 1
  | _ => 0

/-- What the variables of the handler mean, when `n` commands are done. -/
def Handler.Sound (n : ℕ) (accepted : List Work) : Handler → Prop
  | .idle | .testDone | .loadDone => True
  | .testTail done | .storeDone done => done = BitVec.ofNat 32 n
  | .index => n < accepted.length
  | .readCommand k => k = n % kApWorkQueueSize ∧ n < accepted.length
  | .readArgument k command =>
    k = n % kApWorkQueueSize ∧ ∃ w, accepted[n]? = some w ∧ w.command = command
  | .execute k work => k = n % kApWorkQueueSize ∧ accepted[n]? = some work
  | .clearCommand k | .clearArgument k => k = n % kApWorkQueueSize

/-- What the variables of a call mean, when `n` commands are done. -/
def Call.Sound (n : ℕ) (accepted : List Work) (q : Queue) (c : Call) : Prop :=
  match c.stage with
  | .readTail => ∃ m ≤ n, c.before = BitVec.ofNat 32 m ∧ accepted.length ≤ m + kApWorkQueueSize
  | .writeCommand =>
    c.tail = BitVec.ofNat 32 accepted.length ∧ accepted.length < n + kApWorkQueueSize
  | .writeArgument =>
    c.tail = BitVec.ofNat 32 accepted.length ∧ accepted.length < n + kApWorkQueueSize ∧
      q.commands (accepted.length % kApWorkQueueSize) = c.work.command
  | .writeTail =>
    c.tail = BitVec.ofNat 32 accepted.length ∧ accepted.length < n + kApWorkQueueSize ∧
      q.cell (accepted.length % kApWorkQueueSize) = c.work
  | .sendIpi | .poll _ => True

/-- `n` commands are done. -/
structure Inv (s : State) (n : ℕ) : Prop where
  tail : s.queue.tail = BitVec.ofNat 32 s.accepted.length
  done : s.queue.done = BitVec.ofNat 32 n
  inOrder : s.executed <+: s.accepted
  executed : s.executed.length = n + s.handler.inFlight
  room : s.accepted.length ≤ n + kApWorkQueueSize
  cells : Ring.Holds kApWorkQueueSize s.queue.cell s.executed.length s.accepted
  handler : s.handler.Sound n s.accepted
  call : ∀ c, s.call = some c → c.Sound n s.accepted s.queue

lemma Handler.Sound.append {h : Handler} (hs : h.Sound n l) (w : Work) : h.Sound n (l ++ [w]) := by
  have hold {w' : Work} (hw : l[n]? = some w') : (l ++ [w])[n]? = some w' := by
    rwa [List.getElem?_append_left (List.getElem?_eq_some_iff.1 hw).1]
  cases h with
  | idle | testDone | loadDone => trivial
  | testTail | storeDone | clearCommand | clearArgument => exact hs
  | index => exact lt_of_lt_of_le hs (by simp)
  | readCommand => exact ⟨hs.1, lt_of_lt_of_le hs.2 (by simp)⟩
  | readArgument index command =>
    obtain ⟨hindex, w', hw, hcommand⟩ := hs
    exact ⟨hindex, w', hold hw, hcommand⟩
  | execute => exact ⟨hs.1, hold hs.2⟩

namespace Inv

lemma le (h : Inv s n) : n ≤ s.accepted.length :=
  le_trans (h.executed ▸ Nat.le_add_right _ _) h.inOrder.length_le

/-- The target has not come round to the slot of the next command. -/
lemma next_free (h : Inv s n) (hroom : s.accepted.length < n + kApWorkQueueSize) {q : Queue}
    (hsame : ∀ k, k ≠ s.accepted.length % kApWorkQueueSize → q.cell k = s.queue.cell k) :
    Ring.Holds kApWorkQueueSize q.cell s.executed.length s.accepted :=
  h.cells.next_cell (hroom.trans_le (h.executed ▸ by omega)) hsame

lemma start : Inv State.start 0 where
  tail := rfl
  done := rfl
  inOrder := prefix_rfl
  executed := rfl
  room := by decide
  cells := .nil _
  handler := trivial
  call := nofun

lemma finish (h : Inv s n) (c : Call) (value : Bool) (item : Option ℕ) :
    Inv (s.finish c value item) n :=
  { h with call := nofun }

lemma enqueue (h : Inv s n) (work : Work) : Inv (s.enqueue work) n := by
  rw [State.enqueue]
  cases hcall : s.call with
  | some c => exact h
  | none =>
    refine { h with call := ?_ }
    rintro _ ⟨⟩
    exact ⟨n, le_rfl, h.done, h.room⟩

lemma interrupt (h : Inv s n) : Inv s.interrupt n := by
  rw [State.interrupt]
  split
  · next hidle => exact { h with
      executed := by rw [h.executed, hidle]; rfl
      handler := trivial }
  · exact h

end Inv

/-! ## The steps of a call -/

lemma Inv.producer (h : Inv s n) (sent : Bool) : Inv (s.producer sent) n := by
  rw [State.producer]
  cases hcall : s.call with
  | none => exact h
  | some c =>
    have hsound := h.call c hcall
    rw [Call.Sound] at hsound
    dsimp only
    cases hstage : c.stage with
    | readTail =>
      rw [hstage] at hsound
      obtain ⟨m, hm, hbefore, hlen⟩ := hsound
      dsimp only
      split_ifs with hfull
      · exact h.finish c false none
      refine { h with call := ?_ }
      rintro _ ⟨⟩
      rw [h.tail, hbefore, toNat_ofNat_sub (hm.trans h.le) hlen] at hfull
      have hroom : s.accepted.length < n + kApWorkQueueSize := by omega
      exact ⟨h.tail, hroom⟩
    | writeCommand =>
      rw [hstage] at hsound
      obtain ⟨htail, hroom⟩ := hsound
      have hslot : slot c.tail = s.accepted.length % kApWorkQueueSize := by rw [htail, slot_ofNat]
      rw [hslot]
      refine { h with
        cells := h.next_free hroom fun k hk => s.queue.cell_commands _ hk
        call := ?_ }
      rintro _ ⟨⟩
      exact ⟨htail, hroom, update_self _ _ _⟩
    | writeArgument =>
      rw [hstage] at hsound
      obtain ⟨htail, hroom, hcommand⟩ := hsound
      have hslot : slot c.tail = s.accepted.length % kApWorkQueueSize := by rw [htail, slot_ofNat]
      rw [hslot]
      refine { h with
        cells := h.next_free hroom fun k hk => s.queue.cell_args _ hk
        call := ?_ }
      rintro _ ⟨⟩
      refine ⟨htail, hroom, ?_⟩
      dsimp only [Queue.cell]
      rw [update_self, hcommand]
    | writeTail =>
      rw [hstage] at hsound
      obtain ⟨htail, hroom, hcell⟩ := hsound
      have hlen : (s.accepted ++ [c.work]).length = s.accepted.length + 1 := length_append
      exact { h with
        tail := by rw [htail, ofNat_succ, hlen]
        inOrder := h.inOrder.trans (prefix_append _ _)
        room := by rw [hlen]; omega
        cells := h.cells.extend hcell
        handler := h.handler.append c.work
        call := by rintro _ ⟨⟩; trivial }
    | sendIpi =>
      dsimp only
      split_ifs
      · exact { h with call := by rintro _ ⟨⟩; trivial }
      · exact h.finish c _ _
    | poll i =>
      dsimp only
      split_ifs
      · exact h.finish c _ _
      · exact { h with call := by rintro _ ⟨⟩; trivial }
      · exact h.finish c _ _

/-! ## The steps of the handler -/

lemma prefix_concat {w : Work} (h : l <+: l') (hw : l'[l.length]? = some w) : l ++ [w] <+: l' := by
  obtain ⟨t, rfl⟩ := h
  rw [getElem?_append_right le_rfl, Nat.sub_self] at hw
  cases t with
  | nil => cases hw
  | cons w' t =>
    obtain rfl : w' = w := Option.some.inj hw
    exact ⟨t, append_assoc _ _ _⟩

namespace Call.Sound

variable {c : Call} {l : List Work} {q q' : Queue}

lemma mono {n' : ℕ} (h : c.Sound n l q) (hle : n ≤ n') : c.Sound n' l q := by
  rw [Call.Sound] at h ⊢
  cases hstage : c.stage with
  | readTail =>
    rw [hstage] at h
    obtain ⟨m, hm, hrest⟩ := h
    exact ⟨m, hm.trans hle, hrest⟩
  | writeCommand => rw [hstage] at h; exact ⟨h.1, by omega⟩
  | writeArgument | writeTail => rw [hstage] at h; exact ⟨h.1, by omega, h.2.2⟩
  | sendIpi | poll i => trivial

/-- A call knows only its own slot. -/
lemma congr (h : c.Sound n l q) (hsame : l.length < n + kApWorkQueueSize →
    q'.cell (l.length % kApWorkQueueSize) = q.cell (l.length % kApWorkQueueSize)) :
    c.Sound n l q' := by
  rw [Call.Sound] at h ⊢
  cases hstage : c.stage with
  | readTail | writeCommand => rw [hstage] at h; exact h
  | writeArgument =>
    rw [hstage] at h
    exact ⟨h.1, h.2.1, (congrArg Work.command (hsame h.2.1)).trans h.2.2⟩
  | writeTail =>
    rw [hstage] at h
    exact ⟨h.1, h.2.1, (hsame h.2.1).trans h.2.2⟩
  | sendIpi | poll i => trivial

end Call.Sound

namespace Inv

variable {handler : Handler}

section

variable (h : Inv s n)
include h

/-- The next command, while it is in its slot. -/
lemma next (hflight : s.handler.inFlight = 0) (hn : n < s.accepted.length) :
    s.accepted[n]? = some (s.queue.cell (n % kApWorkQueueSize)) :=
  h.cells n (by rw [h.executed, hflight, Nat.add_zero]) hn

lemma load (hflight : handler.inFlight = s.handler.inFlight)
    (hsound : handler.Sound n s.accepted) : Inv { s with handler := handler } n :=
  { h with executed := h.executed.trans (by rw [hflight]), handler := hsound }

/-- The slot of a command that has been executed is cleared. -/
lemma clear {q : Queue} (hflight : s.handler.inFlight = 1)
    (hflight' : handler.inFlight = 1) (hsound : handler.Sound n s.accepted)
    (htail : q.tail = s.queue.tail) (hdone : q.done = s.queue.done)
    (hsame : ∀ k, k ≠ n % kApWorkQueueSize → q.cell k = s.queue.cell k) :
    Inv { s with queue := q, handler := handler } n := by
  have hexec : s.executed.length = n + 1 := by rw [h.executed, hflight]
  have hlen := h.inOrder.length_le
  exact { h with
    tail := htail.trans h.tail
    done := hdone.trans h.done
    executed := by rw [hexec, hflight']
    cells := h.cells.old_cell (by omega) h.room hsame
    handler := hsound
    call := fun c hc => (h.call c hc).congr fun hroom =>
      hsame _ (Ring.mod_ne_mod (by omega) hroom).symm }

lemma execute {k : ℕ} {w : Work} (hflight : s.handler.inFlight = 0)
    (hk : k = n % kApWorkQueueSize) (hw : s.accepted[n]? = some w) :
    Inv { s.execute w with handler := .clearCommand k } n := by
  have hexec : s.executed.length = n := by rw [h.executed, hflight, Nat.add_zero]
  have hlen : (s.executed ++ [w]).length = n + 1 := by
    rw [length_append, hexec, length_singleton]
  -- a command changes the counters only
  have hqueue : (s.execute w).queue.tail = s.queue.tail ∧ (s.execute w).queue.done = s.queue.done ∧
      (s.execute w).queue.commands = s.queue.commands ∧
      (s.execute w).queue.args = s.queue.args := by
    rw [State.execute]
    split_ifs <;> exact ⟨rfl, rfl, rfl, rfl⟩
  obtain ⟨htail, hdone, hcommands, hargs⟩ := hqueue
  have hcell : (s.execute w).queue.cell = s.queue.cell := by
    funext i
    rw [Queue.cell, hcommands, hargs, Queue.cell]
  exact {
    tail := htail.trans h.tail
    done := hdone.trans h.done
    inOrder := prefix_concat h.inOrder (hexec ▸ hw)
    executed := hlen
    room := h.room
    cells := by
      rw [hcell]
      exact h.cells.mono (by rw [hexec]; exact hlen ▸ Nat.le_succ n)
    handler := hk
    call := fun c hc => (h.call c hc).congr fun _ => congrFun hcell _ }

lemma storeDone {done : BitVec 32} (hflight : s.handler.inFlight = 1)
    (hdone : done = BitVec.ofNat 32 n) :
    Inv { s with queue := { s.queue with done := done + 1 }, handler := .testDone } (n + 1) := by
  have hexec : s.executed.length = n + 1 := by rw [h.executed, hflight]
  exact { h with
    done := by rw [hdone, ofNat_succ]
    executed := hexec
    room := h.room.trans (by omega)
    handler := trivial
    call := fun c hc => ((h.call c hc).mono (Nat.le_succ n)).congr fun _ => rfl }

lemma target : ∃ n', n ≤ n' ∧ Inv s.target n' := by
  rw [State.target]
  have hsound := h.handler
  cases hhandler : s.handler with
  | idle => exact ⟨n, le_rfl, h⟩
  | testDone | loadDone => exact ⟨n, le_rfl, h.load (by rw [hhandler]; rfl) h.done⟩
  | testTail done =>
    rw [hhandler] at hsound
    have hdone : done = BitVec.ofNat 32 n := hsound
    refine ⟨n, le_rfl, ?_⟩
    dsimp only
    split_ifs with hmore
    · refine h.load (by rw [hhandler]; rfl) ?_
      rw [hdone, h.tail] at hmore
      exact lt_of_le_of_ne h.le fun heq => hmore (heq ▸ rfl)
    · exact h.load (by rw [hhandler]; rfl) trivial
  | index =>
    rw [hhandler] at hsound
    exact ⟨n, le_rfl, h.load (by rw [hhandler]; rfl) ⟨by rw [h.done, slot_ofNat], hsound⟩⟩
  | readCommand k =>
    rw [hhandler] at hsound
    obtain ⟨rfl, hn⟩ := hsound
    exact ⟨n, le_rfl,
      h.load (by rw [hhandler]; rfl) ⟨rfl, _, h.next (by rw [hhandler]; rfl) hn, rfl⟩⟩
  | readArgument k command =>
    rw [hhandler] at hsound
    obtain ⟨rfl, w, hw, rfl⟩ := hsound
    have hnext := h.next (by rw [hhandler]; rfl) (List.getElem?_eq_some_iff.1 hw).1
    obtain rfl : w = _ := Option.some.inj (hw.symm.trans hnext)
    exact ⟨n, le_rfl, h.load (by rw [hhandler]; rfl) ⟨rfl, hnext⟩⟩
  | execute k work =>
    rw [hhandler] at hsound
    exact ⟨n, le_rfl, h.execute (by rw [hhandler]; rfl) hsound.1 hsound.2⟩
  | clearCommand k =>
    rw [hhandler] at hsound
    obtain rfl : k = n % kApWorkQueueSize := hsound
    exact ⟨n, le_rfl, h.clear (by rw [hhandler]; rfl) rfl rfl rfl rfl
      fun i hi => s.queue.cell_commands _ hi⟩
  | clearArgument k =>
    rw [hhandler] at hsound
    obtain rfl : k = n % kApWorkQueueSize := hsound
    exact ⟨n, le_rfl, h.clear (by rw [hhandler]; rfl) rfl trivial rfl rfl
      fun i hi => s.queue.cell_args _ hi⟩
  | storeDone done =>
    rw [hhandler] at hsound
    exact ⟨n + 1, Nat.le_succ n, h.storeDone (by rw [hhandler]; rfl) hsound⟩

lemma step (a : Action) : ∃ n', n ≤ n' ∧ Inv (s.step a) n' := by
  cases a with
  | enqueue => exact ⟨n, le_rfl, h.enqueue _⟩
  | producer => exact ⟨n, le_rfl, h.producer _⟩
  | interrupt => exact ⟨n, le_rfl, h.interrupt⟩
  | target => exact h.target

end

/-- The invariant holds in every run. -/
lemma run (actions : List Action) : ∃ n, Inv (actions.foldl State.step .start) n := by
  have hall : Run.Allowed State.step (fun _ _ => True) .start actions :=
    Run.allowed_of_forall fun _ _ => trivial
  exact hall.foldl (P := fun s => ∃ n, Inv s n)
    (fun s a ⟨n, hinv⟩ _ => (hinv.step a).imp fun _ h => h.2) ⟨0, .start⟩

end Inv

/-! ## Calls that find the queue empty -/

/-- The call is the only one that could have brought the counter forward. -/
def Call.Alone (n : ℕ) (accepted : List Work) (c : Call) : Prop :=
  match c.stage with
  | .readTail | .writeCommand | .writeArgument | .writeTail =>
    n = accepted.length ∧ c.before = BitVec.ofNat 32 n
  | .sendIpi | .poll _ => ∃ m ≤ n, c.before = BitVec.ofNat 32 m ∧
      accepted.length = m + 1 ∧ accepted[m]? = some c.work

/-- `n` commands are done, and a call that is in progress has found the queue empty. -/
structure Solitary (s : State) (n : ℕ) : Prop where
  inv : Inv s n
  alone : ∀ c, s.call = some c → c.Alone n s.accepted

namespace Solitary

lemma enqueue (h : Solitary s n) (work : Work)
    (hempty : s.call = none → s.queue.done = s.queue.tail) : Solitary (s.enqueue work) n := by
  refine ⟨h.inv.enqueue work, ?_⟩
  rw [State.enqueue]
  cases hcall : s.call with
  | some c => exact h.alone
  | none =>
    have hcounters := hempty hcall
    rw [h.inv.done, h.inv.tail] at hcounters
    rintro _ ⟨⟩
    exact ⟨ofNat_inj h.inv.le h.inv.room hcounters, h.inv.done⟩

lemma interrupt (h : Solitary s n) : Solitary s.interrupt n := by
  refine ⟨h.inv.interrupt, ?_⟩
  rw [State.interrupt]
  split <;> exact h.alone

/-- The command of a call that sees the counter change has been executed. -/
lemma answered (h : Solitary s n) {c : Call} {i : ℕ} (hcall : s.call = some c)
    (hstage : c.stage = .poll i) (hdone : s.queue.done ≠ c.before) :
    s.executed[s.accepted.length - 1]? = some c.work := by
  have halone := h.alone c hcall
  rw [Call.Alone, hstage] at halone
  obtain ⟨m, hm, hbefore, hlen, hwork⟩ := halone
  have hne : m ≠ n := by
    rintro rfl
    exact hdone (h.inv.done.trans hbefore.symm)
  have hlt : m < s.executed.length := by
    rw [h.inv.executed]
    omega
  obtain ⟨rest, hrest⟩ := h.inv.inOrder
  rw [← hrest, List.getElem?_append_left hlt] at hwork
  rwa [hlen, Nat.add_sub_cancel]

lemma producer (h : Solitary s n) (sent : Bool) : Solitary (s.producer sent) n := by
  refine ⟨h.inv.producer sent, ?_⟩
  rw [State.producer]
  cases hcall : s.call with
  | none => exact h.alone
  | some c =>
    have halone := h.alone c hcall
    rw [Call.Alone] at halone
    cases hstage : c.stage with
    | readTail =>
      simp only [hstage] at halone ⊢
      split_ifs
      · exact nofun
      · rintro _ ⟨⟩
        exact halone
    | writeCommand | writeArgument =>
      simp only [hstage] at halone ⊢
      rintro _ ⟨⟩
      exact halone
    | writeTail =>
      simp only [hstage] at halone ⊢
      obtain ⟨rfl, hbefore⟩ := halone
      rintro _ ⟨⟩
      exact ⟨_, le_rfl, hbefore, length_append, getElem?_concat_length⟩
    | sendIpi =>
      simp only [hstage] at halone ⊢
      split_ifs
      · rintro _ ⟨⟩
        exact halone
      · exact nofun
    | poll i =>
      simp only [hstage] at halone ⊢
      split_ifs
      · exact nofun
      · rintro _ ⟨⟩
        exact halone
      · exact nofun

end Solitary

lemma target_history (s : State) : s.target.call = s.call ∧ s.target.accepted = s.accepted ∧
    s.target.returns = s.returns ∧ s.executed <+: s.target.executed := by
  rw [State.target]
  cases s.handler with
  | execute => exact ⟨rfl, rfl, rfl, prefix_append _ _⟩
  | _ => exact ⟨rfl, rfl, rfl, prefix_rfl⟩

lemma Solitary.target (h : Solitary s n) : ∃ n', Solitary s.target n' := by
  obtain ⟨n', hn, hinv⟩ := h.inv.target
  obtain ⟨hcall, haccept, -, -⟩ := target_history s
  refine ⟨n', hinv, fun c hc => ?_⟩
  have halone := h.alone c (hcall ▸ hc)
  have hle := hinv.le
  rw [haccept] at hle ⊢
  rw [Call.Alone] at halone ⊢
  cases hstage : c.stage with
  | readTail | writeCommand | writeArgument | writeTail =>
    -- there is nothing to execute before the command is accepted
    simp only [hstage] at halone ⊢
    obtain rfl : n = n' := le_antisymm hn (halone.1 ▸ hle)
    exact halone
  | sendIpi | poll i =>
    simp only [hstage] at halone ⊢
    obtain ⟨m, hm, hrest⟩ := halone
    exact ⟨m, hm.trans hn, hrest⟩

/-! ## What the calls return -/

/-- The answer of a call is right: if it is positive, its command has been executed. -/
def Return.Right (executed : List Work) (r : Return) : Prop :=
  r.value = true → ∃ k, r.item = some k ∧ executed[k]? = some r.work

lemma Return.Right.mono {r : Return} (h : r.Right l) (hl : l <+: l') : r.Right l' := by
  intro hvalue
  obtain ⟨k, hitem, hk⟩ := h hvalue
  obtain ⟨rest, rfl⟩ := hl
  exact ⟨k, hitem, by rwa [List.getElem?_append_left (List.getElem?_eq_some_iff.1 hk).1]⟩

/-- A step of a call answers nothing, or rightly. -/
lemma Solitary.returns_producer (h : Solitary s n) (sent : Bool) :
    (s.producer sent).executed = s.executed ∧ ((s.producer sent).returns = s.returns ∨
      ∃ r : Return, (s.producer sent).returns = s.returns ++ [r] ∧ r.Right s.executed) := by
  rw [State.producer]
  cases hcall : s.call with
  | none => exact ⟨rfl, .inl rfl⟩
  | some c =>
    dsimp only
    cases hstage : c.stage with
    | readTail =>
      dsimp only
      split_ifs
      · exact ⟨rfl, .inr ⟨_, rfl, nofun⟩⟩
      · exact ⟨rfl, .inl rfl⟩
    | writeCommand | writeArgument | writeTail => exact ⟨rfl, .inl rfl⟩
    | sendIpi =>
      dsimp only
      split_ifs
      · exact ⟨rfl, .inl rfl⟩
      · exact ⟨rfl, .inr ⟨_, rfl, nofun⟩⟩
    | poll i =>
      dsimp only
      split_ifs with hdone
      · exact ⟨rfl, .inr ⟨_, rfl, fun _ => ⟨_, rfl, h.answered hcall hstage hdone⟩⟩⟩
      · exact ⟨rfl, .inl rfl⟩
      · exact ⟨rfl, .inr ⟨_, rfl, nofun⟩⟩

/-- The answers so far are right. -/
structure Trusted (s : State) : Prop where
  solitary : ∃ n, Solitary s n
  right : ∀ r ∈ s.returns, r.Right s.executed

lemma Trusted.producer (h : Trusted s) (sent : Bool) : Trusted (s.producer sent) := by
  obtain ⟨n, hn⟩ := h.solitary
  obtain ⟨hexec, hreturns⟩ := hn.returns_producer sent
  refine ⟨⟨n, hn.producer sent⟩, fun r hr => ?_⟩
  rw [hexec]
  obtain hsame | ⟨r', hnew, hright⟩ := hreturns
  · exact h.right r (hsame ▸ hr)
  rw [hnew] at hr
  rcases mem_append.1 hr with hr | hr
  · exact h.right r hr
  · rwa [mem_singleton.1 hr]

lemma Trusted.target (h : Trusted s) : Trusted s.target := by
  obtain ⟨n, hn⟩ := h.solitary
  obtain ⟨-, -, hreturns, hexec⟩ := target_history s
  exact ⟨hn.target, fun r hr => (h.right r (hreturns ▸ hr)).mono hexec⟩

/-- A command is put into the queue only when the queue is empty. -/
def EmptyAtCall (s : State) : Action → Prop
  | .enqueue _ => s.call = none → s.queue.done = s.queue.tail
  | _ => True

instance : ∀ (s : State) (a : Action), Decidable (EmptyAtCall s a)
  | _, .enqueue _ => inferInstanceAs (Decidable (_ → _))
  | _, .producer _ | _, .interrupt | _, .target => .isTrue trivial

/-- In every run the commands executed are the first of those accepted, in the same order.  If the
queue is empty whenever `enqueue_ap_work` is called, then the command of every call that has
returned true has been executed. -/
theorem work_in_order (actions : List Action) :
    (actions.foldl State.step .start).executed <+: (actions.foldl State.step .start).accepted ∧
    (Run.Allowed State.step EmptyAtCall .start actions →
      ∀ r ∈ (actions.foldl State.step .start).returns,
        r.Right (actions.foldl State.step .start).executed) := by
  constructor
  · obtain ⟨n, hinv⟩ := Inv.run actions
    exact hinv.inOrder
  intro hempty
  have hstep (s : State) (a : Action) (h : Trusted s) (hok : EmptyAtCall s a) :
      Trusted (s.step a) := by
    obtain ⟨n, hn⟩ := h.solitary
    cases a with
    | enqueue work =>
      refine ⟨⟨n, hn.enqueue work hok⟩, ?_⟩
      rw [State.step, State.enqueue]
      split <;> exact h.right
    | producer => exact h.producer _
    | interrupt =>
      refine ⟨⟨n, hn.interrupt⟩, ?_⟩
      rw [State.step, State.interrupt]
      split <;> exact h.right
    | target => exact h.target
  have htrusted := hempty.foldl hstep ⟨⟨0, .start, nofun⟩, fun r hr => absurd hr not_mem_nil⟩
  exact htrusted.right

/-- The steps of a call up to the interrupt. -/
def callSteps (work : Work) (sent : Bool) : List Action :=
  [.enqueue work, .producer true, .producer true, .producer true, .producer true, .producer sent]

/-- The steps in which the target executes one command. -/
def workSteps : List Action := .interrupt :: replicate 10 .target

/-- A call that is answered. -/
theorem work_in_order_once :
    let s := (callSteps ⟨kApWorkInvalidatePage, 0x4000⟩ true ++ workSteps ++
      [Action.producer true]).foldl State.step .start
    s.returns = [⟨true, ⟨kApWorkInvalidatePage, 0x4000⟩, some 0⟩] ∧
      ∀ r ∈ s.returns, r.Right s.executed := by
  intro s
  exact ⟨by decide +kernel, (work_in_order _).2 (by decide +kernel)⟩

/-- The interrupt of a first call is lost.  The target is interrupted for the second call and
executes the first command; then the second call returns true, and its command has not been
executed. -/
theorem work_of_another_call :
    let s := (callSteps ⟨kApWorkInvalidatePage, 0x4000⟩ false ++
      callSteps ⟨kApWorkInvalidatePage, 0x5000⟩ true ++ workSteps ++ [Action.producer true]).foldl
        State.step .start
    s.returns = [⟨false, ⟨kApWorkInvalidatePage, 0x4000⟩, some 0⟩,
        ⟨true, ⟨kApWorkInvalidatePage, 0x5000⟩, some 1⟩] ∧
      s.executed = [⟨kApWorkInvalidatePage, 0x4000⟩] := by
  decide +kernel

end IanOS.Smp
