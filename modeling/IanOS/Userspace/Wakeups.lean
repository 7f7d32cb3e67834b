import IanOS.Userspace.InvariantKept

/-!
# The waking functions

`wake_pipe_waiters`, `wake_process_waiters` and `wake_sleepers` are sequences of wakeups.  A
sequence of wakeups completes calls of blocked threads, moves bytes through pipes and writes memory,
and changes nothing else: this is `Woken`.
-/

namespace IanOS

namespace Pipe

variable (p : Pipe)

@[simp] lemma id_consume (n : ℕ) : (p.consume n).id = p.id := by
  rw [consume]
  split <;> rfl

@[simp] lemma isOpen_consume (n : ℕ) : (p.consume n).isOpen = p.isOpen := by
  rw [consume]
  split <;> rfl

@[simp] lemma id_append (bytes : List UInt8) : (p.append bytes).id = p.id := rfl

@[simp] lemma isOpen_append (bytes : List UInt8) : (p.append bytes).isOpen = p.isOpen := rfl

end Pipe

namespace Machine

variable {V : Type} {s s' s'' : Machine V} {i k n pipeId : ℕ}

@[simp] lemma thread_completeCall (value error : ℕ) (j : ℕ) :
    (s.completeCall i value error).thread j =
      if j = i then (s.thread j).complete value error else s.thread j := by
  rw [completeCall, thread_record, thread_setThread]

lemma onlyMemory_storeUser (buffer : ℕ) :
    OnlyMemory fun bytes (s : Machine V) => s.storeUser buffer bytes :=
  fun _ _ => ⟨_, rfl⟩

/-- Only memory, the pipe and the log change. -/
lemma deliver_eq {put : List UInt8 → Machine V → Machine V} (hput : OnlyMemory put) :
    ∃ mem, s.deliver k n put =
      ({ s with mem := mem }.setPipe k fun p => p.consume n).record
        (.delivered k (Bytes.load (s.pipe k).data (s.pipe k).readOffset n) n) := by
  obtain ⟨mem, hmem⟩ := hput (Bytes.load (s.pipe k).data (s.pipe k).readOffset n) s
  exact ⟨mem, by rw [deliver, hmem]⟩

/-! ## What wakeups leave alone -/

/-- See the head of the file. -/
structure Woken (s s' : Machine V) : Prop where
  frame : s' = { s with threads := s'.threads, pipes := s'.pipes, mem := s'.mem, log := s'.log }
  threadCount : s'.threads.count = s.threads.count
  pipeCount : s'.pipes.count = s.pipes.count
  thread : ∀ i, s'.thread i = s.thread i ∨ (s.thread i).state = .blocked ∧
    ∃ value error, s'.thread i = (s.thread i).complete value error
  pipe : ∀ k, (s'.pipe k).id = (s.pipe k).id ∧ (s'.pipe k).isOpen = (s.pipe k).isOpen

namespace Woken

lemma refl (s : Machine V) : Woken s s where
  frame := rfl
  threadCount := rfl
  pipeCount := rfl
  thread _ := .inl rfl
  pipe _ := ⟨rfl, rfl⟩

lemma trans (h : Woken s s') (h' : Woken s' s'') : Woken s s'' where
  frame := by
    have hframe := h'.frame
    rwa [h.frame] at hframe
  threadCount := h'.threadCount.trans h.threadCount
  pipeCount := h'.pipeCount.trans h.pipeCount
  thread i := by
    obtain hsame | ⟨hblock, value, error, hdone⟩ := h.thread i
    · rw [← hsame]
      exact h'.thread i
    -- a thread that has been completed is not completed again
    obtain hsame' | ⟨hblocked', -⟩ := h'.thread i
    · exact .inr ⟨hblock, value, error, hsame'.trans hdone⟩
    · rw [hdone] at hblocked'
      cases hblocked'
  pipe k := ⟨(h'.pipe k).1.trans (h.pipe k).1, (h'.pipe k).2.trans (h.pipe k).2⟩

lemma processes (h : Woken s s') : s'.processes = s.processes := by
  rw [h.frame]

end Woken

lemma Wakeup.woken (h : Wakeup s s') : Woken s s' := by
  cases h with
  | memory mem => exact ⟨rfl, rfl, rfl, fun _ => .inl rfl, fun _ => ⟨rfl, rfl⟩⟩
  | complete value error hblock =>
    refine ⟨rfl, rfl, rfl, fun j => ?_, fun _ => ⟨rfl, rfl⟩⟩
    rw [thread_completeCall]
    split
    · next hj => exact .inr ⟨hj ▸ hblock, value, error, rfl⟩
    · exact .inl rfl
  | deliver hput =>
    obtain ⟨mem, hmem⟩ := deliver_eq hput
    rw [hmem]
    refine ⟨rfl, rfl, rfl, fun _ => .inl rfl, fun k => ?_⟩
    rw [pipe_record, pipe_setPipe]
    split
    · exact ⟨Pipe.id_consume _ _, Pipe.isOpen_consume _ _⟩
    · exact ⟨rfl, rfl⟩
  | accept =>
    refine ⟨rfl, rfl, rfl, fun _ => .inl rfl, fun k => ?_⟩
    rw [Machine.accept, pipe_record, pipe_setPipe]
    split
    · exact ⟨Pipe.id_append _ _, Pipe.isOpen_append _ _⟩
    · exact ⟨rfl, rfl⟩

lemma Wakeups.woken (h : Wakeups s s') : Woken s s' := by
  induction h with
  | refl => exact Woken.refl s
  | tail _ hlast ih => exact ih.trans hlast.woken

lemma Wakeup.log (h : Wakeup s s') : ∃ events, s'.log = s.log ++ events := by
  cases h with
  | memory => exact ⟨[], (List.append_nil _).symm⟩
  | complete | accept => exact ⟨_, rfl⟩
  | deliver hput =>
    obtain ⟨mem, hmem⟩ := deliver_eq hput
    rw [hmem]
    exact ⟨_, rfl⟩

lemma Wakeups.log (h : Wakeups s s') : ∃ events, s'.log = s.log ++ events := by
  induction h with
  | refl => exact ⟨[], (List.append_nil _).symm⟩
  | tail _ hlast ih =>
    obtain ⟨events, hevents⟩ := ih
    obtain ⟨new, hnew⟩ := hlast.log
    exact ⟨events ++ new, by rw [hnew, hevents, List.append_assoc]⟩

/-! ## Pipes -/

lemma findPipe_eq_some (h : s.findPipe pipeId = some k) :
    pipeId ≠ 0 ∧ k < s.pipes.count ∧ (s.pipe k).isOpen ∧ (s.pipe k).id = pipeId := by
  rw [findPipe] at h
  split at h
  · cases h
  · next hne =>
    obtain ⟨hk, ⟨hopen, hid⟩, -⟩ := Table.find_eq_some.1 h
    exact ⟨hne, hk, hopen, hid⟩

/-- Where the buffer of a blocked pipe call is. -/
def waitPhys (s : Machine V) (t : UserThread) : ℕ := s.translate t.addressSpaceRoot t.waitBuffer

/-- A blocked read ends at the end of the stream or with bytes from the pipe. -/
lemma completePipeRead_eq_some {pipe : Option ℕ} (h : s.completePipeRead pipeId pipe i = some s') :
    ¬ s.pipeHasLiveWriter pipeId ∧ s' = s.completeCall i 0 kErrorNone ∨
      ∃ k n, pipe = some k ∧ 0 < n ∧ n ≤ (s.thread i).waitSize ∧
        (s.pipe k).readOffset + n ≤ (s.pipe k).size ∧
        s' = (s.deliver k n (copyTo (s.waitPhys (s.thread i)))).completeCall i n kErrorNone := by
  have hend (hs' : (if s.pipeHasLiveWriter pipeId then none
      else some (s.completeCall i 0 kErrorNone)) = some s') :
      ¬ s.pipeHasLiveWriter pipeId ∧ s' = s.completeCall i 0 kErrorNone := by
    split at hs'
    · cases hs'
    · next hwriter => exact ⟨hwriter, (Option.some.inj hs').symm⟩
  cases pipe with
  | none => exact .inl (hend h)
  | some k =>
    rw [completePipeRead] at h
    dsimp only at h
    split at h
    · next hready =>
      split at h
      · cases h
      · next hcopy =>
        right
        refine ⟨k, _, rfl, ?_, ?_, ?_, (Option.some.inj h).symm⟩ <;> omega
    · exact .inl (hend h)

/-- A blocked write fails without a reader, or the pipe takes bytes. -/
lemma completePipeWrite_eq_some {pipe : Option ℕ}
    (h : s.completePipeWrite pipeId pipe i = some s') :
    ¬ s.pipeHasLiveReader pipeId ∧ s' = s.completeCall i 0 kErrorNotFound ∨
      s.pipeHasLiveReader pipeId ∧ ∃ k n, pipe = some k ∧ 0 < n ∧ n ≤ (s.thread i).waitSize ∧
        (s.pipe k).size + n ≤ kPipeCapacity ∧
        s' = (s.accept k (Bytes.load s.mem (s.waitPhys (s.thread i)) n)).completeCall i n
          kErrorNone := by
  unfold completePipeWrite at h
  dsimp only at h
  split at h
  · next hreader => exact .inl ⟨hreader, (Option.some.inj h).symm⟩
  next hreader =>
    split at h
    · cases h
    split at h
    · next k hready =>
      split at h
      · cases h
      · next hcopy =>
        refine .inr ⟨not_not.1 hreader, k, _, rfl, ?_, ?_, ?_, (Option.some.inj h).symm⟩ <;> omega
    · cases h

section Induction

variable {P : Machine V → Prop}

/-- What every completed call keeps is kept by all rounds. -/
lemma wakePipeRounds_induction {pipe : Option ℕ} {rounds woken : ℕ}
    {allowReaders allowWriters : Bool}
    (hread : ∀ {s s' i}, P s → s.WaitsOn pipeId .pipeRead i →
      s.completePipeRead pipeId pipe i = some s' → P s')
    (hwrite : ∀ {s s' i}, P s → s.WaitsOn pipeId .pipeWrite i →
      s.completePipeWrite pipeId pipe i = some s' → P s') (h : P s) :
    P (wakePipeRounds pipeId pipe rounds allowReaders allowWriters woken s).2 := by
  induction rounds generalizing s allowReaders allowWriters woken with
  | zero => exact h
  | succ rounds ih =>
    have hround : P (s.wakePipeRound pipeId pipe allowReaders allowWriters).machine := by
      rw [wakePipeRound]
      apply List.foldlRecOn (motive := fun r : WakeRound V => P r.machine)
      · exact h
      intro r hr i _
      rw [wakePipeWaiter]
      split
      · next hwaits =>
        split
        · exact hr
        · next hs' => exact hread hr hwaits.2 hs'
      · split
        · next hwaits =>
          split
          · exact hr
          · next hs' => exact hwrite hr hwaits.2 hs'
        · exact hr
    rw [wakePipeRounds]
    split
    · exact hround
    · exact ih hround

lemma cleanupPipeIfUnreferenced_induction
    (hwake : ∀ {s} readers writers, P s → P (s.wakePipeWaiters pipeId readers writers).2)
    (hclear : ∀ {s'} k, s.findPipe pipeId = some k → P s' → P (s'.setPipe k fun _ => {}))
    (h : P s) :
    P (s.cleanupPipeIfUnreferenced pipeId).2 := by
  have hif (c : Prop) [Decidable c] {s : Machine V} (readers writers : Bool) (h : P s) :
      P (if c then s else (s.wakePipeWaiters pipeId readers writers).2) := by
    split
    · exact h
    · exact hwake readers writers h
  rw [cleanupPipeIfUnreferenced]
  split
  · exact h
  · next k hk =>
    split
    · exact hif _ true false (hif _ false true h)
    · exact hclear k hk (hwake true true h)

end Induction

lemma wakePipeWaiters_wakeups (pipeId : ℕ) (readers writers : Bool) :
    Wakeups s (s.wakePipeWaiters pipeId readers writers).2 := by
  -- the pipe stays open while its waiters are woken
  have hopen {t : Machine V} (h : Wakeups s t) {k : ℕ} (hk : s.findPipe pipeId = some k) :
      (t.pipe k).isOpen := by
    rw [(h.woken.pipe k).2]
    exact (findPipe_eq_some hk).2.2.1
  rw [wakePipeWaiters]
  split
  · exact .refl
  apply wakePipeRounds_induction _ _ .refl
  · intro t t' i ht hwaits ht'
    obtain ⟨-, rfl⟩ | ⟨k, n, hk, -, -, hn, rfl⟩ := completePipeRead_eq_some ht'
    · exact ht.tail (.complete _ _ _ hwaits.1)
    · have hdeliver := Wakeup.deliver t
        (show OnlyMemory (copyTo (t.waitPhys (t.thread i))) from fun _ _ => ⟨_, rfl⟩) (hopen ht hk)
        hn
      exact (ht.tail hdeliver).tail (.complete _ _ _ hwaits.1)
  · intro t t' i ht hwaits ht'
    obtain ⟨-, rfl⟩ | ⟨-, k, n, hk, -, -, hn, rfl⟩ := completePipeWrite_eq_some ht'
    · exact ht.tail (.complete _ _ _ hwaits.1)
    · refine (ht.tail (.accept _ (hopen ht hk) ?_)).tail (.complete _ _ _ hwaits.1)
      rwa [Bytes.length_load]

lemma cleanupPipeIfUnreferenced_effects (pipeId : ℕ) :
    Effects s (s.cleanupPipeIfUnreferenced pipeId).2 :=
  cleanupPipeIfUnreferenced_induction
    (fun _ _ h => h.trans (wakePipeWaiters_wakeups _ _ _).effects)
      (fun k _ h => h.tail (.clearPipe _ k))
    .refl

/-! ## Children and time -/

lemma wakeProcessWaiters_wakeups (targetPid exitCode : ℕ) :
    Wakeups s (s.wakeProcessWaiters targetPid exitCode).2 := by
  rw [wakeProcessWaiters]
  split
  · exact .refl
  apply List.foldlRecOn (motive := fun r : ℕ × Machine V => Wakeups s r.2)
  · exact .refl
  intro r hr i _
  rw [wakeProcessWaiter]
  split
  · next hawaits => exact (hr.tail (.memory _ _)).tail (.complete _ _ _ hawaits.1.1)
  · exact hr

lemma wakeSleepers_wakeups (nowTick : ℕ) : Wakeups s (s.wakeSleepers nowTick).2 := by
  rw [wakeSleepers]
  split
  · exact .refl
  apply List.foldlRecOn (motive := fun r : ℕ × Machine V => Wakeups s r.2)
  · exact .refl
  intro r hr i _
  rw [wakeSleeper]
  split
  · next hsleeps => exact hr.tail (.complete _ _ _ hsleeps.1)
  · exact hr

end Machine
end IanOS
