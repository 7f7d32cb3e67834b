import IanOS.Userspace.Effects

/-!
# What leaves processes and descriptors alone

Most operations of the manager change neither the file system nor a descriptor, and no process comes
or goes in them.  `Lodged` says of two states that no process has come or gone, `Aside` moreover
that the file system and the descriptors are the same, and `Quiet` moreover that there is a course
from one to the other.  All three compose, so that a routine is settled by its steps.
-/

namespace IanOS.Machine

variable {V : Type} {s s' s'' : Machine V} {i j : ℕ} {f : Process → Process}

/-- The identity of a process and its address space are the same. -/
structure SameSpace (p p' : Process) : Prop where
  pid : p'.pid = p.pid
  root : p'.addressSpaceRoot = p.addressSpaceRoot
  owns : p'.ownsAddressSpace = p.ownsAddressSpace

lemma SameSpace.refl (p : Process) : SameSpace p p := ⟨rfl, rfl, rfl⟩

/-- No process has come or gone, and each has kept its identity and its address space. -/
structure Lodged (s s' : Machine V) : Prop where
  count : s'.processes.count = s.processes.count
  nextPid : s'.nextPid = s.nextPid
  empty : ∀ j, (s'.process j).state = .empty ↔ (s.process j).state = .empty
  space : ∀ j, SameSpace (s.process j) (s'.process j)

/-- The file system and the descriptors of all slots are the same, too. -/
structure Aside (s s' : Machine V) : Prop extends Lodged s s' where
  vfs : s'.vfs = s.vfs
  fds : ∀ j, s'.fds j = s.fds j

namespace Lodged

lemma trans (h : Lodged s s') (h' : Lodged s' s'') : Lodged s s'' where
  count := h'.count.trans h.count
  nextPid := h'.nextPid.trans h.nextPid
  empty j := (h'.empty j).trans (h.empty j)
  space j := ⟨(h'.space j).pid.trans (h.space j).pid, (h'.space j).root.trans (h.space j).root,
    (h'.space j).owns.trans (h.space j).owns⟩

lemma of_processes (hprocs : s'.processes = s.processes) (hnext : s'.nextPid = s.nextPid) :
    Lodged s s' := by
  have hproc (j : ℕ) : s'.process j = s.process j := by rw [process, hprocs, process]
  refine ⟨by rw [hprocs], hnext, fun j => ?_, fun j => ?_⟩
  · rw [hproc]
  · rw [hproc]
    exact .refl _

lemma setProcess (hempty : (f (s.process j)).state = .empty ↔ (s.process j).state = .empty)
    (hspace : SameSpace (s.process j) (f (s.process j))) : Lodged s (s.setProcess j f) := by
  refine ⟨rfl, rfl, fun k => ?_, fun k => ?_⟩
  · rw [process_setProcess]
    split
    · next hk => rw [hk, hempty]
    · rfl
  · rw [process_setProcess]
    split
    · next hk => rwa [hk]
    · exact .refl _

end Lodged

lemma Revision.lodged (h : Revision s s') : Lodged s s' := by
  cases h with
  | idle hidle =>
    rw [hidle]
    exact .of_processes rfl rfl
  | describe hf => exact .setProcess (by rw [hf.state]) ⟨hf.pid, hf.root, hf.owns⟩

namespace Aside

lemma trans (h : Aside s s') (h' : Aside s' s'') : Aside s s'' :=
  ⟨h.toLodged.trans h'.toLodged, h'.vfs.trans h.vfs, fun j => (h'.fds j).trans (h.fds j)⟩

lemma of_tables (hvfs : s'.vfs = s.vfs) (hprocs : s'.processes = s.processes)
    (hnext : s'.nextPid = s.nextPid) : Aside s s' :=
  ⟨.of_processes hprocs hnext, hvfs, fun j => by rw [Machine.fds, process, hprocs]; rfl⟩

lemma refl (s : Machine V) : Aside s s := of_tables rfl rfl rfl

lemma storeUser (s : Machine V) (address : ℕ) (bytes : List UInt8) :
    Aside s (s.storeUser address bytes) := of_tables rfl rfl rfl

lemma wakeups (h : Wakeups s s') : Aside s s' := by
  refine of_tables ?_ h.woken.processes ?_
  · rw [h.woken.frame]
  · rw [h.woken.frame]

lemma setProcess (hfds : (f (s.process j)).fileDescriptors = (s.process j).fileDescriptors)
    (hempty : (f (s.process j)).state = .empty ↔ (s.process j).state = .empty)
    (hspace : SameSpace (s.process j) (f (s.process j))) : Aside s (s.setProcess j f) := by
  refine ⟨.setProcess hempty hspace, rfl, fun k => ?_⟩
  rw [Machine.fds, process_setProcess, Machine.fds]
  split
  · next hk => rw [hk, hfds]
  · rfl

/-- A process goes from one state of use to another. -/
lemma setState (hfds : (f (s.process j)).fileDescriptors = (s.process j).fileDescriptors)
    (hstate : (f (s.process j)).state ≠ .empty) (hlive : (s.process j).state ≠ .empty)
    (hspace : SameSpace (s.process j) (f (s.process j))) :
    Aside s (s.setProcess j f) := setProcess hfds (iff_of_false hstate hlive) hspace

lemma onThread (s : Machine V) (tid : ℕ) (g : UserThread → UserThread) :
    Aside s (s.onThread tid g) := by
  rw [onThread_frame]
  exact of_tables rfl rfl rfl

/-- A loop each of whose rounds leaves descriptors alone. -/
lemma foldl {α β : Type} {f : α → β → α} (machine : α → Machine V) (l : List β) (a : α)
    (h : ∀ a b, Aside (machine a) (machine (f a b))) :
    Aside (machine a) (machine (l.foldl f a)) := by
  induction l generalizing a with
  | nil => exact refl _
  | cons b l ih => exact (h a b).trans (ih (f a b))

/-! ## The effects that do -/

lemma start (hlive : (s.process j).state ≠ .empty) (pid tid : ℕ) :
    Aside s (((s.setProcess j fun p => { p with state := .runnable }).claimActive pid).startThread
      tid) := by
  have hstate : Aside s (s.setProcess j fun p => { p with state := .runnable }) :=
    setState rfl nofun hlive ⟨rfl, rfl, rfl⟩
  refine hstate.trans (trans ?_ (onThread _ _ _))
  unfold claimActive
  split_ifs <;> exact of_tables rfl rfl rfl

lemma stop (hlive : (s.process j).state ≠ .empty) (pid tid main : ℕ) :
    Aside s (((s.setProcess j fun p => { p with state := .stopped }).parkThread
      tid).forgetActive pid
      main) := by
  have hstate : Aside s (s.setProcess j fun p => { p with state := .stopped }) :=
    setState rfl nofun hlive ⟨rfl, rfl, rfl⟩
  exact hstate.trans ((onThread _ _ _).trans (of_tables rfl rfl rfl))

lemma createMainThread (s : Machine V) (j : ℕ) : Aside s (s.createMainThread j).2 := by
  obtain hfail | ⟨i, t, -, -, -, -, -, hcreated⟩ := createMainThread_cases rfl
  · rw [hfail]
    exact refl s
  · rw [hcreated]
    refine trans ?_ (setProcess rfl Iff.rfl ⟨rfl, rfl, rfl⟩)
    exact of_tables rfl rfl rfl

lemma markExited (hlive : (s.process j).state ≠ .empty) (code : ℕ)
    (reason : ProcessTerminationReason) : Aside s (s.markExited j code reason) := by
  rw [markExited_eq]
  refine (onThread s _ _).trans (trans (setState rfl (by simp [markedProcess]) ?_ ⟨rfl, rfl, rfl⟩)
    (of_tables rfl rfl rfl))
  rwa [process, processes_onThread]

lemma cleanupPipeIfUnreferenced (s : Machine V) (id : ℕ) :
    Aside s (s.cleanupPipeIfUnreferenced id).2 := by
  refine cleanupPipeIfUnreferenced_induction (P := Aside s) (fun _ _ h => h.trans ?_)
    (fun _ _ h => h.trans (of_tables rfl rfl rfl)) (refl s)
  exact wakeups (wakePipeWaiters_wakeups _ _ _)

end Aside

lemma Still.aside (h : Still s s') : Aside s s' := by
  obtain ⟨hidle, hvfs⟩ := h
  refine .of_tables hvfs ?_ ?_
  · rw [hidle]
  · rw [hidle]

lemma Switch.aside (hs : Switch s s') : Aside s s' := by
  rw [hs.frame]
  exact .of_tables rfl rfl rfl

/-! ## Quiet routines -/

/-- A routine that leaves processes and descriptors alone: in an orderly state it is a course. -/
structure Quiet (s s' : Machine V) : Prop where
  course : Inv s → Course s s'
  aside : Aside s s'

namespace Quiet

lemma refl (s : Machine V) : Quiet s s := ⟨fun _ => .refl, .refl s⟩

lemma trans (h : Quiet s s') (h' : Quiet s' s'') : Quiet s s'' :=
  ⟨fun hinv => (h.course hinv).trans (h'.course (hinv.course (h.course hinv))),
    h.aside.trans h'.aside⟩

lemma of_effects (he : Effects s s') (ha : Aside s s') : Quiet s s' := ⟨fun _ => he.course, ha⟩

lemma of_wakeups (h : Wakeups s s') : Quiet s s' := of_effects h.effects (.wakeups h)

lemma of_still (h : Still s s') : Quiet s s' :=
  of_effects (.single (.revise (.idle h.1))) h.aside

lemma of_switch (hs : Switch s s') : Quiet s s' := ⟨fun _ => .single (.inr (.inl hs)), hs.aside⟩

lemma describe (hf : Redescribed (s.process j) (f (s.process j)))
    (hfds : (f (s.process j)).fileDescriptors = (s.process j).fileDescriptors) :
    Quiet s (s.setProcess j f) :=
  of_effects (.single (.revise (.describe s hf)))
    (.setProcess hfds (by rw [hf.state]) ⟨hf.pid, hf.root, hf.owns⟩)

end Quiet
end IanOS.Machine
