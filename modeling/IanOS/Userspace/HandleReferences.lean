import IanOS.Userspace.Mounted
import IanOS.Userspace.Runs

/-!
# Handles are open as long as descriptors name them

In every run of the manager in which nobody else opens, retains or closes handles, the count of an
open handle is the number of open descriptors that name it, over all process slots, and a number is
open exactly when there is such a descriptor.
-/

namespace IanOS.Machine

variable {V : Type} {s : Machine V} {j : ℕ} {fds : List FileDescriptor} [FileSystem V]
  {counts : V → Multiset ℕ → Prop} {pending : Multiset ℕ}

/-- What closing all descriptors leaves of a table. -/
def closedFds (fds : List FileDescriptor) : List FileDescriptor :=
  fds.map fun fd => if fd.isOpen then {} else fd

lemma not_isOpen_closedFds (fd : FileDescriptor) (hfd : fd ∈ closedFds fds) : ¬fd.isOpen := by
  obtain ⟨e, -, rfl⟩ := List.mem_map.1 hfd
  split
  · decide
  · next hclosed => exact hclosed

lemma aside_closeAll (s : Machine V) (j : ℕ) :
    Aside ({ s with vfs := (s.fds j).foldl releaseHandle s.vfs }.setFds j (closedFds (s.fds j)))
      (s.closeAll j) := by
  rw [Machine.closeAll]
  exact Aside.foldl id _ _ fun s id => Aside.cleanupPipeIfUnreferenced s id

lemma fds_closeAll (s : Machine V) (j k : ℕ) :
    (s.closeAll j).fds k = if k = j then closedFds (s.fds j) else s.fds k := by
  rw [(aside_closeAll s j).fds, fds_setFds]
  rfl

namespace Kept

section

variable (hcounts : CountsReferences counts) (h : Kept counts s pending)
include hcounts h

/-! ## Processes -/

lemma createProcess (image : ProcessImage) : Kept counts (s.createProcess image).2 pending := by
  have hspace : Kept counts { s with spaces := Function.update s.spaces image.root image.mapping }
      pending := h.aside (.of_tables rfl rfl rfl)
  rw [Machine.createProcess]
  dsimp only
  split
  · exact hspace
  next j s₁ henter =>
    obtain ⟨hentered, hlive⟩ := hspace.enterProcess henter
    have haside := Aside.createMainThread s₁ j
    have hthread := hentered.aside haside
    split
    · exact hthread
    · exact (installDefaultStandardFds_filed (mt (haside.empty j).1 hlive)).kept hcounts hthread

lemma createProcessStub
    (entry : Word64) (root : ℕ) : Kept counts (s.createProcessStub entry root).2 pending := by
  rw [Machine.createProcessStub]
  split
  · exact h
  split
  · exact h
  · next j s₁ henter =>
    obtain ⟨hentered, hlive⟩ := h.enterProcess henter
    exact (installDefaultStandardFds_filed hlive).kept hcounts hentered

lemma closeAll (hj : (s.process j).state ≠ .empty) :
    Kept counts (s.closeAll j) pending ∧ ((s.closeAll j).process j).state ≠ .empty := by
  have hclosed :
      Kept counts (s.setFds j (closedFds (s.fds j))) (references (s.fds j) + pending) := by
    apply h.setFds hj
    rw [references_of_closed not_isOpen_closedFds, zero_add]
  have hset : ((s.setFds j (closedFds (s.fds j))).process j).state ≠ .empty :=
    (FileSteps.state (.single (step_setFds s j _)) j).trans_ne hj
  refine ⟨(hclosed.release hcounts).aside (aside_closeAll s j), ?_⟩
  exact mt ((aside_closeAll s j).empty j).1 hset

lemma reapExited (pid : ℕ) : Kept counts (s.reapExited pid).2 pending := by
  rw [Machine.reapExited]
  split
  · exact h
  next j hj =>
    split
    · exact h
    obtain ⟨hclosed, hlive⟩ := h.closeAll hcounts (findProcess_eq_some hj).2.2
    have hall (fd : FileDescriptor) (hfd : fd ∈ (s.closeAll j).fds j) : ¬fd.isOpen := by
      rw [fds_closeAll, if_pos rfl] at hfd
      exact not_isOpen_closedFds fd hfd
    dsimp only
    generalize s.closeAll j = s₁ at hclosed hlive hall ⊢
    have haside :
      Aside s₁ (((List.range s₁.threads.count).foldl (reapThread pid) s₁).forgetActivePid
        pid) := by
      refine Aside.trans (Aside.foldl id _ s₁ fun s i => ?_) (.of_tables rfl rfl rfl)
      obtain ⟨threads, tid, hreap, -⟩ := reapThread_eq s pid i
      rw [hreap]
      exact .of_tables rfl rfl rfl
    generalize ((List.range s₁.threads.count).foldl (reapThread pid) s₁).forgetActivePid pid = s₂
      at haside ⊢
    have hall' : ∀ fd ∈ s₂.fds j, ¬fd.isOpen := by
      rwa [haside.fds]
    have hreaped := (hclosed.aside haside).setProcess (f := reapedProcess)
      (mt (haside.empty j).1 hlive) (.inr hall') rfl
    exact hreaped.aside ((updateUserPreemptionGate_still _).aside)

end

end Kept

section Step

variable {β : Type}

/-- The manager is not started again, and other subsystems change the file system only as `rel`
allows. -/
def Undisrupted (rel : V → V → Prop) (s : Machine V) : Op V β → Prop
  | .initializeManager => False
  | .environment vfs _ => rel s.vfs vfs
  | _ => True

variable {rel : V → V → Prop}

/-- Every operation of the manager keeps the references. -/
theorem Kept.exec (hcounts : CountsReferences counts)
    (hrel : ∀ {v v' held}, counts v held → rel v v' → counts v' held) (h : Kept counts s pending)
    (o : Op V β) (ho : s.Undisrupted rel o) : Kept counts (exec o s).2 pending := by
  cases o with
  | initializeManager => exact absurd ho id
  | environment => exact (h.vfs (hrel h.counts ho)).aside (.of_tables rfl rfl rfl)
  | createProcess => exact h.createProcess hcounts _
  | createProcessStub => exact h.createProcessStub hcounts _ _
  | reapExited => exact h.reapExited hcounts _
  | openFile | redirectFile | redirectFileAppend | attachPipeFd | readFile | writeFile | seekFile
  | closeFile | duplicateFile | duplicateFileTo | inheritStandardFds | setCurrentDirectory =>
    exact (files_step s _ rfl).kept hcounts h
  | _ => exact h.aside (quiet_step s _ rfl).aside

end Step

/-! ## Runs from the start -/

/-- What other subsystems may do in between: change the namespace, and whatever lies outside. -/
def ChangesElsewhere (m m' : Mounted) : Prop :=
  ∃ (ops : List NamespaceOp) (out : Outside),
    m' = { m with vfs := m.vfs.performAll ops, out := out }

/-- The manager after `initialize`, on a file system with these nodes; its tables are static, so
they are zero before. -/
def start (s : Machine Mounted) (registrations : List Registration) (out : Outside) :
    Machine Mounted :=
  { s with
    processes := { slot := fun _ => {}, count := 0 }
    vfs := Mounted.booted registrations out }.initializeManager

/-- The number of open descriptors that name a handle, over all process slots. -/
def descriptorsNaming {V : Type} (s : Machine V) (id : ℕ) : ℕ :=
  ∑ j ∈ Finset.range kMaxUserProcesses,
    (s.fds j).countP fun fd => fd.isOpen ∧ fd.kind = .vfs ∧ fd.vfsHandle = id

lemma count_references (fds : List FileDescriptor) (id : ℕ) : (references fds).count id =
    fds.countP fun fd => fd.isOpen ∧ fd.kind = .vfs ∧ fd.vfsHandle = id := by
  induction fds with
  | nil => rfl
  | cons fd fds ih =>
    have hfirst : fd.references.count id =
        if fd.isOpen ∧ fd.kind = .vfs ∧ fd.vfsHandle = id then 1 else 0 := by
      rw [FileDescriptor.references]
      split
      · next hvfs =>
        rw [Multiset.count_singleton]
        simp [hvfs, eq_comm]
      · next hvfs =>
        rw [if_neg fun hall => hvfs ⟨hall.1, hall.2.1⟩, Multiset.count_zero]
    rw [references_cons, Multiset.count_add, ih, List.countP_cons, hfirst, add_comm]
    simp only [decide_eq_true_eq]

lemma count_held {V : Type} (s : Machine V) (id : ℕ) :
    s.held.count id = s.descriptorsNaming id := by
  rw [held, Multiset.count_sum', descriptorsNaming]
  exact Finset.sum_congr rfl fun j _ => count_references _ _

lemma kept_start (s : Machine Mounted) (registrations : List Registration) (out : Outside) :
    Kept Mounted.Counts (s.start registrations out) 0 := by
  have hclosed (j : ℕ) (fd : FileDescriptor) (hfd : fd ∈ (s.start registrations out).fds j) :
      ¬fd.isOpen := by
    have hempty : fd = {} := List.eq_of_mem_replicate hfd
    rw [hempty]
    decide
  have hheld : (s.start registrations out).held = 0 :=
    Finset.sum_eq_zero fun j _ => references_of_closed (hclosed j)
  refine ⟨fun _ => ?_, Nat.zero_le _, fun _ _ => rfl, fun j _ => hclosed j⟩
  rw [hheld]
  exact Vfs.Counts.booted registrations

/-- In every run from the start of the manager without calls on handles by anybody else the
references are kept. -/
lemma kept_run (m : Machine Mounted) (registrations : List Registration) (out : Outside)
    (ops : List (Σ β, Op Mounted β))
    (hops : Run.Allowed step (fun s o => s.Undisrupted ChangesElsewhere o.2)
      (m.start registrations out) ops) :
    Kept Mounted.Counts (ops.foldl step (m.start registrations out)) 0 := by
  refine hops.foldl (P := fun s => Kept Mounted.Counts s 0) (fun s o h ho => ?_)
    (kept_start m registrations out)
  refine h.exec Mounted.countsReferences (fun {v v' held} hcounts hv => ?_) o.2 ho
  obtain ⟨changes, out, rfl⟩ := hv
  exact fun hfew => (hcounts hfew).performAll changes

/-- In every run from the start of the manager with fewer than `2 ^ 32` opens and without calls on
handles by anybody else, the count of an open handle is the number of descriptors that name it, a
number is open exactly when a descriptor names it, and slots not in use have no open descriptor. -/
theorem handles_open_while_named (m : Machine Mounted) (registrations : List Registration)
    (out : Outside) (ops : List (Σ β, Op Mounted β))
    (hops : Run.Allowed step (fun s o => s.Undisrupted ChangesElsewhere o.2)
      (m.start registrations out) ops) :
    let s := ops.foldl step (m.start registrations out)
    s.vfs.opened < 2 ^ 32 →
    (∀ k, s.vfs.vfs.OpenAt k →
      (s.vfs.vfs.handle k).refCount = s.descriptorsNaming (s.vfs.vfs.handle k).id) ∧
    (∀ id, (∃ k, s.vfs.vfs.OpenAt k ∧ (s.vfs.vfs.handle k).id = id) ↔ 0 < s.descriptorsNaming id) ∧
    ∀ j < kMaxUserProcesses, (s.process j).state = .empty → ∀ fd ∈ s.fds j, ¬fd.isOpen := by
  intro s hfew
  have hkept : Kept Mounted.Counts s 0 := kept_run m registrations out ops hops
  have hcounts : Vfs.Counts s.vfs.vfs s.vfs.opened (s.held + 0) := hkept.counts hfew
  rw [add_zero] at hcounts
  refine ⟨fun k hk => ?_, fun id => ?_, fun j _ hj => hkept.clean j hj⟩
  · rw [← count_held]
    exact hcounts.count k hk
  · rw [← count_held, Multiset.count_pos]
    exact (hcounts.mem id).symm

/-- A file system with a terminal. -/
def terminalOnly : List Registration :=
  [.directory [slash] false, .directory (.ascii "/dev") false,
    .characterDevice (.ascii "/dev/tty") .tty]

/-- Standard input is duplicated and closed, and a second process inherits what the first has open.
-/
def inheriting : List (Σ β, Op Mounted β) :=
  [⟨_, .createProcessStub 1 1⟩, ⟨_, .createProcessStub 1 1⟩, ⟨_, .duplicateFile 1 0⟩,
    ⟨_, .closeFile 1 0⟩, ⟨_, .inheritStandardFds 2 1⟩]

/-- Standard output of the two processes is then one handle. -/
theorem handles_open_while_named_inherited :
    let s := inheriting.foldl step (start default terminalOnly default)
    s.vfs.opened = 6 ∧ (s.vfs.vfs.handle 1).refCount = 2 ∧
      (s.vfs.vfs.handle 1).refCount = s.descriptorsNaming (s.vfs.vfs.handle 1).id := by
  intro s
  have hopened : s.vfs.opened = 6 := by decide +kernel
  have hopen : s.vfs.vfs.OpenAt 1 := ⟨by decide +kernel, by decide +kernel⟩
  have hfew : s.vfs.opened < 2 ^ 32 := by
    rw [hopened]
    decide
  obtain ⟨hnamed, -⟩ := handles_open_while_named default terminalOnly default inheriting
    ⟨trivial, trivial, trivial, trivial, trivial, trivial⟩ hfew
  exact ⟨hopened, by decide +kernel, hnamed 1 hopen⟩

end IanOS.Machine
