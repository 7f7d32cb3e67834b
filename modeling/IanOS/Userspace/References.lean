import IanOS.Userspace.Schedulable

/-!
# References to handles

Each open descriptor of the file system is a reference to the handle it names.  The functions of
`Files` move references between the descriptor tables and the hands of the running function: a
handle that has been opened or retained and is in no table yet is pending.  `Kept` says that a file
system that counts references counts those in the tables and those pending.
-/

namespace IanOS

open FileSystem List Option FileDescriptor

/-! ## Descriptor tables -/

variable {fds fds' : List FileDescriptor} {new fd : FileDescriptor} {number : ℕ}

/-- A new descriptor goes into the first entry that is not open. -/
lemma placeDescriptor_eq_some (h : placeDescriptor new fds = some fds') :
    ∃ pre e post, fds = pre ++ e :: post ∧ ¬e.isOpen ∧ fds' = pre ++ new :: post := by
  induction fds generalizing fds' with
  | nil => cases h
  | cons e rest ih =>
    rw [placeDescriptor] at h
    split at h
    · obtain ⟨rest', hrest, rfl⟩ := map_eq_some_iff.1 h
      obtain ⟨pre, e', post, rfl, hclosed, rfl⟩ := ih hrest
      exact ⟨e :: pre, e', post, rfl, hclosed, rfl⟩
    · next hclosed => exact ⟨[], e, rest, rfl, hclosed, (some.inj h).symm⟩

lemma mem_dropNumber (hfd : fd ∈ fds) (hother : ¬ fd.Is number) : fd ∈ dropNumber number fds :=
  mem_map.2 ⟨fd, hfd, if_neg hother⟩

/-- The entry that is looked up is the one that `dropFirst` clears. -/
lemma lookupFd_eq_some (h : lookupFd number fds = some fd) : ∃ pre post, fds = pre ++ fd :: post ∧
    dropFirst number fds = pre ++ {} :: post := by
  induction fds with
  | nil => cases h
  | cons e rest ih =>
    rw [lookupFd, find?_cons] at h
    by_cases he : e.Is number
    · simp only [he, decide_true, some.injEq] at h
      exact ⟨[], rest, by rw [h]; rfl, if_pos he⟩
    · simp only [he, decide_false] at h
      obtain ⟨pre, post, hrest, hdrop⟩ := ih h
      exact ⟨e :: pre, post, congrArg (e :: ·) hrest, (if_neg he).trans (congrArg (e :: ·) hdrop)⟩

/-- The reference an entry holds. -/
def FileDescriptor.references (fd : FileDescriptor) : Multiset ℕ :=
  if fd.isOpen ∧ fd.kind = .vfs then {fd.vfsHandle} else 0

/-- The references a descriptor table holds. -/
def references (fds : List FileDescriptor) : Multiset ℕ := (fds.map FileDescriptor.references).sum

@[simp] lemma references_nil : references [] = 0 := rfl

@[simp] lemma references_cons (fd : FileDescriptor) (fds : List FileDescriptor) :
    references (fd :: fds) = fd.references + references fds := by
  simp [references]

lemma FileDescriptor.references_of_not_isOpen (h : ¬fd.isOpen) : fd.references = 0 :=
  if_neg fun hopen => h hopen.1

lemma FileDescriptor.references_of_kind (h : fd.kind ≠ .vfs) : fd.references = 0 :=
  if_neg fun hopen => h hopen.2

lemma FileDescriptor.references_empty : ({} : FileDescriptor).references = 0 := rfl

lemma references_makePipeDescriptor (number pipeId : ℕ) (writeEnd : Bool) :
    (makePipeDescriptor number pipeId writeEnd).references = 0 := by
  apply references_of_kind
  rw [makePipeDescriptor]
  cases writeEnd <;> simp

lemma mem_of_lookupFd (h : lookupFd number fds = some fd) : fd ∈ fds ∧ fd.Is number := by
  have his := find?_some h
  exact ⟨mem_of_find?_eq_some h, of_decide_eq_true his⟩

lemma references_of_closed (h : ∀ fd ∈ fds, ¬fd.isOpen) : references fds = 0 := by
  induction fds with
  | nil => rfl
  | cons fd fds ih =>
    rw [forall_mem_cons] at h
    rw [references_cons, references_of_not_isOpen h.1, ih h.2, add_zero]

lemma references_le (h : fd ∈ fds) : fd.references ≤ references fds := by
  induction fds with
  | nil => cases h
  | cons e fds ih =>
    rw [references_cons]
    obtain rfl | h := mem_cons.1 h
    · exact le_self_add
    · exact (ih h).trans le_add_self

lemma references_append (l l' : List FileDescriptor) :
    references (l ++ l') = references l + references l' := by
  simp [references]

/-- A new descriptor takes the place of an entry that holds nothing. -/
lemma references_placeDescriptor (h : placeDescriptor new fds = some fds') :
    references fds' = new.references + references fds := by
  obtain ⟨pre, e, post, rfl, hclosed, rfl⟩ := placeDescriptor_eq_some h
  rw [references_append, references_append, references_cons, references_cons,
    references_of_not_isOpen hclosed]
  abel

/-- What the entries of one number hold, and what the others do. -/
lemma references_dropNumber (number : ℕ) (fds : List FileDescriptor) :
    references (fds.filter fun fd => fd.Is number) + references (dropNumber number fds) =
      references fds := by
  induction fds with
  | nil => rfl
  | cons fd fds ih =>
    rw [dropNumber, map_cons, filter_cons, references_cons, references_cons, ← ih, dropNumber]
    by_cases h : fd.Is number
    · rw [if_pos (decide_eq_true h), if_pos h, references_cons, references_empty,
        zero_add, add_assoc]
    · rw [if_neg (by simpa using h), if_neg h]
      exact add_left_comm _ _ _

lemma references_dropFirst (h : lookupFd number fds = some fd) :
    fd.references + references (dropFirst number fds) = references fds := by
  obtain ⟨pre, post, hfds, hdrop⟩ := lookupFd_eq_some h
  rw [hdrop, hfds, references_append, references_append, references_cons, references_cons,
    references_empty]
  abel

/-- Offsets do not matter. -/
lemma references_map {f : FileDescriptor → FileDescriptor}
    (hf : ∀ fd, (f fd).references = fd.references) (fds : List FileDescriptor) :
    references (fds.map f) = references fds := by
  rw [references, references, List.map_map]
  congr 2
  exact funext hf

/-! ## File systems that count references -/

/-- What the manager relies on: `counts v held` says that the file system counts the references
`held`.  There is never a reference to handle 0, which stands for failure. -/
structure CountsReferences {V : Type} [FileSystem V] (counts : V → Multiset ℕ → Prop) : Prop where
  refused {v : V} {held : Multiset ℕ} {path : Path} : counts v held →
    (openPath v path).1 = 0 → counts (openPath v path).2 held
  opened {v : V} {held : Multiset ℕ} {path : Path} : counts v held →
    (openPath v path).1 ≠ 0 →
    counts (openPath v path).2 ((openPath v path).1 ::ₘ held)
  closed {v : V} {held : Multiset ℕ} {id : ℕ} : counts v (id ::ₘ held) → counts (close v id) held
  retained {v : V} {held : Multiset ℕ} {id : ℕ} : counts v held → id ∈ held →
    (retainHandle v id).1 = true →
    counts (retainHandle v id).2 (id ::ₘ held)
  notRetained {v : V} {held : Multiset ℕ} {id : ℕ} : counts v held →
    (retainHandle v id).1 = false → counts (retainHandle v id).2 held
  read {v : V} {held : Multiset ℕ} (id size : ℕ) :
    counts v held → counts (readHandle v id size).2 held
  written {v : V} {held : Multiset ℕ} (id : ℕ) (bytes : List UInt8) : counts v held →
    counts (writeHandle v id bytes).2 held
  sought {v : V} {held : Multiset ℕ} (id offset : ℕ) : counts v held →
    counts (seekHandle v id offset).2 held
  zero {v : V} {held held' : Multiset ℕ} : counts v held → 0 ∈ held → counts v held'

namespace Machine

variable {V : Type} {counts : V → Multiset ℕ → Prop} {v : V}

section
variable [FileSystem V] {refs : Multiset ℕ}

section

variable (hcounts : CountsReferences counts)
include hcounts

lemma counts_releaseHandle
    (h : counts v (fd.references + refs)) : counts (releaseHandle v fd) refs := by
  rw [releaseHandle]
  by_cases hvfs : fd.isOpen ∧ fd.kind = .vfs
  · rw [FileDescriptor.references, if_pos hvfs, Multiset.singleton_add] at h
    split_ifs with hzero
    · exact hcounts.closed h
    have hhandle : fd.vfsHandle = 0 := by
      by_contra hne
      exact hzero ⟨hvfs.1, hvfs.2, hne⟩
    rw [hhandle] at h
    exact hcounts.zero h (Multiset.mem_cons_self _ _)
  · rw [FileDescriptor.references, if_neg hvfs, zero_add] at h
    rwa [if_neg fun hall => hvfs ⟨hall.1, hall.2.1⟩]

lemma counts_foldl_releaseHandle
    (h : counts v (references fds + refs)) : counts (fds.foldl releaseHandle v) refs := by
  induction fds generalizing v with
  | nil => rwa [references_nil, zero_add] at h
  | cons fd fds ih =>
    rw [references_cons, add_assoc] at h
    exact ih (counts_releaseHandle hcounts h)

/-- A copy of a descriptor takes a further reference. -/
lemma counts_retainFor (h : counts v refs)
    (hopen : fd.isOpen) (hheld : fd.references ≤ refs) (hretain : (retainFor v fd).1 = true) :
    counts (retainFor v fd).2 (fd.references + refs) := by
  rw [retainFor] at hretain ⊢
  by_cases hvfs : fd.kind = .vfs
  · have hreference : fd.references = {fd.vfsHandle} := if_pos ⟨hopen, hvfs⟩
    rw [hreference, Multiset.singleton_le] at hheld
    rw [hreference, Multiset.singleton_add]
    by_cases hzero : fd.vfsHandle = 0
    · rw [if_neg fun hall => hall.2 hzero]
      exact hcounts.zero h (hzero ▸ hheld)
    · rw [if_pos ⟨hvfs, hzero⟩] at hretain ⊢
      exact hcounts.retained h hheld hretain
  · rw [references_of_kind hvfs, zero_add]
    rwa [if_neg fun hall => hvfs hall.1]

lemma counts_retainFor_refused (h : counts v refs)
    (hretain : (retainFor v fd).1 = false) : counts (retainFor v fd).2 refs := by
  rw [retainFor] at hretain ⊢
  split_ifs at hretain ⊢
  · exact hcounts.notRetained h hretain

end

end

/-! ## The references of all processes -/

variable {s s' : Machine V} {pending pending' : Multiset ℕ} {j : ℕ}

@[simp] lemma fds_setFds (k : ℕ) : (s.setFds j fds).fds k = if k = j then fds else s.fds k := by
  rw [Machine.fds, setFds, process_setProcess]
  split <;> rfl

variable (s) in
/-- The references the descriptors of all process slots hold. -/
def held : Multiset ℕ := ∑ j ∈ Finset.range kMaxUserProcesses, references (s.fds j)

/-- Changing one process changes what its own descriptors hold. -/
lemma held_setProcess (hj : j < kMaxUserProcesses) (f : Process → Process) :
    (s.setProcess j f).held + references (s.fds j) =
      s.held + references (f (s.process j)).fileDescriptors := by
  have hmem : j ∈ Finset.range kMaxUserProcesses := Finset.mem_range.2 hj
  rw [Machine.held, Machine.held, ← Finset.add_sum_erase _ _ hmem, ← Finset.add_sum_erase _ _ hmem]
  have hself : (s.setProcess j f).fds j = (f (s.process j)).fileDescriptors := by
    rw [fds, process_setProcess, if_pos rfl]
  have hothers : ∑ k ∈ (Finset.range kMaxUserProcesses).erase j,
      references ((s.setProcess j f).fds k) =
        ∑ k ∈ (Finset.range kMaxUserProcesses).erase j, references (s.fds k) := by
    refine Finset.sum_congr rfl fun k hk => ?_
    rw [fds, process_setProcess, if_neg (Finset.ne_of_mem_erase hk), fds]
  rw [hself, hothers]
  ac_rfl

/-- The file system counts the references in the descriptor tables and those pending, and a slot
that is not in use has no open descriptor. -/
structure Kept (counts : V → Multiset ℕ → Prop) (s : Machine V) (pending : Multiset ℕ) : Prop where
  counts : counts s.vfs (s.held + pending)
  bound : s.processes.count ≤ kMaxUserProcesses
  beyond : ∀ j, s.processes.count ≤ j → (s.process j).state = .empty
  clean : ∀ j, (s.process j).state = .empty → ∀ fd ∈ s.fds j, ¬fd.isOpen

namespace Kept

variable {f : Process → Process}

section

variable (h : Kept counts s pending)
include h

/-- A slot in use. -/
lemma lt (hj : (s.process j).state ≠ .empty) : j < kMaxUserProcesses := by
  refine lt_of_lt_of_le ?_ h.bound
  by_contra hle
  exact hj (h.beyond j (not_lt.1 hle))

lemma aside (hs' : Aside s s') : Kept counts s' pending := by
  have hheld : s'.held = s.held := Finset.sum_congr rfl fun j _ => by rw [hs'.fds j]
  refine ⟨?_, hs'.count ▸ h.bound, fun j hj => ?_, fun j hj fd hfd => ?_⟩
  · rw [hs'.vfs, hheld]
    exact h.counts
  · exact (hs'.empty j).2 (h.beyond j (hs'.count ▸ hj))
  · exact h.clean j ((hs'.empty j).1 hj) fd (hs'.fds j ▸ hfd)

/-- The file system changes, and with it what is pending. -/
lemma vfs (hv : counts v (s.held + pending')) :
    Kept counts { s with vfs := v } pending' := ⟨hv, h.bound, h.beyond, h.clean⟩

/-- A process in use gets other descriptors, and what they hold was pending or is now. -/
lemma setProcess (hj : (s.process j).state ≠ .empty)
    (hstate : (f (s.process j)).state ≠ .empty ∨
      ∀ fd ∈ (f (s.process j)).fileDescriptors, ¬fd.isOpen)
    (hmoved : references (f (s.process j)).fileDescriptors + pending' =
      references (s.fds j) + pending) : Kept counts (s.setProcess j f) pending' := by
  have hheld : (s.setProcess j f).held + pending' = s.held + pending := by
    apply add_right_cancel
    rw [add_right_comm, held_setProcess (h.lt hj), add_assoc, hmoved]
    ac_rfl
  refine ⟨hheld ▸ h.counts, h.bound, fun k hk => ?_, fun k hk fd hfd => ?_⟩
  · have hne : k ≠ j := by
      rintro rfl
      exact hj (h.beyond k hk)
    rw [process_setProcess, if_neg hne]
    exact h.beyond k hk
  rw [fds] at hfd
  rw [process_setProcess] at hk hfd
  split at hk
  · next hkj =>
    rw [if_pos hkj, hkj] at hfd
    rw [hkj] at hk
    exact hstate.resolve_left (fun hne => hne hk) fd hfd
  · next hkj =>
    rw [if_neg hkj] at hfd
    exact h.clean k hk fd hfd

lemma setFds (hj : (s.process j).state ≠ .empty)
    (hmoved : references fds + pending' = references (s.fds j) + pending) :
    Kept counts (s.setFds j fds) pending' := h.setProcess hj (.inl hj) hmoved

end

/-- A pending descriptor goes into the table. -/
lemma place (h : Kept counts s (pending' + pending)) (hj : (s.process j).state ≠ .empty)
    (hplace : placeDescriptor new (s.fds j) = some fds) (hnew : new.references = pending')
    (hf : (f (s.process j)).fileDescriptors = fds)
    (hstate : (f (s.process j)).state = (s.process j).state) :
    Kept counts (s.setProcess j f) pending := by
  refine h.setProcess hj (.inl (hstate.trans_ne hj)) ?_
  rw [hf, references_placeDescriptor hplace, hnew]
  exact (add_right_comm _ _ _).trans (add_comm _ _)

section

variable (h : Kept counts s pending)
include h

/-- A record without open descriptors goes into a slot that is not in use. -/
lemma enter {p : Process} (hvfs : s'.vfs = s.vfs)
    (hproc : ∀ k, s'.process k = if k = j then p else s.process k)
    (hj : j < s'.processes.count) (hle : s.processes.count ≤ s'.processes.count)
    (hbound : s'.processes.count ≤ kMaxUserProcesses) (hempty : (s.process j).state = .empty)
    (hclosed : ∀ fd ∈ p.fileDescriptors, ¬fd.isOpen) : Kept counts s' pending := by
  have hheld : s'.held = s.held := by
    refine Finset.sum_congr rfl fun k _ => ?_
    rw [fds, hproc]
    split
    · next hk => rw [hk, references_of_closed hclosed, references_of_closed (h.clean j hempty)]
    · rfl
  refine ⟨?_, hbound, fun k hk => ?_, fun k hk fd hfd => ?_⟩
  · rw [hvfs, hheld]
    exact h.counts
  · rw [hproc, if_neg (by omega)]
    exact h.beyond k (hle.trans hk)
  rw [hproc] at hk
  rw [fds, hproc] at hfd
  split at hk
  · next hkj =>
    rw [if_pos hkj] at hfd
    exact hclosed fd hfd
  · next hkj =>
    rw [if_neg hkj] at hfd
    exact h.clean k hk fd hfd

lemma enterProcess {entry top : Word64} {root : ℕ} {owns : Bool}
    (he : s.enterProcess entry root top owns = some (j, s')) :
    Kept counts s' pending ∧ (s'.process j).state ≠ .empty := by
  rw [Machine.enterProcess] at he
  split at he
  · cases he
  next i processes halloc =>
    obtain ⟨rfl, rfl⟩ := Prod.mk.inj (Option.some.inj he)
    obtain ⟨hslot, hcases⟩ := Table.allocate_eq_some halloc
    have hbound := h.bound
    -- whichever slot it is, it was not in use
    have hempty : (s.process i).state = .empty := by
      obtain ⟨-, hfree, -⟩ | ⟨rfl, -⟩ := hcases
      · exact hfree
      · exact h.beyond _ le_rfl
    have hproc (p : Process) (k : ℕ) :
        (processes.set i p).slot k = if k = i then p else s.process k := by
      rw [Table.slot_set, hslot]
      rfl
    refine ⟨h.enter rfl (hproc _) ?_ ?_ ?_ hempty fun fd hfd => ?_, ?_⟩
    · show i < processes.count
      omega
    · show s.processes.count ≤ processes.count
      omega
    · show processes.count ≤ kMaxUserProcesses
      omega
    · rw [eq_of_mem_replicate hfd]
      decide
    · rw [process, hproc, if_pos rfl]
      rintro ⟨⟩

lemma syncDescriptorOffsets (hj : (s.process j).state ≠ .empty)
    (handle offset : ℕ) : Kept counts (s.syncDescriptorOffsets j handle offset) pending := by
  rw [Machine.syncDescriptorOffsets]
  split
  · exact h
  apply h.setFds hj
  rw [references_map]
  intro fd
  split <;> rfl

/-- A descriptor of a process in use holds one of the references counted. -/
lemma le_held (hj : (s.process j).state ≠ .empty) (hfd : fd ∈ s.fds j) :
    fd.references ≤ s.held + pending :=
  ((references_le hfd).trans (Finset.single_le_sum (f := fun j => references (s.fds j))
    (fun _ _ => Multiset.zero_le _) (Finset.mem_range.2 (h.lt hj)))).trans le_self_add

end

end Kept
end Machine
end IanOS
