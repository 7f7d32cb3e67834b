import IanOS.Lifecycle.Creation
import IanOS.Loader.ProcessImage
import IanOS.Userspace.Residence

/-!
# Reaping a process

`reap_exited` as a whole: the descriptors are closed, the tracked pages and the address space are
given back, and the slots of the threads and of the process are cleared.  The tables of the lower
half and the tracked pages are all that was taken from the allocator for a process whose pages lie
there, so the allocator has the pages again that it had before the process was created.
-/

namespace IanOS

open Paging Loader List Machine

/-- `reap_exited`. -/
def Kernel.reapExited (k : Kernel) (pid : ℕ) : Bool × Kernel :=
  match k.machine.findProcess pid with
  | none => (false, k)
  | some j =>
    let process := k.machine.process j
    if process.state ≠ .exited then (false, k)
    else
      let r := k.machine.reapExited pid
      let memory := (k.owned j).foldl (fun s o => s.freePage o.phys.toNat) k.memory
      let memory :=
        if process.ownsAddressSpace ∧ process.addressSpaceRoot ≠ 0 then
          (memory.destroyAddressSpace (BitVec.ofNat 64 process.addressSpaceRoot)).2
        else memory
      (r.1, { k with machine := r.2, memory := memory, owned := Function.update k.owned j [] })

/-! ## The slots -/

namespace Machine

variable {V : Type} {s s' : Machine V} {i j : ℕ}

lemma Woken.thread_pid (h : Woken s s') (i : ℕ) : (s'.thread i).pid = (s.thread i).pid := by
  obtain hsame | ⟨-, value, error, hdone⟩ := h.thread i
  · rw [hsame]
  · rw [hdone]
    rfl

/-- No thread has come or gone. -/
structure SameThreads (s s' : Machine V) : Prop where
  count : s'.threads.count = s.threads.count
  pid : ∀ i, (s'.thread i).pid = (s.thread i).pid

lemma SameThreads.of_woken (h : Woken s s') : SameThreads s s' := ⟨h.threadCount, h.thread_pid⟩

lemma SameThreads.trans {s'' : Machine V} (h : SameThreads s s') (h' : SameThreads s' s'') :
    SameThreads s s'' :=
  ⟨h'.count.trans h.count, fun i => (h'.pid i).trans (h.pid i)⟩

lemma SameThreads.wakePipeWaiters (s : Machine V) (id : ℕ) (readers writers : Bool) :
    SameThreads s (s.wakePipeWaiters id readers writers).2 :=
  .of_woken (wakePipeWaiters_wakeups id readers writers).woken

lemma SameThreads.cleanupPipe (s : Machine V) (id : ℕ) :
    SameThreads s (s.cleanupPipeIfUnreferenced id).2 :=
  cleanupPipeIfUnreferenced_induction
    (fun _ _ h => h.trans (wakePipeWaiters _ id _ _)) (fun _ _ h => ⟨h.count, h.pid⟩)
      ⟨rfl, fun _ => rfl⟩

/-- What a reap leaves of the process in slot `j`, its descriptors and its threads. -/
structure Reaped (s : Machine V) (pid j : ℕ) (s' : Machine V) : Prop where
  processCount : s'.processes.count = s.processes.count
  threadCount : s'.threads.count = s.threads.count
  slot : (s'.process j).state = .empty
  closed : ∀ fd ∈ s'.fds j, ¬fd.isOpen
  others : ∀ l ≠ j, s'.fds l = s.fds l
  threads : ∀ i < s.threads.count, (s.thread i).pid = pid → (s'.thread i).state = .empty

variable [FileSystem V]

lemma SameThreads.closeAll (s : Machine V) (j : ℕ) : SameThreads s (s.closeAll j) := by
  exact foldlRecOn _ _ ⟨rfl, fun _ => rfl⟩ fun s' hs' id _ => hs'.trans (cleanupPipe s' id)

lemma reaped_reapExited {pid : ℕ} (hj : s.findProcess pid = some j)
    (hexit : (s.process j).state = .exited) : Reaped s pid j (s.reapExited pid).2 ∧
      (s.reapExited pid).2.vfs = (s.fds j).foldl releaseHandle s.vfs := by
  have hvfs : (s.closeAll j).vfs = (s.fds j).foldl releaseHandle s.vfs := (aside_closeAll s j).vfs
  have hthreads := SameThreads.closeAll s j
  have hprocs : (s.closeAll j).processes.count = s.processes.count := (aside_closeAll s j).count
  have hfds := fds_closeAll s j
  rw [reapExited]
  simp only [hj]
  rw [if_neg (not_not.2 hexit)]
  generalize s.closeAll j = s₁ at hvfs hthreads hprocs hfds ⊢
  have hthread := thread_foldl_reapThread (s := s₁) pid (range s₁.threads.count)
  obtain ⟨threads, tid, hreap, hcount⟩ := s₁.foldl_reapThread_eq pid (range s₁.threads.count)
  rw [hreap] at hthread ⊢
  generalize hs₂ : (forgetActivePid { s₁ with
    threads := threads, activeTid := tid } pid).setProcess j
    reapedProcess = s₂
  have hslot (l : ℕ) :
      s₂.process l = if l = j then reapedProcess (s₁.process l) else s₁.process l := by
    rw [← hs₂]
    exact process_setProcess _
  have hsame (l : ℕ) : s₂.fds l = s₁.fds l := by
    rw [fds, hslot]
    split <;> rfl
  have hstill := updateUserPreemptionGate_still s₂
  have haside := hstill.aside
  have hthreads₂ : s₂.updateUserPreemptionGate.2.threads = threads := by
    rw [hstill.1, ← hs₂]
    rfl
  have hvfs₂ : s₂.vfs = s₁.vfs := by rw [← hs₂]; rfl
  refine ⟨⟨?_, ?_, (haside.empty j).2 ?_, fun fd hfd => ?_, fun l hl => ?_, fun i hi hpid => ?_⟩,
    haside.vfs.trans (hvfs₂.trans hvfs)⟩
  · rwa [haside.count, ← hs₂]
  · rw [hthreads₂, hcount, hthreads.count]
  · rw [hslot, if_pos rfl]
    rfl
  · rw [haside.fds, hsame, hfds, if_pos rfl] at hfd
    exact not_isOpen_closedFds fd hfd
  · rw [haside.fds, hsame, hfds, if_neg hl]
  rw [thread, hthreads₂]
  have hclear : threads.slot i = _ := hthread i
  rw [hclear]
  split
  · rfl
  · next hkept =>
    exact not_not.1 fun hlive => hkept
      ⟨mem_range.2 (hthreads.count ▸ hi), (hthreads.pid i).trans hpid, hlive⟩

end Machine

/-- The descriptors in a table that name a handle. -/
def naming (id : ℕ) (fds : List FileDescriptor) : ℕ :=
  fds.countP fun fd => fd.isOpen ∧ fd.kind = .vfs ∧ fd.vfsHandle = id

/-- The loop of `reap_exited` over the descriptors gives back one reference for each. -/
lemma references_releaseHandles {m : Mounted} (h : m.vfs.DistinctHandles)
    (fds : List FileDescriptor)
    (id : ℕ) :
    (fds.foldl releaseHandle m).vfs.references id = m.vfs.references id - naming id fds := by
  induction fds generalizing m with
  | nil => rfl
  | cons fd fds ih =>
    have hfirst :
      (releaseHandle m fd).vfs.DistinctHandles ∧ (releaseHandle m fd).vfs.references id =
        m.vfs.references id - if fd.isOpen ∧ fd.kind = .vfs ∧ fd.vfsHandle = id then 1 else 0 := by
      rw [releaseHandle]
      split
      · next hclose =>
        refine ⟨h.close fd.vfsHandle, (Vfs.references_close h fd.vfsHandle id).trans ?_⟩
        simp [hclose, eq_comm]
      · next hkeep =>
        refine ⟨h, ?_⟩
        split
        · next hnames =>
          -- there is no handle with the number 0
          have hzero : id = 0 := by
            by_contra hne
            exact hkeep ⟨hnames.1, hnames.2.1, hnames.2.2 ▸ hne⟩
          rw [hzero]
          rfl
        · rfl
    rw [foldl_cons, ih hfirst.1, hfirst.2, naming, naming, countP_cons, Nat.sub_sub, add_comm]
    simp only [decide_eq_true_eq]

/-! ## The pages -/

namespace Paging.State

open LinkTree (walk)

variable {s s' : State} {root : ℕ} {start : PhysicalMemoryManager} {owned : Finset ℕ}

/-- Writes elsewhere than on the tables do not change them. -/
lemma walk_of_samePages (hroot : root % kPageSize = 0)
    (hsame : ∀ page, TablePage s root page → SamePage s s' page) {q : List (Fin 512)} (hq : Low q) :
    walk s'.link root q = walk s.link root q := by
  induction q using reverseRecOn with
  | nil => rfl
  | append_singleton p i ih =>
    have hp : Low p := hq.within p i [] rfl
    cases hn : walk s.link root p with
    | none =>
      rw [LinkTree.walk_append, LinkTree.walk_append, ih hp, hn, Option.bind_none, Option.bind_none]
    | some n =>
      have hmul : n / kPageSize * kPageSize = n :=
        Nat.div_mul_cancel (Nat.dvd_of_mod_eq_zero (walk_mod hroot hn))
      have hentry := hsame (n / kPageSize) ⟨p, hp, by rw [hn, hmul]⟩ i
      rw [hmul] at hentry
      rw [walk_concat, walk_concat, cellAt_of_walk hn, cellAt_of_walk ((ih hp).trans hn), hentry]

lemma Accounted.of_samePages (h : Accounted start owned s root) (hroot : root % kPageSize = 0)
    (hpmm : s'.pmm = s.pmm) (hsame : ∀ page, TablePage s root page → SamePage s s' page) :
    Accounted start owned s' root := by
  refine ⟨hpmm ▸ h.inv, hpmm ▸ h.total, fun page => ?_⟩
  rw [h.pages, hpmm, tablePage_congr fun q hq => walk_of_samePages hroot hsame hq]

end Paging.State

namespace Loader

open Paging.State

variable {s s' : Paging.State} {root : Word64} {start : PhysicalMemoryManager}
    {owned : List OwnedPage}

/-- The loop of `reap_exited` over the tracked pages. -/
lemma releases_owned (hinv : s.pmm.Inv)
    (howned : ∀ o ∈ owned, o.phys.toNat % kPageSize = 0 ∧ Managed s (o.phys.toNat / kPageSize)) :
    Releases s (fun page => page ∈ ownedPages owned)
      (owned.foldl (fun s o => s.freePage o.phys.toNat) s) := by
  have hloop := Releases.foldl hinv fun o ho t _ hinv' htotal => by
      obtain ⟨halign, hlow, hhigh⟩ := howned o ho
      exact Releases.freePage hinv' halign ⟨hlow, htotal ▸ hhigh⟩
  refine hloop.congr fun page => ?_
  rw [ownedPages, mem_toFinset, mem_map]
  refine exists_congr fun o => and_congr_right fun ho => ?_
  have halign := (howned o ho).1
  simp only [kPageSize] at halign ⊢
  omega

lemma releases_process (hroot : root ≠ 0) (htable : table root = root.toNat) (hinv : s.pmm.Inv)
    (howned : ∀ o ∈ owned, o.phys.toNat % kPageSize = 0 ∧ Managed s (o.phys.toNat / kPageSize))
    (htables : ∀ page, TablePage s (table root) page → Managed s page) :
    Releases s (fun page => page ∈ ownedPages owned ∨ TablePage s (table root) page)
      ((owned.foldl (fun s o => s.freePage o.phys.toNat) s).destroyAddressSpace root).2 := by
  have hpages := releases_owned hinv howned
  generalize owned.foldl (fun s o => s.freePage o.phys.toNat) s = t at hpages ⊢
  have hsame (page : ℕ) : TablePage t (table root) page ↔ TablePage s (table root) page :=
    tablePage_congr (fun q _ => by rw [link_of_words hpages.words]) page
  have hspace := releases_destroyAddressSpace hroot htable hpages.inv fun page hpage => by
    obtain ⟨hlow, hhigh⟩ := htables page ((hsame page).1 hpage)
    exact ⟨hlow, by rwa [hpages.total]⟩
  exact (hpages.trans hspace).congr fun page => or_congr_right (hsame page)

section

variable (h : Sound start root owned s) (hstart : start.Inv) (hroot : root ≠ 0)
  (htable : table root = root.toNat) (hpmm : s'.pmm = s.pmm)
  (hsame : ∀ page, TablePage s (table root) page → SamePage s s' page)
include h hstart hroot htable hpmm hsame

lemma Sound.mem_freeSet_released {other : List OwnedPage}
    (hother : ∀ o ∈ other, o.phys.toNat % kPageSize = 0 ∧ Managed s (o.phys.toNat / kPageSize))
    (page : ℕ) :
    page ∈ (((other ++ owned).foldl (fun s o => s.freePage o.phys.toNat) s').destroyAddressSpace
      root).2.pmm.freeSet ↔ page ∈ start.freeSet ∨ page ∈ ownedPages other := by
  have hacc := h.accounted.of_samePages h.tables.aligned hpmm hsame
  have hmanaged {page : ℕ} (hpage : page ∈ start.freeSet) : Managed s' page := by
    obtain ⟨hlow, hhigh⟩ := hstart.free_range page hpage
    exact ⟨hlow, by rwa [hacc.total]⟩
  have hframes (o : OwnedPage) (ho : o ∈ other ++ owned) :
      o.phys.toNat % kPageSize = 0 ∧ Managed s' (o.phys.toNat / kPageSize) := by
    rcases mem_append.1 ho with ho | ho
    · obtain ⟨halign, hlow, hhigh⟩ := hother o ho
      exact ⟨halign, hlow, hpmm ▸ hhigh⟩
    · have hmem : o.phys.toNat / kPageSize ∈ ownedPages owned :=
        mem_toFinset.2 (mem_map.2 ⟨o, ho, rfl⟩)
      exact ⟨(h.frames o ho).aligned, hmanaged ((hacc.pages _).2 (.inr (.inr hmem)))⟩
  have hreleased := releases_process hroot htable hacc.inv hframes
    fun page hpage => hacc.managed hstart hpage
  have happend : page ∈ ownedPages (other ++ owned) ↔
      page ∈ ownedPages other ∨ page ∈ ownedPages owned := by
    rw [ownedPages, map_append, toFinset_append, Finset.mem_union, ownedPages, ownedPages]
  rw [hreleased.free, hacc.pages, happend]
  simp only [or_assoc, or_comm, or_left_comm]

/-- A process whose pages are all accounted for leaves the free pages as they were. -/
lemma Sound.freeSet_released
    :
    ((owned.foldl (fun s o => s.freePage o.phys.toNat) s').destroyAddressSpace root).2.pmm.freeSet =
      start.freeSet := by
  ext page
  rw [← nil_append owned, h.mem_freeSet_released hstart hroot htable hpmm hsame
    fun o ho => absurd ho not_mem_nil]
  exact or_iff_left (Finset.notMem_empty page)

end

end Loader
end IanOS
