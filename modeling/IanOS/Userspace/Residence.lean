import IanOS.Userspace.HandleReferences

/-!
# Where a process lives

From its creation until it is reaped a process keeps its slot and its address space, and its
identifier is not given out again.  So whoever finds a process with this identifier later has found
this process.
-/

namespace IanOS.Machine

variable {V : Type} {s s' : Machine V} {j pid root : ℕ}

/-! ## Processes come and go -/

lemma Lodged.of_steps (h : FileSteps s s') : Lodged s s' := by
  induction h with
  | refl => exact .of_processes rfl rfl
  | tail _ hlast ih => exact ih.trans hlast.revision.lodged

/-- A transition leaves the slots as they are, or a process comes, or one goes. -/
inductive Lodging (s : Machine V) : Machine V → Prop
  | stay {s' : Machine V} (h : Lodged s s') : Lodging s s'
  | enter {s' : Machine V} {j root : ℕ} {entry top : Word64} {owns : Bool}
      (h : s.enterProcess entry root top owns = some (j, s')) : Lodging s s'
  | leave {j : ℕ} (hj : j < s.processes.count) (hlive : (s.process j).state ≠ .empty) :
      Lodging s ((s.forgetActivePid (s.process j).pid).setProcess j reapedProcess)

lemma Effect.lodging (h : Effect s s') : Lodging s s' := by
  cases h with
  | revise hrevision => exact .stay hrevision.lodged
  | wakeup hwakeup => exact .stay (Aside.wakeups (.single hwakeup)).toLodged
  | openPipe | clearPipe | mapSpace | forgetActive => exact .stay (.of_processes rfl rfl)
  | enterProcess henter => exact .enter henter
  | enterThread => exact .stay (Aside.createMainThread s _).toLodged
  | start hj hstate => exact .stay (Aside.start (by rw [hstate]; decide) _ _).toLodged
  | stop hj hstate => exact .stay (Aside.stop (by rw [hstate]; decide) _ _ _).toLodged
  | @«continue» j hj hstate =>
    have haside : Aside s (s.setProcess j fun p => { p with state := .runnable }) :=
      .setState rfl nofun (by rw [hstate]; decide) ⟨rfl, rfl, rfl⟩
    exact .stay haside.toLodged
  | markExited code reason hj hlive => exact .stay (Aside.markExited hlive.1 code reason).toLodged
  | @reapThread pid i =>
    obtain ⟨threads, tid, hreap, -⟩ := reapThread_eq s pid i
    rw [hreap]
    exact .stay (.of_processes rfl rfl)
  | reapProcess hj hstate => exact .leave hj (by rw [hstate]; decide)

/-! ## Tenure -/

/-- The process with this identifier is in slot `j`, with an address space of its own. -/
structure Resident (s : Machine V) (j pid root : ℕ) : Prop where
  slot : j < s.processes.count
  live : (s.process j).state ≠ .empty
  pid : (s.process j).pid = pid
  root : (s.process j).addressSpaceRoot = root
  owns : (s.process j).ownsAddressSpace = true

lemma Resident.lodged (h : Resident s j pid root) (hs : Lodged s s') : Resident s' j pid root := by
  obtain ⟨hpid, hroot, howns⟩ := hs.space j
  exact ⟨hs.count ▸ h.slot, mt (hs.empty j).1 h.live, hpid.trans h.pid, hroot.trans h.root,
    howns.trans h.owns⟩

/-- The identifier has been given out, and the process that got it is in slot `j` or nowhere. -/
structure Tenure (s : Machine V) (j pid root : ℕ) : Prop where
  old : pid < s.nextPid
  place : Resident s j pid root ∨ ∀ k < s.processes.count, (s.process k).state ≠ .empty →
    (s.process k).pid ≠ pid

namespace Tenure

variable {k : ℕ}

section

variable (h : Tenure s j pid root)
include h

lemma lodged (hs : Lodged s s') : Tenure s' j pid root := by
  refine ⟨hs.nextPid ▸ h.old, h.place.imp (fun hres => hres.lodged hs) fun hnone k hk hlive => ?_⟩
  rw [(hs.space k).pid]
  exact hnone k (hs.count ▸ hk) (mt (hs.empty k).2 hlive)

/-- A new process gets a slot that is not in use, and an identifier that has not been given out. -/
lemma enter {root' : ℕ} {entry top : Word64} {owns : Bool}
    (hs : s.enterProcess entry root' top owns = some (k, s')) : Tenure s' j pid root := by
  obtain ⟨p, hpid, -, -, hplaced, hs'⟩ := enterProcess_eq_some hs
  have hnext : s'.nextPid = s.nextPid + 1 := by rw [hs']
  refine ⟨hnext ▸ h.old.trans (Nat.lt_succ_self _), h.place.imp (fun hres => ?_)
    fun hnone l hl hlive => ?_⟩
  · have hne : j ≠ k := by
      rintro rfl
      exact hres.live (hplaced.wasFree hres.slot)
    have hslot := hres.slot.trans_le hplaced.le
    have hsame : s'.process j = s.process j := (hplaced.old j hslot hne).2
    exact ⟨hslot, by rw [hsame]; exact hres.live, by rw [hsame]; exact hres.pid,
      by rw [hsame]; exact hres.root, by rw [hsame]; exact hres.owns⟩
  · by_cases hlk : l = k
    · have hnew : s'.process l = p := by
        rw [hlk]
        exact hplaced.new
      rw [hnew, hpid]
      exact h.old.ne'
    · obtain ⟨hl', hsame⟩ := hplaced.old l hl hlk
      have hsame' : s'.process l = s.process l := hsame
      rw [hsame'] at hlive ⊢
      exact hnone l hl' hlive

/-- If it is the process itself that goes, then there is none with its identifier. -/
lemma leave (hinv : Inv s) :
    Tenure ((s.forgetActivePid (s.process k).pid).setProcess k reapedProcess) j pid root := by
  have hproc (l : ℕ) :
      ((s.forgetActivePid (s.process k).pid).setProcess k reapedProcess).process l =
        if l = k then reapedProcess (s.process l) else s.process l := process_setProcess _
  have hgone (l : ℕ) (hlive : (((s.forgetActivePid (s.process k).pid).setProcess k
      reapedProcess).process l).state ≠ .empty) : l ≠ k ∧ (s.process l).state ≠ .empty := by
    rw [hproc] at hlive
    split at hlive
    · exact absurd rfl hlive
    · next hl => exact ⟨hl, hlive⟩
  refine ⟨h.old, ?_⟩
  obtain hres | hnone := h.place
  · by_cases hjk : j = k
    · refine .inr fun l hl hlive => ?_
      obtain ⟨hlk, hlive'⟩ := hgone l hlive
      rw [hproc, if_neg hlk]
      exact fun hpid =>
        hlk (hjk ▸ hinv.pids l hl j hres.slot hlive' hres.live (hpid.trans hres.pid.symm))
    · have hsame := (hproc j).trans (if_neg hjk)
      exact .inl ⟨hres.slot, by rw [hsame]; exact hres.live, by rw [hsame]; exact hres.pid,
        by rw [hsame]; exact hres.root, by rw [hsame]; exact hres.owns⟩
  · refine .inr fun l hl hlive => ?_
    obtain ⟨hlk, hlive'⟩ := hgone l hlive
    rw [hproc, if_neg hlk]
    exact hnone l hl hlive'

lemma effect (hinv : Inv s) (he : Effect s s') : Tenure s' j pid root := by
  cases he.lodging with
  | stay hs => exact h.lodged hs
  | enter hs => exact h.enter hs
  | leave => exact h.leave hinv

lemma effects (hinv : Inv s) (he : Effects s s') : Tenure s' j pid root := by
  induction he with
  | refl => exact h
  | tail hfirst hlast ih => exact ih.effect (hinv.effects hfirst) hlast

end

variable [FileSystem V] {β : Type} {rel : V → V → Prop}

/-- Every operation but `initialize` keeps a process where it is, unless it is reaped. -/
lemma exec (h : Tenure s j pid root) (hinv : Inv s) (o : Op V β) (ho : s.Undisrupted rel o) :
    Tenure (Machine.exec o s).2 j pid root := by
  by_cases hkeeps : KeepsDescriptors o
  · exact h.lodged (quiet_step s o hkeeps).aside.toLodged
  have hstart : ¬o.starts := by
    cases o <;> first | exact Bool.false_ne_true | exact absurd ho id
  exact h.effects hinv (effects_step hinv o hkeeps hstart)

end Tenure

/-- Whoever finds a process with the identifier has found this one. -/
lemma Tenure.resident (h : Tenure s j pid root) (hinv : Inv s) {k : ℕ}
    (hfind : s.findProcess pid = some k) : k = j ∧ Resident s j pid root := by
  obtain ⟨hk, hpid, hlive⟩ := findProcess_eq_some hfind
  obtain hres | hnone := h.place
  · exact ⟨hinv.pids k hk j hres.slot hlive hres.live (hpid.trans hres.pid.symm), hres⟩
  · exact absurd hpid (hnone k hk hlive)

/-! ## The beginning -/

/-- A process with an address space of its own, when it has got its slot. -/
lemma resident_enterProcess {entry top : Word64}
    (h : s.enterProcess entry root top true = some (j, s')) :
    (∃ t, s.processes.allocate (fun p => p.state = .empty) kMaxUserProcesses = some (j, t)) ∧
      Resident s' j (s'.process j).pid root ∧ (s'.process j).pid < s'.nextPid := by
  rw [enterProcess] at h
  split at h
  · cases h
  next k t halloc =>
    obtain ⟨rfl, rfl⟩ := Prod.mk.inj (Option.some.inj h)
    have hnew := t.slot_set_self k
    refine ⟨⟨t, halloc⟩, ⟨(Table.allocate_placed halloc _).lt, ?_, rfl, ?_, ?_⟩, ?_⟩ <;>
      rw [process, hnew]
    · rintro ⟨⟩
    · exact Nat.lt_succ_self _

/-- A process that has been created is in the slot that was free for it. -/
lemma resident_createProcess [FileSystem V] {image : ProcessImage}
    (h : (s.createProcess image).1 = some pid) :
    ∃ j t, s.processes.allocate (fun p => p.state = .empty) kMaxUserProcesses = some (j, t) ∧
      Resident (s.createProcess image).2 j pid image.root ∧
      pid < (s.createProcess image).2.nextPid := by
  rw [createProcess] at h ⊢
  cases henter : enterProcess { s with spaces := Function.update s.spaces image.root image.mapping }
      image.entry image.root image.userStackTop true with
  | none =>
    simp only [henter] at h
    cases h
  | some r =>
    obtain ⟨j, s₁⟩ := r
    simp only [henter] at h ⊢
    obtain ⟨⟨t, halloc⟩, hres, hold⟩ := resident_enterProcess henter
    have haside := Aside.createMainThread s₁ j
    have hlodged := haside.toLodged.trans (.of_steps (installDefaultStandardFds_filed
      (mt (haside.empty j).1 (enterProcess_live henter))).acts)
    split_ifs at h ⊢ with hthread hinstall
    rw [← Option.some.inj h]
    exact ⟨j, t, halloc, hres.lodged hlodged, hlodged.nextPid ▸ hold⟩

end IanOS.Machine
