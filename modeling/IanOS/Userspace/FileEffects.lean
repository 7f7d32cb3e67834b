import IanOS.Userspace.References

/-!
# The descriptor functions as effects

Each function of `Files` is a sequence of effects, and ends with no reference pending that was not
pending before, on its failing paths as well (`Filed`).  Most of the functions change only the file
system and the record of a process (`FileStep`); those that read, write and close also wake threads
(`FileAct`).
-/

namespace IanOS

open Multiset

namespace Machine

variable {V : Type} {s s' s'' : Machine V} {j number : ℕ} {fds : List FileDescriptor}

/-! ## Elementary acts -/

/-- The file system changes, or the record of a process. -/
inductive FileStep : Machine V → Machine V → Prop
  | vfs (s : Machine V) (vfs : V) : FileStep s { s with vfs := vfs }
  | describe (s : Machine V) {j : ℕ} {f : Process → Process}
      (hf : Redescribed (s.process j) (f (s.process j))) : FileStep s (s.setProcess j f)

abbrev FileSteps : Machine V → Machine V → Prop := Relation.ReflTransGen FileStep

/-- The acts of the functions of `Files`. -/
inductive FileAct : Machine V → Machine V → Prop
  | step {s s' : Machine V} (h : FileStep s s') : FileAct s s'
  | memory (s : Machine V) (mem : ℕ → UInt8) : FileAct s { s with mem := mem }
  | read (s : Machine V) {pipeId k n : ℕ} {put : List UInt8 → Machine V → Machine V}
      (hput : OnlyMemory put) (hk : s.findPipe pipeId = some k)
      (hn : (s.pipe k).readOffset + n ≤ (s.pipe k).size) :
      FileAct s ((s.deliver k n put).wakePipeWaiters pipeId false true).2
  | write (s : Machine V) {pipeId k : ℕ} {bytes : List UInt8} (hk : s.findPipe pipeId = some k)
      (hfits : (s.pipe k).size + bytes.length ≤ kPipeCapacity) :
      FileAct s ((s.accept k bytes).wakePipeWaiters pipeId true false).2
  | close (s : Machine V) {j : ℕ} {fds : List FileDescriptor} (ids : List ℕ) :
      FileAct s (ids.foldl (fun s id => (s.cleanupPipeIfUnreferenced id).2) (s.setFds j fds))

abbrev FileActs : Machine V → Machine V → Prop := Relation.ReflTransGen FileAct

lemma FileStep.revision (h : FileStep s s') : Revision s s' := by
  cases h with
  | vfs vfs => exact .idle rfl
  | describe hf => exact .describe s hf

lemma FileAct.effects (h : FileAct s s') : Effects s s' := by
  cases h with
  | step hstep => exact .single (.revise hstep.revision)
  | memory mem => exact .single (.revise (.idle rfl))
  | read hput hk hn =>
    have hopen := (findPipe_eq_some hk).2.2.1
    exact .head (.wakeup (.deliver s hput hopen hn)) (wakePipeWaiters_wakeups _ _ _).effects
  | write hk hfits =>
    have hopen := (findPipe_eq_some hk).2.2.1
    exact .head (.wakeup (.accept s hopen hfits)) (wakePipeWaiters_wakeups _ _ _).effects
  | close ids => exact close_effects ids

lemma FileSteps.files (h : FileSteps s s') : FileActs s s' :=
  h.lift id fun _ _ => .step

lemma FileActs.effects (h : FileActs s s') : Effects s s' := by
  induction h with
  | refl => exact .refl
  | tail _ hlast ih => exact ih.trans hlast.effects

lemma FileSteps.effects (h : FileSteps s s') : Effects s s' :=
  h.files.effects

lemma step_setFds (s : Machine V) (j : ℕ) (fds : List FileDescriptor) :
    FileStep s (s.setFds j fds) :=
  .describe s ⟨rfl, rfl, rfl, fun _ => rfl, rfl, rfl⟩

/-- No process changes its state in a step. -/
lemma FileSteps.state (h : FileSteps s s') (k : ℕ) :
    (s'.process k).state = (s.process k).state := by
  induction h with
  | refl => rfl
  | tail _ hlast ih =>
    cases hlast with
    | vfs => exact ih
    | describe hf =>
      rw [process_setProcess]
      split
      · next hk => rw [hk, hf.state, ← hk, ih]
      · exact ih

lemma createPipe_calm (s : Machine V) : Calm s s.createPipe.2 := by
  rw [createPipe]
  split
  · exact .refl s
  · next k hk =>
    obtain ⟨-, hclosed, -⟩ := Table.find_eq_some.1 hk
    exact ⟨.of_effects (.single (.openPipe s _ _ hclosed)) (.of_tables rfl rfl rfl),
      .of_tables rfl rfl rfl rfl⟩

variable [FileSystem V] {counts : V → Multiset ℕ → Prop} {pending : Multiset ℕ}

/-- Steps or acts that keep the references. -/
structure Filed (R : Machine V → Machine V → Prop) (s s' : Machine V) : Prop where
  acts : Relation.ReflTransGen R s s'
  kept : ∀ {counts : V → Multiset ℕ → Prop} {pending : Multiset ℕ}, CountsReferences counts →
    Kept counts s pending → Kept counts s' pending

namespace Filed

variable {R : Machine V → Machine V → Prop}

lemma refl (s : Machine V) : Filed R s s := ⟨.refl, fun _ h => h⟩

lemma trans (h : Filed R s s') (h' : Filed R s' s'') : Filed R s s'' :=
  ⟨h.acts.trans h'.acts, fun hc hs => h'.kept hc (h.kept hc hs)⟩

lemma files (h : Filed FileStep s s') : Filed FileAct s s' := ⟨FileSteps.files h.acts, h.kept⟩

lemma state (h : Filed FileStep s s') (k : ℕ) : (s'.process k).state = (s.process k).state :=
  FileSteps.state h.acts k

end Filed

/-! ## Moving references -/

lemma Kept.release (hcounts : CountsReferences counts)
    (h : Kept counts s (references fds + pending)) :
    Kept counts { s with vfs := fds.foldl releaseHandle s.vfs } pending := by
  apply h.vfs
  apply counts_foldl_releaseHandle hcounts
  rw [add_left_comm]
  exact h.counts

lemma syncDescriptorOffsets_filed (s : Machine V) (handle offset : ℕ)
    (hj : (s.process j).state ≠ .empty) :
    Filed FileStep s (s.syncDescriptorOffsets j handle offset) := by
  refine ⟨?_, fun _ h => h.syncDescriptorOffsets hj handle offset⟩
  rw [syncDescriptorOffsets]
  split
  · exact .refl
  · exact .single (step_setFds _ _ _)

lemma closeNumber_filed (hj : (s.process j).state ≠ .empty) (number : ℕ) :
    Filed FileStep s (s.closeNumber j number) := by
  refine ⟨.tail (.single (.vfs s _)) (step_setFds _ _ _), fun {counts pending} hcounts h => ?_⟩
  have hdrop : Kept counts (s.setFds j (dropNumber number (s.fds j)))
      (references ((s.fds j).filter fun fd => fd.Is number) + pending) := by
    apply h.setFds hj
    rw [← references_dropNumber number (s.fds j)]
    ac_rfl
  exact hdrop.release hcounts

/-- A handle that is pending goes into the table or is given back. -/
lemma Kept.installVfs {handle : ℕ} (hcounts : CountsReferences counts)
    (h : Kept counts s (handle ::ₘ pending)) (hj : (s.process j).state ≠ .empty) (number : ℕ)
    (path : Path) : Kept counts (s.installVfs j number handle path).2 pending := by
  have hclosed := (closeNumber_filed hj number).kept hcounts h
  rw [Machine.installVfs]
  split
  · next fds hplace =>
    exact hclosed.place (((closeNumber_filed hj number).state j).trans_ne hj) hplace rfl rfl rfl
  apply hclosed.vfs
  apply hcounts.closed
  rw [← add_cons]
  exact hclosed.counts

lemma installVfsDescriptor_filed (hj : (s.process j).state ≠ .empty) (number : ℕ) (path : Path) :
    Filed FileStep s (s.installVfsDescriptor j number path).2 := by
  rw [installVfsDescriptor]
  split
  · next hrefused =>
    exact ⟨.single (.vfs s _), fun hcounts h => h.vfs (hcounts.refused h.counts hrefused)⟩
  next hopened =>
    constructor
    · refine .head (.vfs s (FileSystem.openPath s.vfs path).2) ?_
      have hclosed := (closeNumber_filed
        (s := { s with vfs := (FileSystem.openPath s.vfs path).2 }) hj number).acts
      rw [installVfs]
      split
      · exact hclosed.tail (step_setFds _ _ _)
      · exact hclosed.tail (.vfs _ _)
    · intro counts pending hcounts h
      have hpending : Kept counts { s with vfs := (FileSystem.openPath s.vfs path).2 }
          ((FileSystem.openPath s.vfs path).1 ::ₘ pending) := by
        apply h.vfs
        rw [add_cons]
        exact hcounts.opened h.counts hopened
      exact hpending.installVfs hcounts hj number path

lemma installDefaultStandardFds_filed (hj : (s.process j).state ≠ .empty) :
    Filed FileStep s (s.installDefaultStandardFds j).2 := by
  have hin := installVfsDescriptor_filed hj kStdinFd devTty
  have hj₁ := (hin.state j).trans_ne hj
  have hout := hin.trans (installVfsDescriptor_filed hj₁ kStdoutFd devTty)
  rw [installDefaultStandardFds]
  dsimp only
  split
  · exact hin
  · split
    · exact hout
    · exact hout.trans (installVfsDescriptor_filed ((hout.state j).trans_ne hj) kStderrFd devTty)

/-! ## Opening and seeking -/

lemma openFile_filed (s : Machine V) (pid : ℕ) (path : Path) :
    Filed FileStep s (s.openFile pid path).2 := by
  rw [openFile]
  split
  · exact .refl s
  next j hj =>
    have hlive := (findOwner_eq_some hj).2.1
    split
    · exact .refl s
    next resolved _ =>
      dsimp only
      split
      · next hrefused =>
        exact ⟨.single (.vfs s _), fun hcounts h => h.vfs (hcounts.refused h.counts hrefused)⟩
      next hopened =>
        split
        · exact ⟨.tail (.single (.vfs s _)) (.vfs _ _),
            fun hcounts h => h.vfs (hcounts.closed (hcounts.opened h.counts hopened))⟩
        · next fds hplace =>
          refine ⟨.tail (.single (.vfs s _))
            (.describe _ ⟨rfl, rfl, rfl, fun _ => rfl, rfl, rfl⟩), fun hcounts h => ?_⟩
          have hpending := hcounts.opened h.counts hopened
          rw [← add_cons, ← singleton_add] at hpending
          exact (h.vfs hpending).place hlive hplace rfl rfl rfl

lemma seekFile_filed (s : Machine V) (pid fd offset : ℕ) :
    Filed FileStep s (s.seekFile pid fd offset).2 := by
  rw [seekFile]
  split
  · exact .refl s
  next j hj =>
    have hlive := (findOwner_eq_some hj).2.1
    split
    · exact .refl s
    split
    · exact .refl s
    next e _ _ =>
      have hsought : Filed FileStep s
          { s with vfs := (FileSystem.seekHandle s.vfs e.vfsHandle offset).2 } :=
        ⟨.single (.vfs s _), fun hcounts h => h.vfs (hcounts.sought e.vfsHandle offset h.counts)⟩
      dsimp only
      split
      · exact hsought.trans (syncDescriptorOffsets_filed _ _ _ hlive)
      · exact hsought

lemma redirectFile_filed (s : Machine V) (pid targetFd : ℕ) (path : Path) :
    Filed FileStep s (s.redirectFile pid targetFd path).2 := by
  rw [redirectFile]
  split
  · exact .refl s
  split
  · exact .refl s
  · next j hj =>
    split
    · exact .refl s
    · exact installVfsDescriptor_filed (findOwner_eq_some hj).2.1 _ _

lemma redirectFileAppend_filed (s : Machine V) (pid targetFd : ℕ) (path : Path) :
    Filed FileStep s (s.redirectFileAppend pid targetFd path).2 := by
  have hredirected := redirectFile_filed s pid targetFd path
  rw [redirectFileAppend]
  split
  · exact .refl s
  split
  · exact .refl s
  split
  · exact .refl s
  dsimp only
  split
  · exact hredirected.trans (seekFile_filed _ _ _ _)
  · exact hredirected

/-! ## Pipes, reading and writing -/

lemma attachPipeFd_filed (s : Machine V) (pid targetFd pipeId : ℕ) (writeEnd : Bool) :
    Filed FileAct s (s.attachPipeFd pid targetFd pipeId writeEnd).2 := by
  rw [attachPipeFd]
  split
  · exact .refl s
  split
  · next j _ hj _ =>
    have hlive := (findOwner_eq_some hj).2.1
    have hnumber := closeNumber_filed hlive targetFd
    dsimp only
    generalize hs₁ : (if replacedPipe targetFd (s.fds j) ≠ 0 then _
      else s.closeNumber j targetFd) = s₁
    have hclosed : Filed FileAct s s₁ ∧ (s₁.process j).state ≠ .empty := by
      have hlive' := (hnumber.state j).trans_ne hlive
      rw [← hs₁]
      split
      · have haside := Aside.cleanupPipeIfUnreferenced (s.closeNumber j targetFd)
          (replacedPipe targetFd (s.fds j))
        refine ⟨⟨.tail (.single (.step (.vfs s _))) (.close _ [_]), fun hcounts h => ?_⟩,
          mt (haside.empty j).1 hlive'⟩
        exact (hnumber.kept hcounts h).aside haside
      · exact ⟨hnumber.files, hlive'⟩
    obtain ⟨hclosed, hlive'⟩ := hclosed
    split
    · next fds hplace =>
      refine hclosed.trans ⟨.single (.step (step_setFds _ _ _)), fun {counts pending} _ h => ?_⟩
      rw [← zero_add pending] at h
      exact h.place hlive' hplace (references_makePipeDescriptor _ _ _) rfl rfl
    · exact hclosed
  · exact .refl s

lemma readFile_filed (s : Machine V) (pid fd buffer size : ℕ) :
    Filed FileAct s (s.readFile pid fd buffer size).2 := by
  rw [readFile]
  split
  · exact .refl s
  next j hj =>
    have hlive := (findOwner_eq_some hj).2.1
    split
    · exact .refl s
    split
    · exact .refl s
    next e _ =>
      split
      · refine Filed.trans ⟨.tail (.single (.step (.vfs s _))) (.memory _ _), fun hcounts h => ?_⟩
          (Filed.files (syncDescriptorOffsets_filed _ _ _ (by exact hlive)))
        exact (h.vfs (hcounts.read e.vfsHandle size h.counts)).aside (.storeUser _ _ _)
      · split
        · exact .refl s
        · next k hk =>
          split
          · exact .refl s
          · refine ⟨.single (.read s (onlyMemory_storeUser buffer) hk (by omega)), fun _ h => ?_⟩
            refine h.aside (.trans ?_ (.wakeups (wakePipeWaiters_wakeups _ _ _)))
            exact .of_tables rfl rfl rfl
      · exact .refl s

lemma writeFile_filed (s : Machine V) (pid fd buffer size : ℕ) :
    Filed FileAct s (s.writeFile pid fd buffer size).2 := by
  rw [writeFile]
  split
  · exact .refl s
  next j hj =>
    have hlive := (findOwner_eq_some hj).2.1
    split
    · exact .refl s
    split
    · exact .refl s
    next e _ =>
      split
      · refine Filed.trans ⟨.single (.step (.vfs s _)), fun hcounts h => ?_⟩
          (Filed.files (syncDescriptorOffsets_filed _ _ _ (by exact hlive)))
        exact h.vfs (hcounts.written e.vfsHandle _ h.counts)
      · split
        · exact .refl s
        split
        · exact .refl s
        · next k hk =>
          split
          · exact .refl s
          · refine ⟨.single (.write s hk ?_), fun _ h => ?_⟩
            · rw [List.length_map, List.length_range]
              omega
            · refine h.aside (.trans ?_ (.wakeups (wakePipeWaiters_wakeups _ _ _)))
              exact .of_tables rfl rfl rfl
      · exact .refl s

/-! ## Closing and duplicating -/

lemma closeFile_filed (s : Machine V) (pid fd : ℕ) :
    Filed FileAct s (s.closeFile pid fd).2 := by
  rw [closeFile]
  split
  · exact .refl s
  next j hj =>
    have hlive := (findProcess_eq_some hj).2.2
    split
    · exact .refl s
    next e he =>
      have hreleased {counts : V → Multiset ℕ → Prop} {pending : Multiset ℕ}
          (hcounts : CountsReferences counts) (h : Kept counts s pending) := by
        have hdrop :
            Kept counts (s.setFds j (dropFirst fd (s.fds j))) (references [e] + pending) := by
          apply h.setFds hlive
          rw [← references_dropFirst he, references_cons, references_nil, add_zero]
          ac_rfl
        exact hdrop.release hcounts
      split
      · exact ⟨.tail (.single (.step (.vfs s _))) (.close _ [e.pipeId]),
          fun hcounts h => (hreleased hcounts h).aside (Aside.cleanupPipeIfUnreferenced _ _)⟩
      · exact ⟨.tail (.single (.step (.vfs s _))) (.close _ []), hreleased⟩

lemma duplicateFile_filed (s : Machine V) (pid sourceFd : ℕ) :
    Filed FileStep s (s.duplicateFile pid sourceFd).2 := by
  rw [duplicateFile]
  split
  · exact .refl s
  next j hj =>
    have hlive := (findOwner_eq_some hj).2.1
    split
    · exact .refl s
    next source hsrc =>
      obtain ⟨hmem, hopen, -⟩ := mem_of_lookupFd hsrc
      dsimp only
      split
      · exact .refl s
      next fds hplace =>
        have hcounter (s : Machine V) (n : ℕ) :
            FileStep s (s.setProcess j fun p => { p with nextFd := n }) :=
          .describe s ⟨rfl, rfl, rfl, fun _ => rfl, rfl, rfl⟩
        split
        · next hretain =>
          refine ⟨.tail (.tail (.single (.vfs s _)) (hcounter _ _)) (step_setFds _ _ _),
            fun hcounts h => ?_⟩
          have hretained := counts_retainFor hcounts h.counts hopen (h.le_held hlive hmem) hretain
          rw [add_left_comm] at hretained
          rw [Machine.setFds, Machine.setProcess, Machine.setProcess, Table.modify_modify]
          exact (h.vfs hretained).place hlive hplace rfl rfl rfl
        · next hretain =>
          refine ⟨.tail (.single (.vfs s _)) (hcounter _ _), fun hcounts h => ?_⟩
          have hrefused := counts_retainFor_refused hcounts h.counts (Bool.eq_false_iff.2 hretain)
          exact (h.vfs hrefused).setProcess hlive (.inl hlive) rfl

lemma duplicateFileTo_filed (s : Machine V) (pid sourceFd targetFd : ℕ) :
    Filed FileStep s (s.duplicateFileTo pid sourceFd targetFd).2 := by
  rw [duplicateFileTo]
  split
  · exact .refl s
  split
  · exact .refl s
  next j hj =>
    have hlive := (findOwner_eq_some hj).2.1
    split
    · exact .refl s
    next source hsrc =>
      obtain ⟨hmem, hopen, hnumber⟩ := mem_of_lookupFd hsrc
      split
      · exact .refl s
      next hne =>
        have hclosed := closeNumber_filed hlive targetFd
        have hlive' := (hclosed.state j).trans_ne hlive
        -- the source has another number, so it is still open
        have hmem' : source ∈ (s.closeNumber j targetFd).fds j := by
          rw [closeNumber, fds_setFds, if_pos rfl]
          exact mem_dropNumber hmem fun his => hne (hnumber.symm.trans his.2)
        dsimp only
        split
        · exact hclosed
        next fds hplace =>
          split
          · next hretain =>
            refine hclosed.trans ⟨.tail (.single (.vfs _ _))
              (.describe _ ⟨rfl, rfl, rfl, fun _ => rfl, rfl, rfl⟩), fun hcounts h => ?_⟩
            have hretained :=
              counts_retainFor hcounts h.counts hopen (h.le_held hlive' hmem') hretain
            rw [add_left_comm] at hretained
            exact (h.vfs hretained).place hlive' hplace rfl rfl rfl
          · next hretain =>
            refine hclosed.trans ⟨.single (.vfs _ _), fun hcounts h => ?_⟩
            exact h.vfs (counts_retainFor_refused hcounts h.counts (Bool.eq_false_iff.2 hretain))

/-! ## Inheriting -/

/-- Making the child's descriptor touches at most the file system. -/
lemma inheritedDescriptor_vfs (s : Machine V) (number : ℕ) (source : FileDescriptor) :
    ∃ vfs, (s.inheritedDescriptor number source).2 = { s with vfs := vfs } := by
  rw [inheritedDescriptor]
  split
  · split
    · exact ⟨s.vfs, rfl⟩
    · dsimp only
      split <;> exact ⟨_, rfl⟩
  · split <;> exact ⟨s.vfs, rfl⟩
  · split <;> exact ⟨s.vfs, rfl⟩
  · exact ⟨s.vfs, rfl⟩

/-- The child's descriptor is made with a reference of its own, or nothing is pending. -/
lemma Kept.inheritedDescriptor {source : FileDescriptor} (hcounts : CountsReferences counts)
    (h : Kept counts s pending) (number : ℕ)
    (hsrc : source.kind = .vfs → source.vfsHandle ∈ s.held + pending) :
    (∃ inherited, (s.inheritedDescriptor number source).1 = some (some inherited) ∧
      Kept counts (s.inheritedDescriptor number source).2 (inherited.references + pending)) ∨
    ((∀ inherited, (s.inheritedDescriptor number source).1 ≠ some (some inherited)) ∧
      Kept counts (s.inheritedDescriptor number source).2 pending) := by
  have hpipe (pipeId : ℕ) (writeEnd : Bool) :
      Kept counts s ((makePipeDescriptor number pipeId writeEnd).references + pending) := by
    rwa [references_makePipeDescriptor, zero_add]
  rw [Machine.inheritedDescriptor]
  split
  · next hkind =>
    split
    · exact .inr ⟨by simp, h⟩
    dsimp only
    split
    · next hretain =>
      have hretained := hcounts.retained h.counts (hsrc hkind) hretain
      rw [← add_cons, ← singleton_add] at hretained
      exact .inl ⟨_, rfl, h.vfs hretained⟩
    · next hretain =>
      exact .inr ⟨by simp, h.vfs (hcounts.notRetained h.counts (Bool.eq_false_iff.2 hretain))⟩
  · split
    · exact .inr ⟨by simp, h⟩
    · exact .inl ⟨_, rfl, hpipe _ _⟩
  · split
    · exact .inr ⟨by simp, h⟩
    · exact .inl ⟨_, rfl, hpipe _ _⟩
  · exact .inr ⟨by simp, h⟩

section

variable {child parent : ℕ} (hchild : (s.process child).state ≠ .empty)
  (hparent : (s.process parent).state ≠ .empty)
include hchild hparent

/-- One round of the loop. -/
lemma inheritFd_filed (number : ℕ) : Filed FileStep s (s.inheritFd child parent number).2 := by
  rw [inheritFd]
  split
  · exact .refl s
  next source hsrc =>
    obtain ⟨hmem, hopen, -⟩ := mem_of_lookupFd hsrc
    have hclosed := closeNumber_filed hchild number
    have hheld {counts : V → Multiset ℕ → Prop} {pending : Multiset ℕ}
        (h : Kept counts (s.closeNumber child number) pending) :
        (if child = parent then {} else source : FileDescriptor).kind = .vfs →
        (if child = parent then {} else source : FileDescriptor).vfsHandle ∈
          (s.closeNumber child number).held + pending := by
      split
      · rintro ⟨⟩
      next hne =>
        intro hkind
        have hmem' : source ∈ (s.closeNumber child number).fds parent := by
          rwa [closeNumber, fds_setFds, if_neg (Ne.symm hne)]
        have hle := h.le_held ((hclosed.state parent).trans_ne hparent) hmem'
        rwa [FileDescriptor.references, if_pos ⟨hopen, hkind⟩, singleton_le] at hle
    obtain ⟨vfs, hvfs⟩ := inheritedDescriptor_vfs (s.closeNumber child number) number
      (if child = parent then {} else source)
    have hmade := hclosed.acts.tail (.vfs _ vfs)
    rw [← hvfs] at hmade
    have hkept {counts : V → Multiset ℕ → Prop} {pending : Multiset ℕ}
        (hcounts : CountsReferences counts) (h : Kept counts s pending) :=
      (hclosed.kept hcounts h).inheritedDescriptor hcounts number (hheld (hclosed.kept hcounts h))
    dsimp only
    generalize (s.closeNumber child number).inheritedDescriptor number
      (if child = parent then {} else source) = r at hmade hkept ⊢
    obtain ⟨o, s₁⟩ := r
    dsimp only at hmade hkept ⊢
    have hlive := (FileSteps.state hmade child).trans_ne hchild
    -- without a descriptor nothing is pending
    have hnone (ho : ∀ inherited, o ≠ some (some inherited)) : Filed FileStep s s₁ := by
      refine ⟨hmade, fun hcounts h => ?_⟩
      obtain ⟨inherited, hsome, -⟩ | ⟨-, hpending⟩ := hkept hcounts h
      · exact absurd hsome (ho inherited)
      · exact hpending
    split
    · exact hnone (by simp)
    · exact hnone (by simp)
    · next inherited =>
      have hsome {counts : V → Multiset ℕ → Prop} {pending : Multiset ℕ}
          (hcounts : CountsReferences counts) (h : Kept counts s pending) :
          Kept counts s₁ (inherited.references + pending) := by
        obtain ⟨_, hsome, hpending⟩ | ⟨hnone, -⟩ := hkept hcounts h
        · cases hsome
          exact hpending
        · exact absurd rfl (hnone _)
      split
      · next fds hplace =>
        exact ⟨hmade.tail (step_setFds _ _ _),
          fun hcounts h => (hsome hcounts h).place hlive hplace rfl rfl rfl⟩
      · refine ⟨hmade.tail (.vfs _ _), fun hcounts h => ?_⟩
        have hpending := hsome hcounts h
        rw [← add_zero inherited.references, ← references_nil, ← references_cons] at hpending
        exact hpending.release hcounts

lemma inheritFds_filed (numbers : List ℕ) :
    Filed FileStep s (inheritFds child parent numbers s).2 := by
  induction numbers generalizing s with
  | nil => exact .refl s
  | cons number rest ih =>
    have hfirst := inheritFd_filed hchild hparent number
    rw [inheritFds]
    split
    · exact hfirst.trans
        (ih ((hfirst.state child).trans_ne hchild) ((hfirst.state parent).trans_ne hparent))
    · exact hfirst

end

lemma inheritStandardFds_filed (s : Machine V) (childPid parentPid : ℕ) :
    Filed FileStep s (s.inheritStandardFds childPid parentPid).2 := by
  rw [inheritStandardFds]
  split
  · next child parent hchild hparent =>
    exact inheritFds_filed (findOwner_eq_some hchild).2.1 (findOwner_eq_some hparent).2.1 _
  · exact .refl s

/-! ## The current directory -/

lemma setCurrentDirectory_filed (s : Machine V) (pid : ℕ) (path : Path) :
    Filed FileStep s (s.setCurrentDirectory pid path).2 := by
  rw [setCurrentDirectory]
  split
  · exact .refl s
  split
  · exact .refl s
  · split
    · exact ⟨.single (.describe s ⟨rfl, rfl, rfl, fun _ => rfl, rfl, rfl⟩),
        fun _ h => h.aside (Aside.setProcess rfl Iff.rfl ⟨rfl, rfl, rfl⟩)⟩
    · exact .refl s

end Machine
end IanOS
