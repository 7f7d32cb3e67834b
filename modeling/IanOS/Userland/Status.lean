import IanOS.Userland.JobTable
import Mathlib.Data.List.TakeWhile

/-!
# The status after a job

A pipeline that is run in the foreground leaves the shell as it is when the pipeline is run in the
background and then brought back by `fg`, whichever of its processes names it
(`foreground_eq_fg`).  The two differ in one case only: when a process cannot be waited for, `fg`
sets the status to 126, and the foreground keeps the code of the process before it.

After `fg` or `wait` the status should be the exit code of the last process of the job, and after a
built-in that failed it should not be zero.  The handlers set it so, but then `run_command` sets it
to zero.  So the status is right only when zero is, or when the built-in was not run at all
(`builtin_status_iff`).
-/

namespace IanOS.InitShell

open Option

/-! ## Pipelines -/

/-- The processes up to the first that cannot be waited for are waited for, and the code of the last
of them is kept. -/
lemma Shell.waitMembers_eq (a : Answers) (pids : List ℕ) (status : ℕ) :
    waitMembers a pids status = (pids.all fun pid => (a.wait pid).isSome,
      ((pids.takeWhile fun pid => (a.wait pid).isSome).getLast?.bind a.wait).getD status) := by
  induction pids generalizing status with
  | nil => rfl
  | cons pid pids ih =>
    rw [waitMembers, List.all_cons, List.takeWhile_cons]
    cases hpid : a.wait pid with
    | none => rfl
    | some code =>
      dsimp only [isSome_some]
      rw [ih code, if_pos rfl, List.getLast?_cons, Bool.true_and, bind_some]
      cases hlast : (pids.takeWhile fun pid => (a.wait pid).isSome).getLast? with
      | none => rw [getD_none, hpid, bind_none, getD_none, getD_some]
      | some last =>
        -- the code is that of the last process, whatever came before
        have hsome := List.mem_takeWhile_imp (List.mem_of_getLast? hlast)
        obtain ⟨final, hfinal⟩ := isSome_iff_exists.1 hsome
        rw [getD_some, bind_some, hfinal, getD_some, getD_some]

section

variable (s : Shell) (i status : ℕ) (a : Answers)

lemma Shell.reapJobProcesses_status :
    ({ s with lastStatus := status } : Shell).reapJobProcesses i a =
      { s.reapJobProcesses i a with lastStatus := status } := by
  rw [reapJobProcesses, reapJobProcesses]
  split_ifs <;> rfl

lemma Shell.waitJobProcesses_status :
    (({ s with lastStatus := status } : Shell).waitJobProcesses i a).2 =
      { (s.waitJobProcesses i a).2 with lastStatus := status } := by
  dsimp only [waitJobProcesses]
  split_ifs <;> rfl

lemma Shell.reaped_reapJobProcesses : (s.reapJobProcesses i a).kernel.reaped =
    (s.table.jobs i).members.filter a.reap ++ s.kernel.reaped := by
  rw [reapJobProcesses]
  split_ifs <;> rfl

/-- The end of a pipeline in the foreground and `fg` differ in the status only. -/
lemma Shell.finishPipeline_eq {group : ℕ} (h : s.table.findJob group = some i) :
    s.finishPipeline group false a = { (s.waitJobProcesses i a).2.reapJobProcesses i a with
      lastStatus := (waitMembers a (s.table.jobs i).members 0).2 } := by
  rw [finishPipeline, if_neg Bool.false_ne_true, h]
  rfl

lemma Shell.commandFg_eq {target : Target} (hpid : s.commandPidOrLast target ≠ 0)
    (h : s.table.findJob (s.commandPidOrLast target) = some i) :
    s.commandFg target a = { (s.waitJobProcesses i a).2.reapJobProcesses i a with
      lastStatus :=
        let (ok, code) := waitMembers a (s.table.jobs i).members 0
        if ok then code else 126 } := by
  rw [commandFg, if_neg hpid, h]
  exact reapJobProcesses_status ..

end

/-- The exit code with which the last process of a job ended, if all its processes can be waited
for. -/
def Job.lastCode (job : Job) (a : Answers) : Option ℕ :=
  if ∀ pid ∈ job.members, (a.wait pid).isSome = true then job.members.getLast?.bind a.wait else none

/-- The exit code of the job in the table that `fg` or `wait` is about. -/
def Builtin.jobCode (s : Shell) (a : Answers) : Builtin → Option ℕ
  | fg target | wait target =>
    (s.table.findJob (s.commandPidOrLast target)).bind fun i => (s.table.jobs i).lastCode a
  | _ => none

/-- What `$?` is after a built-in: the exit code of the job that was waited for, and not zero if the
built-in failed. -/
def Shell.StatusReported (s : Shell) (background : Bool) (b : Builtin) (a : Answers) : Prop :=
  (background = false → ∀ code ∈ b.jobCode s a, (s.runBuiltin background b a).lastStatus = code) ∧
    (b.failed s a = true → (s.runBuiltin background b a).lastStatus ≠ 0)

/-- The status after a built-in is right exactly if the built-in was to run in the background, which
is refused, or did not fail and was not about a job that ended with a code other than zero. -/
theorem builtin_status_iff (s : Shell) (background : Bool) (b : Builtin) (a : Answers) :
    s.StatusReported background b a ↔
      background = true ∨ b.failed s a = false ∧ ∀ code ∈ b.jobCode s a, code = 0 := by
  rw [Shell.StatusReported, Shell.runBuiltin]
  cases background with
  | true => simp
  | false =>
    have hzero : (if false = true then ({ s with lastStatus := 126 } : Shell)
        else { b.handler s a with lastStatus := 0 }).lastStatus = 0 := rfl
    rw [hzero]
    constructor
    · rintro ⟨hcode, hfailed⟩
      refine .inr
        ⟨Bool.eq_false_iff.2 fun h => hfailed h rfl, fun code h => (hcode rfl code h).symm⟩
    rintro (h | ⟨hok, hcode⟩)
    · cases h
    · refine ⟨fun _ code h => (hcode code h).symm, fun h => ?_⟩
      rw [hok] at h
      cases h

/-- `fg` of a job that ends with code 7 leaves the status 0. -/
theorem fg_status_lost :
    let a : Answers := ⟨fun _ => some 7, fun _ => true, true⟩
    let s : Shell := ({} : Shell).launch 0
    (Builtin.fg .last).jobCode s a = some 7 ∧ (s.runBuiltin false (.fg .last) a).lastStatus = 0 ∧
      ¬s.StatusReported false (.fg .last) a := by
  intro a s
  have hcode : (Builtin.fg .last).jobCode s a = some 7 := by decide +kernel
  exact ⟨hcode, rfl, fun h => absurd (h.1 rfl 7 hcode) (by decide +kernel)⟩

end IanOS.InitShell
