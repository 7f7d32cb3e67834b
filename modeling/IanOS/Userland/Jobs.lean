import Mathlib.Tactic

/-!
# The jobs of the shell

The job table of `userland/src/init.cpp` and the commands that use it.  A job is a command or a
pipeline that was put into the background, or a pipeline that is being waited for; the table has
`kJobCapacity` places.

What the kernel answers to the system calls of a command is given by `Answers`.  A loop that waits
for a child until it has exited counts as one call.  Of the kernel itself `Kernel` has the process
ids: those that can still be given to a process and those of the children that it has reaped.  Ids
are handed out in increasing order, as `create_process` does it, to the shell and to others.

Commands that only read the table, such as `jobs` and `kill`, are left out, as is the text of a job.
The last section has the way from a command line with a built-in to the status that `$?` and the
connectors `&&` and `||` read, `lastStatus`.
-/

namespace IanOS.InitShell

open Function

def kJobCapacity : ℕ := 8

def kMaxJobProcesses : ℕ := 4

def kMaxPipelineStages : ℕ := 4

/-- `ShellJob`. -/
structure Job where
  jobId : ℕ := 0
  pid : ℕ := 0
  processGroupId : ℕ := 0
  processCount : ℕ := 0
  pids : ℕ → ℕ := fun _ => 0
  lastStatus : ℕ := 0
  active : Bool := false
  waited : Bool := false

namespace Job

variable (job : Job)

/-- The test of `find_job`. -/
def has (pid : ℕ) : Bool :=
  job.pid = pid ∨ ∃ j ∈ List.range (min job.processCount kMaxJobProcesses), job.pids j = pid

/-- The processes that `wait_job_processes` and `reap_job_processes` go through. -/
def members : List ℕ :=
  (if job.processCount = 0 then [job.pid]
    else (List.range (min job.processCount kMaxJobProcesses)).map job.pids).filter
      fun pid => pid ≠ 0

end Job

/-- A job with its processes, as it is put into the table. -/
def Job.start (jobId pid : ℕ) (pids : List ℕ) : Job :=
  let count := min pids.length kMaxJobProcesses
  { jobId := jobId
    pid := pid
    processGroupId := pid
    processCount := count
    pids := fun j => if j < count then pids.getD j 0 else 0
    active := true }

/-! ## The table -/

structure JobTable where
  jobs : ℕ → Job := fun _ => {}
  nextJobId : ℕ := 1

namespace JobTable

variable (t : JobTable)

def findJob (pid : ℕ) : Option ℕ :=
  if pid = 0 then none
  else (List.range kJobCapacity).find? fun i => (t.jobs i).active && (t.jobs i).has pid

def findJobId (jobId : ℕ) : Option ℕ :=
  if jobId = 0 then none
  else (List.range kJobCapacity).find? fun i => (t.jobs i).active && (t.jobs i).jobId = jobId

/-- The job with the greatest id. -/
def currentJob : Option ℕ :=
  (List.range kJobCapacity).foldl (fun newest i =>
    if !(t.jobs i).active then newest
    else
      match newest with
      | none => some i
      | some k => if (t.jobs i).jobId > (t.jobs k).jobId then some i else newest) none

def freeSlot : Option ℕ := (List.range kJobCapacity).find? fun i => !(t.jobs i).active

/-- The place for a job: the one that has the process already, else a free one, else the first. -/
def slotFor (pid : ℕ) : ℕ := (t.findJob pid).getD (t.freeSlot.getD 0)

/-- The id for a job that is put into a place, and the next one after it. -/
def idFor (slot : Job) : ℕ × ℕ :=
  let (jobId, next) :=
    if slot.active = true ∧ slot.jobId ≠ 0 then (slot.jobId, t.nextJobId)
    else (t.nextJobId, t.nextJobId + 1)
  if jobId = 0 then (next, next + 1) else (jobId, next)

/-- The common part of `remember_job` and `remember_pipeline_job`. -/
def record (pid : ℕ) (pids : List ℕ) : JobTable :=
  let i := t.slotFor pid
  let (jobId, next) := t.idFor (t.jobs i)
  { jobs := update t.jobs i (.start jobId pid pids), nextJobId := next }

def rememberJob (pid : ℕ) : JobTable := if pid = 0 then t else t.record pid [pid]

def rememberPipelineJob (processGroupId : ℕ) (pids : List ℕ) : JobTable :=
  if processGroupId = 0 ∨ pids = [] then t else t.record processGroupId pids

def forgetJob (pid : ℕ) : JobTable :=
  match t.findJob pid with
  | none => t
  | some i => { t with jobs := update t.jobs i {} }

/-- A status is noted in a job. -/
def note (i : ℕ) (status : ℕ) : JobTable :=
  { t with jobs := update t.jobs i { t.jobs i with lastStatus := status, waited := true } }

end JobTable

/-! ## The shell -/

structure Kernel where
  nextPid : ℕ := 1
  /-- the children that have been reaped -/
  reaped : List ℕ := []

structure Shell where
  table : JobTable := {}
  lastSpawnPid : ℕ := 0
  lastStatus : ℕ := 0
  kernel : Kernel := {}

/-- What the kernel answers: the exit code that `Wait` gives or its failure, whether `ReapProcess`
reaps, and whether a call for a process group succeeds. -/
structure Answers where
  wait : ℕ → Option ℕ
  reap : ℕ → Bool
  group : Bool

/-- The argument of a command that takes a process. -/
inductive Target where
  | last
  | current
  | job (jobId : ℕ)
  | pid (pid : ℕ)

namespace Shell

variable (s : Shell)

def commandPidOrLast : Target → ℕ
  | .last => s.lastSpawnPid
  | .current => (s.table.currentJob.map fun i => (s.table.jobs i).pid).getD 0
  | .job jobId => ((s.table.findJobId jobId).map fun i => (s.table.jobs i).pid).getD 0
  | .pid pid => pid

/-- The kernel makes a process, after `gap` ids have gone to others. -/
def spawn (gap : ℕ) : ℕ × Shell :=
  let pid := s.kernel.nextPid + gap
  (pid, { s with kernel.nextPid := pid + 1, lastSpawnPid := pid })

def spawnAll (s : Shell) : List ℕ → List ℕ × Shell
  | [] => ([], s)
  | gap :: gaps =>
    let (pid, s) := s.spawn gap
    let (pids, s) := s.spawnAll gaps
    (pid :: pids, s)

/-- The processes are waited for in order: whether every wait succeeds, and the last exit code. -/
def waitMembers (a : Answers) : List ℕ → ℕ → Bool × ℕ
  | [], status => (true, status)
  | pid :: pids, status =>
    match a.wait pid with
    | none => (false, status)
    | some code => waitMembers a pids code

def waitJobProcesses (i : ℕ) (a : Answers) : (Bool × ℕ) × Shell :=
  let (ok, status) := waitMembers a (s.table.jobs i).members 0
  ((ok, status), if ok then { s with table := s.table.note i status } else s)

def reapJobProcesses (i : ℕ) (a : Answers) : Shell :=
  let job := s.table.jobs i
  let done := job.members.filter a.reap
  let s := { s with kernel.reaped := done ++ s.kernel.reaped }
  if done ≠ [] then { s with table := s.table.forgetJob job.pid } else s

def commandFg (target : Target) (a : Answers) : Shell :=
  let pid := s.commandPidOrLast target
  if pid = 0 then s
  else
    match s.table.findJob pid with
    | none => s
    | some i =>
      let ((ok, code), s) := s.waitJobProcesses i a
      ({ s with lastStatus := if ok then code else 126 } : Shell).reapJobProcesses i a

/-- `command_bg` and `command_stop`, which differ in the call they make. -/
def commandGroup (target : Target) (a : Answers) : Shell :=
  let pid := s.commandPidOrLast target
  if pid = 0 then s
  else
    match s.table.findJob pid with
    | none => s
    | some i =>
      if (s.table.jobs i).processGroupId = 0 then s
      else if a.group then { s with lastStatus := 0 } else s

def commandBg (target : Target) (a : Answers) : Shell := s.commandGroup target a

def commandStop (target : Target) (a : Answers) : Shell := s.commandGroup target a

/-- `wait -a` and `wait -n`: the kernel names a child that has exited, or fails. -/
def commandWaitAny : Option (ℕ × ℕ) → Shell
  | none => s
  | some (pid, code) =>
    let table :=
      match s.table.findJob pid with
      | none => s.table
      | some i => s.table.note i code
    { s with table := table, lastStatus := code }

def commandWait (target : Target) (a : Answers) : Shell :=
  let pid := s.commandPidOrLast target
  if pid = 0 then s
  else
    match s.table.findJob pid with
    | none => s
    | some i =>
      let ((ok, code), s) := s.waitJobProcesses i a
      if ok then { s with lastStatus := code } else s

def commandReap (target : Target) (a : Answers) : Shell :=
  let pid := s.commandPidOrLast target
  if pid = 0 then s
  else
    match (s.table.findJob pid).filter fun i => (s.table.jobs i).processCount > 1 with
    | some i => s.reapJobProcesses i a
    | none =>
      if a.reap pid then
        { s with kernel.reaped := pid :: s.kernel.reaped, table := s.table.forgetJob pid }
      else s

/-- `command_spawn` and `run_background_command`, once the child exists. -/
def launch (gap : ℕ) : Shell :=
  let (pid, s) := s.spawn gap
  { s with table := s.table.rememberJob pid }

/-- The end of `run_pipeline_segment`: a pipeline that is not in the background is waited for and
reaped. -/
def finishPipeline (group : ℕ) (background : Bool) (a : Answers) : Shell :=
  if background then { s with lastStatus := 0 }
  else
    match s.table.findJob group with
    | none => { s with lastStatus := 0 }
    | some i =>
      let ((_, code), s) := s.waitJobProcesses i a
      { s.reapJobProcesses i a with lastStatus := code }

/-- `run_pipeline_segment`, once all its stages are started. -/
def runPipeline (gaps : List ℕ) (background : Bool) (a : Answers) : Shell :=
  let (pids, s) := s.spawnAll (gaps.take kMaxPipelineStages)
  let group := pids.headD 0
  ({ s with table := s.table.rememberPipelineJob group pids } : Shell).finishPipeline group
    background a

end Shell

/-- What a user can do to the jobs.  A child that `exec_external_command` runs is not put into the
table; `suspend` is what a key does to the job that is waited for. -/
inductive JobOp where
  | launch (gap : ℕ)
  | exec (gap : ℕ)
  | pipeline (gaps : List ℕ) (background : Bool)
  | fg (target : Target)
  | bg (target : Target)
  | stop (target : Target)
  | wait (target : Target)
  | waitAny (child : Option (ℕ × ℕ))
  | reap (target : Target)
  | suspend (pid : ℕ)

def Shell.step (s : Shell) (op : JobOp × Answers) : Shell :=
  match op.1 with
  | .launch gap => s.launch gap
  | .exec gap => (s.spawn gap).2
  | .pipeline gaps background => s.runPipeline gaps background op.2
  | .fg target => s.commandFg target op.2
  | .bg target => s.commandBg target op.2
  | .stop target => s.commandStop target op.2
  | .wait target => s.commandWait target op.2
  | .waitAny child => s.commandWaitAny child
  | .reap target => s.commandReap target op.2
  | .suspend pid =>
    match s.table.findJob pid with
    | none => s
    | some i =>
      { s with table.jobs := update s.table.jobs i { s.table.jobs i with waited := false } }

/-! ## Built-ins -/

/-- A command of `kCommands`.  `cd` has the answer of the kernel to `SetCurrentDirectory`, every
other command what it does to the shell and whether it reports an error. -/
inductive Builtin where
  | fg (target : Target)
  | wait (target : Target)
  | waitAny (child : Option (ℕ × ℕ))
  | cd (path : List UInt8) (entered : Bool)
  | other (handler : Shell → Shell) (failed : Bool)

namespace Builtin

variable (s : Shell) (a : Answers)

def handler : Builtin → Shell
  | fg target => s.commandFg target a
  | wait target => s.commandWait target a
  | waitAny child => s.commandWaitAny child
  | cd _ _ => s
  | other f _ => f s

/-- The command reports an error. -/
def failed : Builtin → Bool
  | fg target =>
    match s.table.findJob (s.commandPidOrLast target) with
    | none => true
    | some i => !(s.waitJobProcesses i a).1.1
  | wait target =>
    let pid := s.commandPidOrLast target
    match s.table.findJob pid with
    | none => pid = 0 || (a.wait pid).isNone
    | some i => !(s.waitJobProcesses i a).1.1
  | waitAny child => child.isNone
  | cd path entered => path.isEmpty || !entered
  | other _ failed => failed

end Builtin

/-- A command line with a built-in: `run_shell_segment` refuses to put it into the background, and
`run_command` calls its handler. -/
def Shell.runBuiltin (s : Shell) (background : Bool) (b : Builtin) (a : Answers) : Shell :=
  if background then { s with lastStatus := 126 } else { b.handler s a with lastStatus := 0 }

end IanOS.InitShell
