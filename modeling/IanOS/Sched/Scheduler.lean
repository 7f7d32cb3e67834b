import IanOS.Lib.RoundRobin
import IanOS.Lib.Table
import IanOS.Lib.WordStack

/-!
# Kernel threads

The scheduler of `kernel/src/sched/scheduler.cpp`.  A pointer to a thread is the number of its slot,
and the null pointer is `none`.  A kernel thread leaves the processor through `switch_from_current`,
through `exit_current_thread`, or because the timer interrupts it (`schedule_from_interrupt`).  All
of them ask `pick_next` for the thread to go on with.

The memory of a new stack comes from the page allocator and is mapped by the kernel's page tables;
here `stackMapped` says whether both succeeded.  The name, the argument and the affinity mask of a
thread are stored and never looked at, and are left out.
-/

namespace IanOS.Sched

inductive ThreadState
  | ready | running | blocked | sleeping | dead
  deriving DecidableEq, Repr

structure Thread where
  id : ℕ := 0
  state : ThreadState := .ready
  kernelStackBase : Word64 := 0
  kernelStackTop : Word64 := 0
  savedRsp : Word64 := 0
  entry : Word64 := 0
  switches : ℕ := 0
  wakeTick : ℕ := 0
  deriving DecidableEq, Repr

/-- The number of slots of `threads_`. -/
def kMaxThreads : ℕ := 32

def kKernelStackVirtBase : Word64 := 0xffff800000400000
def kKernelStackStride : Word64 := 4 * 4096

structure Scheduler where
  threads : Table Thread
  nextId : ℕ
  switchCount : ℕ
  yieldCount : ℕ
  preemptCount : ℕ
  current : Option ℕ
  idle : Option ℕ
  currentIndex : ℕ

/-- The scheduler is a static object, so everything is zero before `initialize`. -/
instance : Inhabited Scheduler where
  default :=
    { threads := ⟨fun _ => {}, 0⟩, nextId := 1, switchCount := 0, yieldCount := 0, preemptCount := 0
      current := none, idle := none, currentIndex := 0 }

namespace Scheduler

variable (s : Scheduler)

def thread (i : ℕ) : Thread := s.threads.slot i

def setThread (i : ℕ) (f : Thread → Thread) : Scheduler :=
  { s with threads := s.threads.modify i f }

/-- A new record in the next slot. -/
def addThread (thread : Thread) : Scheduler :=
  { s with
    threads :=
      { slot := Function.update s.threads.slot s.threads.count thread
        count := s.threads.count + 1 }
    nextId := s.nextId + 1 }

def createKernelThread (entry : Word64) (stackMapped : Bool) : Option ℕ × Scheduler :=
  if kMaxThreads ≤ s.threads.count ∨ entry = 0 then (none, s)
  else if !stackMapped then (none, s)
  else
    let stackBase := kKernelStackVirtBase + BitVec.ofNat 64 s.threads.count * kKernelStackStride
    let stackTop := stackBase + kKernelStackStride - 64
    (some s.threads.count,
      s.addThread
        { id := s.nextId, state := .ready, kernelStackBase := stackBase
          kernelStackTop := stackTop, savedRsp := stackTop - 22 * 8, entry := entry })

/-- The first part of `Scheduler::initialize`: what is running becomes the bootstrap thread. -/
def bootstrap : Scheduler :=
  { s with
    threads :=
      { slot := Function.update s.threads.slot 0 { id := 1, state := .running }
        count := 1 }
    nextId := 2, switchCount := 0, yieldCount := 0, preemptCount := 0
    current := some 0, currentIndex := 0 }

/-- `Scheduler::initialize`. -/
def initializeScheduler (idleEntry : Word64) (stackMapped : Bool) : Scheduler :=
  let r := s.bootstrap.createKernelThread idleEntry stackMapped
  { r.2 with idle := r.1 }

/-- The threads `pick_next` looks for. -/
def Waiting (i : ℕ) : Prop := some i ≠ s.idle ∧ (s.thread i).state = .ready
  deriving Decidable

def pickNext : Option ℕ × Scheduler :=
  if s.threads.count = 0 then (none, s)
  else
    match RoundRobin.pick s.threads.count s.currentIndex s.Waiting with
    | some index => (some index, { s with currentIndex := index })
    | none => (s.idle, s)

/-- The thread in slot `next` becomes the running one. -/
def resume (next : ℕ) : Scheduler :=
  { s with current := some next }.setThread next fun t => { t with state := .running }

/-- The statistics of a switch. -/
def countSwitch (next : ℕ) : Scheduler :=
  { s with switchCount := s.switchCount + 1 }.setThread next fun t =>
    { t with switches := t.switches + 1 }

/-- `context_switch` saves the stack pointer of the thread it leaves. -/
def saveRsp (previous : ℕ) (rsp : Word64) : Scheduler :=
  s.setThread previous fun t => { t with savedRsp := rsp }

def setState (i : ℕ) (state : ThreadState) : Scheduler :=
  s.setThread i fun t => { t with state := state }

def switchFromCurrent (previousState : ThreadState) (rsp : Word64) : Scheduler :=
  match s.current with
  | none => s
  | some previous =>
    let r := (s.setState previous previousState).pickNext
    match r.1 with
    | none => r.2.setState previous .running
    | some next =>
      if next = previous then r.2.setState previous .running
      else ((r.2.resume next).countSwitch next).saveRsp previous rsp

/-- The body of the loop of `wake_sleepers`. -/
def wakeSleeper (nowTick : ℕ) (t : Thread) : Thread :=
  if t.state = .sleeping ∧ t.wakeTick ≤ nowTick then { t with state := .ready, wakeTick := 0 }
  else t

def wakeSleepers (nowTick : ℕ) : Scheduler :=
  { s with
    threads := (List.range s.threads.count).foldl
      (fun threads i => threads.modify i (wakeSleeper nowTick)) s.threads }

/-- The current thread was running and can run. -/
def parkCurrent (current : ℕ) : Scheduler :=
  if (s.thread current).state = .running then s.setState current .ready else s

/-- The stack pointer with which the interrupt returns, and the state. -/
def scheduleFromInterrupt (interruptedRsp : Word64) (ticks : ℕ) : Word64 × Scheduler :=
  match s.current with
  | none => (interruptedRsp, s)
  | some current =>
    let r := (((s.saveRsp current interruptedRsp).parkCurrent current).wakeSleepers ticks).pickNext
    match r.1 with
    | none => (interruptedRsp, r.2.setState current .running)
    | some next =>
      if next = current then (interruptedRsp, r.2.setState current .running)
      else
        let s := (r.2.resume next).countSwitch next
        ((s.thread next).savedRsp, { s with preemptCount := s.preemptCount + 1 })

def yield (rsp : Word64) : Scheduler :=
  match s.current with
  | none => s
  | some _ => { s with yieldCount := s.yieldCount + 1 }.switchFromCurrent .ready rsp

/-- The current thread, unless it is the idle thread, gets a new record. -/
def changeCurrent (f : Thread → Thread) : Scheduler :=
  match s.current with
  | none => s
  | some current => if s.idle = some current then s else s.setThread current f

/-- Without a thread to go on with, the source dereferences a null pointer; the idle thread rules
that out. -/
def exitCurrentThread (rsp : Word64) : Scheduler :=
  let r := (s.changeCurrent fun t => { t with state := .dead }).pickNext
  match r.1, s.current with
  | some next, some previous =>
    let s := r.2.resume next
    { s with switchCount := s.switchCount + 1 }.saveRsp previous rsp
  | _, _ => r.2

def blockCurrentThread (rsp : Word64) : Scheduler := s.switchFromCurrent .blocked rsp

def sleepCurrentUntil (wakeTick : ℕ) (rsp : Word64) : Scheduler :=
  (s.changeCurrent fun t => { t with wakeTick := wakeTick }).switchFromCurrent .sleeping rsp

end Scheduler

/-! ## Steps -/

/-- What threads ask of the scheduler, and the interrupt of the timer.  Each comes with the stack
pointer at which the thread that leaves the processor goes on. -/
inductive Step
  | create (entry : Word64) (stackMapped : Bool)
  | yield (rsp : Word64)
  | block (rsp : Word64)
  | sleep (wakeTick : ℕ) (rsp : Word64)
  | exit (rsp : Word64)
  | interrupt (rsp : Word64) (ticks : ℕ)
  deriving DecidableEq, Repr

/-- The step calls `pick_next`. -/
def Step.picks : Step → Bool
  | .create _ _ => false
  | _ => true

namespace Scheduler

def perform (s : Scheduler) : Step → Scheduler
  | .create entry stackMapped => (s.createKernelThread entry stackMapped).2
  | .yield rsp => s.yield rsp
  | .block rsp => s.blockCurrentThread rsp
  | .sleep wakeTick rsp => s.sleepCurrentUntil wakeTick rsp
  | .exit rsp => s.exitCurrentThread rsp
  | .interrupt rsp ticks => (s.scheduleFromInterrupt rsp ticks).2

/-- The idle thread asks for nothing: it is only interrupted. -/
def Permitted (s : Scheduler) : Step → Prop
  | .interrupt _ _ => True
  | _ => s.current ≠ s.idle

instance (s : Scheduler) (o : Step) : Decidable (s.Permitted o) := by
  cases o <;> unfold Permitted <;> infer_instance

end Scheduler
end IanOS.Sched
