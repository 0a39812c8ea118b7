import Rinfra.Core.Error
import Rinfra.Core.Time
import Rinfra.Lock.Memory

/-!
# The timer loop

`spawn_timer_loop` as a state machine: an event is what the loop does from one
await to the next, and the outcome of each await comes with it. The cron
expressions are another crate's.
-/

namespace Rinfra.Timer

open Rinfra.Lock

inductive TimerSchedule
  | cron (expr : String)
  | interval (secs : Nat)
  | delay (secs : Nat)
  | once (atUnixMs : Nat)
  deriving DecidableEq, Repr

inductive TimerScope
  | node | cluster
  deriving DecidableEq, Repr

structure TimerTask where
  id : String
  name : String
  schedule : TimerSchedule
  scope : TimerScope
  lockTtlSecs : Option Nat
  payload : List UInt8
  deriving DecidableEq, Repr

def defaultLockTtlSecs : Nat := 300

def TimerTask.effectiveLockTtl (task : TimerTask) : Nat :=
  task.lockTtlSecs.getD defaultLockTtlSecs

def TimerTask.recurring (task : TimerTask) : Bool :=
  match task.schedule with
  | .cron _ | .interval _ => true
  | .delay _ | .once _ => false

inductive TimerTaskStatus
  | scheduled | running | completed | failed | cancelled
  deriving DecidableEq, Repr

structure TaskState where
  status : TimerTaskStatus
  lastRun : Option Nat
  nextRun : Option Nat
  runCount : Nat
  deriving DecidableEq, Repr

/-- What an expression parses to: the first fire instant after a Unix time, both
in nanoseconds. -/
structure Cron where
  parse : String → Except String (Nat → Option Nat)

/-- The clock as `compute_next_fire` reads it, in Unix nanoseconds: once for the
upcoming fire instants, and once more afterwards. -/
structure Reads where
  upcoming : Nat
  now : Nat
  deriving DecidableEq, Repr

def computeNextFire (cron : Cron) (reads : Reads) :
    TimerSchedule → Except AppError (Option Nat)
  | .cron expr =>
    match cron.parse expr with
    | .ok upcoming =>
      match upcoming reads.upcoming with
      | some next => .ok (some (if reads.now ≤ next then next - reads.now else fromMillis 100))
      | none =>
        .error ⟨.timerInvalidSchedule, s!"cron expression '{expr}' has no upcoming fire time"⟩
    | .error e => .error ⟨.timerInvalidSchedule, s!"invalid cron expression '{expr}': {e}"⟩
  | .interval secs | .delay secs => .ok (some (fromSecs secs))
  | .once atUnixMs =>
    let now := reads.now / nanosPerMilli
    if atUnixMs ≤ now then .ok (some 0) else .ok (some (fromMillis (atUnixMs - now)))

/-- The fire instant the schedule sets, in Unix nanoseconds. -/
def fireInstant (cron : Cron) (reads : Reads) : TimerSchedule → Option Nat
  | .cron expr =>
    match cron.parse expr with
    | .ok upcoming => upcoming reads.upcoming
    | .error _ => none
  | .interval secs | .delay secs => some (reads.now + fromSecs secs)
  | .once atUnixMs => some (fromMillis atUnixMs)

/-- `now_ms() + delay.as_millis() as u64`; the cast cuts off, the sum wraps. -/
def nextRunMs (nowMs delay : Nat) : Nat := (nowMs + delay / nanosPerMilli % 2 ^ 64) % 2 ^ 64

/-- Where the loop stands. All but `computing` and `ended` are awaits. -/
inductive Phase
  | computing
  | failing
  | announcing (delay : Nat)
  | sleeping (delay : Nat)
  | permitting
  | locking
  | starting (handle : Option LockHandle)
  | running (handle : Option LockHandle)
  | releasing (handle : LockHandle) (result : Except AppError Unit)
  | recording (result : Except AppError Unit)
  | ended

def Phase.holdsPermit : Phase → Bool
  | .locking | .starting _ | .running _ | .releasing .. | .recording _ => true
  | _ => false

def Phase.over : Phase → Bool
  | .ended => true
  | _ => false

def Phase.awaits : Phase → Bool
  | .computing | .ended => false
  | _ => true

structure Loop where
  task : TimerTask
  state : TaskState
  phase : Phase
  /-- The fire instant the loop is at. -/
  trigger : Option Nat

inductive LoopEvent
  | compute (reads : Reads)
  | fail
  | announce (nowMs : Nat)
  | wake
  | permit
  | tryAcquire (outcome : Outcome (Option LockHandle))
  | start
  | finish (outcome : Outcome Unit)
  | released (result : Except AppError Bool)
  | record (nowMs : Nat)

def TimerTask.needLock (task : TimerTask) (hasLock : Bool) : Bool :=
  task.scope = .cluster && hasLock

def Loop.goto (l : Loop) (phase : Phase) : Loop := { l with phase }

def Loop.setStatus (l : Loop) (status : TimerTaskStatus) : Loop :=
  { l with state := { l.state with status } }

def Loop.again (l : Loop) : Loop := l.goto (if l.task.recurring then .computing else .ended)

def Loop.recorded (l : Loop) (result : Except AppError Unit) (nowMs : Nat) : Loop :=
  { l with state := { l.state with
      runCount := l.state.runCount + 1
      lastRun := some nowMs
      status :=
        if l.task.recurring then .scheduled
        else match result with
          | .ok _ => .completed
          | .error _ => .failed } }

/-- The handler is through; a lock that was acquired is released first. -/
def afterHandler (handle : Option LockHandle) (result : Except AppError Unit) : Phase :=
  match handle with
  | some handle => .releasing handle result
  | none => .recording result

def Loop.step (cron : Cron) (hasLock : Bool) (l : Loop) : LoopEvent → Option Loop
  | .compute reads => do
    let .computing := l.phase | none
    match computeNextFire cron reads l.task.schedule with
    | .ok (some delay) =>
      pure { l with
        phase := .announcing delay
        trigger := fireInstant cron reads l.task.schedule }
    | .ok none => pure (l.goto .ended)
    | .error _ => pure (l.goto .failing)
  | .fail => do
    let .failing := l.phase | none
    pure ((l.setStatus .failed).goto .ended)
  | .announce nowMs => do
    let .announcing delay := l.phase | none
    let state := { l.state with nextRun := some (nextRunMs nowMs delay), status := .scheduled }
    pure { l with state, phase := .sleeping delay }
  | .wake => do
    let .sleeping _ := l.phase | none
    pure (l.goto .permitting)
  -- the semaphore is never closed
  | .permit => do
    let .permitting := l.phase | none
    pure (l.goto (if l.task.needLock hasLock then .locking else .starting none))
  | .tryAcquire outcome => do
    let .locking := l.phase | none
    match outcome with
    | .ok (some handle) => pure (l.goto (.starting (some handle)))
    | .ok none => pure l.again
    -- "failed to acquire cluster timer lock, running locally"
    | .err _ => pure (l.goto (.starting none))
    | .panicked => pure (l.goto .ended)
  | .start => do
    let .starting handle := l.phase | none
    pure ((l.setStatus .running).goto (.running handle))
  | .finish outcome => do
    let .running handle := l.phase | none
    match outcome with
    | .ok u => pure (l.goto (afterHandler handle (.ok u)))
    | .err e => pure (l.goto (afterHandler handle (.error e)))
    | .panicked => pure (l.goto .ended)
  | .released _ => do
    let .releasing _ result := l.phase | none
    pure (l.goto (.recording result))
  | .record nowMs => do
    let .recording result := l.phase | none
    pure (l.recorded result nowMs).again

-- ---------------------------------------------------------------------------
-- What a step does
-- ---------------------------------------------------------------------------

inductive Loop.Goes (cron : Cron) (hasLock : Bool) (l : Loop) : LoopEvent → Loop → Prop
  | due (hp : l.phase = .computing)
      (hnext : computeNextFire cron reads l.task.schedule = .ok (some delay)) :
      Goes cron hasLock l (.compute reads) { l with
        phase := .announcing delay, trigger := fireInstant cron reads l.task.schedule }
  | never (hp : l.phase = .computing)
      (hnext : computeNextFire cron reads l.task.schedule = .ok none) :
      Goes cron hasLock l (.compute reads) (l.goto .ended)
  | invalid (hp : l.phase = .computing)
      (hnext : computeNextFire cron reads l.task.schedule = .error e) :
      Goes cron hasLock l (.compute reads) (l.goto .failing)
  | fail (hp : l.phase = .failing) :
      Goes cron hasLock l .fail ((l.setStatus .failed).goto .ended)
  | announce (hp : l.phase = .announcing delay) :
      Goes cron hasLock l (.announce nowMs) { l with
        state := { l.state with nextRun := some (nextRunMs nowMs delay), status := .scheduled }
        phase := .sleeping delay }
  | wake (hp : l.phase = .sleeping delay) : Goes cron hasLock l .wake (l.goto .permitting)
  | permit (hp : l.phase = .permitting) :
      Goes cron hasLock l .permit
        (l.goto (if l.task.needLock hasLock then .locking else .starting none))
  | locked (hp : l.phase = .locking) :
      Goes cron hasLock l (.tryAcquire (.ok (some handle))) (l.goto (.starting (some handle)))
  | skipped (hp : l.phase = .locking) : Goes cron hasLock l (.tryAcquire (.ok none)) l.again
  | unlocked (hp : l.phase = .locking) :
      Goes cron hasLock l (.tryAcquire (.err e)) (l.goto (.starting none))
  | lockPanicked (hp : l.phase = .locking) :
      Goes cron hasLock l (.tryAcquire .panicked) (l.goto .ended)
  | start (hp : l.phase = .starting handle) :
      Goes cron hasLock l .start ((l.setStatus .running).goto (.running handle))
  | returned (hp : l.phase = .running handle) :
      Goes cron hasLock l (.finish (.ok u)) (l.goto (afterHandler handle (.ok u)))
  | erred (hp : l.phase = .running handle) :
      Goes cron hasLock l (.finish (.err e)) (l.goto (afterHandler handle (.error e)))
  | panicked (hp : l.phase = .running handle) :
      Goes cron hasLock l (.finish .panicked) (l.goto .ended)
  | released (hp : l.phase = .releasing handle result) :
      Goes cron hasLock l (.released reply) (l.goto (.recording result))
  | record (hp : l.phase = .recording result) :
      Goes cron hasLock l (.record nowMs) (l.recorded result nowMs).again

theorem Loop.goes {l l' : Loop} (h : l.step cron hasLock e = some l') :
    l.Goes cron hasLock e l' := by
  cases e with
  | compute reads =>
    simp only [Loop.step] at h
    split at h
    · split at h <;> cases h
      · exact .due ‹_› ‹_›
      · exact .never ‹_› ‹_›
      · exact .invalid ‹_› ‹_›
    · cases h
  | tryAcquire outcome =>
    simp only [Loop.step] at h
    split at h
    · split at h <;> cases h
      · exact .locked ‹_›
      · exact .skipped ‹_›
      · exact .unlocked ‹_›
      · exact .lockPanicked ‹_›
    · cases h
  | finish outcome =>
    simp only [Loop.step] at h
    split at h
    · split at h <;> cases h
      · exact .returned ‹_›
      · exact .erred ‹_›
      · exact .panicked ‹_›
    · cases h
  | fail =>
    simp only [Loop.step] at h
    split at h <;> cases h
    exact .fail ‹_›
  | announce nowMs =>
    simp only [Loop.step] at h
    split at h <;> cases h
    exact .announce ‹_›
  | wake =>
    simp only [Loop.step] at h
    split at h <;> cases h
    exact .wake ‹_›
  | permit =>
    simp only [Loop.step] at h
    split at h <;> cases h
    exact .permit ‹_›
  | start =>
    simp only [Loop.step] at h
    split at h <;> cases h
    exact .start ‹_›
  | released reply =>
    simp only [Loop.step] at h
    split at h <;> cases h
    exact .released ‹_›
  | record nowMs =>
    simp only [Loop.step] at h
    split at h <;> cases h
    exact .record ‹_›

-- ---------------------------------------------------------------------------
-- What a step leaves alone
-- ---------------------------------------------------------------------------

/-- The two differ in their state at most. -/
structure SamePlace (l l' : Loop) : Prop where
  task : l'.task = l.task
  phase : l'.phase = l.phase
  trigger : l'.trigger = l.trigger

theorem SamePlace.refl (l : Loop) : SamePlace l l := ⟨rfl, rfl, rfl⟩

theorem step_task {l l' : Loop} (h : l.step cron hasLock e = some l') : l'.task = l.task := by
  cases Loop.goes h <;> rfl

end Rinfra.Timer
