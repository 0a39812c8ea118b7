import Rinfra.Lib.Lease
import Rinfra.Timer.Engine

/-!
# Cluster timers

Engines on any number of nodes share one lock, which keeps a lease of
`timer:{id}` until it is released or runs out. Each call of `try_acquire` is an
attempt at the fire instant its loop is at; the ledger keeps them all, with what
has become of them.

The nodes read their own clocks. The instants here are the lock's.
-/

namespace Rinfra.Timer

open Rinfra.Lib Rinfra.Lock

def TimerTask.lockKey (task : TimerTask) : String := s!"timer:{task.id}"

structure LoopId where
  node : Nat
  loop : Nat
  deriving DecidableEq, Repr

inductive Reply
  | granted | held | failed | panicked
  deriving DecidableEq, Repr

def Reply.ofOutcome : Outcome (Option LockHandle) → Reply
  | .ok (some _) => .granted
  | .ok none => .held
  | .err _ => .failed
  | .panicked => .panicked

inductive Progress
  | waiting
  | executing (began : Nat)
  | through (began ended : Nat)
  | released (began ended at_ : Nat)
  deriving DecidableEq, Repr

def Progress.advance (now : Nat) : Progress → Progress
  | .waiting => .executing now
  | .executing began => .through began now
  | .through began ended => .released began ended now
  | .released began ended at_ => .released began ended at_

structure Attempt where
  loop : LoopId
  task : TimerTask
  trigger : Option Nat
  at_ : Nat
  reply : Reply
  progress : Progress

def Attempt.until_ (a : Attempt) : Nat := a.at_ + fromSecs a.task.effectiveLockTtl

def Attempt.advance (now : Nat) (a : Attempt) : Attempt :=
  { a with progress := a.progress.advance now }

structure Ledger where
  clock : Nat
  leases : Leases String String Nat
  attempts : Nat → Option Attempt
  count : Nat
  /-- The last attempt of each loop. -/
  current : LoopId → Option Nat

structure Fleet where
  engines : Nat → Engine
  ledger : Ledger

/-- `reached` tells whether the lock did what it was asked to, where the caller
sees an error. -/
structure FleetEvent where
  at_ : Nat
  node : Nat
  act : Event
  reached : Bool

namespace Ledger

def init : Ledger := ⟨0, .empty, fun _ => none, 0, fun _ => none⟩

def tick (d : Ledger) (now : Nat) : Ledger := { d with clock := now }

def attempt (d : Ledger) (i : LoopId) (l : Loop) (reply : Reply) : Ledger :=
  { d with
    attempts := Function.update d.attempts d.count
      (some ⟨i, l.task, l.trigger, d.clock, reply, .waiting⟩)
    count := d.count + 1
    current := Function.update d.current i (some d.count) }

def advance (d : Ledger) (i : LoopId) : Ledger :=
  match d.current i with
  | some k =>
    { d with attempts := Function.update d.attempts k ((d.attempts k).map (·.advance d.clock)) }
  | none => d

/-- A grant is for a key nobody holds, under the token just drawn. -/
def tryAcquire (uuid : Nat → String) (d : Ledger) (i : LoopId) (l : Loop) (reached : Bool)
    (outcome : Outcome (Option LockHandle)) : Option Ledger :=
  let key := l.task.lockKey
  let (free, leases) := d.leases.grant d.clock key (uuid d.count)
    (d.clock + fromSecs l.task.effectiveLockTtl)
  let d' := d.attempt i l (.ofOutcome outcome)
  match outcome with
  | .ok (some handle) =>
    if free ∧ handle.key = key ∧ handle.token = uuid d.count then some { d' with leases } else none
  | .ok none | .panicked => some d'
  | .err _ => some (if reached then { d' with leases } else d')

def release (d : Ledger) (i : LoopId) (handle : LockHandle) (reached : Bool)
    (result : Except AppError Bool) : Option Ledger :=
  let (freed, leases) := d.leases.release d.clock handle.key handle.token
  let d' := if freed then { d.advance i with leases } else d
  match result with
  | .ok b => if b = freed then some d' else none
  | .error _ => some (if reached then d' else d)

/-- What an event of a loop does to the lock and to the attempts. -/
def note (uuid : Nat → String) (d : Ledger) (i : LoopId) (l : Loop) (reached : Bool) :
    LoopEvent → Option Ledger
  | .tryAcquire outcome => d.tryAcquire uuid i l reached outcome
  | .start | .finish _ => some (if l.task.needLock true then d.advance i else d)
  | .released result =>
    match l.phase with
    | .releasing handle _ => d.release i handle reached result
    | _ => none
  | _ => some d

end Ledger

namespace Fleet

def init : Fleet := ⟨fun _ => .init, .init⟩

def note (uuid : Nat → String) (f : Fleet) (e : FleetEvent) : Option Ledger :=
  match e.act with
  | .loop n le => do
    let some sp := (f.engines e.node).loops n | none
    (f.ledger.tick e.at_).note uuid ⟨e.node, n⟩ sp.loop e.reached le
  | _ => some (f.ledger.tick e.at_)

/-- Every node has the lock; how many handlers it runs at once is its own choice. -/
def step (cron : Cron) (maxConcurrent : Nat → Nat) (uuid : Nat → String) (f : Fleet)
    (e : FleetEvent) : Option Fleet :=
  if f.ledger.clock ≤ e.at_ then do
    let s ← (f.engines e.node).step ⟨cron, true, maxConcurrent e.node⟩ e.act
    let ledger ← f.note uuid e
    pure ⟨Function.update f.engines e.node s, ledger⟩
  else none

end Fleet

-- ---------------------------------------------------------------------------
-- What an event does
-- ---------------------------------------------------------------------------

section
variable {uuid : Nat → String} {d d' : Ledger} {l : Loop} {le : LoopEvent}

/-- `le` enters a new attempt, which may take the lease of the key if nobody
holds it; a grant always does. -/
structure Ledger.Attempted (uuid : Nat → String) (d : Ledger) (i : LoopId) (l : Loop)
    (outcome : Outcome (Option LockHandle)) (d' : Ledger) : Prop where
  entered : ∃ leases, d' = { d.attempt i l (.ofOutcome outcome) with leases }
  leases : d'.leases = d.leases ∨
    d.leases.holder d.clock l.task.lockKey = none ∧
      d'.leases = d.leases.set l.task.lockKey
        (some (uuid d.count, d.clock + fromSecs l.task.effectiveLockTtl))
  granted : ∀ handle, outcome = .ok (some handle) →
    handle.key = l.task.lockKey ∧ handle.token = uuid d.count ∧
      d.leases.holder d.clock l.task.lockKey = none ∧
      d'.leases l.task.lockKey =
        some (uuid d.count, d.clock + fromSecs l.task.effectiveLockTtl)

theorem Ledger.tryAcquire_attempted (h : d.tryAcquire uuid i l reached outcome = some d') :
    d.Attempted uuid i l outcome d' := by
  unfold Ledger.tryAcquire at h
  cases hhold : d.leases.holder d.clock l.task.lockKey with
  | none =>
    simp only [Leases.grant, if_pos hhold] at h
    split at h
    · split at h <;> cases h
      rename_i handle hc
      refine ⟨⟨_, rfl⟩, .inr ⟨hhold, rfl⟩, ?_⟩
      rintro _ ⟨⟩
      exact ⟨hc.2.1, hc.2.2, hhold, by simp⟩
    · cases h
      exact ⟨⟨d.leases, rfl⟩, .inl rfl, by simp⟩
    · cases h
      exact ⟨⟨d.leases, rfl⟩, .inl rfl, by simp⟩
    · cases h
      cases reached
      · exact ⟨⟨d.leases, rfl⟩, .inl rfl, by simp⟩
      · exact ⟨⟨_, rfl⟩, .inr ⟨hhold, rfl⟩, by simp⟩
  | some owner =>
    have hne : ¬ d.leases.holder d.clock l.task.lockKey = none := by simp [hhold]
    simp only [Leases.grant, if_neg hne] at h
    split at h
    · split at h <;> cases h
      rename_i hc
      cases hc.1
    · cases h
      exact ⟨⟨d.leases, rfl⟩, .inl rfl, by simp⟩
    · cases h
      exact ⟨⟨d.leases, rfl⟩, .inl rfl, by simp⟩
    · cases h
      refine ⟨⟨d.leases, ?_⟩, .inl ?_, by simp⟩ <;> cases reached <;> rfl

theorem Ledger.release_cases (h : d.release i handle reached result = some d') :
    d' = d ∨ d.leases.holder d.clock handle.key = some handle.token ∧
      d' = { d.advance i with leases := d.leases.set handle.key none } := by
  unfold Ledger.release at h
  by_cases hhold : d.leases.holder d.clock handle.key = some handle.token
  · simp only [Leases.release, if_pos hhold] at h
    split at h
    · split at h <;> cases h
      exact .inr ⟨hhold, rfl⟩
    · cases h
      cases reached
      · exact .inl rfl
      · exact .inr ⟨hhold, rfl⟩
  · simp only [Leases.release, if_neg hhold] at h
    split at h
    · split at h <;> cases h
      exact .inl rfl
    · cases h
      cases reached <;> exact .inl rfl

end

end Rinfra.Timer
