import Rinfra.Core.Time

/-!
# The circuit breaker

`CircuitBreaker` behind its mutex: each definition is one lock section, on the
`InternalState` the mutex guards. Instants are nanoseconds; `elapsed` saturates
and `as_secs` drops the fraction, as `std::time` does. The counters are `u32`,
and an increment that does not fit is `none`.
-/

namespace Rinfra.Resilience

inductive CircuitState
  | closed
  | «open»
  | halfOpen
  deriving DecidableEq, Repr

structure CircuitBreakerConfig where
  failureThreshold : Nat
  successThreshold : Nat
  openDurationSecs : Nat
  failure_u32 : failureThreshold < 2 ^ 32 := by decide
  success_u32 : successThreshold < 2 ^ 32 := by decide
  duration_u64 : openDurationSecs < 2 ^ 64 := by decide

instance : Inhabited CircuitBreakerConfig where
  default := { failureThreshold := 5, successThreshold := 2, openDurationSecs := 30 }

structure InternalState where
  status : CircuitState
  failureCount : Nat
  successCount : Nat
  lastFailureAt : Option Nat
  deriving DecidableEq, Repr

def incrU32 (n : Nat) : Option Nat := if n + 1 < 2 ^ 32 then some (n + 1) else none

namespace CircuitBreaker

def new : InternalState :=
  { status := .closed, failureCount := 0, successCount := 0, lastFailureAt := none }

def maybeTransitionHalfOpen (cfg : CircuitBreakerConfig) (s : InternalState) (now : Nat) :
    InternalState :=
  if s.status = .open then
    match s.lastFailureAt with
    | some last =>
      if cfg.openDurationSecs ≤ asSecs (elapsed now last) then
        { s with status := .halfOpen, successCount := 0 }
      else s
    | none => s
  else s

def state (cfg : CircuitBreakerConfig) (s : InternalState) (now : Nat) :
    CircuitState × InternalState :=
  let s := maybeTransitionHalfOpen cfg s now
  (s.status, s)

def allowRequest (cfg : CircuitBreakerConfig) (s : InternalState) (now : Nat) :
    Bool × InternalState :=
  let s := maybeTransitionHalfOpen cfg s now
  match s.status with
  | .closed => (true, s)
  | .open => (false, s)
  | .halfOpen => (true, s)

def recordSuccess (cfg : CircuitBreakerConfig) (s : InternalState) : Option InternalState :=
  match s.status with
  | .closed => some { s with failureCount := 0 }
  | .halfOpen => do
    let count ← incrU32 s.successCount
    let s := { s with successCount := count }
    if cfg.successThreshold ≤ s.successCount then
      pure { s with
        status := .closed, failureCount := 0, successCount := 0, lastFailureAt := none }
    else pure s
  | .open => some s

def recordFailure (cfg : CircuitBreakerConfig) (s : InternalState) (now : Nat) :
    Option InternalState :=
  let s := { s with lastFailureAt := some now }
  match s.status with
  | .closed => do
    let count ← incrU32 s.failureCount
    let s := { s with failureCount := count }
    if cfg.failureThreshold ≤ s.failureCount then
      pure { s with status := .open, successCount := 0 }
    else pure s
  | .halfOpen => some { s with status := .open, successCount := 0 }
  | .open => some s

def reset (s : InternalState) : InternalState :=
  { s with status := .closed, failureCount := 0, successCount := 0, lastFailureAt := none }

end CircuitBreaker

open CircuitBreaker

-- ---------------------------------------------------------------------------
-- What each section does, by status
-- ---------------------------------------------------------------------------

theorem incrU32_of_lt (h : n < m) (hm : m < 2 ^ 32) : incrU32 n = some (n + 1) := by
  simp only [incrU32]
  rw [if_pos (by omega)]

theorem threshold_pos (n : Nat) : 0 < max 1 n :=
  Nat.lt_of_lt_of_le Nat.zero_lt_one (Nat.le_max_left 1 n)

theorem maybeTransitionHalfOpen_of_ne (h : s.status ≠ .open) :
    maybeTransitionHalfOpen cfg s now = s := by
  simp [maybeTransitionHalfOpen, h]

theorem maybeTransitionHalfOpen_cases (cfg : CircuitBreakerConfig) (s : InternalState)
    (now : Nat) :
    maybeTransitionHalfOpen cfg s now = s ∨
      s.status = .open ∧
        maybeTransitionHalfOpen cfg s now = { s with status := .halfOpen, successCount := 0 } := by
  unfold maybeTransitionHalfOpen
  split
  · rename_i ho
    split
    · split
      · exact .inr ⟨ho, rfl⟩
      · exact .inl rfl
    · exact .inl rfl
  · exact .inl rfl

@[simp] theorem state_snd : (state cfg s now).2 = maybeTransitionHalfOpen cfg s now := rfl

@[simp] theorem allowRequest_snd :
    (allowRequest cfg s now).2 = maybeTransitionHalfOpen cfg s now := by
  cases h : (maybeTransitionHalfOpen cfg s now).status <;> simp [allowRequest, h]

theorem allowRequest_eq_false :
    (allowRequest cfg s now).1 = false ↔ (maybeTransitionHalfOpen cfg s now).status = .open := by
  cases h : (maybeTransitionHalfOpen cfg s now).status <;> simp [allowRequest, h]

theorem recordSuccess_cases (h : recordSuccess cfg s = some s') :
    s.status = .halfOpen ∧ s'.status = .halfOpen ∧ s'.successCount = s.successCount + 1 ∧
        s.successCount + 1 < cfg.successThreshold ∨
      s.status = .halfOpen ∧ s'.status = .closed ∧ cfg.successThreshold ≤ s.successCount + 1 ∨
      s.status ≠ .halfOpen ∧ s'.status = s.status := by
  unfold recordSuccess at h
  cases hs : s.status with
  | closed =>
    simp only [hs, Option.some.injEq] at h
    exact .inr (.inr ⟨by simp, by simp [← h]⟩)
  | «open» =>
    simp only [hs, Option.some.injEq] at h
    exact .inr (.inr ⟨by simp, by simp [← h, hs]⟩)
  | halfOpen =>
    simp only [hs, bind, Option.bind_eq_some_iff] at h
    obtain ⟨count, hincr, h⟩ := h
    simp only [incrU32] at hincr
    split at hincr <;> simp only [Option.some.injEq, reduceCtorEq] at hincr
    subst hincr
    split at h <;> rename_i hthr <;> rw [← Option.some.inj h]
    · exact .inr (.inl ⟨rfl, rfl, hthr⟩)
    · exact .inl ⟨rfl, rfl, rfl, by simpa using hthr⟩

/-- A failure never leaves the breaker half open. -/
theorem recordFailure_status (h : recordFailure cfg s now = some s') :
    s'.status ≠ .halfOpen ∧ (s.status = .halfOpen → s'.status = .open) := by
  unfold recordFailure at h
  cases hs : s.status with
  | closed =>
    simp only [hs, bind, Option.bind_eq_some_iff] at h
    obtain ⟨count, -, h⟩ := h
    split at h <;> rw [← Option.some.inj h] <;> simp
  | «open» =>
    simp only [hs] at h
    rw [← Option.some.inj h]
    simp
  | halfOpen =>
    simp only [hs] at h
    rw [← Option.some.inj h]
    simp

end Rinfra.Resilience
