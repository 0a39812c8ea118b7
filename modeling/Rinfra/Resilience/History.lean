import Mathlib.Data.List.Induction
import Rinfra.Lib.Transition
import Rinfra.Resilience.CircuitBreaker

/-!
# The breaker as a function of its history

`mode` says what the breaker is for, from the list of past calls alone, newest
first: no counter is carried along, every count is read off the list. The
refinement theorem compares it with the counters of `InternalState` after any
sequence of calls at nondecreasing times.
-/

namespace Rinfra.Resilience

open Rinfra.Lib CircuitBreaker

inductive Op
  | state
  | allowRequest
  | recordSuccess
  | recordFailure
  | reset
  deriving DecidableEq, Repr

structure Call where
  op : Op
  time : Nat
  deriving DecidableEq, Repr

/-- One call of the breaker's interface, its answer dropped. `none` is a
counter that overflows. -/
def call (cfg : CircuitBreakerConfig) (s : InternalState) (c : Call) : Option InternalState :=
  match c.op with
  | .state => some (state cfg s c.time).2
  | .allowRequest => some (allowRequest cfg s c.time).2
  | .recordSuccess => recordSuccess cfg s
  | .recordFailure => recordFailure cfg s c.time
  | .reset => some (reset s)

-- ---------------------------------------------------------------------------
-- The specification, on histories newest first
-- ---------------------------------------------------------------------------

/-- Failures since the last success or reset; the breaker closes only on a
success. -/
def failures : List Call → Nat
  | [] => 0
  | c :: past =>
    match c.op with
    | .recordFailure => failures past + 1
    | .recordSuccess | .reset => 0
    | .state | .allowRequest => failures past

def lastFailure : List Call → Option Nat
  | [] => none
  | c :: past => if c.op = .recordFailure then some c.time else lastFailure past

def Op.reads : Op → Bool
  | .state | .allowRequest => true
  | _ => false

def cooledDown (cfg : CircuitBreakerConfig) (past : List Call) (now : Nat) : Bool :=
  match lastFailure past with
  | some last => decide (last + fromSecs cfg.openDurationSecs ≤ now)
  | none => false

mutual
def mode (cfg : CircuitBreakerConfig) : List Call → CircuitState
  | [] => .closed
  | c :: past =>
    match c.op, mode cfg past with
    | .reset, _ => .closed
    | .recordFailure, .closed =>
      if max 1 cfg.failureThreshold ≤ failures past + 1 then .open else .closed
    | .recordFailure, _ => .open
    | .recordSuccess, .halfOpen =>
      if max 1 cfg.successThreshold ≤ successes cfg past + 1 then .closed else .halfOpen
    | .recordSuccess, m => m
    | .state, .open | .allowRequest, .open =>
      if cooledDown cfg past c.time then .halfOpen else .open
    | .state, m | .allowRequest, m => m
/-- Successes since the breaker became half open, no failure in between. -/
def successes (cfg : CircuitBreakerConfig) : List Call → Nat
  | [] => 0
  | c :: past =>
    match c.op, mode cfg past with
    | .recordSuccess, .halfOpen => successes cfg past + 1
    | .state, .halfOpen | .allowRequest, .halfOpen => successes cfg past
    | _, _ => 0
end

-- ---------------------------------------------------------------------------
-- Refinement
-- ---------------------------------------------------------------------------

/-- The state agrees with the history, as far as the status lets it be seen. -/
structure Matches (cfg : CircuitBreakerConfig) (s : InternalState) (past : List Call) : Prop where
  status : s.status = mode cfg past
  closed : s.status = .closed →
    s.failureCount = failures past ∧ s.failureCount < max 1 cfg.failureThreshold
  halfOpen : s.status = .halfOpen →
    s.successCount = successes cfg past ∧ s.successCount < max 1 cfg.successThreshold
  «open» : s.status = .open → s.lastFailureAt = lastFailure past ∧ s.lastFailureAt.isSome

def Before (past : List Call) (now : Nat) : Prop := ∀ c ∈ past, c.time ≤ now

theorem lastFailure_le (hb : Before past now) (h : lastFailure past = some last) : last ≤ now := by
  induction past with
  | nil => simp [lastFailure] at h
  | cons c past ih =>
    simp only [lastFailure] at h
    split at h
    · cases h
      exact hb c (by simp)
    · exact ih (fun d hd => hb d (by simp [hd])) h

theorem Matches.new (cfg : CircuitBreakerConfig) : Matches cfg new [] where
  status := by simp [CircuitBreaker.new, mode]
  closed _ := ⟨rfl, threshold_pos _⟩
  halfOpen h := by simp [CircuitBreaker.new] at h
  «open» h := by simp [CircuitBreaker.new] at h

section
variable {cfg : CircuitBreakerConfig} {s : InternalState} {past : List Call} {c : Call}

theorem mode_read (hc : c.op.reads = true) :
    mode cfg (c :: past) =
      if mode cfg past = .open ∧ cooledDown cfg past c.time = true then .halfOpen
      else mode cfg past := by
  obtain ⟨op, time⟩ := c
  cases op <;> simp [Op.reads] at hc <;> cases hm : mode cfg past <;> simp [mode, hm]

theorem successes_read (hc : c.op.reads = true) :
    successes cfg (c :: past) =
      if mode cfg past = .halfOpen then successes cfg past else 0 := by
  obtain ⟨op, time⟩ := c
  cases op <;> simp [Op.reads] at hc <;> cases hm : mode cfg past <;> simp [successes, hm]

theorem failures_read (hc : c.op.reads = true) : failures (c :: past) = failures past := by
  obtain ⟨op, time⟩ := c
  cases op <;> simp [Op.reads] at hc <;> rfl

theorem lastFailure_read (hc : c.op.reads = true) : lastFailure (c :: past) = lastFailure past := by
  obtain ⟨op, time⟩ := c
  cases op <;> simp [Op.reads] at hc <;> rfl

/-- An open breaker leaves the open state at a read exactly when the history
says it has cooled down. -/
theorem Matches.transition (h : Matches cfg s past) (hb : Before past now) (ho : s.status = .open) :
    maybeTransitionHalfOpen cfg s now =
      if cooledDown cfg past now then { s with status := .halfOpen, successCount := 0 } else s := by
  obtain ⟨hlast, hsome⟩ := h.open ho
  obtain ⟨last, hl⟩ := Option.isSome_iff_exists.mp hsome
  have hpast : lastFailure past = some last := hlast ▸ hl
  have hle : cfg.openDurationSecs ≤ asSecs (elapsed now last) ↔ _ :=
    asSecs_elapsed (lastFailure_le hb hpast)
  simp [maybeTransitionHalfOpen, cooledDown, ho, hl, hpast, hle]

theorem Matches.read (h : Matches cfg s past) (hb : Before past c.time)
    (hc : c.op.reads = true) :
    Matches cfg (maybeTransitionHalfOpen cfg s c.time) (c :: past) := by
  by_cases ho : s.status = .open
  · rw [h.transition hb ho]
    have hm : mode cfg past = .open := h.status ▸ ho
    split
    · rename_i hcool
      refine ⟨?_, ?_, ?_, ?_⟩
      · simp [mode_read hc, hm, hcool]
      · simp
      · intro _
        exact ⟨by simp [successes_read hc, hm], threshold_pos _⟩
      · simp
    · rename_i hcool
      refine ⟨?_, ?_, ?_, ?_⟩
      · simp [mode_read hc, hcool, h.status]
      · simp [ho]
      · simp [ho]
      · intro _
        rw [lastFailure_read hc]
        exact h.open ho
  · rw [maybeTransitionHalfOpen_of_ne ho]
    have hm : mode cfg past ≠ .open := h.status ▸ ho
    refine ⟨?_, ?_, ?_, fun ho' => absurd ho' ho⟩
    · simp [mode_read hc, hm, h.status]
    · intro hs
      rw [failures_read hc]
      exact h.closed hs
    · intro hs
      have hm : mode cfg past = .halfOpen := h.status ▸ hs
      rw [successes_read hc, if_pos hm]
      exact h.halfOpen hs

theorem Matches.success (h : Matches cfg s past) (hc : c.op = .recordSuccess) :
    ∃ s', recordSuccess cfg s = some s' ∧ Matches cfg s' (c :: past) := by
  have hu := cfg.success_u32
  cases hs : s.status with
  | closed =>
    have hm : mode cfg past = .closed := h.status ▸ hs
    refine ⟨{ s with failureCount := 0 }, by simp [recordSuccess, hs], ?_, ?_, ?_, ?_⟩
    · simp [mode, hc, hm, hs]
    · intro _
      exact ⟨by simp [failures, hc], threshold_pos _⟩
    · simp [hs]
    · simp [hs]
  | «open» =>
    have hm : mode cfg past = .open := h.status ▸ hs
    refine ⟨s, by simp [recordSuccess, hs], ?_, ?_, ?_, ?_⟩
    · simp [mode, hc, hm, hs]
    · simp [hs]
    · simp [hs]
    · intro _
      simpa [lastFailure, hc] using h.open hs
  | halfOpen =>
    have hm : mode cfg past = .halfOpen := h.status ▸ hs
    obtain ⟨hcount, hlt⟩ := h.halfOpen hs
    have hincr : incrU32 s.successCount = some (successes cfg past + 1) := by
      rw [← hcount]
      exact incrU32_of_lt hlt (by omega)
    have hfull : max 1 cfg.successThreshold ≤ successes cfg past + 1 ↔
        cfg.successThreshold ≤ successes cfg past + 1 := by omega
    by_cases hthr : cfg.successThreshold ≤ successes cfg past + 1
    · refine ⟨_, by simp [recordSuccess, hs, hincr, hthr]; rfl, ?_, ?_, ?_, ?_⟩
      · simp [mode, hc, hm, hfull, hthr]
      · intro _
        exact ⟨by simp [failures, hc], threshold_pos _⟩
      · simp
      · simp
    · refine ⟨_, by simp [recordSuccess, hs, hincr, hthr]; rfl, ?_, ?_, ?_, ?_⟩
      · simp [mode, hc, hm, hfull, hthr]
      · simp
      · intro _
        exact ⟨by simp [successes, hc, hm], by simp; omega⟩
      · simp

theorem Matches.failure (h : Matches cfg s past) (hc : c.op = .recordFailure) :
    ∃ s', recordFailure cfg s c.time = some s' ∧ Matches cfg s' (c :: past) := by
  have hu := cfg.failure_u32
  have hlast : lastFailure (c :: past) = some c.time := by simp [lastFailure, hc]
  cases hs : s.status with
  | closed =>
    have hm : mode cfg past = .closed := h.status ▸ hs
    obtain ⟨hcount, hlt⟩ := h.closed hs
    have hincr : incrU32 s.failureCount = some (failures past + 1) := by
      rw [← hcount]
      exact incrU32_of_lt hlt (by omega)
    have hfull : max 1 cfg.failureThreshold ≤ failures past + 1 ↔
        cfg.failureThreshold ≤ failures past + 1 := by omega
    by_cases hthr : cfg.failureThreshold ≤ failures past + 1
    · refine ⟨_, by simp [recordFailure, hs, hincr, hthr]; rfl, ?_, ?_, ?_, ?_⟩
      · simp [mode, hc, hm, hfull, hthr]
      · simp
      · simp
      · simp [hlast]
    · refine ⟨_, by simp [recordFailure, hs, hincr, hthr]; rfl, ?_, ?_, ?_, ?_⟩
      · simp [mode, hc, hm, hfull, hthr]
      · intro _
        exact ⟨by simp [failures, hc], by simp; omega⟩
      · simp
      · simp
  | «open» =>
    have hm : mode cfg past = .open := h.status ▸ hs
    refine ⟨_, by simp [recordFailure, hs]; rfl, ?_, ?_, ?_, ?_⟩
    · simp [mode, hc, hm]
    · simp
    · simp
    · simp [hlast]
  | halfOpen =>
    have hm : mode cfg past = .halfOpen := h.status ▸ hs
    refine ⟨_, by simp [recordFailure, hs]; rfl, ?_, ?_, ?_, ?_⟩
    · simp [mode, hc, hm]
    · simp
    · simp
    · simp [hlast]

theorem Matches.reset (h : c.op = .reset) : Matches cfg (CircuitBreaker.reset s) (c :: past) where
  status := by simp [CircuitBreaker.reset, mode, h]
  closed _ := ⟨by simp [CircuitBreaker.reset, failures, h], threshold_pos _⟩
  halfOpen hs := by simp [CircuitBreaker.reset] at hs
  «open» hs := by simp [CircuitBreaker.reset] at hs

/-- One call keeps the agreement, and no counter overflows in it. -/
theorem Matches.call (h : Matches cfg s past) (hb : Before past c.time) :
    ∃ s', call cfg s c = some s' ∧ Matches cfg s' (c :: past) := by
  cases hop : c.op with
  | state => exact ⟨_, by simp [Resilience.call, hop], h.read hb (by simp [hop, Op.reads])⟩
  | allowRequest =>
    exact ⟨_, by simp [Resilience.call, hop], h.read hb (by simp [hop, Op.reads])⟩
  | recordSuccess => simpa [Resilience.call, hop] using h.success hop
  | recordFailure => simpa [Resilience.call, hop] using h.failure hop
  | reset => exact ⟨CircuitBreaker.reset s, by simp [Resilience.call, hop], Matches.reset hop⟩

end

theorem run_matches (cfg : CircuitBreakerConfig) (calls : List Call)
    (htime : calls.Pairwise (·.time ≤ ·.time)) :
    ∃ s, run (call cfg) new calls = some s ∧ Matches cfg s calls.reverse := by
  induction calls using List.reverseRecOn with
  | nil => exact ⟨new, rfl, .new cfg⟩
  | append_singleton calls c ih =>
    obtain ⟨hbefore, -, hlast⟩ := List.pairwise_append.mp htime
    obtain ⟨s, hrun, hm⟩ := ih hbefore
    have hb : Before calls.reverse c.time := by
      intro d hd
      exact hlast d (by simpa using hd) c (by simp)
    obtain ⟨s', hcall, hm'⟩ := hm.call hb
    exact ⟨s', run_concat.mpr ⟨s, hrun, hcall⟩, by simpa using hm'⟩

/-- After any calls at nondecreasing times, a further `allowRequest` is
refused exactly when the history specification is open at it.

Premise: the call times do not decrease. A run that overflows a counter would
be `none`, so its existence says that none does. -/
theorem breaker_refines_history (cfg : CircuitBreakerConfig) (calls : List Call)
    (htime : calls.Pairwise (·.time ≤ ·.time)) :
    ∃ s, run (call cfg) new calls = some s ∧
      s.status = mode cfg calls.reverse ∧
      (s.status = .closed → s.failureCount < max 1 cfg.failureThreshold) ∧
      (s.status = .halfOpen → s.successCount < max 1 cfg.successThreshold) ∧
      (s.status = .open → s.lastFailureAt.isSome) ∧
      ∀ now, (∀ c ∈ calls, c.time ≤ now) →
        ((allowRequest cfg s now).1 = false ↔
          mode cfg (⟨.allowRequest, now⟩ :: calls.reverse) = .open) := by
  obtain ⟨s, hrun, hm⟩ := run_matches cfg calls htime
  refine ⟨s, hrun, hm.status, fun h => (hm.closed h).2, fun h => (hm.halfOpen h).2,
    fun h => (hm.open h).2, ?_⟩
  intro now hnow
  have hb : Before calls.reverse now := fun c hc => hnow c (by simpa using hc)
  have hread := (hm.read (c := ⟨.allowRequest, now⟩) hb rfl).status
  rw [allowRequest_eq_false, hread]

/-- Five failures at once trip the default breaker, and a read thirty seconds
later lets a probe through. -/
theorem breaker_refines_history_default :
    let calls : List Call :=
      List.replicate 5 ⟨.recordFailure, 0⟩ ++ [⟨.allowRequest, fromSecs 30⟩]
    ∃ s, run (call default) new calls = some s ∧ s.status = mode default calls.reverse := by
  intro calls
  obtain ⟨s, hrun, hstatus, -⟩ := breaker_refines_history default calls (by decide)
  exact ⟨s, hrun, hstatus⟩

end Rinfra.Resilience
