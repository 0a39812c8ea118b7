import Mathlib.Logic.Function.Basic
import Rinfra.HttpClient.Reqwest

/-!
# Retry loops behind one breaker

Calls of any number of clients share a breaker with each other and with its
other users. A call is admitted once, at its start; whatever moves the breaker
afterwards, its attempts go out.
-/

namespace Rinfra.HttpClient

open Rinfra.Lib Resilience CircuitBreaker

structure CallSetup where
  url : String
  maxRetries : Nat
  retryDelay : Nat

structure Setup where
  name : String
  config : CircuitBreakerConfig
  call : Nat → CallSetup

/-- Where a call stands. The attempt of a `ready` one may be sent from an instant
on: at once, or after the delay. -/
inductive Phase
  | idle
  | ready (attempt since : Nat)
  | inFlight (attempt : Nat)
  | returned (result : Except AppError HttpResponse)
  | panicked
  | dropped
  deriving DecidableEq

structure World where
  inner : InternalState
  clock : Nat
  calls : Nat → Phase

inductive Event
  | start (c now : Nat)
  | send (c now : Nat)
  | complete (c : Nat) (outcome : Attempt) (now : Nat)
  | drop (c : Nat)
  | other (op : Op) (now : Nat)

def World.init : World := ⟨new, 0, fun _ => .idle⟩

def World.setCall (w : World) (c : Nat) (p : Phase) : World :=
  { w with calls := Function.update w.calls c p }

def World.tick (w : World) (now : Nat) : Option World :=
  if w.clock ≤ now then some { w with clock := now } else none

def rejected (setup : Setup) (c : Nat) : AppError :=
  ⟨.circuitBreakerOpen, s!"circuit breaker '{setup.name}' is open, " ++
    s!"rejecting HTTP request to {(setup.call c).url}"⟩

/-- Past `allow_request`: the number of attempts is computed. -/
def afterAdmission (setup : CallSetup) (now : Nat) : Phase :=
  match attempts setup.maxRetries with
  | none => .panicked
  | some _ => .ready 0 now

/-- Past an attempt: the call returns, or sleeps before the next one. -/
def afterAttempt (setup : CallSetup) (attempt : Nat) (outcome : Attempt) (now : Nat) : Phase :=
  match outcome with
  | .ok resp => .returned (.ok resp)
  | .error e =>
    if attempt + 1 < setup.maxRetries + 1 then .ready (attempt + 1) (now + setup.retryDelay)
    else .returned (.error e)

def record (cfg : CircuitBreakerConfig) (s : InternalState) (now : Nat) :
    Option Op → Option InternalState
  | none => some s
  | some op => Resilience.call cfg s ⟨op, now⟩

def step (setup : Setup) (w : World) : Event → Option World
  | .start c now => do
    let .idle := w.calls c | none
    let w ← w.tick now
    let (ok, inner) := allowRequest setup.config w.inner now
    let w := { w with inner }
    if ok then pure (w.setCall c (afterAdmission (setup.call c) now))
    else pure (w.setCall c (.returned (.error (rejected setup c))))
  | .send c now => do
    let .ready attempt since := w.calls c | none
    let w ← w.tick now
    if since ≤ now then pure (w.setCall c (.inFlight attempt)) else none
  | .complete c outcome now => do
    let .inFlight attempt := w.calls c | none
    let w ← w.tick now
    let inner ← record setup.config w.inner now (recorded outcome)
    pure ({ w with inner }.setCall c (afterAttempt (setup.call c) attempt outcome now))
  | .drop c => match w.calls c with
    -- the awaits of a call: its request, and the sleep before a retry
    | .inFlight _ | .ready (_ + 1) _ => some (w.setCall c .dropped)
    | _ => none
  | .other op now => do
    let w ← w.tick now
    let inner ← Resilience.call setup.config w.inner ⟨op, now⟩
    pure { w with inner }

-- ---------------------------------------------------------------------------
-- Inversion: what each event does
-- ---------------------------------------------------------------------------

section
variable {setup : Setup} {w w' : World}

theorem tick_some (h : w.tick now = some w') : w.clock ≤ now ∧ w' = { w with clock := now } := by
  unfold World.tick at h
  split at h
  · rename_i hle
    exact ⟨hle, (Option.some.inj h).symm⟩
  · cases h

theorem tick_of_le (h : w.clock ≤ now) : w.tick now = some { w with clock := now } := if_pos h

theorem step_start (h : step setup w (.start c now) = some w') :
    w.clock ≤ now ∧ ∃ p, w' = ⟨maybeTransitionHalfOpen setup.config w.inner now, now,
        Function.update w.calls c p⟩ ∧
      (w'.inner.status = .open → ∀ attempt since, p ≠ .ready attempt since) := by
  simp only [step] at h
  split at h
  · simp only [bind, Option.bind_eq_some_iff, allowRequest_snd] at h
    obtain ⟨w₁, htick, h⟩ := h
    obtain ⟨hle, rfl⟩ := tick_some htick
    refine ⟨hle, ?_⟩
    split at h <;> rename_i hok <;> rw [← Option.some.inj h]
    · refine ⟨_, rfl, fun hopen => ?_⟩
      rw [allowRequest_eq_false.mpr hopen] at hok
      cases hok
    · exact ⟨_, rfl, fun _ _ _ => nofun⟩
  · cases h

theorem step_send :
    step setup w (.send c now) = some w' ↔ ∃ attempt since, w.calls c = .ready attempt since ∧
      w.clock ≤ now ∧ since ≤ now ∧
      w' = ⟨w.inner, now, Function.update w.calls c (.inFlight attempt)⟩ := by
  constructor
  · intro h
    simp only [step] at h
    split at h
    · rename_i attempt since hready
      simp only [bind, Option.bind_eq_some_iff] at h
      obtain ⟨w₁, htick, h⟩ := h
      obtain ⟨hle, rfl⟩ := tick_some htick
      split at h
      · rename_i hsince
        exact ⟨attempt, since, hready, hle, hsince, (Option.some.inj h).symm⟩
      · cases h
    · cases h
  · rintro ⟨attempt, since, hready, hle, hsince, rfl⟩
    simp [step, hready, tick_of_le hle, hsince, World.setCall]

theorem step_complete (h : step setup w (.complete c outcome now) = some w') :
    ∃ attempt inner, w.calls c = .inFlight attempt ∧ w.clock ≤ now ∧
      record setup.config w.inner now (recorded outcome) = some inner ∧
      w' = ⟨inner, now,
        Function.update w.calls c (afterAttempt (setup.call c) attempt outcome now)⟩ := by
  simp only [step] at h
  split at h
  · rename_i attempt hflight
    simp only [bind, Option.bind_eq_some_iff] at h
    obtain ⟨w₁, htick, inner, hrecord, h⟩ := h
    obtain ⟨hle, rfl⟩ := tick_some htick
    exact ⟨attempt, inner, hflight, hle, hrecord, (Option.some.inj h).symm⟩
  · cases h

theorem step_drop (h : step setup w (.drop c) = some w') : w' = w.setCall c .dropped := by
  simp only [step] at h
  split at h <;> cases h <;> rfl

theorem step_other (h : step setup w (.other op now) = some w') :
    w.clock ≤ now ∧ ∃ inner, Resilience.call setup.config w.inner ⟨op, now⟩ = some inner ∧
      w' = ⟨inner, now, w.calls⟩ := by
  simp only [step, bind, Option.bind_eq_some_iff] at h
  obtain ⟨w₁, htick, inner, hcall, h⟩ := h
  obtain ⟨hle, rfl⟩ := tick_some htick
  exact ⟨hle, inner, hcall, (Option.some.inj h).symm⟩

-- ---------------------------------------------------------------------------
-- The breaker between two sections
-- ---------------------------------------------------------------------------

/-- An open breaker knows its last failure, and no failure is in the future. -/
structure Timed (s : InternalState) (clock : Nat) : Prop where
  past : ∀ last, s.lastFailureAt = some last → last ≤ clock
  known : s.status = .open → s.lastFailureAt.isSome

theorem Timed.mono (h : Timed s clock) (hle : clock ≤ now) : Timed s now :=
  ⟨fun last hl => Nat.le_trans (h.past last hl) hle, h.known⟩

theorem transition_lastFailureAt (cfg : CircuitBreakerConfig) (s : InternalState) (now : Nat) :
    (maybeTransitionHalfOpen cfg s now).lastFailureAt = s.lastFailureAt := by
  rcases maybeTransitionHalfOpen_cases cfg s now with h | ⟨-, h⟩ <;> rw [h]

theorem transition_open (h : (maybeTransitionHalfOpen cfg s now).status = .open) :
    maybeTransitionHalfOpen cfg s now = s := by
  rcases maybeTransitionHalfOpen_cases cfg s now with h' | ⟨-, h'⟩
  · exact h'
  · rw [h'] at h
    cases h

theorem Timed.read (h : Timed s clock) : Timed (maybeTransitionHalfOpen cfg s now) clock := by
  constructor
  · rw [transition_lastFailureAt]
    exact h.past
  · intro hopen
    have hsame := transition_open hopen
    rw [hsame] at hopen ⊢
    exact h.known hopen

theorem recordSuccess_open (h : recordSuccess cfg s = some s') (hopen : s'.status = .open) :
    s' = s := by
  rcases recordSuccess_cases h with ⟨-, hs', -⟩ | ⟨-, hs', -⟩ | ⟨-, hs'⟩
  · rw [hs'] at hopen
    cases hopen
  · rw [hs'] at hopen
    cases hopen
  · have hs : s.status = .open := hs'.symm.trans hopen
    simpa [recordSuccess, hs, eq_comm] using h

/-- Only a recorded failure makes a breaker open, or open anew. -/
theorem call_open (h : Resilience.call cfg s ⟨op, now⟩ = some s') (hop : op ≠ .recordFailure)
    (hopen : s'.status = .open) : s' = s := by
  cases op with
  | recordFailure => exact absurd rfl hop
  | recordSuccess => exact recordSuccess_open h hopen
  | state =>
    cases h
    exact transition_open hopen
  | allowRequest =>
    cases h
    rw [allowRequest_snd] at hopen ⊢
    exact transition_open hopen
  | reset =>
    cases h
    cases hopen

theorem recordFailure_lastFailureAt (h : recordFailure cfg s now = some s') :
    s'.lastFailureAt = some now := by
  unfold recordFailure at h
  cases hs : s.status with
  | closed =>
    simp only [hs, bind, Option.bind_eq_some_iff] at h
    obtain ⟨count, -, h⟩ := h
    split at h <;> rw [← Option.some.inj h]
  | «open» =>
    simp only [hs] at h
    rw [← Option.some.inj h]
  | halfOpen =>
    simp only [hs] at h
    rw [← Option.some.inj h]

theorem recordSuccess_lastFailureAt (h : recordSuccess cfg s = some s') :
    s'.lastFailureAt = s.lastFailureAt ∨ s'.lastFailureAt = none := by
  unfold recordSuccess at h
  cases hs : s.status with
  | closed =>
    simp only [hs] at h
    rw [← Option.some.inj h]
    exact .inl rfl
  | «open» =>
    simp only [hs] at h
    rw [← Option.some.inj h]
    exact .inl rfl
  | halfOpen =>
    simp only [hs, bind, Option.bind_eq_some_iff] at h
    obtain ⟨count, -, h⟩ := h
    split at h <;> rw [← Option.some.inj h]
    · exact .inr rfl
    · exact .inl rfl

theorem Timed.call (h : Timed s clock) (hle : clock ≤ now)
    (hcall : Resilience.call cfg s ⟨op, now⟩ = some s') : Timed s' now := by
  cases op with
  | recordFailure =>
    have hlast := recordFailure_lastFailureAt hcall
    refine ⟨fun last hl => ?_, fun _ => by simp [hlast]⟩
    rw [hlast] at hl
    exact Nat.le_of_eq (Option.some.inj hl).symm
  | recordSuccess =>
    have hsucc : recordSuccess cfg s = some s' := hcall
    constructor
    · intro last hl
      rcases recordSuccess_lastFailureAt hsucc with hsame | hnone
      · exact Nat.le_trans (h.past last (hsame ▸ hl)) hle
      · rw [hnone] at hl
        cases hl
    · intro hopen
      have hsame := recordSuccess_open hsucc hopen
      subst hsame
      exact h.known hopen
  | state =>
    cases hcall
    exact h.read.mono hle
  | allowRequest =>
    cases hcall
    rw [allowRequest_snd]
    exact h.read.mono hle
  | reset =>
    cases hcall
    exact ⟨nofun, nofun⟩

-- ---------------------------------------------------------------------------
-- Attempts that an open breaker lets out
-- ---------------------------------------------------------------------------

theorem Timed.init : Timed World.init.inner World.init.clock := ⟨nofun, nofun⟩

theorem Timed.step (h : Timed w.inner w.clock) (hs : step setup w e = some w') :
    Timed w'.inner w'.clock := by
  cases e with
  | start c now =>
    obtain ⟨hle, p, rfl, -⟩ := step_start hs
    exact h.read.mono hle
  | send c now =>
    obtain ⟨attempt, since, -, hle, -, rfl⟩ := step_send.mp hs
    exact h.mono hle
  | complete c outcome now =>
    obtain ⟨attempt, inner, -, hle, hrecord, rfl⟩ := step_complete hs
    cases hop : recorded outcome with
    | none =>
      rw [hop] at hrecord
      cases hrecord
      exact h.mono hle
    | some op =>
      rw [hop] at hrecord
      exact h.call hle hrecord
  | drop c =>
    rw [step_drop hs]
    exact h
  | other op now =>
    obtain ⟨hle, inner, hcall, rfl⟩ := step_other hs
    exact h.call hle hcall

/-- No attempt can be sent while the breaker's state is open. -/
def Shielded (setup : Setup) (w : World) : Prop :=
  ∀ c now w', HttpClient.step setup w (.send c now) = some w' →
    (state setup.config w.inner now).1 ≠ .open

/-- Every attempt that is ready has to wait until the breaker may let it out. -/
def Waits (setup : Setup) (calls : Nat → Phase) (last clock : Nat) : Prop :=
  ∀ c attempt since, calls c = .ready attempt since →
    last + fromSecs setup.config.openDurationSecs ≤ max since clock

theorem state_open_iff (h : s.status = .open) (hlast : s.lastFailureAt = some last)
    (hle : last ≤ now) :
    (state cfg s now).1 ≠ .open ↔ last + fromSecs cfg.openDurationSecs ≤ now := by
  rw [← asSecs_elapsed hle]
  by_cases hcool : cfg.openDurationSecs ≤ asSecs (elapsed now last)
  · simp [state, maybeTransitionHalfOpen, h, hlast, hcool]
  · simp [state, maybeTransitionHalfOpen, h, hlast, hcool]

theorem shielded_iff (ht : Timed w.inner w.clock) :
    Shielded setup w ↔ (w.inner.status = .open → ∀ last, w.inner.lastFailureAt = some last →
      Waits setup w.calls last w.clock) := by
  constructor
  · intro h hopen last hlast c attempt since hready
    have hsend : HttpClient.step setup w (.send c (max since w.clock)) = some _ :=
      step_send.mpr ⟨attempt, since, hready, Nat.le_max_right since w.clock,
        Nat.le_max_left since w.clock, rfl⟩
    have hle : last ≤ max since w.clock :=
      Nat.le_trans (ht.past last hlast) (Nat.le_max_right _ _)
    exact (state_open_iff hopen hlast hle).mp (h c _ _ hsend)
  · intro h c now w' hsend
    obtain ⟨attempt, since, hready, hclock, hsince, -⟩ := step_send.mp hsend
    by_cases hopen : w.inner.status = .open
    · obtain ⟨last, hlast⟩ := Option.isSome_iff_exists.mp (ht.known hopen)
      have hwait := h hopen last hlast c attempt since hready
      refine (state_open_iff hopen hlast (Nat.le_trans (ht.past last hlast) hclock)).mpr ?_
      exact Nat.le_trans hwait (Nat.max_le.mpr ⟨hsince, hclock⟩)
    · rw [state, maybeTransitionHalfOpen_of_ne hopen]
      exact hopen

def Opens (cfg : CircuitBreakerConfig) (s : InternalState) (now : Nat) : Prop :=
  ∃ s', recordFailure cfg s now = some s' ∧ s'.status = .open

/-- A failure that leaves the breaker open is recorded only when no admitted
call, nor the retry of the failing one, is ready before the open duration has
passed. -/
def Allowed (setup : Setup) (w : World) : Event → Prop
  | .complete c outcome now => ∀ attempt, w.calls c = .inFlight attempt →
      recorded outcome = some .recordFailure → Opens setup.config w.inner now →
      Waits setup (Function.update w.calls c (afterAttempt (setup.call c) attempt outcome now))
        now now
  | .other .recordFailure now => Opens setup.config w.inner now → Waits setup w.calls now now
  | _ => True

/-- Without a failure, the breaker is open only as it was. -/
theorem Shielded.calm (ht : Timed w.inner w.clock) (ht' : Timed w'.inner w'.clock)
    (h : Shielded setup w) (hclock : w.clock ≤ w'.clock)
    (hinner : w'.inner.status = .open → w'.inner = w.inner)
    (hcalls : w'.inner.status = .open → ∀ c attempt since,
      w'.calls c = .ready attempt since → w.calls c = .ready attempt since) :
    Shielded setup w' := by
  rw [shielded_iff ht] at h
  rw [shielded_iff ht']
  intro hopen last hlast c attempt since hready
  have hsame := hinner hopen
  rw [hsame] at hlast
  have hwait := h (hsame ▸ hopen) last hlast c attempt since (hcalls hopen c attempt since hready)
  exact Nat.le_trans hwait (by omega)

theorem shielded_of_failure (ht' : Timed w'.inner w'.clock)
    (h : recordFailure setup.config s w'.clock = some w'.inner) :
    Shielded setup w' ↔
      (Opens setup.config s w'.clock → Waits setup w'.calls w'.clock w'.clock) := by
  have hlast := recordFailure_lastFailureAt h
  rw [shielded_iff ht']
  constructor
  · rintro hwaits ⟨s', hs', hopen⟩
    rw [h, Option.some.injEq] at hs'
    exact hwaits (hs' ▸ hopen) _ hlast
  · intro hwaits hopen last hl
    rw [hlast, Option.some.injEq] at hl
    subst hl
    exact hwaits ⟨_, h, hopen⟩

theorem ready_update_of_ne (hp : ∀ attempt since, p ≠ .ready attempt since)
    (h : Function.update w.calls c p c' = .ready attempt since) :
    w.calls c' = .ready attempt since := by
  by_cases hc : c' = c
  · subst hc
    rw [Function.update_self] at h
    exact absurd h (hp _ _)
  · rwa [Function.update_of_ne hc] at h

theorem afterAttempt_of_not_failure (setup : CallSetup) (attempt now : Nat)
    (h : recorded outcome ≠ some .recordFailure) (k since : Nat) :
    afterAttempt setup attempt outcome now ≠ .ready k since := by
  cases outcome with
  | ok resp => exact nofun
  | error e => exact absurd rfl h

/-- A step keeps the attempts shielded exactly where it is allowed. -/
theorem shielded_step (ht : Timed w.inner w.clock) (h : Shielded setup w)
    (hs : step setup w e = some w') : Shielded setup w' ↔ Allowed setup w e := by
  have ht' := ht.step hs
  cases e with
  | start c now =>
    obtain ⟨hle, p, rfl, hp⟩ := step_start hs
    refine iff_of_true (h.calm ht ht' hle transition_open ?_) trivial
    exact fun hopen c' attempt since => ready_update_of_ne (hp hopen)
  | send c now =>
    obtain ⟨attempt, since, -, hle, -, rfl⟩ := step_send.mp hs
    refine iff_of_true (h.calm ht ht' hle (fun _ => rfl) ?_) trivial
    exact fun _ c' attempt since => ready_update_of_ne fun _ _ => nofun
  | complete c outcome now =>
    obtain ⟨attempt, inner, hflight, hle, hrecord, rfl⟩ := step_complete hs
    cases hop : recorded outcome with
    | none =>
      rw [hop] at hrecord
      cases hrecord
      have hanswered := afterAttempt_of_not_failure (setup.call c) attempt now
        (by simp [hop] : recorded outcome ≠ some .recordFailure)
      refine iff_of_true (h.calm ht ht' hle (fun _ => rfl) ?_) fun _ _ hfail => ?_
      · exact fun _ c' attempt since => ready_update_of_ne hanswered
      · rw [hop] at hfail
        cases hfail
    | some op =>
      rw [hop] at hrecord
      by_cases hfail : op = .recordFailure
      · subst hfail
        refine (shielded_of_failure (s := w.inner) ht' hrecord).trans ?_
        constructor
        · intro hwaits attempt' hflight' _
          rw [hflight] at hflight'
          cases hflight'
          exact hwaits
        · exact fun hall => hall attempt hflight hop
      · have hcalm : recorded outcome ≠ some .recordFailure := by simp [hop, hfail]
        have hanswered := afterAttempt_of_not_failure (setup.call c) attempt now hcalm
        refine iff_of_true (h.calm ht ht' hle (call_open hrecord hfail) ?_) fun _ _ h => ?_
        · exact fun _ c' attempt since => ready_update_of_ne hanswered
        · exact absurd h hcalm
  | drop c =>
    have hw := step_drop hs
    subst hw
    refine iff_of_true (h.calm ht ht' (Nat.le_refl _) (fun _ => rfl) ?_) trivial
    exact fun _ c' attempt since => ready_update_of_ne fun _ _ => nofun
  | other op now =>
    obtain ⟨hle, inner, hcall, rfl⟩ := step_other hs
    by_cases hop : op = .recordFailure
    · subst hop
      exact shielded_of_failure ht' hcall
    · have hallowed : Allowed setup w (.other op now) := by
        cases op with
        | recordFailure => exact absurd rfl hop
        | _ => trivial
      exact iff_of_true (h.calm ht ht' hle (call_open hcall hop) fun _ _ _ _ => id) hallowed

end

theorem shielded_init (setup : Setup) : Shielded setup .init := by
  intro c now w' h
  obtain ⟨attempt, since, hready, -⟩ := step_send.mp h
  cases hready

/-- No attempt goes out while the breaker is open, in exactly those runs that
record no opening failure while an admitted call has an attempt left. -/
theorem shielded_iff_allowed (setup : Setup) (events : List Event) :
    Always (step setup) (Shielded setup) .init events ↔
      Guarded (step setup) (Allowed setup) .init events := by
  refine always_iff_guarded (I := fun w => Timed w.inner w.clock) Timed.init
    (shielded_init setup) ?_ ?_
  · exact fun w e w' ht _ hs _ => ht.step hs
  · exact fun w e w' ht hp hs => shielded_step ht hp hs

theorem one_u32 : 1 < 2 ^ 32 := by decide

theorem thirty_u64 : 30 < 2 ^ 64 := by decide

def oneRetry : Setup where
  name := "api"
  config := ⟨1, 1, 30, one_u32, one_u32, thirty_u64⟩
  call _ := ⟨"http://host/", 1, fromMillis 100⟩

def refused : Attempt := .error ⟨.httpRequestFailed, "HTTP request failed: connection refused"⟩

/-- The first attempt opens the breaker, and the retry goes out all the same. -/
theorem retry_sent_while_open :
    ∃ w w', run (step oneRetry) .init [.start 0 0, .send 0 0, .complete 0 refused 0] = some w ∧
      (state oneRetry.config w.inner (fromMillis 100)).1 = .open ∧
      step oneRetry w (.send 0 (fromMillis 100)) = some w' ∧
      ¬Always (step oneRetry) (Shielded oneRetry) .init
        [.start 0 0, .send 0 0, .complete 0 refused 0] := by
  refine ⟨_, _, rfl, by decide, rfl, fun h => ?_⟩
  exact h.last rfl 0 (fromMillis 100) _ rfl (by decide)

end Rinfra.HttpClient
