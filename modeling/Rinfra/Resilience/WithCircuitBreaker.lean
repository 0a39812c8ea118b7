import Mathlib.Logic.Function.Basic
import Rinfra.Core.Error
import Rinfra.Lib.Transition
import Rinfra.Resilience.CircuitBreaker

/-!
# Concurrent guarded calls

`with_circuit_breaker` takes the breaker's lock once to be admitted and, after
an await of any length, once more to record a success or three times around a
failure. Each lock section is one step, so calls interleave between them.

The fields under "history" are never read by a step: they number the half-open
periods, and remember which period a call was admitted in, which calls were in
flight when the current period began, and whose successes it has counted.
-/

namespace Rinfra.Resilience

open Rinfra.Lib CircuitBreaker

/-- Where one call stands; `failing` and `recorded` hold `prev_state`. -/
inductive Phase (T : Type)
  | idle
  | running
  | failing (prev : CircuitState) (e : AppError)
  | recorded (prev : CircuitState) (e : AppError)
  | returned (result : Except AppError T)
  | dropped

def Phase.inFlight : Phase T → Bool
  | .running | .failing .. | .recorded .. => true
  | _ => false

structure Breaker where
  name : String
  config : CircuitBreakerConfig

structure World (T : Type) where
  inner : InternalState
  clock : Nat
  calls : Nat → Phase T
  -- history
  period : Nat
  admittedIn : Nat → Nat
  carried : Nat → Bool
  counted : List Nat

inductive Event (T : Type)
  | enter (c now : Nat)
  | succeed (c : Nat) (val : T)
  | fail (c : Nat) (e : AppError) (now : Nat)
  | recordFailure (c now : Nat)
  | readNewState (c now : Nat)
  | drop (c : Nat)
  | observe (now : Nat)

def World.init (T : Type) : World T where
  inner := new
  clock := 0
  calls _ := .idle
  period := 0
  admittedIn _ := 0
  carried _ := false
  counted := []

def World.setCall (w : World T) (c : Nat) (p : Phase T) : World T :=
  { w with calls := Function.update w.calls c p }

/-- The breaker's lock section leaves `inner`; a new half-open period is noted. -/
def World.setInner (w : World T) (inner : InternalState) : World T :=
  if w.inner.status ≠ .halfOpen ∧ inner.status = .halfOpen then
    { w with
      inner, period := w.period + 1, carried := fun c => (w.calls c).inFlight, counted := [] }
  else { w with inner }

def World.noteAdmission (w : World T) (c : Nat) : World T :=
  { w with admittedIn := Function.update w.admittedIn c w.period }

/-- A success recorded while the breaker is half open counts for its period. -/
def World.noteSuccess (w : World T) (c : Nat) : World T :=
  if w.inner.status = .halfOpen then { w with counted := c :: w.counted } else w

def World.tick (w : World T) (now : Nat) : Option (World T) :=
  if w.clock ≤ now then some { w with clock := now } else none

def circuitBreakerOpen (b : Breaker) : AppError :=
  ⟨.circuitBreakerOpen, s!"circuit breaker '{b.name}' is open"⟩

def step (b : Breaker) (w : World T) : Event T → Option (World T)
  | .enter c now => do
    let .idle := w.calls c | none
    let w ← w.tick now
    let (ok, inner) := allowRequest b.config w.inner now
    let w := w.setInner inner
    if ok then pure ((w.noteAdmission c).setCall c .running)
    else pure (w.setCall c (.returned (.error (circuitBreakerOpen b))))
  | .succeed c val => do
    let .running := w.calls c | none
    let inner ← recordSuccess b.config w.inner
    pure (((w.noteSuccess c).setInner inner).setCall c (.returned (.ok val)))
  | .fail c e now => do
    let .running := w.calls c | none
    let w ← w.tick now
    let (prev, inner) := state b.config w.inner now
    pure ((w.setInner inner).setCall c (.failing prev e))
  | .recordFailure c now => do
    let .failing prev e := w.calls c | none
    let w ← w.tick now
    let inner ← CircuitBreaker.recordFailure b.config w.inner now
    pure ((w.setInner inner).setCall c (.recorded prev e))
  | .readNewState c now => do
    let .recorded _ e := w.calls c | none
    let w ← w.tick now
    let (_, inner) := state b.config w.inner now
    pure ((w.setInner inner).setCall c (.returned (.error e)))
  | .drop c => do
    let .running := w.calls c | none
    pure (w.setCall c .dropped)
  | .observe now => do
    let w ← w.tick now
    let (_, inner) := state b.config w.inner now
    pure (w.setInner inner)

-- ---------------------------------------------------------------------------
-- Inversion: what each event does
-- ---------------------------------------------------------------------------

inductive Goes (b : Breaker) (w : World T) : Event T → World T → Prop
  | admitted (hidle : w.calls c = .idle) (ht : w.tick now = some w₁)
      (hok : (allowRequest b.config w₁.inner now).1 = true) :
      Goes b w (.enter c now)
        (((w₁.setInner (maybeTransitionHalfOpen b.config w₁.inner now)).noteAdmission c).setCall
          c .running)
  | rejected (hidle : w.calls c = .idle) (ht : w.tick now = some w₁)
      (hok : (allowRequest b.config w₁.inner now).1 = false) :
      Goes b w (.enter c now)
        ((w₁.setInner (maybeTransitionHalfOpen b.config w₁.inner now)).setCall
          c (.returned (.error (circuitBreakerOpen b))))
  | succeed {inner : InternalState} (hrun : w.calls c = .running)
      (hr : recordSuccess b.config w.inner = some inner) :
      Goes b w (.succeed c val)
        (((w.noteSuccess c).setInner inner).setCall c (.returned (.ok val)))
  | fail (hrun : w.calls c = .running) (ht : w.tick now = some w₁) :
      Goes b w (.fail c e now)
        ((w₁.setInner (maybeTransitionHalfOpen b.config w₁.inner now)).setCall
          c (.failing (state b.config w₁.inner now).1 e))
  | recordFailure {inner : InternalState} (hf : w.calls c = .failing prev e)
      (ht : w.tick now = some w₁)
      (hr : CircuitBreaker.recordFailure b.config w₁.inner now = some inner) :
      Goes b w (.recordFailure c now) ((w₁.setInner inner).setCall c (.recorded prev e))
  | readNewState (hf : w.calls c = .recorded prev e) (ht : w.tick now = some w₁) :
      Goes b w (.readNewState c now)
        ((w₁.setInner (maybeTransitionHalfOpen b.config w₁.inner now)).setCall
          c (.returned (.error e)))
  | drop (hrun : w.calls c = .running) : Goes b w (.drop c) (w.setCall c .dropped)
  | observe (ht : w.tick now = some w₁) :
      Goes b w (.observe now) (w₁.setInner (maybeTransitionHalfOpen b.config w₁.inner now))

section
variable {T : Type} {b : Breaker} {w w' : World T} {inner : InternalState}

theorem tick_some (h : w.tick now = some w') : w' = { w with clock := now } := by
  unfold World.tick at h
  split at h
  · exact (Option.some.inj h).symm
  · cases h

theorem setInner_enter (h : w.inner.status ≠ .halfOpen) (hi : inner.status = .halfOpen) :
    w.setInner inner = { w with
      inner, period := w.period + 1, carried := fun c => (w.calls c).inFlight, counted := [] } := by
  simp [World.setInner, h, hi]

theorem setInner_stay (h : w.inner.status = .halfOpen ∨ inner.status ≠ .halfOpen) :
    w.setInner inner = { w with inner } := by
  unfold World.setInner
  split
  · rename_i hn
    rcases h with h | h
    · exact absurd h hn.1
    · exact absurd hn.2 h
  · rfl

@[simp] theorem setInner_self : w.setInner w.inner = w := by
  unfold World.setInner
  rw [if_neg fun hn => hn.1 hn.2]

@[simp] theorem setInner_inner : (w.setInner inner).inner = inner := by
  unfold World.setInner
  split <;> rfl

@[simp] theorem setInner_calls : (w.setInner inner).calls = w.calls := by
  unfold World.setInner
  split <;> rfl

@[simp] theorem setCall_inner : (w.setCall c p).inner = w.inner := rfl
@[simp] theorem noteAdmission_inner : (w.noteAdmission c).inner = w.inner := rfl
@[simp] theorem noteAdmission_calls : (w.noteAdmission c).calls = w.calls := rfl

theorem goes (h : step b w e = some w') : Goes b w e w' := by
  cases e with
  | enter c now =>
    simp only [step] at h
    split at h
    · simp only [bind, Option.bind_eq_some_iff, allowRequest_snd] at h
      obtain ⟨w₁, ht, h⟩ := h
      split at h <;> cases h
      · exact .admitted ‹_› ht ‹_›
      · exact .rejected ‹_› ht (Bool.eq_false_iff.mpr ‹_›)
    · cases h
  | succeed c val =>
    simp only [step] at h
    split at h
    · simp only [bind, Option.bind_eq_some_iff] at h
      obtain ⟨inner, hr, h⟩ := h
      cases h
      exact .succeed ‹_› hr
    · cases h
  | fail c e now =>
    simp only [step] at h
    split at h
    · simp only [bind, Option.bind_eq_some_iff, state_snd] at h
      obtain ⟨w₁, ht, h⟩ := h
      cases h
      exact .fail ‹_› ht
    · cases h
  | recordFailure c now =>
    simp only [step] at h
    split at h
    · simp only [bind, Option.bind_eq_some_iff] at h
      obtain ⟨w₁, ht, inner, hr, h⟩ := h
      cases h
      exact .recordFailure ‹_› ht hr
    · cases h
  | readNewState c now =>
    simp only [step] at h
    split at h
    · simp only [bind, Option.bind_eq_some_iff, state_snd] at h
      obtain ⟨w₁, ht, h⟩ := h
      cases h
      exact .readNewState ‹_› ht
    · cases h
  | drop c =>
    simp only [step] at h
    split at h <;> cases h
    exact .drop ‹_›
  | observe now =>
    simp only [step, bind, Option.bind_eq_some_iff, state_snd] at h
    obtain ⟨w₁, ht, h⟩ := h
    cases h
    exact .observe ht

theorem step_enter (h : step b w (.enter c now) = some w') :
    w.calls c = .idle ∧ ∃ w₁ ok, w.tick now = some w₁ ∧
      w' = bif ok
        then ((w₁.setInner (maybeTransitionHalfOpen b.config w₁.inner now)).noteAdmission c).setCall
          c .running
        else (w₁.setInner (maybeTransitionHalfOpen b.config w₁.inner now)).setCall
          c (.returned (.error (circuitBreakerOpen b))) := by
  cases goes h with
  | admitted hidle ht hok => exact ⟨hidle, _, true, ht, rfl⟩
  | rejected hidle ht hok => exact ⟨hidle, _, false, ht, rfl⟩

theorem step_succeed (h : step b w (.succeed c val) = some w') :
    w.calls c = .running ∧ ∃ inner, recordSuccess b.config w.inner = some inner ∧
      w' = ((w.noteSuccess c).setInner inner).setCall c (.returned (.ok val)) := by
  cases goes h with
  | succeed hrun hr => exact ⟨hrun, _, hr, rfl⟩

/-- Every other event settles at most one call and runs at most one section,
a lazy transition or a recorded failure. -/
theorem step_other (henter : ∀ c now, e ≠ .enter c now) (hsucc : ∀ c val, e ≠ .succeed c val)
    (h : step b w e = some w') :
    ∃ w₁ w₂, (w₁ = w ∨ ∃ now, w.tick now = some w₁) ∧
      (w₂ = w₁ ∨
        (∃ now, w₂ = w₁.setInner (maybeTransitionHalfOpen b.config w₁.inner now)) ∨
        ∃ inner now, CircuitBreaker.recordFailure b.config w₁.inner now = some inner ∧
          w₂ = w₁.setInner inner) ∧
      (w' = w₂ ∨ ∃ c p, (w.calls c).inFlight = true ∧ p ≠ .idle ∧ w' = w₂.setCall c p) := by
  cases goes h with
  | admitted | rejected => exact absurd rfl (henter _ _)
  | succeed => exact absurd rfl (hsucc _ _)
  | fail hc ht | readNewState hc ht =>
    exact ⟨_, _, .inr ⟨_, ht⟩, .inr (.inl ⟨_, rfl⟩),
      .inr ⟨_, _, by simp [hc, Phase.inFlight], by simp, rfl⟩⟩
  | recordFailure hc ht hr =>
    exact ⟨_, _, .inr ⟨_, ht⟩, .inr (.inr ⟨_, _, hr, rfl⟩),
      .inr ⟨_, _, by simp [hc, Phase.inFlight], by simp, rfl⟩⟩
  | drop hrun =>
    exact ⟨w, w, .inl rfl, .inl rfl,
      .inr ⟨_, _, by simp [hrun, Phase.inFlight], by simp, rfl⟩⟩
  | observe ht => exact ⟨_, _, .inr ⟨_, ht⟩, .inr (.inl ⟨_, rfl⟩), .inl rfl⟩

/-- The call of the event goes on, and the others stay where they are. -/
def CallsAfter (b : Breaker) (w w' : World T) : Event T → Prop
  | .enter c now => w.calls c = .idle ∧ w'.calls = Function.update w.calls c
      (if (allowRequest b.config w.inner now).1 then .running
      else .returned (.error (circuitBreakerOpen b)))
  | .succeed c val =>
    w.calls c = .running ∧ w'.calls = Function.update w.calls c (.returned (.ok val))
  | .fail c err _ =>
    w.calls c = .running ∧ ∃ prev, w'.calls = Function.update w.calls c (.failing prev err)
  | .recordFailure c _ => ∃ prev err, w.calls c = .failing prev err ∧
      w'.calls = Function.update w.calls c (.recorded prev err)
  | .readNewState c _ => ∃ prev err, w.calls c = .recorded prev err ∧
      w'.calls = Function.update w.calls c (.returned (.error err))
  | .drop c => w.calls c = .running ∧ w'.calls = Function.update w.calls c .dropped
  | .observe _ => w'.calls = w.calls

theorem step_calls (h : step b w e = some w') : CallsAfter b w w' e := by
  cases goes h with
  | admitted hidle ht hok | rejected hidle ht hok =>
    have ht := tick_some ht
    subst ht
    simp only at hok
    exact ⟨hidle, by simp [hok, World.setCall]⟩
  | @succeed c val inner hrun hr =>
    refine ⟨hrun, ?_⟩
    simp only [World.setCall, setInner_calls, World.noteSuccess]
    split <;> rfl
  | fail hrun ht =>
    have ht := tick_some ht
    subst ht
    exact ⟨hrun, _, by simp only [World.setCall, setInner_calls]; rfl⟩
  | recordFailure hf ht | readNewState hf ht =>
    have ht := tick_some ht
    subst ht
    exact ⟨_, _, hf, by simp only [World.setCall, setInner_calls]⟩
  | drop hrun => exact ⟨hrun, rfl⟩
  | observe ht =>
    have ht := tick_some ht
    subst ht
    simp [CallsAfter]

def Event.call : Event T → Option Nat
  | .enter c _ | .succeed c _ | .fail c .. | .recordFailure c _ | .readNewState c _ | .drop c =>
    some c
  | .observe _ => none

theorem step_other_calls (h : step b w e = some w') (hne : e.call ≠ some d) :
    w'.calls d = w.calls d := by
  have hcalls := step_calls h
  cases e with
  | enter c now | succeed c val | drop c =>
    rw [hcalls.2]
    exact Function.update_of_ne (fun heq => hne (by rw [heq]; rfl)) ..
  | fail c err now =>
    obtain ⟨-, prev, hcalls⟩ := hcalls
    rw [hcalls]
    exact Function.update_of_ne (fun heq => hne (by rw [heq]; rfl)) ..
  | recordFailure c now | readNewState c now =>
    obtain ⟨prev, err, -, hcalls⟩ := hcalls
    rw [hcalls]
    exact Function.update_of_ne (fun heq => hne (by rw [heq]; rfl)) ..
  | observe now => rw [hcalls]

-- ---------------------------------------------------------------------------
-- Whose successes a half-open period counts
-- ---------------------------------------------------------------------------

/-- The call was admitted in the current period, or before it and was still in
flight when the period began. -/
def World.Entitled (w : World T) (c : Nat) : Prop :=
  w.admittedIn c = w.period ∨ w.admittedIn c < w.period ∧ w.carried c = true

structure Inv (b : Breaker) (w : World T) : Prop where
  admitted_le : ∀ c, w.admittedIn c ≤ w.period
  carried_lt : ∀ c, w.carried c = true → w.admittedIn c < w.period ∧ w.calls c ≠ .idle
  inFlight : w.inner.status = .halfOpen → ∀ c, (w.calls c).inFlight = true → w.Entitled c
  successes : w.inner.status = .halfOpen →
    w.counted.length = w.inner.successCount ∧ w.inner.successCount < max 1 b.config.successThreshold
  nodup : w.counted.Nodup
  counted : ∀ c ∈ w.counted, ∃ val, w.calls c = .returned (.ok val)
  entitled : w.inner.status = .halfOpen → ∀ c ∈ w.counted, w.Entitled c

theorem Inv.init (b : Breaker) : Inv b (World.init T) where
  admitted_le _ := Nat.le_refl _
  carried_lt c h := by simp [World.init] at h
  inFlight h := by simp [World.init, CircuitBreaker.new] at h
  successes h := by simp [World.init, CircuitBreaker.new] at h
  nodup := List.nodup_nil
  counted c h := by simp [World.init] at h
  entitled h := by simp [World.init, CircuitBreaker.new] at h

theorem Inv.tick (h : Inv b w) (ht : w.tick now = some w') : Inv b w' := by
  rw [tick_some ht]
  exact ⟨h.1, h.2, h.3, h.4, h.5, h.6, h.7⟩

theorem Inv.setInner_ne (h : Inv b w) (hi : inner.status ≠ .halfOpen) :
    Inv b (w.setInner inner) := by
  rw [setInner_stay (.inr hi)]
  exact ⟨h.admitted_le, h.carried_lt, fun hs => absurd hs hi, fun hs => absurd hs hi, h.nodup,
    h.counted, fun hs => absurd hs hi⟩

theorem Inv.lazy (h : Inv b w) :
    Inv b (w.setInner (maybeTransitionHalfOpen b.config w.inner now)) := by
  rcases maybeTransitionHalfOpen_cases b.config w.inner now with heq | ⟨ho, heq⟩ <;> rw [heq]
  · rw [setInner_self]
    exact h
  · -- the breaker enters a new period: whoever is in flight is carried into it
    rw [setInner_enter (by simp [ho]) rfl]
    refine ⟨fun c => Nat.le_succ_of_le (h.admitted_le c), ?_, ?_, ?_, List.nodup_nil, ?_, ?_⟩
    · intro c hc
      refine ⟨Nat.lt_succ_of_le (h.admitted_le c), fun hidle => ?_⟩
      simp only at hc hidle
      simp [hidle, Phase.inFlight] at hc
    · exact fun _ c hc => .inr ⟨Nat.lt_succ_of_le (h.admitted_le c), hc⟩
    · exact fun _ => ⟨rfl, threshold_pos _⟩
    · simp
    · simp

theorem Inv.setCall (h : Inv b w) (hc : ∀ val, w.calls c ≠ .returned (.ok val)) (hp : p ≠ .idle)
    (hf : p.inFlight = true → (w.calls c).inFlight = true) : Inv b (w.setCall c p) := by
  have hcounted : ∀ d ∈ w.counted, d ≠ c := by
    rintro d hd rfl
    obtain ⟨val, hval⟩ := h.counted d hd
    exact hc val hval
  refine ⟨h.admitted_le, ?_, ?_, h.successes, h.nodup, ?_, h.entitled⟩
  · intro d hd
    refine ⟨(h.carried_lt d hd).1, ?_⟩
    by_cases hdc : d = c
    · simpa [World.setCall, hdc] using hp
    · simpa [World.setCall, hdc] using (h.carried_lt d hd).2
  · intro hs d hd
    apply h.inFlight hs
    by_cases hdc : d = c
    · subst hdc
      exact hf (by simpa [World.setCall] using hd)
    · simpa [World.setCall, hdc] using hd
  · intro d hd
    simpa [World.setCall, hcounted d hd] using h.counted d hd

theorem Inv.enter (h : Inv b w) (hc : w.calls c = .idle) :
    Inv b ((w.noteAdmission c).setCall c .running) := by
  have hcarried : ∀ d, w.carried d = true → d ≠ c := by
    rintro d hd rfl
    exact (h.carried_lt d hd).2 hc
  have hcounted : ∀ d ∈ w.counted, d ≠ c := by
    rintro d hd rfl
    obtain ⟨val, hval⟩ := h.counted d hd
    simp [hc] at hval
  -- other calls keep what entitles them; the new one is admitted in this period
  have hother : ∀ d, d ≠ c → w.Entitled d →
      ((w.noteAdmission c).setCall c .running).Entitled d := by
    intro d hdc hd
    simpa [World.Entitled, World.setCall, World.noteAdmission, hdc] using hd
  refine ⟨?_, ?_, ?_, h.successes, h.nodup, ?_, fun hs d hd =>
    hother d (hcounted d hd) (h.entitled hs d hd)⟩
  · intro d
    by_cases hdc : d = c
    · simp [World.setCall, World.noteAdmission, hdc]
    · simpa [World.setCall, World.noteAdmission, hdc] using h.admitted_le d
  · intro d hd
    have hdc := hcarried d hd
    simpa [World.setCall, World.noteAdmission, hdc] using h.carried_lt d hd
  · intro hs d hd
    by_cases hdc : d = c
    · left
      simp [World.setCall, World.noteAdmission, hdc]
    · exact hother d hdc (h.inFlight hs d (by simpa [World.setCall, hdc] using hd))
  · intro d hd
    simpa [World.setCall, hcounted d hd] using h.counted d hd

theorem Inv.succeed (h : Inv b w) (hc : w.calls c = .running)
    (hr : recordSuccess b.config w.inner = some inner) :
    Inv b (((w.noteSuccess c).setInner inner).setCall c (.returned (.ok val))) := by
  by_cases hhalf : w.inner.status = .halfOpen
  · have hnote : ((w.noteSuccess c).setInner inner).setCall c (.returned (.ok val)) =
        { w with inner, counted := c :: w.counted,
                 calls := Function.update w.calls c (.returned (.ok val)) } := by
      rw [World.noteSuccess, if_pos hhalf,
        setInner_stay (w := { w with counted := c :: w.counted }) (.inl hhalf)]
      rfl
    have hrunning : ∀ d ∈ w.counted, d ≠ c := by
      rintro d hd rfl
      obtain ⟨val, hval⟩ := h.counted d hd
      simp [hc] at hval
    have hentitled : ∀ d ∈ c :: w.counted, w.Entitled d := by
      intro d hd
      rcases List.mem_cons.mp hd with rfl | hd
      · exact h.inFlight hhalf d (by simp [hc, Phase.inFlight])
      · exact h.entitled hhalf d hd
    obtain ⟨hlen, hlt⟩ := h.successes hhalf
    rw [hnote]
    refine ⟨h.admitted_le, ?_, ?_, ?_, ?_, ?_, fun _ => hentitled⟩
    · intro d hd
      refine ⟨(h.carried_lt d hd).1, ?_⟩
      by_cases hdc : d = c
      · simp [hdc]
      · simpa [hdc] using (h.carried_lt d hd).2
    · intro _ d hd
      by_cases hdc : d = c
      · simp [hdc, Phase.inFlight] at hd
      · exact h.inFlight hhalf d (by simpa [hdc] using hd)
    · intro hs
      rcases recordSuccess_cases hr with ⟨-, -, hcount, hthr⟩ | ⟨-, hcl, -⟩ | ⟨hne, -⟩
      · exact ⟨by simp [hlen, hcount], by simp only [hcount]; omega⟩
      · simp [hcl] at hs
      · exact absurd hhalf hne
    · exact List.nodup_cons.mpr ⟨fun hm => hrunning c hm rfl, h.nodup⟩
    · intro d hd
      by_cases hdc : d = c
      · exact ⟨val, by simp [hdc]⟩
      · simpa [hdc] using h.counted d (by simpa [hdc] using hd)
  · -- not half open: the success counts for no period
    have hinner : inner.status ≠ .halfOpen := by
      rcases recordSuccess_cases hr with ⟨hs, -⟩ | ⟨hs, -⟩ | ⟨-, heq⟩
      · exact absurd hs hhalf
      · exact absurd hs hhalf
      · rwa [heq]
    rw [World.noteSuccess, if_neg hhalf]
    exact (h.setInner_ne hinner).setCall (by simp [hc]) (by simp) (by simp [Phase.inFlight])

theorem Inv.step (h : Inv b w) (hs : step b w e = some w') : Inv b w' := by
  by_cases henter : ∃ c now, e = .enter c now
  · obtain ⟨c, now, rfl⟩ := henter
    obtain ⟨hidle, w₁, ok, ht, rfl⟩ := step_enter hs
    have hlazy : Inv b (w₁.setInner (maybeTransitionHalfOpen b.config w₁.inner now)) :=
      (h.tick ht).lazy
    have hcalls :
        (w₁.setInner (maybeTransitionHalfOpen b.config w₁.inner now)).calls c = .idle := by
      rw [setInner_calls, tick_some ht]
      exact hidle
    cases ok with
    | true => exact hlazy.enter hcalls
    | false => exact hlazy.setCall (by simp [hcalls]) (by simp) (by simp [Phase.inFlight])
  by_cases hsucc : ∃ c val, e = .succeed c val
  · obtain ⟨c, val, rfl⟩ := hsucc
    obtain ⟨hrun, inner, hr, rfl⟩ := step_succeed hs
    exact h.succeed hrun hr
  obtain ⟨w₁, w₂, hw₁, hw₂, hw'⟩ := step_other (by simpa using henter) (by simpa using hsucc) hs
  have hcalls₁ : Inv b w₁ ∧ w₁.calls = w.calls := by
    rcases hw₁ with rfl | ⟨now, ht⟩
    · exact ⟨h, rfl⟩
    · exact ⟨h.tick ht, by rw [tick_some ht]⟩
  have hcalls₂ : Inv b w₂ ∧ w₂.calls = w.calls := by
    rcases hw₂ with rfl | ⟨now, rfl⟩ | ⟨inner, now, hr, rfl⟩
    · exact hcalls₁
    · exact ⟨hcalls₁.1.lazy, by rw [setInner_calls, hcalls₁.2]⟩
    · exact ⟨hcalls₁.1.setInner_ne (recordFailure_status hr).1, by rw [setInner_calls, hcalls₁.2]⟩
  rcases hw' with rfl | ⟨c, p, hfl, hp, rfl⟩
  · exact hcalls₂.1
  · refine hcalls₂.1.setCall ?_ hp fun _ => by rw [hcalls₂.2, hfl]
    intro val hval
    rw [← hcalls₂.2, hval] at hfl
    simp [Phase.inFlight] at hfl

theorem reachable_inv (h : Reachable (Resilience.step b) (World.init T) w) : Inv b w :=
  h.invariant (Inv.init b) fun _ _ _ hi hs => hi.step hs

/-- Only a recorded success takes the breaker from half open to closed. -/
theorem closes_by_success (hs : step b w e = some w') (hhalf : w.inner.status = .halfOpen)
    (hclosed : w'.inner.status = .closed) : ∃ c val, e = .succeed c val := by
  have hlazy : ∀ {cfg now}, maybeTransitionHalfOpen cfg w.inner now = w.inner := by
    intro cfg now
    exact maybeTransitionHalfOpen_of_ne (by simp [hhalf])
  by_contra hsucc
  have hinner : w'.inner.status ≠ .closed := by
    by_cases henter : ∃ c now, e = .enter c now
    · obtain ⟨c, now, rfl⟩ := henter
      obtain ⟨-, w₁, ok, ht, rfl⟩ := step_enter hs
      rw [tick_some ht]
      cases ok <;> simp [hlazy, hhalf]
    · obtain ⟨w₁, w₂, hw₁, hw₂, hw'⟩ := step_other (by simpa using henter) (by simpa using hsucc) hs
      have hw₁ : w₁.inner = w.inner := by
        rcases hw₁ with rfl | ⟨now, ht⟩
        · rfl
        · rw [tick_some ht]
      have hw₂ : w₂.inner.status ≠ .closed := by
        rcases hw₂ with rfl | ⟨now, rfl⟩ | ⟨inner, now, hr, rfl⟩
        · simp [hw₁, hhalf]
        · simp [hw₁, hlazy, hhalf]
        · simp [(recordFailure_status hr).2 (hw₁ ▸ hhalf)]
      rcases hw' with rfl | ⟨c, p, -, -, rfl⟩ <;> exact hw₂
  exact hinner hclosed

/-- When the breaker closes, `max 1 successThreshold` distinct calls have
recorded a success since it became half open. Each was admitted since then, or
was already in flight when it became half open and finished late: the outcome
of a call does not say when the call was admitted.

Premise: the state is reachable, and the step takes the breaker from half open
to closed. -/
theorem closing_counts_entitled (hr : Reachable (step b) (World.init T) w)
    (hs : step b w e = some w') (hhalf : w.inner.status = .halfOpen)
    (hclosed : w'.inner.status = .closed) :
    w'.counted.length = max 1 b.config.successThreshold ∧ w'.counted.Nodup ∧
      ∀ c ∈ w'.counted, (∃ val, w'.calls c = .returned (.ok val)) ∧
        (w'.admittedIn c = w'.period ∨ w'.admittedIn c < w'.period ∧ w'.carried c = true) := by
  have hi : Inv b w := reachable_inv hr
  have hi' : Inv b w' := hi.step hs
  obtain ⟨c, val, rfl⟩ := closes_by_success hs hhalf hclosed
  obtain ⟨hrun, inner, hrec, rfl⟩ := step_succeed hs
  obtain ⟨hlen, hlt⟩ := hi.successes hhalf
  have hnote : (w.noteSuccess c).setInner inner = { w with inner, counted := c :: w.counted } := by
    rw [World.noteSuccess, if_pos hhalf,
      setInner_stay (w := { w with counted := c :: w.counted }) (.inl hhalf)]
  rw [hnote] at hi' hclosed ⊢
  refine ⟨?_, hi'.nodup, fun d hd => ⟨hi'.counted d hd, ?_⟩⟩
  · rcases recordSuccess_cases hrec with ⟨-, hh, -⟩ | ⟨-, -, hthr⟩ | ⟨hne, -⟩
    · exact absurd (hh.symm.trans hclosed) (by simp)
    · simp only [World.setCall, List.length_cons, hlen]
      omega
    · exact absurd hhalf hne
  · rcases List.mem_cons.mp hd with rfl | hd
    · exact hi.inFlight hhalf d (by simp [hrun, Phase.inFlight])
    · exact hi.entitled hhalf d hd

end

-- ---------------------------------------------------------------------------
-- A call that outlives its period
-- ---------------------------------------------------------------------------

/-- One failure opens this breaker and one success closes it again. -/
def quickBreaker : Breaker where
  name := "payments"
  config := { failureThreshold := 1, successThreshold := 1, openDurationSecs := 60 }

/-- Calls 0 and 1 are admitted while closed and 1 fails; 2 is the probe of the
half-open period that begins a minute later. Call 0 is still in flight. -/
def probing : List (Event Unit) :=
  [.enter 0 0, .enter 1 0, .fail 1 ⟨.internal, "boom"⟩ 1, .recordFailure 1 1, .readNewState 1 1,
    .enter 2 (1 + fromSecs 60)]

/-- The probe's success closes the breaker. -/
theorem closing_counts_entitled_probe :
    ∃ w w', run (step quickBreaker) (World.init Unit) probing = some w ∧
      step quickBreaker w (.succeed 2 ()) = some w' ∧ w'.counted.length = 1 ∧
      w'.counted = [2] ∧ w'.admittedIn 2 = w'.period := by
  have h := closing_counts_entitled (b := quickBreaker) (e := .succeed 2 ()) ⟨probing, rfl⟩ rfl
    rfl rfl
  exact ⟨_, _, rfl, rfl, h.1, rfl, rfl⟩

/-- Call 0 was admitted before the half-open period, and its late success
closes the breaker while the probe is still running. -/
theorem late_success_closes :
    ∃ w w', run (step quickBreaker) (World.init Unit) probing = some w ∧
      step quickBreaker w (.succeed 0 ()) = some w' ∧
      w.inner.status = .halfOpen ∧ w'.inner.status = .closed ∧
      0 ∈ w'.counted ∧ w'.admittedIn 0 < w'.period :=
  ⟨_, _, rfl, rfl, rfl, rfl, by decide, by decide⟩

end Rinfra.Resilience
