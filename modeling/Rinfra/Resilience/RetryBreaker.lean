import Rinfra.Resilience.Retry
import Rinfra.Resilience.WithCircuitBreaker

/-!
# Retries through a circuit breaker

`with_retry_and_breaker` hands `with_retry` a closure that calls the user's `f`
for a future and then has `with_circuit_breaker` poll it. So `f` is called before
the breaker is asked, and the two are steps of their own. The breaker has other
users: guarded calls of their own, and callers of its methods.

The fields under "history" are never read by a step.
-/

namespace Rinfra.Resilience

open Rinfra.Lib CircuitBreaker

inductive RetryStage (T : Type)
  | looping (lastErr : Option AppError) (attempts : List Nat)
  /-- `f` has returned its future. -/
  | called (attempt : Nat) (attempts : List Nat)
  /-- The attempt is call `c` of `with_circuit_breaker`. -/
  | guarded (c attempt : Nat) (attempts : List Nat)
  | sleeping (lastErr : AppError) (attempts : List Nat)
  | returned (result : Except AppError T)

structure GuardedRetry (T : Type) where
  world : World T
  stage : RetryStage T
  -- history
  /-- How often `f` was called. -/
  called : Nat
  /-- The attempts that `f` was called for. -/
  invoked : List Nat
  admitted : List Nat
  rejected : List Nat
  /-- The outcomes recorded for the attempts: whether they are successes. -/
  recorded : List (Nat × Bool)
  /-- What the attempts that are over came to, and the calls and sleeps of the loop. -/
  outcomes : List (Except AppError T)
  trace : List RetryEvent

inductive BreakerUse
  | recordSuccess
  | recordFailure (now : Nat)
  | reset

inductive RetryAct (T : Type)
  | invoke
  | enter (c now : Nat)
  | attempt (e : Event T)
  | settle
  | wake
  | finish
  | other (e : Event T)
  | direct (use : BreakerUse)

def BreakerUse.apply (cfg : CircuitBreakerConfig) (inner : InternalState) :
    BreakerUse → Option InternalState
  | .recordSuccess => CircuitBreaker.recordSuccess cfg inner
  | .recordFailure now => CircuitBreaker.recordFailure cfg inner now
  | .reset => some (CircuitBreaker.reset inner)

def Event.records : Event T → List (Nat × Bool)
  | .succeed c _ => [(c, true)]
  | .recordFailure c _ => [(c, false)]
  | _ => []

namespace GuardedRetry

def start (policy : RetryPolicy) (world : World T) : GuardedRetry T where
  world
  stage := .looping none (List.range' 1 policy.maxAttempts)
  called := 0
  invoked := []
  admitted := []
  rejected := []
  recorded := []
  outcomes := []
  trace := []

def own (s : GuardedRetry T) : List Nat := s.admitted ++ s.rejected

def settled (policy : RetryPolicy) (s : GuardedRetry T) (attempt : Nat) (attempts : List Nat)
    (result : Except AppError T) : GuardedRetry T :=
  let s := { s with outcomes := s.outcomes ++ [result] }
  match result with
  | .ok val => { s with stage := .returned (.ok val), trace := s.trace ++ [.call] }
  | .error e =>
    if policy.exhausted attempt then
      { s with stage := .returned (.error e), trace := s.trace ++ [.call] }
    else
      { s with
        stage := .sleeping e attempts
        trace := s.trace ++ [.call, .sleep (policy.delayForAttempt (attempt - 1))] }

def step (b : Breaker) (policy : RetryPolicy) (s : GuardedRetry T) :
    RetryAct T → Option (GuardedRetry T)
  | .invoke => do
    let .looping _ (attempt :: attempts) := s.stage | none
    pure { s with stage := .called attempt attempts, called := s.called + 1 }
  | .enter c now => do
    let .called attempt attempts := s.stage | none
    let world ← Resilience.step b s.world (.enter c now)
    let s := { s with
      stage := .guarded c attempt attempts, invoked := c :: s.invoked }
    if (allowRequest b.config s.world.inner now).1 then
      pure { s with world, admitted := c :: s.admitted }
    else pure { s with world, rejected := c :: s.rejected }
  | .attempt e => do
    let .guarded c _ _ := s.stage | none
    if e.call = some c then
      let world ← Resilience.step b s.world e
      pure { s with world, recorded := e.records ++ s.recorded }
    else none
  | .settle => do
    let .guarded c attempt attempts := s.stage | none
    let .returned result := s.world.calls c | none
    pure (s.settled policy attempt attempts result)
  | .wake => do
    let .sleeping e attempts := s.stage | none
    pure { s with stage := .looping (some e) attempts }
  | .finish => do
    let .looping lastErr [] := s.stage | none
    pure { s with stage := .returned (.error (lastErr.getD retryExhausted)) }
  | .other e =>
    if ∀ c ∈ s.own, e.call ≠ some c then do
      let world ← Resilience.step b s.world e
      pure { s with world }
    else none
  | .direct use => do
    let inner ← use.apply b.config s.world.inner
    pure { s with world := s.world.setInner inner }

-- ---------------------------------------------------------------------------
-- Only admitted attempts
-- ---------------------------------------------------------------------------

/-- `f` has been called and the breaker has not answered yet. -/
def asking (s : GuardedRetry T) : Bool :=
  match s.stage with
  | .called .. => true
  | _ => false

def recordedFor (s : GuardedRetry T) (c : Nat) : List (Nat × Bool) :=
  s.recorded.filter fun r => r.1 = c

structure OnlyAdmitted (s : GuardedRetry T) : Prop where
  called : s.asking = false → s.called = s.admitted.length
  recorded : ∀ c ∈ s.admitted, ∀ result, s.world.calls c = .returned result →
    s.recordedFor c = [(c, result.isOk)]
  rejected : ∀ c ∈ s.rejected, c ∉ s.invoked ∧ s.recordedFor c = []

def Admits (b : Breaker) (s : GuardedRetry T) : RetryAct T → Prop
  | .enter _ now => (allowRequest b.config s.world.inner now).1 = true
  | _ => True

def Recorded (phase : Phase T) (c : Nat) (records : List (Nat × Bool)) : Prop :=
  match phase with
  | .idle => False
  | .running | .failing .. | .dropped => records = []
  | .recorded .. => records = [(c, false)]
  | .returned result => records = [(c, result.isOk)]

structure Inv (s : GuardedRetry T) : Prop where
  called : s.called = s.admitted.length + s.rejected.length + s.asking.toNat
  invoked : ∀ c ∈ s.rejected, c ∈ s.invoked
  admitted : ∀ c ∈ s.admitted, Recorded (s.world.calls c) c (s.recordedFor c)
  rejected : ∀ c ∈ s.rejected, (∃ result, s.world.calls c = .returned result) ∧
    s.recordedFor c = []
  recorded : ∀ r ∈ s.recorded, r.1 ∈ s.own
  stage : ∀ c attempt attempts, s.stage = .guarded c attempt attempts → c ∈ s.own

section
variable {T : Type} {b : Breaker} {policy : RetryPolicy} {s s' : GuardedRetry T}

/-- Between the call of `f` and the breaker's answer aside, a rejection is what
breaks the accounts. -/
theorem Inv.onlyAdmitted_iff (hi : Inv s) : OnlyAdmitted s ↔ s.rejected = [] := by
  constructor
  · intro h
    rw [List.eq_nil_iff_forall_not_mem]
    intro c hc
    exact (h.rejected c hc).1 (hi.invoked c hc)
  · intro hnone
    refine ⟨fun hasking => ?_, fun c hc result hreturned => ?_, fun c hc => ?_⟩
    · have hcalled := hi.called
      simpa [hasking, hnone] using hcalled
    · have hrecorded := hi.admitted c hc
      rwa [hreturned] at hrecorded
    · rw [hnone] at hc
      cases hc

theorem recordedFor_of_notMem (hi : Inv s) (hc : c ∉ s.own) : s.recordedFor c = [] := by
  rw [recordedFor, List.filter_eq_nil_iff]
  intro r hr heq
  rw [decide_eq_true_eq] at heq
  exact hc (heq ▸ hi.recorded r hr)

theorem Inv.frame (hi : Inv s) (hcalled : s'.called = s'.admitted.length + s'.rejected.length +
      s'.asking.toNat)
    (hinvoked : s'.invoked = s.invoked) (hadmitted : s'.admitted = s.admitted)
    (hrejected : s'.rejected = s.rejected) (hrecorded : s'.recorded = s.recorded)
    (hcalls : ∀ c ∈ s.own, s'.world.calls c = s.world.calls c)
    (hstage : ∀ c attempt attempts, s'.stage = .guarded c attempt attempts →
      s.stage = .guarded c attempt attempts) : Inv s' := by
  have hown : s'.own = s.own := by rw [own, own, hadmitted, hrejected]
  have hfor : ∀ c, s'.recordedFor c = s.recordedFor c := by
    intro c
    rw [recordedFor, recordedFor, hrecorded]
  refine ⟨hcalled, ?_, ?_, ?_, ?_, ?_⟩
  · rw [hinvoked, hrejected]
    exact hi.invoked
  · intro c hc
    rw [hadmitted] at hc
    rw [hfor, hcalls c (List.mem_append_left _ hc)]
    exact hi.admitted c hc
  · intro c hc
    rw [hrejected] at hc
    rw [hfor, hcalls c (List.mem_append_right _ hc)]
    exact hi.rejected c hc
  · rw [hrecorded, hown]
    exact hi.recorded
  · intro c attempt attempts hs
    rw [hown]
    exact hi.stage c attempt attempts (hstage c attempt attempts hs)

theorem Inv.start (policy : RetryPolicy) (world : World T) : Inv (start policy world) := by
  constructor <;> simp [GuardedRetry.start, asking]

theorem step_enter (h : s.step b policy (.enter c now) = some s') :
    ∃ attempt attempts world, s.stage = .called attempt attempts ∧
      Resilience.step b s.world (.enter c now) = some world ∧
      s' = bif (allowRequest b.config s.world.inner now).1
        then { s with
          world, stage := .guarded c attempt attempts, invoked := c :: s.invoked
          admitted := c :: s.admitted }
        else { s with
          world, stage := .guarded c attempt attempts, invoked := c :: s.invoked
          rejected := c :: s.rejected } := by
  simp only [step] at h
  split at h
  · rename_i attempt attempts hstage
    obtain ⟨world, hworld, h⟩ := Option.bind_eq_some_iff.mp h
    refine ⟨attempt, attempts, world, hstage, hworld, ?_⟩
    split at h <;> rename_i hok <;> rw [← Option.some.inj h] <;> simp [hok]
  · cases h

theorem step_attempt (h : s.step b policy (.attempt e) = some s') :
    ∃ c attempt attempts world, s.stage = .guarded c attempt attempts ∧ e.call = some c ∧
      Resilience.step b s.world e = some world ∧
      s' = { s with world, recorded := e.records ++ s.recorded } := by
  simp only [step] at h
  split at h
  · rename_i c attempt attempts hstage
    split at h
    · rename_i hcall
      obtain ⟨world, hworld, h⟩ := Option.bind_eq_some_iff.mp h
      exact ⟨c, attempt, attempts, world, hstage, hcall, hworld, (Option.some.inj h).symm⟩
    · cases h
  · cases h

theorem step_settle (h : s.step b policy .settle = some s') :
    ∃ c attempt attempts result, s.stage = .guarded c attempt attempts ∧
      s.world.calls c = .returned result ∧ s' = s.settled policy attempt attempts result := by
  simp only [step] at h
  split at h
  · rename_i c attempt attempts hstage
    split at h
    · rename_i result hreturned
      exact ⟨c, attempt, attempts, result, hstage, hreturned, (Option.some.inj h).symm⟩
    · cases h
  · cases h

theorem step_other (h : s.step b policy (.other e) = some s') :
    ∃ world, (∀ c ∈ s.own, e.call ≠ some c) ∧ Resilience.step b s.world e = some world ∧
      s' = { s with world } := by
  simp only [step] at h
  split at h
  · rename_i hothers
    obtain ⟨world, hworld, h⟩ := Option.bind_eq_some_iff.mp h
    exact ⟨world, hothers, hworld, (Option.some.inj h).symm⟩
  · cases h

theorem step_direct (h : s.step b policy (.direct use) = some s') :
    ∃ inner, s' = { s with world := s.world.setInner inner } := by
  obtain ⟨inner, -, h⟩ := Option.bind_eq_some_iff.mp h
  exact ⟨inner, (Option.some.inj h).symm⟩

theorem settled_eq (policy : RetryPolicy) (s : GuardedRetry T) (attempt : Nat)
    (attempts : List Nat) (result : Except AppError T) :
    ∃ stage trace, s.settled policy attempt attempts result =
        { s with stage, trace, outcomes := s.outcomes ++ [result] } ∧
      (∀ attempt attempts, stage ≠ .called attempt attempts) ∧
      ∀ c attempt attempts, stage ≠ .guarded c attempt attempts := by
  unfold settled
  split
  · exact ⟨_, _, rfl, nofun, nofun⟩
  · split <;> exact ⟨_, _, rfl, nofun, nofun⟩

theorem Inv.enter (hi : Inv s) (h : s.step b policy (.enter c now) = some s') :
    Inv s' := by
  obtain ⟨attempt, attempts, world, hstage, hworld, rfl⟩ := step_enter h
  obtain ⟨hidle, hcalls⟩ := step_calls hworld
  have hnew : c ∉ s.own := by
    intro hc
    rcases List.mem_append.mp hc with hc | hc
    · have hrecorded := hi.admitted c hc
      rwa [hidle] at hrecorded
    · obtain ⟨⟨result, hreturned⟩, -⟩ := hi.rejected c hc
      rw [hidle] at hreturned
      cases hreturned
  have hfor := recordedFor_of_notMem hi hnew
  have hold : ∀ d ∈ s.own, world.calls d = s.world.calls d := by
    intro d hd
    rw [hcalls]
    apply Function.update_of_ne
    rintro rfl
    exact hnew hd
  have hcalled := hi.called
  simp only [asking, hstage, Bool.toNat_true] at hcalled
  cases hok : (allowRequest b.config s.world.inner now).1 with
  | true =>
    refine ⟨?_, ?_, ?_, ?_, ?_, ?_⟩
    · simp only [cond_true, asking, List.length_cons, Bool.toNat_false]
      omega
    · exact fun d hd => List.mem_cons_of_mem _ (hi.invoked d hd)
    · intro d hd
      rcases List.mem_cons.mp hd with rfl | hd
      · have hrunning : world.calls d = .running := by rw [hcalls, hok]; simp
        simp only [cond_true, hrunning]
        exact hfor
      · simp only [cond_true, hold d (List.mem_append_left _ hd)]
        exact hi.admitted d hd
    · intro d hd
      simp only [cond_true, hold d (List.mem_append_right _ hd)]
      exact hi.rejected d hd
    · exact fun r hr => List.mem_cons_of_mem _ (hi.recorded r hr)
    · intro d _ _ hs
      cases hs
      exact List.mem_cons_self
  | false =>
    refine ⟨?_, ?_, ?_, ?_, ?_, ?_⟩
    · simp only [cond_false, asking, List.length_cons, Bool.toNat_false]
      omega
    · intro d hd
      rcases List.mem_cons.mp hd with rfl | hd
      · exact List.mem_cons_self
      · exact List.mem_cons_of_mem _ (hi.invoked d hd)
    · intro d hd
      simp only [cond_false, hold d (List.mem_append_left _ hd)]
      exact hi.admitted d hd
    · intro d hd
      rcases List.mem_cons.mp hd with rfl | hd
      · have hreturned : world.calls d = .returned (.error (circuitBreakerOpen b)) := by
          rw [hcalls, hok]
          simp
        exact ⟨⟨_, hreturned⟩, hfor⟩
      · simp only [cond_false, hold d (List.mem_append_right _ hd)]
        exact hi.rejected d hd
    · intro r hr
      rcases List.mem_append.mp (hi.recorded r hr) with hr | hr
      · exact List.mem_append_left _ hr
      · exact List.mem_append_right _ (List.mem_cons_of_mem _ hr)
    · intro d _ _ hs
      cases hs
      exact List.mem_append_right _ List.mem_cons_self

theorem Recorded.step {w w' : World T} (hr : Recorded (w.calls c) c records)
    (h : Resilience.step b w e = some w') (hcall : e.call = some c) :
    Recorded (w'.calls c) c (e.records ++ records) := by
  have hcalls := step_calls h
  cases e with
  | enter d now =>
    obtain rfl := Option.some.inj hcall
    rw [hcalls.1] at hr
    exact hr.elim
  | succeed d val =>
    obtain rfl := Option.some.inj hcall
    obtain ⟨hrun, hcalls⟩ := hcalls
    rw [hrun] at hr
    have hr : records = [] := hr
    rw [hcalls, Function.update_self, hr]
    rfl
  | fail d err now =>
    obtain rfl := Option.some.inj hcall
    obtain ⟨hrun, prev, hcalls⟩ := hcalls
    rw [hrun] at hr
    rw [hcalls, Function.update_self]
    exact hr
  | recordFailure d now =>
    obtain rfl := Option.some.inj hcall
    obtain ⟨prev, err, hfailing, hcalls⟩ := hcalls
    rw [hfailing] at hr
    have hr : records = [] := hr
    rw [hcalls, Function.update_self, hr]
    rfl
  | readNewState d now =>
    obtain rfl := Option.some.inj hcall
    obtain ⟨prev, err, hrecorded, hcalls⟩ := hcalls
    rw [hrecorded] at hr
    rw [hcalls, Function.update_self]
    exact hr
  | drop d =>
    obtain rfl := Option.some.inj hcall
    obtain ⟨hrun, hcalls⟩ := hcalls
    rw [hrun] at hr
    rw [hcalls, Function.update_self]
    exact hr
  | observe now => cases hcall

theorem records_of_call {e : Event T} (h : e.call = some c) (d : Nat) :
    e.records.filter (fun r => r.1 = d) = if d = c then e.records else [] := by
  cases e <;> simp only [Event.call, Option.some.injEq, reduceCtorEq] at h <;> subst h <;>
    simp [Event.records, List.filter_cons, eq_comm]

theorem not_returned {w w' : World T} (h : Resilience.step b w e = some w')
    (hcall : e.call = some c) : ∀ result, w.calls c ≠ .returned result := by
  have hcalls := step_calls h
  intro result hreturned
  cases e <;> simp only [Event.call, Option.some.injEq, reduceCtorEq] at hcall <;> subst hcall <;>
    simp [CallsAfter, hreturned] at hcalls

theorem Inv.attempt (hi : Inv s) (h : s.step b policy (.attempt e) = some s') : Inv s' := by
  obtain ⟨c, attempt, attempts, world, hstage, hcall, hworld, rfl⟩ := step_attempt h
  have hfor : ∀ d,
      GuardedRetry.recordedFor { s with world, recorded := e.records ++ s.recorded } d =
      (if d = c then e.records else []) ++ s.recordedFor d := by
    intro d
    simp only [recordedFor, List.filter_append, records_of_call hcall]
  have hadmitted : c ∈ s.admitted := by
    rcases List.mem_append.mp (hi.stage c attempt attempts hstage) with hc | hc
    · exact hc
    · obtain ⟨⟨result, hreturned⟩, -⟩ := hi.rejected c hc
      exact absurd hreturned (not_returned hworld hcall result)
  have hold : ∀ d, d ≠ c → world.calls d = s.world.calls d := by
    intro d hd
    apply step_other_calls hworld
    rw [hcall]
    exact fun heq => hd (Option.some.inj heq).symm
  refine ⟨hi.called, hi.invoked, ?_, ?_, ?_, hi.stage⟩
  · intro d hd
    have hrecorded := hi.admitted d hd
    rw [hfor]
    by_cases hdc : d = c
    · subst hdc
      rw [if_pos rfl]
      exact hrecorded.step hworld hcall
    · simp only [if_neg hdc, List.nil_append, hold d hdc]
      exact hrecorded
  · intro d hd
    obtain ⟨⟨result, hreturned⟩, hnone⟩ := hi.rejected d hd
    have hdc : d ≠ c := by
      rintro rfl
      exact not_returned hworld hcall result hreturned
    rw [hfor, if_neg hdc]
    exact ⟨⟨result, (hold d hdc).trans hreturned⟩, hnone⟩
  · intro r hr
    rcases List.mem_append.mp hr with hr | hr
    · have hmem : r ∈ e.records.filter fun r' => r'.1 = r.1 := by simpa using hr
      rw [records_of_call hcall] at hmem
      split at hmem
      · rename_i heq
        rw [heq]
        exact List.mem_append_left _ hadmitted
      · cases hmem
    · exact hi.recorded r hr

/-- The breaker's rejection apart, every step keeps to the admitted attempts. -/
theorem Inv.step (hi : Inv s) (h : s.step b policy a = some s') : Inv s' := by
  have hcalled := hi.called
  cases a with
  | enter c now => exact hi.enter h
  | attempt e => exact hi.attempt h
  | invoke =>
    simp only [GuardedRetry.step] at h
    split at h <;> cases h
    rename_i hstage
    refine hi.frame ?_ rfl rfl rfl rfl (fun _ _ => rfl) (fun _ _ _ hs => by cases hs)
    simpa [asking, hstage] using hcalled
  | settle =>
    obtain ⟨c, attempt, attempts, result, hstage, -, rfl⟩ := step_settle h
    obtain ⟨stage, trace, heq, hcalling, hguarding⟩ := settled_eq policy s attempt attempts result
    rw [heq]
    refine hi.frame ?_ rfl rfl rfl rfl (fun _ _ => rfl)
      fun d i is hs => absurd hs (hguarding d i is)
    have hasking : asking { s with stage, trace, outcomes := s.outcomes ++ [result] } = false := by
      unfold asking
      split
      · rename_i hs
        exact absurd hs (hcalling _ _)
      · rfl
    simpa [hasking, asking, hstage] using hcalled
  | wake =>
    simp only [GuardedRetry.step] at h
    split at h <;> cases h
    rename_i hstage
    refine hi.frame ?_ rfl rfl rfl rfl (fun _ _ => rfl) (fun _ _ _ hs => by cases hs)
    simpa [asking, hstage] using hcalled
  | finish =>
    simp only [GuardedRetry.step] at h
    split at h <;> cases h
    rename_i hstage
    refine hi.frame ?_ rfl rfl rfl rfl (fun _ _ => rfl) (fun _ _ _ hs => by cases hs)
    simpa [asking, hstage] using hcalled
  | other e =>
    obtain ⟨world, hothers, hworld, rfl⟩ := step_other h
    exact hi.frame hcalled rfl rfl rfl rfl (fun c hc => step_other_calls hworld (hothers c hc))
      fun _ _ _ hs => hs
  | direct use =>
    obtain ⟨inner, rfl⟩ := step_direct h
    exact hi.frame hcalled rfl rfl rfl rfl (fun c _ => by rw [setInner_calls]) fun _ _ _ hs => hs

/-- Only the breaker's answer adds to the rejected attempts. -/
theorem rejected_step (h : s.step b policy a = some s') (hnone : s.rejected = []) :
    s'.rejected = [] ↔ Admits b s a := by
  have hkept : s'.rejected = s.rejected → (∀ c now, a ≠ .enter c now) →
      (s'.rejected = [] ↔ Admits b s a) := by
    intro heq hne
    refine iff_of_true (heq.trans hnone) ?_
    cases a with
    | enter c now => exact absurd rfl (hne c now)
    | _ => trivial
  cases a with
  | enter c now =>
    obtain ⟨attempt, attempts, world, -, -, rfl⟩ := step_enter h
    cases hok : (allowRequest b.config s.world.inner now).1 <;> simp [Admits, hok, hnone]
  | attempt e =>
    obtain ⟨c, attempt, attempts, world, -, -, -, rfl⟩ := step_attempt h
    exact hkept rfl (by simp)
  | settle =>
    obtain ⟨c, attempt, attempts, result, -, -, rfl⟩ := step_settle h
    obtain ⟨stage, trace, heq, -⟩ := settled_eq policy s attempt attempts result
    exact hkept (by rw [heq]) (by simp)
  | invoke | wake | finish =>
    refine hkept ?_ (by simp)
    simp only [step] at h
    split at h <;> cases h
    rfl
  | other e =>
    obtain ⟨world, -, -, rfl⟩ := step_other h
    exact hkept rfl (by simp)
  | direct use =>
    obtain ⟨inner, rfl⟩ := step_direct h
    exact hkept rfl (by simp)

/-- `f` is called as often as the breaker admits an attempt, exactly in the runs
in which it admits all of them; each attempt that was admitted and is over has
recorded its own outcome, once. -/
theorem onlyAdmitted_iff_admits (b : Breaker) (policy : RetryPolicy) (world : World T)
    (acts : List (RetryAct T)) :
    Always (step b policy) OnlyAdmitted (start policy world) acts ↔
      Guarded (step b policy) (Admits b) (start policy world) acts := by
  have hi : Inv (start policy world) := .start policy world
  have hstart : OnlyAdmitted (start policy world) := hi.onlyAdmitted_iff.mpr rfl
  refine always_iff_guarded hi hstart (fun s a s' hi _ h _ => hi.step h) fun s a s' hi hp h => ?_
  rw [(hi.step h).onlyAdmitted_iff]
  exact rejected_step h (hi.onlyAdmitted_iff.mp hp)

-- ---------------------------------------------------------------------------
-- What the attempts come to
-- ---------------------------------------------------------------------------

/-- The loop has come so far with these attempts, and `withRetry` has the rest. -/
def Agrees (policy : RetryPolicy) (f : Nat → Except AppError T) (s : GuardedRetry T) : Prop :=
  let rest lastErr attempts :=
    let (trace, result) := retryLoop policy f s.outcomes.length lastErr attempts
    (s.trace ++ trace, result)
  match s.stage with
  | .looping lastErr attempts => withRetry policy f = rest lastErr attempts
  | .called attempt attempts | .guarded _ attempt attempts =>
    ∃ lastErr, withRetry policy f = rest lastErr (attempt :: attempts)
  | .sleeping lastErr attempts => withRetry policy f = rest (some lastErr) attempts
  | .returned result => withRetry policy f = (s.trace, result)

/-- `f` comes to what the attempts so far have come to. -/
def Gives (f : Nat → Except AppError T) (s : GuardedRetry T) : Prop :=
  ∀ i result, s.outcomes[i]? = some result → f i = result

theorem Agrees.settled {f : Nat → Except AppError T}
    (hstage : s.stage = .guarded c attempt attempts) (h : Agrees policy f s)
    (hf : Gives f (s.settled policy attempt attempts result)) :
    Agrees policy f (s.settled policy attempt attempts result) := by
  obtain ⟨stage, trace, heq, -⟩ := settled_eq policy s attempt attempts result
  have hresult : f s.outcomes.length = result := by
    apply hf
    rw [heq]
    exact List.getElem?_concat_length
  simp only [Agrees, hstage] at h
  obtain ⟨lastErr, h⟩ := h
  rw [retryLoop, hresult] at h
  cases result with
  | ok val => exact h
  | error e =>
    unfold GuardedRetry.settled
    simp only at h ⊢
    split
    · rename_i hexhausted
      rw [if_pos hexhausted] at h
      exact h
    · rename_i hmore
      rw [if_neg hmore] at h
      simp only [Agrees, List.length_append, List.length_singleton]
      simpa using h

theorem Agrees.step {f : Nat → Except AppError T} (hs : s.step b policy a = some s')
    (h : Agrees policy f s) (hf : Gives f s') : Agrees policy f s' := by
  cases a with
  | invoke =>
    simp only [GuardedRetry.step] at hs
    split at hs <;> cases hs
    rename_i lastErr attempt attempts hstage
    simp only [Agrees, hstage] at h
    exact ⟨lastErr, h⟩
  | enter c now =>
    obtain ⟨attempt, attempts, world, hstage, -, rfl⟩ := step_enter hs
    simp only [Agrees, hstage] at h
    cases (allowRequest b.config s.world.inner now).1 <;> exact h
  | attempt e =>
    obtain ⟨c, attempt, attempts, world, hstage, -, -, rfl⟩ := step_attempt hs
    simp only [Agrees, hstage] at h ⊢
    exact h
  | settle =>
    obtain ⟨c, attempt, attempts, result, hstage, -, rfl⟩ := step_settle hs
    exact h.settled hstage hf
  | wake =>
    simp only [GuardedRetry.step] at hs
    split at hs <;> cases hs
    rename_i e attempts hstage
    simp only [Agrees, hstage] at h
    exact h
  | finish =>
    simp only [GuardedRetry.step] at hs
    split at hs <;> cases hs
    rename_i lastErr hstage
    simpa [Agrees, hstage, retryLoop] using h
  | other e =>
    obtain ⟨world, -, -, rfl⟩ := step_other hs
    exact h
  | direct use =>
    obtain ⟨inner, rfl⟩ := step_direct hs
    exact h

theorem outcomes_step (hs : s.step b policy a = some s') : s.outcomes <+: s'.outcomes := by
  cases a with
  | enter c now =>
    obtain ⟨attempt, attempts, world, -, -, rfl⟩ := step_enter hs
    cases (allowRequest b.config s.world.inner now).1 <;> exact List.prefix_rfl
  | attempt e =>
    obtain ⟨c, attempt, attempts, world, -, -, -, rfl⟩ := step_attempt hs
    exact List.prefix_rfl
  | settle =>
    obtain ⟨c, attempt, attempts, result, -, -, rfl⟩ := step_settle hs
    obtain ⟨stage, trace, heq, -⟩ := settled_eq policy s attempt attempts result
    rw [heq]
    exact List.prefix_append ..
  | invoke | wake | finish =>
    simp only [GuardedRetry.step] at hs
    split at hs <;> cases hs
    exact List.prefix_rfl
  | other e =>
    obtain ⟨world, -, -, rfl⟩ := step_other hs
    exact List.prefix_rfl
  | direct use =>
    obtain ⟨inner, rfl⟩ := step_direct hs
    exact List.prefix_rfl

theorem Gives.of_prefix {f : Nat → Except AppError T} (h : Gives f s')
    (hearlier : s.outcomes <+: s'.outcomes) : Gives f s := by
  intro i result hi
  apply h
  obtain ⟨more, heq⟩ := hearlier
  rw [← heq, List.getElem?_append_left (List.getElem?_eq_some_iff.mp hi).1, hi]

/-- A call that returns has done with the outcomes of its guarded attempts what
`with_retry` does with those of its closure. -/
theorem returned_as_withRetry {f : Nat → Except AppError T} {world : World T}
    (hr : run (step b policy) (start policy world) acts = some s)
    (hs : s.stage = .returned result) (hf : Gives f s) :
    withRetry policy f = (s.trace, result) := by
  have hstart : Agrees policy f (start policy world) := by
    simp [Agrees, start, withRetry]
  have hagrees : Gives f s → Agrees policy f s := by
    refine run_invariant (P := fun s => Gives f s → Agrees policy f s) (fun _ => hstart) ?_ hr
    intro s a s' ih hstep hf
    exact (ih (hf.of_prefix (outcomes_step hstep))).step hstep hf
  simpa only [Agrees, hs] using hagrees hf

end

/-- The breaker is open, and the only attempt is rejected. -/
def rejectedAttempt : List (RetryAct Unit) :=
  [.direct (.recordFailure 0), .invoke, .enter 0 0, .settle]

theorem one_u32 : 1 < 2 ^ 32 := by decide

def onePolicy : RetryPolicy :=
  { maxAttempts := 1, strategy := .fixed 10, attempts_u32 := one_u32 }

theorem rejected_attempt_calls :
    ∃ s, run (step quickBreaker onePolicy) (start onePolicy (World.init Unit)) rejectedAttempt =
        some s ∧
      s.stage = .returned (.error (circuitBreakerOpen quickBreaker)) ∧
      s.called = 1 ∧ s.admitted = [] ∧ ¬ OnlyAdmitted s := by
  refine ⟨_, rfl, rfl, rfl, rfl, fun h => ?_⟩
  exact absurd (h.called rfl) (by decide)

end GuardedRetry

end Rinfra.Resilience
