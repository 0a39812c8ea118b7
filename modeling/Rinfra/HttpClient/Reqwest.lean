import Rinfra.Core.Error
import Rinfra.Resilience.History

/-!
# The HTTP client's retry loop

What a call makes of the outcomes of its attempts: which of them it comes to
see, what it records in the breaker for each, and how it ends.
-/

namespace Rinfra.HttpClient

open Rinfra.Lib Resilience

structure HttpResponse where
  status : Nat
  headers : List (String × String)
  body : List UInt8
  deriving DecidableEq, Repr

def HttpResponse.isSuccess (resp : HttpResponse) : Bool := 200 ≤ resp.status ∧ resp.status < 300

abbrev Attempt := Except AppError HttpResponse

/-- `max_retries + 1`, which overflows for the largest `u32`. -/
def attempts (maxRetries : Nat) : Option Nat := incrU32 maxRetries

def recorded : Attempt → Option Op
  | .ok resp =>
    if resp.isSuccess then some .recordSuccess
    else if 500 ≤ resp.status then some .recordFailure
    else none
  | .error _ => some .recordFailure

structure Run where
  attempts : List Attempt
  records : List Op
  result : Outcome HttpResponse

/-- The loop from the attempt `attempt` on, with so many `left`. -/
def retryLoop (outcome : Nat → Attempt) : (left attempt : Nat) → Option AppError → Run
  | 0, _, some e => ⟨[], [], .err e⟩
  -- "retry loop executed at least once"
  | 0, _, none => ⟨[], [], .panicked⟩
  | left + 1, attempt, _ =>
    let here := (recorded (outcome attempt)).toList
    match outcome attempt with
    | .ok resp => ⟨[.ok resp], here, .ok resp⟩
    | .error e =>
      let rest := retryLoop outcome left (attempt + 1) (some e)
      ⟨.error e :: rest.attempts, here ++ rest.records, rest.result⟩

def admitted (maxRetries : Nat) (outcome : Nat → Attempt) : Run :=
  match attempts maxRetries with
  | none => ⟨[], [], .panicked⟩
  | some left => retryLoop outcome left 0 none

-- ---------------------------------------------------------------------------
-- Accounting
-- ---------------------------------------------------------------------------

def HttpResponse.serverError (resp : HttpResponse) : Bool :=
  500 ≤ resp.status ∧ resp.status < 600

def due : Attempt → Op
  | .ok resp => if resp.serverError then .recordFailure else .recordSuccess
  | .error _ => .recordFailure

def Progressed (s s' : InternalState) : Prop :=
  s'.status = .closed ∨ s'.status = .halfOpen ∧ s'.successCount = s.successCount + 1

/-- The call ends without a panic after 1 to `max_retries + 1` attempts, records
what is due for each of them, and so moves a half-open breaker on when a live
server answers. -/
structure Accounts (maxRetries : Nat) (outcome : Nat → Attempt) : Prop where
  returns : (admitted maxRetries outcome).result ≠ .panicked
  atLeastOne : 1 ≤ (admitted maxRetries outcome).attempts.length
  atMost : (admitted maxRetries outcome).attempts.length ≤ maxRetries + 1
  records : (admitted maxRetries outcome).records = (admitted maxRetries outcome).attempts.map due
  progress : ∀ cfg s now resp, s.status = .halfOpen →
    s.successCount < max 1 cfg.successThreshold → outcome 0 = .ok resp → ¬resp.serverError →
    ∃ s', run (call cfg) s ((admitted maxRetries outcome).records.map fun op => ⟨op, now⟩) =
      some s' ∧ Progressed s s'

/-- The statuses that the loop records what is due for. -/
def HttpResponse.Covered (resp : HttpResponse) : Prop := resp.isSuccess ∨ resp.serverError

/-- Whichever of the next attempts is answered first, its status is covered. -/
def AnswersCovered (outcome : Nat → Attempt) (left attempt : Nat) : Prop :=
  ∀ i < left, (∀ j < i, ∃ e, outcome (attempt + j) = .error e) →
    ∀ resp, outcome (attempt + i) = .ok resp → resp.Covered

theorem recorded_eq_due (resp : HttpResponse) :
    (recorded (.ok resp)).toList = [due (.ok resp)] ↔ resp.Covered := by
  simp only [recorded, due, HttpResponse.Covered, HttpResponse.isSuccess,
    HttpResponse.serverError]
  grind

theorem retryLoop_attempts (outcome : Nat → Attempt) (left attempt : Nat)
    (lastErr : Option AppError) :
    (retryLoop outcome left attempt lastErr).attempts.length ≤ left ∧
      (0 < left → 1 ≤ (retryLoop outcome left attempt lastErr).attempts.length) := by
  induction left generalizing attempt lastErr with
  | zero => cases lastErr <;> simp [retryLoop]
  | succ left ih =>
    rw [retryLoop]
    cases outcome attempt with
    | ok resp => simp
    | error e => simpa using (ih (attempt + 1) (some e)).1

theorem retryLoop_returns (h : 0 < left ∨ lastErr.isSome) :
    (retryLoop outcome left attempt lastErr).result ≠ .panicked := by
  induction left generalizing attempt lastErr with
  | zero =>
    cases lastErr with
    | none => simp at h
    | some e => simp [retryLoop]
  | succ left ih =>
    rw [retryLoop]
    cases outcome attempt with
    | ok resp => simp
    | error e => exact ih (.inr rfl)

theorem answersCovered_ok (h : outcome attempt = .ok resp) :
    AnswersCovered outcome (left + 1) attempt ↔ resp.Covered := by
  constructor
  · intro hall
    exact hall 0 (Nat.succ_pos left) (fun j hj => absurd hj (Nat.not_lt_zero j)) resp h
  · intro hcovered i _ herrors resp' hresp
    cases i with
    | zero =>
      rw [Nat.add_zero, h] at hresp
      cases hresp
      exact hcovered
    | succ i =>
      -- the loop has ended before
      obtain ⟨e, he⟩ := herrors 0 (Nat.succ_pos i)
      rw [Nat.add_zero, h] at he
      cases he

theorem answersCovered_error (h : outcome attempt = .error e) :
    AnswersCovered outcome (left + 1) attempt ↔ AnswersCovered outcome left (attempt + 1) := by
  constructor
  · intro hall i hi herrors resp hresp
    refine hall (i + 1) (Nat.succ_lt_succ hi) (fun j hj => ?_) resp ?_
    · cases j with
      | zero => exact ⟨e, h⟩
      | succ j =>
        have herr := herrors j (Nat.lt_of_succ_lt_succ hj)
        rwa [Nat.add_right_comm] at herr
    · rwa [Nat.add_right_comm] at hresp
  · intro hall i hi herrors resp hresp
    cases i with
    | zero =>
      rw [Nat.add_zero, h] at hresp
      cases hresp
    | succ i =>
      refine hall i (Nat.lt_of_succ_lt_succ hi) (fun j hj => ?_) resp ?_
      · have herr := herrors (j + 1) (Nat.succ_lt_succ hj)
        rwa [Nat.add_right_comm]
      · rwa [Nat.add_right_comm]

/-- The loop records what is due exactly where the answer it comes to is
covered. -/
theorem retryLoop_records :
    (retryLoop outcome left attempt lastErr).records =
        (retryLoop outcome left attempt lastErr).attempts.map due ↔
      AnswersCovered outcome left attempt := by
  induction left generalizing attempt lastErr with
  | zero =>
    refine iff_of_true ?_ fun i hi => absurd hi (Nat.not_lt_zero i)
    cases lastErr <;> rfl
  | succ left ih =>
    rw [retryLoop]
    cases h : outcome attempt with
    | ok resp =>
      simp only [List.map_cons, List.map_nil]
      rw [recorded_eq_due, answersCovered_ok h]
    | error e =>
      have hhere : (recorded (.error e)).toList = [due (.error e)] := rfl
      simp only [hhere, List.map_cons, List.cons_append, List.nil_append, List.cons.injEq,
        true_and]
      rw [ih, answersCovered_error h]

theorem admitted_of_fits (h : maxRetries + 1 < 2 ^ 32) :
    admitted maxRetries outcome = retryLoop outcome (maxRetries + 1) 0 none := by
  have hattempts : attempts maxRetries = some (maxRetries + 1) := if_pos h
  rw [admitted, hattempts]

theorem recordSuccess_progressed (hs : s.status = .halfOpen)
    (hlt : s.successCount < max 1 cfg.successThreshold) :
    ∃ s', run (call cfg) s [⟨.recordSuccess, now⟩] = some s' ∧ Progressed s s' := by
  have hincr : incrU32 s.successCount = some (s.successCount + 1) := by
    have hu := cfg.success_u32
    exact incrU32_of_lt hlt (by omega)
  have hsome : ∃ s', CircuitBreaker.recordSuccess cfg s = some s' := by
    simp only [CircuitBreaker.recordSuccess, hs, hincr, bind, Option.bind_some]
    split <;> exact ⟨_, rfl⟩
  obtain ⟨s', hs'⟩ := hsome
  refine ⟨s', by simp [run, call, hs'], ?_⟩
  rcases recordSuccess_cases hs' with ⟨-, hhalf, hcount, -⟩ | ⟨-, hclosed, -⟩ | ⟨hne, -⟩
  · exact .inr ⟨hhalf, hcount⟩
  · exact .inl hclosed
  · exact absurd hs hne

/-- A call accounts for its attempts exactly where their number is a `u32` and
the status it is answered with is covered. -/
theorem accounts_iff (maxRetries : Nat) (outcome : Nat → Attempt) :
    Accounts maxRetries outcome ↔
      maxRetries + 1 < 2 ^ 32 ∧ AnswersCovered outcome (maxRetries + 1) 0 := by
  constructor
  · intro h
    have hfits : maxRetries + 1 < 2 ^ 32 := by
      by_contra hlarge
      have hnone : attempts maxRetries = none := if_neg hlarge
      exact h.returns (by rw [admitted, hnone])
    have hrecords := h.records
    rw [admitted_of_fits hfits] at hrecords
    exact ⟨hfits, retryLoop_records.mp hrecords⟩
  · rintro ⟨hfits, hcovered⟩
    obtain ⟨hmost, hleast⟩ := retryLoop_attempts outcome (maxRetries + 1) 0 none
    rw [← admitted_of_fits hfits] at hmost hleast
    refine ⟨?_, hleast (Nat.succ_pos _), hmost, ?_, ?_⟩
    · rw [admitted_of_fits hfits]
      exact retryLoop_returns (.inl (Nat.succ_pos _))
    · rw [admitted_of_fits hfits]
      exact retryLoop_records.mpr hcovered
    · intro cfg s now resp hs hlt hresp hlive
      have hsuccess : resp.isSuccess := by
        refine (hcovered 0 (Nat.succ_pos _) (fun j hj => absurd hj (Nat.not_lt_zero j)) resp ?_
          ).resolve_right hlive
        rwa [Nat.zero_add]
      have hone : (admitted maxRetries outcome).records = [.recordSuccess] := by
        simp [admitted_of_fits hfits, retryLoop, hresp, recorded, hsuccess]
      rw [hone]
      exact recordSuccess_progressed hs hlt

/-- A server that answers 404 leaves the breaker half open. -/
theorem not_found_records_nothing :
    (admitted 0 fun _ => .ok ⟨404, [], []⟩).attempts.length = 1 ∧
      (admitted 0 fun _ => .ok ⟨404, [], []⟩).records = [] ∧
      ¬Accounts 0 fun _ => .ok ⟨404, [], []⟩ := by
  refine ⟨rfl, rfl, fun h => ?_⟩
  have hrecords := h.records
  cases hrecords

end Rinfra.HttpClient
