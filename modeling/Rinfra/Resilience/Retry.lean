import Mathlib.Data.ENat.Lattice
import Rinfra.Core.Error
import Rinfra.Core.Time

/-!
# Retries

`with_retry` counts its attempts from one and the delays of its policy from
zero. The closure is given by what each of its calls comes to, whatever the
calls before have changed; what the loop does is the list of its calls and
sleeps.
-/

namespace Rinfra.Resilience

inductive RetryStrategy
  | fixed (delayMs : Nat)
  | exponential (baseMs maxMs : Nat)
  deriving DecidableEq, Repr

def RetryStrategy.FitsU64 : RetryStrategy → Prop
  | .fixed delayMs => delayMs < 2 ^ 64
  | .exponential baseMs maxMs => baseMs < 2 ^ 64 ∧ maxMs < 2 ^ 64

instance (strategy : RetryStrategy) : Decidable strategy.FitsU64 := by
  cases strategy <;> unfold RetryStrategy.FitsU64 <;> infer_instance

structure RetryPolicy where
  maxAttempts : Nat
  strategy : RetryStrategy
  attempts_u32 : maxAttempts < 2 ^ 32 := by decide
  strategy_u64 : strategy.FitsU64 := by decide

instance : Inhabited RetryPolicy where
  default := { maxAttempts := 3, strategy := .exponential 200 5000 }

def checkedShl (bits : Nat) : Option Nat := if bits < 64 then some (2 ^ bits) else none

def saturatingMul (a b : Nat) : Nat := min (a * b) (2 ^ 64 - 1)

namespace RetryPolicy

def exponential (maxAttempts : UInt32) (baseMs maxMs : UInt64) : RetryPolicy where
  maxAttempts := maxAttempts.toNat
  strategy := .exponential baseMs.toNat maxMs.toNat
  attempts_u32 := maxAttempts.toNat_lt
  strategy_u64 := ⟨baseMs.toNat_lt, maxMs.toNat_lt⟩

def delayForAttempt (policy : RetryPolicy) (attempt : Nat) : Nat :=
  match policy.strategy with
  | .fixed delayMs => fromMillis delayMs
  | .exponential baseMs maxMs =>
    let multiplier := (checkedShl attempt).getD (2 ^ 64 - 1)
    let delay := saturatingMul baseMs multiplier
    fromMillis (min delay maxMs)

def exhausted (policy : RetryPolicy) (attempt : Nat) : Bool := policy.maxAttempts ≤ attempt

end RetryPolicy

inductive RetryEvent
  | call
  | sleep (delay : Nat)
  deriving DecidableEq, Repr

def retryExhausted : AppError := ⟨.internal, "retry policy exhausted"⟩

section
variable {T : Type} (policy : RetryPolicy) (f : Nat → Except AppError T)

/-- The loop over the attempts that are left, after so many calls. -/
def retryLoop : Nat → Option AppError → List Nat → List RetryEvent × Except AppError T
  | _, lastErr, [] => ([], .error (lastErr.getD retryExhausted))
  | calls, _, attempt :: attempts =>
    match f calls with
    | .ok val => ([.call], .ok val)
    | .error e =>
      if policy.exhausted attempt then ([.call], .error e)
      else
        let delay := policy.delayForAttempt (attempt - 1)
        let rest := retryLoop (calls + 1) (some e) attempts
        (.call :: .sleep delay :: rest.1, rest.2)

def withRetry : List RetryEvent × Except AppError T :=
  retryLoop policy f 0 none (List.range' 1 policy.maxAttempts)

end

-- ---------------------------------------------------------------------------
-- The delays
-- ---------------------------------------------------------------------------

theorem le_saturatingMul (h : m < 2 ^ 64) : m ≤ saturatingMul a b ↔ m ≤ a * b := by
  simp only [saturatingMul]
  omega

/-- The documented `base_ms * 2^attempt`, capped at `max_ms`. -/
def backoff (baseMs maxMs attempt : Nat) : Nat := min (baseMs * 2 ^ attempt) maxMs

theorem backoff_le_max (baseMs maxMs attempt : Nat) : backoff baseMs maxMs attempt ≤ maxMs :=
  Nat.min_le_right _ _

theorem backoff_mono (hbase : baseMs ≤ baseMs') (hmax : maxMs ≤ maxMs')
    (hattempt : attempt ≤ attempt') :
    backoff baseMs maxMs attempt ≤ backoff baseMs' maxMs' attempt' := by
  have hpow : 2 ^ attempt ≤ 2 ^ attempt' := Nat.pow_le_pow_right (by decide) hattempt
  exact min_le_min (Nat.mul_le_mul hbase hpow) hmax

theorem fromMillis_mono (h : millis ≤ millis') : fromMillis millis ≤ fromMillis millis' :=
  Nat.mul_le_mul_right nanosPerMilli h

/-- What saturates is above every cap: the multiplier that stands for the powers
that do not fit, and the product. -/
theorem delayForAttempt_exponential {policy : RetryPolicy}
    (h : policy.strategy = .exponential baseMs maxMs) (attempt : Nat) :
    policy.delayForAttempt attempt = fromMillis (backoff baseMs maxMs attempt) := by
  have hfits := policy.strategy_u64
  rw [h] at hfits
  obtain ⟨-, hmax⟩ := hfits
  simp only [RetryPolicy.delayForAttempt, h]
  congr 1
  unfold checkedShl backoff
  split
  · rw [Option.getD_some, saturatingMul]
    omega
  · rename_i hbits
    have hpow : 2 ^ 64 ≤ 2 ^ attempt := Nat.pow_le_pow_right (by decide) (by omega)
    cases baseMs with
    | zero => simp [saturatingMul]
    | succ base =>
      have hmul : 2 ^ 64 ≤ (base + 1) * 2 ^ attempt :=
        hpow.trans (Nat.le_mul_of_pos_left _ (Nat.succ_pos base))
      have hcap : maxMs ≤ saturatingMul (base + 1) (2 ^ 64 - 1) := by
        rw [le_saturatingMul hmax]
        have hall : maxMs ≤ 2 ^ 64 - 1 := by omega
        exact hall.trans (Nat.le_mul_of_pos_left _ (Nat.succ_pos base))
      rw [Option.getD_none, min_eq_right hcap, min_eq_right (by omega)]

/-- The delays of an exponential policy are the documented ones, never above the
cap, and no shorter for a later attempt, a larger base or a larger cap. -/
theorem exponential_delays_exact (maxAttempts : UInt32) (baseMs maxMs : UInt64) (attempt : UInt32) :
    let delay := (RetryPolicy.exponential maxAttempts baseMs maxMs).delayForAttempt attempt.toNat
    delay = fromMillis (min (baseMs.toNat * 2 ^ attempt.toNat) maxMs.toNat) ∧
      delay ≤ fromMillis maxMs.toNat ∧
      ∀ (maxAttempts' : UInt32) (baseMs' maxMs' : UInt64) (attempt' : UInt32),
        baseMs ≤ baseMs' → maxMs ≤ maxMs' → attempt ≤ attempt' →
        delay ≤ (RetryPolicy.exponential maxAttempts' baseMs' maxMs').delayForAttempt
          attempt'.toNat := by
  intro delay
  have hdelay : delay = fromMillis (backoff baseMs.toNat maxMs.toNat attempt.toNat) :=
    delayForAttempt_exponential rfl _
  refine ⟨hdelay, ?_, ?_⟩
  · rw [hdelay]
    exact fromMillis_mono (backoff_le_max _ _ _)
  · intro maxAttempts' baseMs' maxMs' attempt' hbase hmax hattempt
    have hdelay' : (RetryPolicy.exponential maxAttempts' baseMs' maxMs').delayForAttempt
        attempt'.toNat = fromMillis (backoff baseMs'.toNat maxMs'.toNat attempt'.toNat) :=
      delayForAttempt_exponential rfl _
    rw [hdelay, hdelay']
    exact fromMillis_mono (backoff_mono (UInt64.le_iff_toNat_le.mp hbase)
      (UInt64.le_iff_toNat_le.mp hmax) (UInt32.le_iff_toNat_le.mp hattempt))

/-- At the last power that fits, at the first that does not, and where a product does not. -/
example :
    let delay := fun baseMs (attempt : Nat) =>
      (RetryPolicy.exponential 100 baseMs 18446744073709551615).delayForAttempt attempt
    delay 1 63 = fromMillis (2 ^ 63) ∧ delay 1 64 = fromMillis (2 ^ 64 - 1) ∧
      delay 3 63 = fromMillis (2 ^ 64 - 1) ∧ delay 0 64 = 0 := by
  decide +kernel

-- ---------------------------------------------------------------------------
-- The specification
-- ---------------------------------------------------------------------------

section
variable {T : Type} {policy : RetryPolicy} {f : Nat → Except AppError T}

open Classical in
noncomputable def firstOk (f : Nat → Except AppError T) : ℕ∞ :=
  if h : ∃ n, (f n).isOk then ((Nat.find h + 1 : ℕ) : ℕ∞) else ⊤

/-- So many calls, the first of them after `before` others: a delay between each
two, and none at the end. -/
def spaced (policy : RetryPolicy) (before : Nat) : (calls : Nat) → List RetryEvent
  | 0 => []
  | 1 => [.call]
  | n + 2 => .call :: .sleep (policy.delayForAttempt before) :: spaced policy (before + 1) (n + 1)

/-- The calls that `attempts` allow, up to the first that succeeds. -/
def callsMade (f : Nat → Except AppError T) (before : Nat) : (attempts : Nat) → Nat
  | 0 => 0
  | attempts + 1 => if (f before).isOk then 1 else callsMade f (before + 1) attempts + 1

theorem count_spaced (policy : RetryPolicy) (before calls : Nat) :
    (spaced policy before calls).count .call = calls := by
  induction calls using Nat.twoStepInduction generalizing before with
  | zero => rfl
  | one => rfl
  | more n _ ih => simp [spaced, ih]

theorem callsMade_pos : 0 < callsMade f before (attempts + 1) := by
  unfold callsMade
  split <;> omega

theorem callsMade_eq_zero : callsMade f before attempts = 0 ↔ attempts = 0 := by
  cases attempts with
  | zero => simp [callsMade]
  | succ attempts => simp [callsMade_pos.ne']

theorem callsMade_le (attempts : Nat) : callsMade f before attempts ≤ attempts := by
  induction attempts generalizing before with
  | zero => exact Nat.le_refl 0
  | succ attempts ih =>
    unfold callsMade
    split
    · omega
    · exact Nat.succ_le_succ ih

/-- No call but the last one succeeds. -/
theorem failed_of_lt_callsMade (h : n + 1 < callsMade f before attempts) :
    (f (before + n)).isOk = false := by
  induction attempts generalizing before n with
  | zero => simp [callsMade] at h
  | succ attempts ih =>
    unfold callsMade at h
    split at h
    · omega
    · rename_i hfail
      cases n with
      | zero => simpa using hfail
      | succ n =>
        have hlt : n + 1 < callsMade f (before + 1) attempts := by omega
        have hnext := ih hlt
        rwa [Nat.add_assoc, Nat.add_comm 1 n] at hnext

theorem ok_of_callsMade_lt (h : callsMade f before attempts < attempts) :
    ∃ n, callsMade f before attempts = n + 1 ∧ (f (before + n)).isOk = true := by
  induction attempts generalizing before with
  | zero => cases h
  | succ attempts ih =>
    unfold callsMade at h ⊢
    split
    · rename_i hok
      exact ⟨0, rfl, hok⟩
    · rename_i hfail
      rw [if_neg hfail] at h
      have hrest : callsMade f (before + 1) attempts < attempts := by omega
      obtain ⟨n, hn, hok⟩ := ih hrest
      refine ⟨n + 1, by rw [hn], ?_⟩
      rwa [Nat.add_assoc, Nat.add_comm 1 n] at hok

theorem callsMade_eq_min (f : Nat → Except AppError T) (attempts : Nat) :
    (callsMade f 0 attempts : ℕ∞) = min (attempts : ℕ∞) (firstOk f) := by
  have hle : callsMade f 0 attempts ≤ attempts := callsMade_le attempts
  have hlast : callsMade f 0 attempts < attempts →
      ∃ n, callsMade f 0 attempts = n + 1 ∧ (f n).isOk = true := by
    intro hlt
    obtain ⟨n, hn, hok⟩ := ok_of_callsMade_lt hlt
    exact ⟨n, hn, by simpa using hok⟩
  unfold firstOk
  split
  · rename_i hex
    have hfound := Nat.find_spec hex
    -- the calls do not go past the first success
    have hupto : callsMade f 0 attempts ≤ Nat.find hex + 1 := by
      by_contra hover
      have hfailed := failed_of_lt_callsMade (f := f) (Nat.lt_of_not_le hover)
      rw [Nat.zero_add, hfound] at hfailed
      cases hfailed
    have hmin : callsMade f 0 attempts = min attempts (Nat.find hex + 1) := by
      rcases Nat.lt_or_eq_of_le hle with hlt | heq
      · obtain ⟨n, hn, hok⟩ := hlast hlt
        have hfirst : Nat.find hex ≤ n := Nat.find_min' hex hok
        omega
      · omega
    rw [hmin]
    exact Nat.mono_cast.map_min
  · rename_i hnone
    rw [min_eq_left le_top, Nat.cast_inj]
    by_contra hne
    obtain ⟨n, -, hok⟩ := hlast (Nat.lt_of_le_of_ne hle hne)
    exact hnone ⟨n, hok⟩

-- ---------------------------------------------------------------------------
-- The loop
-- ---------------------------------------------------------------------------

theorem retryLoop_eq (h : before + attempts = policy.maxAttempts) (lastErr : Option AppError) :
    retryLoop policy f before lastErr (List.range' (before + 1) attempts) =
      (spaced policy before (callsMade f before attempts),
        match callsMade f before attempts with
        | 0 => .error (lastErr.getD retryExhausted)
        | n + 1 => f (before + n)) := by
  induction attempts generalizing before lastErr with
  | zero => rfl
  | succ attempts ih =>
    rw [List.range'_succ, retryLoop]
    cases hf : f before with
    | ok val => simp [callsMade, hf, Except.isOk, Except.toBool, spaced]
    | error e =>
      have hmade : callsMade f before (attempts + 1) = callsMade f (before + 1) attempts + 1 := by
        simp [callsMade, hf, Except.isOk, Except.toBool]
      have hnext : before + 1 + attempts = policy.maxAttempts := by omega
      have hrest := ih hnext (some e)
      rw [hmade]
      cases attempts with
      | zero =>
        have hlast : policy.exhausted (before + 1) = true := by
          simp only [RetryPolicy.exhausted, decide_eq_true_eq]
          omega
        simp [hlast, callsMade, spaced, hf]
      | succ attempts =>
        have hmore : policy.exhausted (before + 1) = false := by
          simp only [RetryPolicy.exhausted, decide_eq_false_iff_not]
          omega
        have hpos : 0 < callsMade f (before + 1) (attempts + 1) := callsMade_pos
        obtain ⟨n, hn⟩ := Nat.exists_eq_succ_of_ne_zero hpos.ne'
        rw [hn] at hrest ⊢
        simp only [hmore, hrest, Bool.false_eq_true, if_false, Nat.add_sub_cancel, spaced]
        congr 2
        omega

/-- The closure is called once for each attempt up to its first success, the
result is that of the last call, and the policy's delays lie between the calls,
one between each two. -/
theorem withRetry_refines (policy : RetryPolicy) (f : Nat → Except AppError T) :
    ∃ calls : ℕ, (calls : ℕ∞) = min (policy.maxAttempts : ℕ∞) (firstOk f) ∧
      (calls = 0 ↔ policy.maxAttempts = 0) ∧
      (withRetry policy f).1 = spaced policy 0 calls ∧
      (withRetry policy f).1.count .call = calls ∧
      (withRetry policy f).2 = match calls with
        | 0 => .error retryExhausted
        | n + 1 => f n := by
  have hloop := retryLoop_eq (f := f) (Nat.zero_add policy.maxAttempts) none
  simp only [Nat.zero_add] at hloop
  refine ⟨callsMade f 0 policy.maxAttempts, callsMade_eq_min f _, callsMade_eq_zero, ?_, ?_, ?_⟩
  · rw [withRetry, hloop]
  · rw [withRetry, hloop]
    exact count_spaced policy 0 _
  · rw [withRetry, hloop]
    rfl

/-- Two failures and a success, on a policy of three attempts. -/
example : withRetry { maxAttempts := 3, strategy := .exponential 100 150 }
    (fun n => if n < 2 then .error ⟨.internal, "not yet"⟩ else .ok 42) =
      ([.call, .sleep (fromMillis 100), .call, .sleep (fromMillis 150), .call], .ok 42) := rfl

end

end Rinfra.Resilience
