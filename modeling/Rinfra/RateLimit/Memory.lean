import Mathlib.Algebra.Order.Archimedean.Basic
import Mathlib.Data.NNRat.Floor
import Rinfra.Core.Time
import Rinfra.Lib.Metering

/-!
# The in-memory rate limiter

A token bucket for each key, behind one mutex: a call is one step, and its
instants are the readings of the clock under the lock. The numbers the source
keeps as `f64` are rationals here, and so are the two of the configuration.
-/

namespace Rinfra.RateLimit

open Rinfra.Lib

structure RateLimitResult where
  allowed : Bool
  remaining : Nat
  retryAfterMs : Option Nat
  deriving DecidableEq, Repr

def u64Max : Nat := 2 ^ 64 - 1

/-- `as u64`, which drops the fraction and stays within the type. -/
def asU64 (x : ℚ) : Nat := min ⌊x⌋.toNat u64Max

def seconds (nanos : Nat) : ℚ := nanos / nanosPerSec

structure TokenBucket where
  tokens : ℚ
  lastRefill : Nat
  maxTokens : ℚ
  refillRate : ℚ
  deriving DecidableEq, Repr

namespace TokenBucket

def new (maxTokens refillRate : ℚ) (now : Nat) : TokenBucket :=
  { tokens := maxTokens, lastRefill := now, maxTokens, refillRate }

def tryConsume (bucket : TokenBucket) (now : Nat) : RateLimitResult × TokenBucket :=
  let elapsed := seconds (elapsed now bucket.lastRefill)
  let tokens := refill bucket.maxTokens bucket.refillRate bucket.tokens elapsed
  let bucket := { bucket with tokens, lastRefill := now }
  if 1 ≤ bucket.tokens then
    let bucket := { bucket with tokens := bucket.tokens - 1 }
    ({ allowed := true, remaining := asU64 bucket.tokens, retryAfterMs := none }, bucket)
  else
    -- a division by zero is infinite and becomes the largest `u64`
    let wait := (1 - bucket.tokens) / bucket.refillRate
    let retryAfterMs := if bucket.refillRate = 0 then u64Max else asU64 (wait * 1000)
    ({ allowed := false, remaining := 0, retryAfterMs := some retryAfterMs }, bucket)

end TokenBucket

structure MemoryRateLimitConfig where
  requestsPerSecond : Nat
  burstSize : Nat
  requests_u64 : requestsPerSecond < 2 ^ 64 := by decide
  burst_u64 : burstSize < 2 ^ 64 := by decide

structure MemoryRateLimiter where
  burstSize : ℚ≥0
  rps : ℚ≥0

abbrev Buckets := String → Option TokenBucket

inductive Op
  /-- `created` is when a bucket is made, if the key has none. -/
  | check (created : Nat)
  | reset
  deriving DecidableEq, Repr

structure Call where
  key : String
  now : Nat
  op : Op
  deriving DecidableEq, Repr

namespace MemoryRateLimiter

def new (config : MemoryRateLimitConfig) : MemoryRateLimiter :=
  { burstSize := config.burstSize, rps := config.requestsPerSecond }

def noBuckets : Buckets := fun _ => none

section
variable (limiter : MemoryRateLimiter) (buckets : Buckets)

/-- `entry(key).or_insert_with(..)` -/
def bucket (key : String) (created : Nat) : TokenBucket :=
  (buckets key).getD (.new limiter.burstSize limiter.rps created)

def check (key : String) (created now : Nat) : RateLimitResult × Buckets :=
  let (result, bucket) := (limiter.bucket buckets key created).tryConsume now
  (result, Function.update buckets key (some bucket))

def reset (key : String) : Buckets := Function.update buckets key none

def call (c : Call) : Option RateLimitResult × Buckets :=
  match c.op with
  | .check created =>
    let (result, buckets) := limiter.check buckets c.key created c.now
    (some result, buckets)
  | .reset => (none, reset buckets c.key)

end

end MemoryRateLimiter

-- ---------------------------------------------------------------------------
-- One bucket
-- ---------------------------------------------------------------------------

theorem seconds_le : seconds t ≤ seconds u ↔ t ≤ u := by
  have hpos : (0 : ℚ) < nanosPerSec := by simp [nanosPerSec]
  rw [seconds, seconds, div_le_div_iff_of_pos_right hpos, Nat.cast_le]

theorem seconds_elapsed (now since : Nat) :
    seconds (elapsed now since) = max 0 (seconds now - seconds since) := by
  rcases Nat.le_total since now with h | h
  · rw [max_eq_right (sub_nonneg.mpr (seconds_le.mpr h))]
    simp [seconds, elapsed, Nat.cast_sub h, sub_div]
  · rw [max_eq_left (sub_nonpos.mpr (seconds_le.mpr h))]
    simp [seconds, elapsed, Nat.sub_eq_zero_of_le h]

namespace TokenBucket

/-- What the bucket holds at a time, before a token is taken. -/
def level (bucket : TokenBucket) (t : ℚ) : ℚ :=
  refill bucket.maxTokens bucket.refillRate bucket.tokens (max 0 (t - seconds bucket.lastRefill))

/-- No fewer tokens than none and no more than fit. -/
structure Within (bucket : TokenBucket) : Prop where
  tokens_nonneg : 0 ≤ bucket.tokens
  tokens_le : bucket.tokens ≤ bucket.maxTokens
  rate_nonneg : 0 ≤ bucket.refillRate

variable {bucket : TokenBucket} {capacity rate : ℚ} {now : Nat} {t u : ℚ}

theorem new_within (hcapacity : 0 ≤ capacity) (hrate : 0 ≤ rate) :
    (new capacity rate now).Within := ⟨hcapacity, le_rfl, hrate⟩

theorem Within.level_nonneg (h : bucket.Within) (t : ℚ) : 0 ≤ bucket.level t :=
  refill_nonneg (h.tokens_nonneg.trans h.tokens_le) h.rate_nonneg h.tokens_nonneg (le_max_left _ _)

theorem level_le (bucket : TokenBucket) (t : ℚ) : bucket.level t ≤ bucket.maxTokens := refill_le

theorem Within.tokens_le_level (h : bucket.Within) (t : ℚ) : bucket.tokens ≤ bucket.level t :=
  le_refill h.rate_nonneg h.tokens_le (le_max_left _ _)

theorem Within.level_wait (h : bucket.Within) (htu : t ≤ u) :
    bucket.level u ≤ bucket.level t + bucket.refillRate * (u - t) := by
  apply refill_add h.rate_nonneg (sub_nonneg.mpr htu)
  apply max_le
  · exact add_nonneg (le_max_left _ _) (sub_nonneg.mpr htu)
  · linarith [le_max_right 0 (t - seconds bucket.lastRefill)]

theorem level_new (hrate : 0 ≤ rate) : (new capacity rate now).level t = capacity :=
  refill_full hrate (le_max_left _ _)

theorem allowed_iff :
    (bucket.tryConsume now).1.allowed = true ↔ 1 ≤ bucket.level (seconds now) := by
  simp only [tryConsume, seconds_elapsed, level]
  split <;> simp [*]

theorem tryConsume_snd :
    (bucket.tryConsume now).2 =
      { bucket with
        tokens := bucket.level (seconds now) - if 1 ≤ bucket.level (seconds now) then 1 else 0
        lastRefill := now } := by
  simp only [tryConsume, seconds_elapsed]
  rw [← level]
  split <;> simp [*]

theorem Within.tryConsume (h : bucket.Within) : (bucket.tryConsume now).2.Within := by
  have hnonneg := h.level_nonneg (seconds now)
  have hle := bucket.level_le (seconds now)
  rw [tryConsume_snd]
  split
  · exact ⟨by simpa, by simp; linarith, h.rate_nonneg⟩
  · exact ⟨by simpa, by simpa, h.rate_nonneg⟩

/-- Just after a check the bucket holds what the check left. -/
theorem level_tryConsume :
    (bucket.tryConsume now).2.level (seconds now) =
      bucket.level (seconds now) - if 1 ≤ bucket.level (seconds now) then 1 else 0 := by
  have hle := bucket.level_le (seconds now)
  rw [tryConsume_snd]
  rw [level, sub_self, max_self]
  apply refill_zero
  split <;> linarith

end TokenBucket

-- ---------------------------------------------------------------------------
-- Many keys
-- ---------------------------------------------------------------------------

namespace MemoryRateLimiter

section
variable (limiter : MemoryRateLimiter)

def available (buckets : Buckets) (key : String) (t : ℚ) : ℚ :=
  match buckets key with
  | some bucket => bucket.level t
  | none => limiter.burstSize

/-- The buckets are within the bounds of the configuration. -/
def Inv (buckets : Buckets) : Prop :=
  ∀ key bucket, buckets key = some bucket →
    bucket.Within ∧ bucket.maxTokens = limiter.burstSize ∧ bucket.refillRate = limiter.rps

def allows (key : String) (answered : Call × Option RateLimitResult) : Bool :=
  answered.1.key = key ∧ answered.2.any RateLimitResult.allowed

def allowed (key : String) (start stop : ℚ) (calls : List Call) : Nat :=
  granted limiter.call (fun c => seconds c.now) (allows key) start stop noBuckets calls

end

variable {limiter : MemoryRateLimiter} {buckets : Buckets}

theorem noBuckets_inv : limiter.Inv noBuckets := by
  intro key bucket h
  cases h

theorem Inv.bucket (hi : limiter.Inv buckets) (key : String) (created : Nat) :
    (limiter.bucket buckets key created).Within ∧
      (limiter.bucket buckets key created).maxTokens = limiter.burstSize ∧
      (limiter.bucket buckets key created).refillRate = limiter.rps := by
  unfold MemoryRateLimiter.bucket
  cases h : buckets key with
  | some bucket => exact hi key bucket h
  | none =>
    have hnew : (TokenBucket.new limiter.burstSize limiter.rps created).Within :=
      TokenBucket.new_within limiter.burstSize.coe_nonneg limiter.rps.coe_nonneg
    exact ⟨hnew, rfl, rfl⟩

theorem bucket_level (key : String) (created : Nat) (t : ℚ) :
    (limiter.bucket buckets key created).level t = limiter.available buckets key t := by
  unfold MemoryRateLimiter.bucket available
  cases buckets key with
  | some bucket => rfl
  | none => exact TokenBucket.level_new limiter.rps.coe_nonneg

theorem check_allowed :
    (limiter.check buckets key created now).1.allowed = true ↔
      1 ≤ limiter.available buckets key (seconds now) := by
  rw [← bucket_level key created]
  exact TokenBucket.allowed_iff

/-- A check takes a token from its key's bucket where there is one. -/
theorem available_check :
    limiter.available (limiter.check buckets key created now).2 key (seconds now) =
      limiter.available buckets key (seconds now) -
        if 1 ≤ limiter.available buckets key (seconds now) then 1 else 0 := by
  have hbucket : (limiter.check buckets key created now).2 key =
      some ((limiter.bucket buckets key created).tryConsume now).2 := Function.update_self _ _ _
  have havailable : limiter.available (limiter.check buckets key created now).2 key
      (seconds now) =
        ((limiter.bucket buckets key created).tryConsume now).2.level (seconds now) := by
    rw [available, hbucket]
  rw [havailable, ← bucket_level key created]
  exact TokenBucket.level_tryConsume

theorem call_of_ne (h : c.key ≠ key) : (limiter.call buckets c).2 key = buckets key := by
  unfold call check reset
  split <;> simp [Ne.symm h]

theorem Inv.call (hi : limiter.Inv buckets) (c : Call) :
    limiter.Inv (limiter.call buckets c).2 := by
  intro key bucket h
  by_cases hkey : c.key = key
  · subst hkey
    unfold MemoryRateLimiter.call at h
    split at h
    · rename_i created _
      obtain ⟨hwithin, hmax, hrate⟩ := hi.bucket c.key created
      simp only [check, Function.update_self, Option.some.injEq] at h
      subst h
      refine ⟨hwithin.tryConsume, ?_⟩
      rw [TokenBucket.tryConsume_snd]
      exact ⟨hmax, hrate⟩
    · simp [reset] at h
  · rw [call_of_ne hkey] at h
    exact hi key bucket h

theorem Inv.available (hi : limiter.Inv buckets) (key : String) (t : ℚ) :
    0 ≤ limiter.available buckets key t ∧ limiter.available buckets key t ≤ limiter.burstSize := by
  obtain ⟨hwithin, hmax, -⟩ := hi.bucket key 0
  rw [← bucket_level key 0, ← hmax]
  exact ⟨hwithin.level_nonneg t, TokenBucket.level_le _ t⟩

theorem metered (limiter : MemoryRateLimiter) (key : String) :
    Metered limiter.call (fun c => seconds c.now) (allows key)
      (fun buckets => limiter.available buckets key) limiter.rps limiter.burstSize limiter.Inv
      fun c => ¬ (c.op = .reset ∧ c.key = key) where
  inv buckets c hi := hi.call c
  nonneg buckets t hi := (hi.available key t).1
  le_bound buckets t hi := (hi.available key t).2
  wait buckets t u hi htu := by
    obtain ⟨hwithin, -, hrate⟩ := hi.bucket key 0
    rw [← bucket_level key 0, ← bucket_level key 0, ← hrate]
    exact hwithin.level_wait htu
  pays buckets c hi _ hallows := by
    obtain ⟨hkey, hallowed⟩ : c.key = key ∧ (limiter.call buckets c).1.any _ = true := by
      simpa [allows] using hallows
    subst hkey
    unfold call at hallowed ⊢
    split at hallowed
    · have hone := check_allowed.mp hallowed
      simp [available_check, hone]
    · cases hallowed
  keeps buckets c hi hcounts := by
    by_cases hkey : c.key = key
    · subst hkey
      unfold call
      split
      · rw [available_check]
        split <;> linarith
      · rename_i hreset
        exact absurd ⟨hreset, rfl⟩ hcounts
    · simp [MemoryRateLimiter.available, call_of_ne hkey]

/-- Operations on other keys change nothing for a key. -/
theorem answers_key (limiter : MemoryRateLimiter) (key : String) (calls : List Call) :
    (answers limiter.call noBuckets calls).filter (fun a => a.1.key = key) =
      answers limiter.call noBuckets (calls.filter fun c => c.key = key) := by
  let obs : Buckets → Option TokenBucket := fun buckets => buckets key
  apply answers_filter obs (fun c : Call => c.key = key) _ _ rfl
  · intro buckets c hne
    exact call_of_ne (of_decide_eq_false hne)
  · intro buckets buckets' c hkey hsame
    have hkey : c.key = key := of_decide_eq_true hkey
    subst hkey
    have hsame : buckets c.key = buckets' c.key := hsame
    have hbucket : ∀ created, limiter.bucket buckets c.key created =
        limiter.bucket buckets' c.key created := by
      intro created
      rw [MemoryRateLimiter.bucket, hsame, MemoryRateLimiter.bucket]
    unfold call check reset
    split <;> simp [obs, hbucket]

/-- In every window without a reset of a key no more of its checks are allowed
than the burst size and what the rate gives in that time; the buckets stay
within their bounds, a check is allowed where there is a token, and the keys
have nothing to do with each other. -/
theorem checks_bounded (limiter : MemoryRateLimiter) (calls : List Call)
    (hsorted : calls.Pairwise fun c c' => c.now ≤ c'.now) :
    (∀ (key : String) (start stop : ℚ), start ≤ stop →
      (∀ c ∈ calls, c.op = .reset → c.key = key →
        ¬ (start ≤ seconds c.now ∧ seconds c.now ≤ stop)) →
      (limiter.allowed key start stop calls : ℚ) ≤
        limiter.burstSize + limiter.rps * (stop - start)) ∧
    (∀ key bucket, after limiter.call noBuckets calls key = some bucket →
      0 ≤ bucket.tokens ∧ bucket.tokens ≤ limiter.burstSize ∧
        ∀ created now, 1 ≤ bucket.tokens →
          (limiter.check (after limiter.call noBuckets calls) key created now).1.allowed = true) ∧
    (∀ key created now,
      (limiter.check (after limiter.call noBuckets calls) key created now).1.allowed = true ↔
        1 ≤ limiter.available (after limiter.call noBuckets calls) key (seconds now)) ∧
    ∀ key, (answers limiter.call noBuckets calls).filter (fun a => a.1.key = key) =
      answers limiter.call noBuckets (calls.filter fun c => c.key = key) := by
  have hi : limiter.Inv (after limiter.call noBuckets calls) :=
    after_invariant noBuckets_inv fun _ c hi => hi.call c
  refine ⟨?_, ?_, fun _ _ _ => check_allowed, fun key => limiter.answers_key key calls⟩
  · intro key start stop hwindow hnone
    apply (metered limiter key).granted_le limiter.rps.coe_nonneg noBuckets_inv
    · exact hsorted.imp seconds_le.mpr
    · exact hwindow
    · exact fun c hc hstart hstop hreset => hnone c hc hreset.1 hreset.2 ⟨hstart, hstop⟩
  · intro key bucket hbucket
    obtain ⟨hwithin, hmax, -⟩ := hi key bucket hbucket
    refine ⟨hwithin.tokens_nonneg, hmax ▸ hwithin.tokens_le, ?_⟩
    intro created now hone
    rw [check_allowed]
    simp only [available, hbucket]
    exact hone.trans (hwithin.tokens_le_level _)

def fourChecks : List Call :=
  [⟨"a", 0, .check 0⟩, ⟨"a", 0, .check 0⟩, ⟨"b", 0, .reset⟩, ⟨"a", 0, .check 0⟩,
    ⟨"a", nanosPerSec, .check 0⟩]

theorem checks_bounded_fourChecks :
    let limiter := new { requestsPerSecond := 1, burstSize := 2 }
    limiter.allowed "a" 0 1 fourChecks = 3 ∧
      (limiter.allowed "a" 0 1 fourChecks : ℚ) ≤ 2 + 1 * (1 - 0) := by
  intro limiter
  have hbound := (checks_bounded limiter fourChecks (by decide)).1 "a" 0 1 (by decide)
    (by decide)
  exact ⟨by decide +kernel, hbound⟩

end MemoryRateLimiter

end Rinfra.RateLimit
