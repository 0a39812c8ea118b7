import Mathlib.Algebra.Order.Floor.Ring
import Std.Data.String.ToNat
import Rinfra.Http.RateLimit

/-!
# When to come back

A check that is denied says how long to wait: the limiter in milliseconds, with
the fraction dropped, and the middleware in seconds, rounded up from these.
-/

namespace Rinfra.RateLimit.MemoryRateLimiter

open Rinfra.Lib Rinfra.Http

section
variable (limiter : MemoryRateLimiter) (buckets : Buckets)

def missing (key : String) (now : Nat) : ℚ :=
  (1 - limiter.available buckets key (seconds now)) / limiter.rps

/-- Who waits so long after a check is allowed, whatever becomes of the other keys
meanwhile and whether or not this one is reset. -/
def Suffices (key : String) (now wait : Nat) : Prop :=
  ∀ between : List Call, (∀ c ∈ between, c.key = key → c.op = .reset) →
    ∀ created later, now + wait ≤ later →
      (limiter.check (after limiter.call buckets between) key created later).1.allowed = true

/-- The hint is enough, and so is the header made of it. -/
structure Sufficient (key : String) (now : Nat) (result : RateLimitResult) : Prop where
  hint : ∀ millis, result.retryAfterMs = some millis →
    limiter.Suffices buckets key now (fromMillis millis)
  header : ∀ secs, ("retry-after", toString secs) ∈ (tooManyRequests result).headers →
    limiter.Suffices buckets key now (fromSecs secs)

end

section
variable {limiter : MemoryRateLimiter} {buckets : Buckets}

-- ---------------------------------------------------------------------------
-- What a denied check leaves
-- ---------------------------------------------------------------------------

theorem seconds_add (t u : Nat) : seconds (t + u) = seconds t + seconds u := by
  simp [seconds, add_div]

theorem seconds_fromSecs (secs : Nat) : seconds (fromSecs secs) = secs := by
  have hne : (nanosPerSec : ℚ) ≠ 0 := by simp [nanosPerSec]
  rw [seconds, fromSecs, Nat.cast_mul, mul_div_assoc, div_self hne, mul_one]

theorem seconds_fromMillis (millis : Nat) : seconds (fromMillis millis) = millis / 1000 := by
  simp only [seconds, fromMillis, nanosPerMilli, nanosPerSec]
  push_cast
  ring

/-- Nothing but time comes into the bucket, up to the burst. -/
theorem available_later (hdenied : limiter.available buckets key (seconds now) < 1)
    (hi : limiter.Inv buckets) (hle : now ≤ later) :
    limiter.available (limiter.check buckets key created now).2 key (seconds later) =
      refill (limiter.burstSize : ℚ) limiter.rps (limiter.available buckets key (seconds now))
        (seconds later - seconds now) := by
  have hbucket : (limiter.check buckets key created now).2 key =
      some ((limiter.bucket buckets key created).tryConsume now).2 := Function.update_self _ _ _
  have hlevel : (limiter.bucket buckets key created).level (seconds now) =
      limiter.available buckets key (seconds now) := bucket_level key created (seconds now)
  obtain ⟨-, hmax, hrate⟩ := hi.bucket key created
  have hwait : 0 ≤ seconds later - seconds now := sub_nonneg.mpr (seconds_le.mpr hle)
  simp only [available, hbucket]
  rw [TokenBucket.tryConsume_snd, TokenBucket.level, hlevel, if_neg (not_le.mpr hdenied), sub_zero,
    hmax, hrate, max_eq_right hwait]
  rfl

/-- A denied check is allowed again once the missing part of a token has come in. -/
theorem allowed_later (hdenied : limiter.available buckets key (seconds now) < 1)
    (hi : limiter.Inv buckets) (hburst : 1 ≤ limiter.burstSize) (hrate : 1 ≤ limiter.rps)
    (hle : now ≤ later) :
    (limiter.check (limiter.check buckets key created now).2 key created' later).1.allowed = true ↔
      limiter.missing buckets key now ≤ seconds later - seconds now := by
  have hpos : (0 : ℚ) < limiter.rps := by
    have : (1 : ℚ) ≤ limiter.rps := by exact_mod_cast hrate
    linarith
  have hfull : (1 : ℚ) ≤ limiter.burstSize := by exact_mod_cast hburst
  rw [check_allowed, available_later hdenied hi hle, refill, le_min_iff, missing, div_le_iff₀ hpos]
  constructor
  · intro h
    linarith [h.1]
  · exact fun h => ⟨by linarith, hfull⟩

theorem allowed_between (h : ∀ c ∈ between, c.key = key → c.op = .reset)
    (hburst : 1 ≤ limiter.burstSize)
    (hallowed : 1 ≤ limiter.available buckets key (seconds later)) :
    (limiter.check (after limiter.call buckets between) key created later).1.allowed = true := by
  rw [check_allowed]
  induction between generalizing buckets with
  | nil => exact hallowed
  | cons c between ih =>
    apply ih fun c' hc' => h c' (List.mem_cons_of_mem _ hc')
    by_cases hkey : c.key = key
    · have hreset := h c List.mem_cons_self hkey
      have hfull : (1 : ℚ) ≤ limiter.burstSize := by exact_mod_cast hburst
      simpa [call, hreset, reset, available, hkey] using hfull
    · simpa [available, call_of_ne hkey] using hallowed

theorem suffices_iff (hdenied : limiter.available buckets key (seconds now) < 1)
    (hi : limiter.Inv buckets) (hburst : 1 ≤ limiter.burstSize) (hrate : 1 ≤ limiter.rps)
    (wait : Nat) :
    limiter.Suffices (limiter.check buckets key created now).2 key now wait ↔
      limiter.missing buckets key now ≤ seconds wait := by
  constructor
  · intro h
    have hallowed := h [] (by simp) created (now + wait) le_rfl
    rw [after, allowed_later hdenied hi hburst hrate (Nat.le_add_right now wait), seconds_add]
      at hallowed
    linarith
  · intro h between hbetween created' later hlater
    have hle : now ≤ later := (Nat.le_add_right now wait).trans hlater
    apply allowed_between hbetween hburst
    have hallowed : (limiter.check (limiter.check buckets key created now).2 key created
        later).1.allowed = true ↔ _ := check_allowed
    rw [← hallowed, allowed_later hdenied hi hburst hrate hle]
    have hseconds := seconds_le.mpr hlater
    rw [seconds_add] at hseconds
    linarith

-- ---------------------------------------------------------------------------
-- The hint and the header
-- ---------------------------------------------------------------------------

theorem missing_bounds (hdenied : limiter.available buckets key (seconds now) < 1)
    (hi : limiter.Inv buckets) (hrate : 1 ≤ limiter.rps) :
    0 < limiter.missing buckets key now ∧ limiter.missing buckets key now ≤ 1 := by
  have hone : (1 : ℚ) ≤ limiter.rps := by exact_mod_cast hrate
  have hpos : (0 : ℚ) < limiter.rps := by linarith
  have hnonneg := (hi.available key (seconds now)).1
  rw [missing]
  refine ⟨div_pos (by linarith) hpos, ?_⟩
  rw [div_le_one hpos]
  linarith

theorem check_denied (hi : limiter.Inv buckets) (hrate : 1 ≤ limiter.rps)
    (h : (limiter.check buckets key created now).1.allowed = false) :
    limiter.available buckets key (seconds now) < 1 ∧
      (limiter.check buckets key created now).1.retryAfterMs =
        some ⌊limiter.missing buckets key now * 1000⌋₊ := by
  have hdenied : limiter.available buckets key (seconds now) < 1 := by
    have hallowed : (limiter.check buckets key created now).1.allowed = true ↔ _ := check_allowed
    rw [← not_le, ← hallowed, h]
    simp
  obtain ⟨hpos, hle⟩ := missing_bounds hdenied hi hrate
  have hlevel : (limiter.bucket buckets key created).level (seconds now) =
      limiter.available buckets key (seconds now) := bucket_level key created (seconds now)
  obtain ⟨-, hmax, hrefill⟩ := hi.bucket key created
  have hne : (limiter.bucket buckets key created).refillRate ≠ 0 := by
    rw [hrefill]
    have : (1 : ℚ) ≤ limiter.rps := by exact_mod_cast hrate
    linarith
  refine ⟨hdenied, ?_⟩
  have hconsume : (limiter.check buckets key created now).1 =
      ((limiter.bucket buckets key created).tryConsume now).1 := rfl
  rw [hconsume]
  simp only [TokenBucket.tryConsume, seconds_elapsed]
  rw [← TokenBucket.level, hlevel, if_neg (not_le.mpr hdenied), if_neg hne, hrefill]
  simp only [Option.some.injEq]
  rw [← missing, asU64, Int.floor_toNat, min_eq_left]
  -- the cast to `u64` cuts nothing off
  have hthousand : ⌊limiter.missing buckets key now * 1000⌋₊ ≤ 1000 := by
    rw [← Nat.floor_natCast (R := ℚ) 1000]
    apply Nat.floor_mono
    push_cast
    linarith
  exact hthousand.trans (by decide)

theorem hint_suffices_iff (hdenied : limiter.available buckets key (seconds now) < 1)
    (hi : limiter.Inv buckets) (hburst : 1 ≤ limiter.burstSize) (hrate : 1 ≤ limiter.rps) :
    limiter.Suffices (limiter.check buckets key created now).2 key now
        (fromMillis ⌊limiter.missing buckets key now * 1000⌋₊) ↔
      ∃ n : ℕ, limiter.missing buckets key now * 1000 = n := by
  obtain ⟨hpos, -⟩ := missing_bounds hdenied hi hrate
  rw [suffices_iff hdenied hi hburst hrate, seconds_fromMillis]
  have hfloor := Nat.floor_le (a := limiter.missing buckets key now * 1000) (by linarith)
  constructor
  · intro h
    exact ⟨_, le_antisymm (by linarith) hfloor⟩
  · rintro ⟨n, hn⟩
    rw [hn, Nat.floor_natCast, ← hn]
    linarith

theorem header_secs (h : ("retry-after", toString secs) ∈ (tooManyRequests result).headers) :
    secs = (result.retryAfterMs.getD 1000 + 999) / 1000 := by
  simp only [tooManyRequests, List.mem_cons, Prod.mk.injEq, List.not_mem_nil, or_false] at h
  rcases h with ⟨hname, -⟩ | ⟨-, hvalue⟩ | ⟨hname, -⟩
  · exact absurd hname (by decide)
  · exact Nat.repr_injective hvalue
  · exact absurd hname (by decide)

theorem header_suffices_iff (hdenied : limiter.available buckets key (seconds now) < 1)
    (hi : limiter.Inv buckets) (hburst : 1 ≤ limiter.burstSize) (hrate : 1 ≤ limiter.rps) :
    limiter.Suffices (limiter.check buckets key created now).2 key now
        (fromSecs ((⌊limiter.missing buckets key now * 1000⌋₊ + 999) / 1000)) ↔
      1 ≤ limiter.missing buckets key now * 1000 := by
  obtain ⟨hpos, hle⟩ := missing_bounds hdenied hi hrate
  rw [suffices_iff hdenied hi hburst hrate, seconds_fromSecs]
  constructor
  · intro h
    by_contra hless
    have hzero : ⌊limiter.missing buckets key now * 1000⌋₊ = 0 :=
      Nat.floor_eq_zero.mpr (not_le.mp hless)
    rw [hzero] at h
    norm_num at h
    linarith
  · intro h
    have hone : 1 ≤ ⌊limiter.missing buckets key now * 1000⌋₊ := Nat.le_floor (by simpa using h)
    have hsecs : 1 ≤ (⌊limiter.missing buckets key now * 1000⌋₊ + 999) / 1000 := by omega
    have hcast : (1 : ℚ) ≤ ((⌊limiter.missing buckets key now * 1000⌋₊ + 999) / 1000 : ℕ) := by
      exact_mod_cast hsecs
    linarith

/-- A denied client that waits as long as it was told is allowed exactly where the
part of a token that is missing comes in after a whole number of milliseconds;
where it waits by the header, exactly where that takes a millisecond or more.

Premise: a token fits into the bucket and at least one comes in each second. -/
theorem sufficient_iff_whole (limiter : MemoryRateLimiter) (hrate : 1 ≤ limiter.rps)
    (hburst : 1 ≤ limiter.burstSize) (calls : List Call) (key : String) (created now : Nat)
    (hdenied : (limiter.check (after limiter.call noBuckets calls) key created now).1.allowed =
      false) :
    let buckets := after limiter.call noBuckets calls
    let checked := limiter.check buckets key created now
    (limiter.Sufficient checked.2 key now checked.1 ↔
      ∃ n : ℕ, limiter.missing buckets key now * 1000 = n) ∧
    ((∀ secs, ("retry-after", toString secs) ∈ (tooManyRequests checked.1).headers →
        limiter.Suffices checked.2 key now (fromSecs secs)) ↔
      1 ≤ limiter.missing buckets key now * 1000) := by
  intro buckets checked
  have hi : limiter.Inv buckets := after_invariant noBuckets_inv fun _ c hi => hi.call c
  obtain ⟨hless, hhint⟩ := check_denied hi hrate hdenied
  have hheader : (∀ secs, ("retry-after", toString secs) ∈ (tooManyRequests checked.1).headers →
      limiter.Suffices checked.2 key now (fromSecs secs)) ↔
        1 ≤ limiter.missing buckets key now * 1000 := by
    have hsecs : limiter.Suffices checked.2 key now _ ↔ _ :=
      header_suffices_iff hless hi hburst hrate
    rw [← hsecs]
    constructor
    · intro h
      apply h
      simp [tooManyRequests, checked, hhint]
    · intro h secs hmem
      rw [header_secs hmem, hhint]
      exact h
  refine ⟨?_, hheader⟩
  constructor
  · intro h
    exact (hint_suffices_iff hless hi hburst hrate).mp (h.hint _ hhint)
  · rintro ⟨n, hn⟩
    refine ⟨fun millis hmillis => ?_, hheader.mpr ?_⟩
    · obtain rfl := Option.some.inj (hhint.symm.trans hmillis)
      exact (hint_suffices_iff hless hi hburst hrate).mpr ⟨n, hn⟩
    · -- a whole number that is not zero is at least one
      obtain ⟨hpos, -⟩ := missing_bounds hless hi hrate
      rw [hn]
      have hcast : (0 : ℚ) < n := by linarith
      exact_mod_cast Nat.cast_pos.mp hcast

end

def oneCheck : List Call := [⟨"a", 0, .check 0⟩]

/-- At one a second the next token takes a thousand milliseconds. -/
theorem sufficient_oneCheck :
    let limiter := new { requestsPerSecond := 1, burstSize := 1 }
    let buckets := after limiter.call noBuckets oneCheck
    let checked := limiter.check buckets "a" 0 0
    checked.1.retryAfterMs = some 1000 ∧ limiter.Sufficient checked.2 "a" 0 checked.1 := by
  intro limiter buckets checked
  have hiff := sufficient_iff_whole limiter (by decide) (by decide) oneCheck "a" 0 0
    (by decide +kernel)
  refine ⟨by decide +kernel, hiff.1.mpr ⟨1000, ?_⟩⟩
  decide +kernel

/-- At three a second it takes a third of a millisecond longer than the hint says, and at
two thousand a second a client is told not to wait at all. -/
theorem told_too_soon :
    (let limiter := new { requestsPerSecond := 3, burstSize := 1 }
     let buckets := after limiter.call noBuckets oneCheck
     let checked := limiter.check buckets "a" 0 0
     checked.1.retryAfterMs = some 333 ∧
       (limiter.check checked.2 "a" 0 (fromMillis 333)).1.allowed = false) ∧
    (let limiter := new { requestsPerSecond := 2000, burstSize := 1 }
     let buckets := after limiter.call noBuckets oneCheck
     let checked := limiter.check buckets "a" 0 0
     checked.1.retryAfterMs = some 0 ∧
       ("retry-after", "0") ∈ (tooManyRequests checked.1).headers ∧
       (limiter.check checked.2 "a" 0 0).1.allowed = false) := by
  decide +kernel

end Rinfra.RateLimit.MemoryRateLimiter
