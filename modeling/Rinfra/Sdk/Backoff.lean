import Rinfra.Lib.Word
import Rinfra.Sdk.Rpc

/-!
# How long the SDKs wait before a retry

The Go and the Java SDK double the base delay with every attempt, cap it, and
add a random part of it. Go computes in nanoseconds, Java in milliseconds, both
in 64 bits.
-/

namespace Rinfra.Sdk

open Rinfra.Lib

/-- A source of random numbers below a positive bound. -/
structure Rand where
  next : Int → Int
  range : ∀ n, 0 < n → 0 ≤ next n ∧ next n < n

def Rand.largest : Rand where
  next n := n - 1
  range n h := by omega

/-- The delay that is due after an attempt, in the integers. The first attempt
has number one. -/
def exactBackoff (base max : Int) (attempt : Nat) : Int := min (base * 2 ^ (attempt - 1)) max

/-- Whatever is drawn: the computation succeeds, none of its operations
overflows, and the delay is what is due and at most a quarter more. -/
def Bounded (due : Int) (delay : Rand → Option Word) : Prop :=
  ∀ rand, ∃ w, delay rand = some w ∧ w.wrapped = false ∧
    0 ≤ w.value ∧ due ≤ w.value ∧ 4 * w.value ≤ 5 * due

-- ---------------------------------------------------------------------------
-- Go
-- ---------------------------------------------------------------------------

namespace Go

/-- Delays are `time.Duration`, in nanoseconds. -/
structure RetryPolicy where
  maxAttempts : Int
  baseDelay : Int
  maxDelay : Int
  jitter : Bool
  retryOn : List RpcErrorCode

def RetryPolicy.withDefaults (p : RetryPolicy) : RetryPolicy where
  maxAttempts := if p.maxAttempts ≤ 0 then 3 else p.maxAttempts
  baseDelay := if p.baseDelay ≤ 0 then 100 * 1000000 else p.baseDelay
  maxDelay := if p.maxDelay ≤ 0 then 1000000000 else p.maxDelay
  jitter := p.jitter
  retryOn := if p.retryOn = [] then [.unavailable, .timeout] else p.retryOn

/-- The delay after an attempt; `rand.Int63n` panics on a bound that is not
positive. -/
def backoff (p : RetryPolicy) (attempt : Nat) (rand : Rand) : Option Word :=
  let doubled := Word.mul (.lit p.baseDelay) (.shl (attempt - 1))
  let capped := if doubled.value > p.maxDelay then { doubled with value := p.maxDelay } else doubled
  if p.jitter then
    let quarter := capped.value.tdiv 4
    if quarter ≤ 0 then none else some (.add capped (.lit (rand.next quarter)))
  else some capped

end Go

-- ---------------------------------------------------------------------------
-- Java
-- ---------------------------------------------------------------------------

namespace Java

/-- A `java.time.Duration`, in nanoseconds. -/
abbrev Duration := Int

/-- `none` is an `ArithmeticException`. -/
def toMillis (d : Duration) : Option Int :=
  if Word.Fits (d.tdiv 1000000) then some (d.tdiv 1000000) else none

structure RetryPolicy where
  maxAttempts : Int
  baseDelay : Duration
  maxDelay : Duration
  jitter : Bool
  retryOn : List RpcErrorCode

/-- The constructor of the record; an argument can be null. -/
def RetryPolicy.new (maxAttempts : Int) (baseDelay maxDelay : Option Duration) (jitter : Bool)
    (retryOn : Option (List RpcErrorCode)) : RetryPolicy where
  maxAttempts := if maxAttempts ≤ 0 then 3 else maxAttempts
  baseDelay := (baseDelay.filter (0 < ·)).getD (100 * 1000000)
  maxDelay := (maxDelay.filter (0 < ·)).getD 1000000000
  jitter := jitter
  retryOn := if retryOn.getD [] = [] then [.unavailable, .timeout] else retryOn.getD []

def backoffDuration (p : RetryPolicy) (attempt : Nat) (rand : Rand) : Option Word := do
  let base ← toMillis p.baseDelay
  let doubled := Word.mul (.lit base) (.shlMasked (attempt - 1))
  let max ← toMillis p.maxDelay
  let capped : Word := { doubled with value := min doubled.value max }
  if p.jitter then
    -- `nextLong` is given a positive bound
    some (.add capped (.lit (rand.next (Max.max 1 (capped.value.tdiv 4)))))
  else some capped

end Java

-- ---------------------------------------------------------------------------
-- The delay and its jitter
-- ---------------------------------------------------------------------------

section
variable {due : Int} {w : Word}

theorem bounded_const (hdue : 0 ≤ due) : Bounded due fun _ => some ⟨due, false⟩ :=
  fun _ => ⟨_, rfl, rfl, hdue, Int.le_refl due, by simp only; omega⟩

/-- Once something has wrapped, it stays so. -/
theorem not_bounded_of_wrapped {delay : Rand → Option Word}
    (h : ∀ w, delay .largest = some w → w.wrapped = true) : ¬ Bounded due delay := by
  intro hbounded
  obtain ⟨w, hw, hwrapped, -⟩ := hbounded .largest
  simp [h w hw] at hwrapped

/-- A delay with a part of it on top is in bounds unless the sum overflows. -/
theorem bounded_jitter {bound : Int} (hdue : 0 ≤ due) (hbound : 0 < bound)
    (hquarter : 4 * (bound - 1) ≤ due) :
    Bounded due (fun rand => some (.add ⟨due, false⟩ (.lit (rand.next bound)))) ↔
      due + bound ≤ 2 ^ 63 := by
  constructor
  · intro h
    obtain ⟨w, hw, hwrapped, -⟩ := h .largest
    obtain rfl := Option.some.inj hw
    obtain ⟨-, -, hsum⟩ := Word.wrapped_add.mp hwrapped
    simp only [Word.lit, Rand.largest] at hsum
    omega
  · intro hsum rand
    obtain ⟨hlow, hhigh⟩ := rand.range bound hbound
    have hword : Word.add ⟨due, false⟩ (.lit (rand.next bound)) =
        ⟨due + rand.next bound, false⟩ :=
      Word.ofExact_of_fits ⟨by simp only [Word.lit]; omega, by simp only [Word.lit]; omega⟩ false
    refine ⟨_, congrArg some hword, rfl, ?_, ?_, ?_⟩ <;> simp only <;> omega

theorem exactBackoff_nonneg {base max : Int} (hbase : 0 ≤ base) (hmax : 0 ≤ max) (attempt : Nat) :
    0 ≤ exactBackoff base max attempt := by
  have hdoubled : 0 ≤ base * 2 ^ (attempt - 1) := by positivity
  exact le_min hdoubled hmax

theorem exactBackoff_lt {base max : Int} (h : base * 2 ^ (attempt - 1) < 2 ^ 63) :
    exactBackoff base max attempt < 2 ^ 63 :=
  Int.lt_of_le_of_lt (min_le_left _ _) h

theorem wrapped_add_left (h : x.wrapped = true) (y : Word) : (Word.add x y).wrapped = true := by
  simp [Word.add, Word.ofExact, h]

end

-- ---------------------------------------------------------------------------
-- Go
-- ---------------------------------------------------------------------------

namespace Go

def RetryPolicy.due (p : RetryPolicy) (attempt : Nat) : Int :=
  exactBackoff p.baseDelay p.maxDelay attempt

/-- The doubled delay fits, and so does the jitter, which needs four nanoseconds
to be drawn from. -/
def RetryPolicy.InRange (p : RetryPolicy) (attempt : Nat) : Prop :=
  p.baseDelay * 2 ^ (attempt - 1) < 2 ^ 63 ∧
    (p.jitter = true → 4 ≤ p.due attempt ∧ p.due attempt + p.due attempt / 4 ≤ 2 ^ 63)

theorem withDefaults_pos (p : RetryPolicy) :
    0 < p.withDefaults.baseDelay ∧ 0 < p.withDefaults.maxDelay := by
  simp only [RetryPolicy.withDefaults]
  omega

theorem capped_eq (x : Word) (max : Int) :
    (if x.value > max then { x with value := max } else x) = ⟨min x.value max, x.wrapped⟩ := by
  by_cases h : x.value > max
  · simp [h, h.le]
  · simp [h, Int.not_lt.mp h]

theorem backoff_eq {p : RetryPolicy} (hbase : 0 < p.baseDelay) (hmax : 0 < p.maxDelay)
    (hfits : p.baseDelay * 2 ^ (attempt - 1) < 2 ^ 63) (rand : Rand) :
    backoff p attempt rand =
      if p.jitter then
        if p.due attempt / 4 ≤ 0 then none
        else some (.add ⟨p.due attempt, false⟩ (.lit (rand.next (p.due attempt / 4))))
      else some ⟨p.due attempt, false⟩ := by
  have hk := Word.lt_of_double hbase hfits
  have hvalue := Word.value_double hbase.le (Word.shl_of_lt hk) hfits
  have hquarter : (p.due attempt).tdiv 4 = p.due attempt / 4 :=
    Int.tdiv_eq_ediv_of_nonneg (exactBackoff_nonneg hbase.le hmax.le attempt)
  rw [← hquarter]
  simp only [backoff, capped_eq]
  simp only [hvalue]
  rfl

theorem backoff_wrapped {p : RetryPolicy} (hbase : 0 < p.baseDelay)
    (hfits : ¬ p.baseDelay * 2 ^ (attempt - 1) < 2 ^ 63) (h : backoff p attempt rand = some w) :
    w.wrapped = true := by
  have hbad : (Word.mul (.lit p.baseDelay) (.shl (attempt - 1))).wrapped = true := by
    rw [← Bool.not_eq_false, Word.wrapped_double hbase.le (Word.wrapped_shl _) Word.shl_of_lt]
    exact fun h => hfits h.2
  simp only [backoff, capped_eq] at h
  generalize Word.mul (.lit p.baseDelay) (.shl (attempt - 1)) = doubled at h hbad
  split at h
  · split at h
    · cases h
    · obtain rfl := Option.some.inj h
      refine wrapped_add_left ?_ _
      exact hbad
  · obtain rfl := Option.some.inj h
    exact hbad

theorem bounded_iff {p : RetryPolicy} (hbase : 0 < p.baseDelay) (hmax : 0 < p.maxDelay)
    (attempt : Nat) : Bounded (p.due attempt) (backoff p attempt) ↔ p.InRange attempt := by
  by_cases hfits : p.baseDelay * 2 ^ (attempt - 1) < 2 ^ 63
  · have hdue : 0 ≤ p.due attempt := exactBackoff_nonneg hbase.le hmax.le attempt
    have heq := funext (backoff_eq hbase hmax hfits)
    cases hjitter : p.jitter with
    | false =>
      refine iff_of_true ?_ ⟨hfits, by simp [hjitter]⟩
      simp only [heq, hjitter]
      exact bounded_const hdue
    | true =>
      by_cases hfour : 4 ≤ p.due attempt
      · have hpos : ¬ p.due attempt / 4 ≤ 0 := by omega
        simp only [heq, hjitter, if_true, if_neg hpos]
        rw [bounded_jitter hdue (by omega) (by omega)]
        exact ⟨fun h => ⟨hfits, fun _ => ⟨hfour, h⟩⟩, fun h => (h.2 hjitter).2⟩
      · have hzero : p.due attempt / 4 ≤ 0 := by omega
        refine iff_of_false (fun hbounded => ?_) fun hrange => hfour (hrange.2 hjitter).1
        obtain ⟨w, hw, -⟩ := hbounded .largest
        simp [heq, hjitter, hzero] at hw
  · exact iff_of_false (not_bounded_of_wrapped fun w => backoff_wrapped hbase hfits)
      fun hrange => hfits hrange.1

end Go

-- ---------------------------------------------------------------------------
-- Java
-- ---------------------------------------------------------------------------

namespace Java

def millis (d : Duration) : Int := d.tdiv 1000000

def RetryPolicy.due (p : RetryPolicy) (attempt : Nat) : Int :=
  exactBackoff (millis p.baseDelay) (millis p.maxDelay) attempt

/-- The delays have a number of milliseconds that fits, and so do the doubled
delay, its factor, and the jitter. -/
def RetryPolicy.InRange (p : RetryPolicy) (attempt : Nat) : Prop :=
  millis p.baseDelay < 2 ^ 63 ∧ millis p.maxDelay < 2 ^ 63 ∧ attempt ≤ 63 ∧
    millis p.baseDelay * 2 ^ (attempt - 1) < 2 ^ 63 ∧
    (p.jitter = true → p.due attempt + p.due attempt / 4 ≤ 2 ^ 63)

theorem new_pos (maxAttempts : Int) (baseDelay maxDelay : Option Duration) (jitter : Bool)
    (retryOn : Option (List RpcErrorCode)) :
    0 < (RetryPolicy.new maxAttempts baseDelay maxDelay jitter retryOn).baseDelay ∧
      0 < (RetryPolicy.new maxAttempts baseDelay maxDelay jitter retryOn).maxDelay := by
  have hpos : ∀ (d : Option Duration) (default : Duration), 0 < default →
      0 < (d.filter (0 < ·)).getD default := by
    intro d default hdefault
    cases d with
    | none => exact hdefault
    | some d => by_cases hd : 0 < d <;> simp [Option.filter, hd, hdefault]
  exact ⟨hpos _ _ (by decide), hpos _ _ (by decide)⟩

theorem millis_nonneg {d : Duration} (h : 0 < d) : 0 ≤ millis d :=
  Int.tdiv_nonneg h.le (by decide)

theorem toMillis_of_pos {d : Duration} (h : 0 < d) :
    toMillis d = if millis d < 2 ^ 63 then some (millis d) else none := by
  have hnonneg := millis_nonneg h
  have hfits : Word.Fits (d.tdiv 1000000) ↔ millis d < 2 ^ 63 :=
    and_iff_right (by change -2 ^ 63 ≤ millis d; omega)
  simp only [toMillis, hfits]
  rfl

theorem toMillis_eq_some {d : Duration} (h : 0 < d) :
    toMillis d = some ms ↔ millis d < 2 ^ 63 ∧ ms = millis d := by
  by_cases hd : millis d < 2 ^ 63
  · simp only [toMillis_of_pos h, if_pos hd, Option.some.injEq, eq_comm]
    exact (and_iff_right hd).symm
  · simp only [toMillis_of_pos h, if_neg hd]
    exact iff_of_false nofun fun h => hd h.1

theorem backoffDuration_eq {p : RetryPolicy} (hbase : 0 < p.baseDelay) (hmax : 0 < p.maxDelay)
    (hbaseFits : millis p.baseDelay < 2 ^ 63) (hmaxFits : millis p.maxDelay < 2 ^ 63)
    (hk : attempt ≤ 63) (hfits : millis p.baseDelay * 2 ^ (attempt - 1) < 2 ^ 63) (rand : Rand) :
    backoffDuration p attempt rand =
      if p.jitter then
        some (.add ⟨p.due attempt, false⟩ (.lit (rand.next (max 1 (p.due attempt / 4)))))
      else some ⟨p.due attempt, false⟩ := by
  have hvalue := Word.value_double (millis_nonneg hbase)
    (Word.shlMasked_of_lt (by omega : attempt - 1 < 63)) hfits
  have hquarter : (p.due attempt).tdiv 4 = p.due attempt / 4 := Int.tdiv_eq_ediv_of_nonneg
    (exactBackoff_nonneg (millis_nonneg hbase) (millis_nonneg hmax) attempt)
  rw [← hquarter]
  simp only [backoffDuration, (toMillis_eq_some hbase).mpr ⟨hbaseFits, rfl⟩,
    (toMillis_eq_some hmax).mpr ⟨hmaxFits, rfl⟩, hvalue, bind, Option.bind_some]
  rfl

theorem backoffDuration_some {p : RetryPolicy} (hbase : 0 < p.baseDelay) (hmax : 0 < p.maxDelay)
    (h : backoffDuration p attempt rand = some w) (hw : w.wrapped = false) :
    millis p.baseDelay < 2 ^ 63 ∧ millis p.maxDelay < 2 ^ 63 ∧ attempt ≤ 63 ∧
      millis p.baseDelay * 2 ^ (attempt - 1) < 2 ^ 63 := by
  simp only [backoffDuration, bind, Option.bind_eq_some_iff] at h
  obtain ⟨base, hbaseMs, max, hmaxMs, h⟩ := h
  obtain ⟨hbaseFits, rfl⟩ := (toMillis_eq_some hbase).mp hbaseMs
  obtain ⟨hmaxFits, -⟩ := (toMillis_eq_some hmax).mp hmaxMs
  have hgood : (Word.mul (.lit (millis p.baseDelay)) (.shlMasked (attempt - 1))).wrapped =
      false := by
    by_contra hbad
    rw [Bool.not_eq_false] at hbad
    generalize Word.mul (.lit (millis p.baseDelay)) (.shlMasked (attempt - 1)) = doubled at h hbad
    split at h
    · obtain rfl := Option.some.inj h
      rw [wrapped_add_left (by exact hbad)] at hw
      cases hw
    · obtain rfl := Option.some.inj h
      exact absurd (hbad.symm.trans hw) nofun
  obtain ⟨hk, hfits⟩ := (Word.wrapped_double (millis_nonneg hbase) (Word.wrapped_shlMasked _)
    Word.shlMasked_of_lt).mp hgood
  exact ⟨hbaseFits, hmaxFits, by omega, hfits⟩

theorem bounded_iff {p : RetryPolicy} (hbase : 0 < p.baseDelay) (hmax : 0 < p.maxDelay)
    (attempt : Nat) : Bounded (p.due attempt) (backoffDuration p attempt) ↔ p.InRange attempt := by
  have hdue : 0 ≤ p.due attempt :=
    exactBackoff_nonneg (millis_nonneg hbase) (millis_nonneg hmax) attempt
  by_cases hrange : millis p.baseDelay < 2 ^ 63 ∧ millis p.maxDelay < 2 ^ 63 ∧ attempt ≤ 63 ∧
      millis p.baseDelay * 2 ^ (attempt - 1) < 2 ^ 63
  · obtain ⟨hbaseFits, hmaxFits, hk, hfits⟩ := hrange
    have hlt : p.due attempt < 2 ^ 63 := exactBackoff_lt hfits
    have heq := funext (backoffDuration_eq hbase hmax hbaseFits hmaxFits hk hfits)
    cases hjitter : p.jitter with
    | false =>
      refine iff_of_true ?_ ⟨hbaseFits, hmaxFits, hk, hfits, by simp [hjitter]⟩
      simp only [heq, hjitter]
      exact bounded_const hdue
    | true =>
      simp only [heq, hjitter, if_true]
      rw [bounded_jitter hdue (by omega) (by omega)]
      constructor
      · intro hsum
        exact ⟨hbaseFits, hmaxFits, hk, hfits, fun _ => by omega⟩
      · rintro ⟨-, -, -, -, hsum⟩
        have hsum := hsum hjitter
        omega
  · refine iff_of_false (fun hbounded => ?_)
      fun h => hrange ⟨h.1, h.2.1, h.2.2.1, h.2.2.2.1⟩
    obtain ⟨w, hw, hwrapped, -⟩ := hbounded .largest
    exact hrange (backoffDuration_some hbase hmax hw hwrapped)

end Java

/-- In both SDKs, for every policy and every attempt: the delay is computed
without an accident and in its bounds exactly where the numbers are in range. -/
theorem backoff_bounded_iff (p : Go.RetryPolicy) (attempt : Nat) (maxAttempts : Int)
    (baseDelay maxDelay : Option Java.Duration) (jitter : Bool)
    (retryOn : Option (List RpcErrorCode)) (javaAttempt : Nat) :
    (Bounded (p.withDefaults.due attempt) (Go.backoff p.withDefaults attempt) ↔
      p.withDefaults.InRange attempt) ∧
      let q := Java.RetryPolicy.new maxAttempts baseDelay maxDelay jitter retryOn
      Bounded (q.due javaAttempt) (Java.backoffDuration q javaAttempt) ↔
        q.InRange javaAttempt := by
  constructor
  · obtain ⟨hbase, hmax⟩ := Go.withDefaults_pos p
    exact Go.bounded_iff hbase hmax attempt
  · obtain ⟨hbase, hmax⟩ := Java.new_pos maxAttempts baseDelay maxDelay jitter retryOn
    exact Java.bounded_iff hbase hmax javaAttempt

/-- The defaults with a hundred attempts: in Go the 38th delay is negative once
doubled, and its jitter panics; in Java the 65th is as short as the first. -/
theorem backoff_overflows :
    ¬ Bounded ((Go.RetryPolicy.mk 100 0 0 true []).withDefaults.due 38)
        (Go.backoff (Go.RetryPolicy.mk 100 0 0 true []).withDefaults 38) ∧
      ¬ Bounded ((Java.RetryPolicy.new 100 none none false none).due 65)
        (Java.backoffDuration (Java.RetryPolicy.new 100 none none false none) 65) := by
  constructor
  · intro h
    obtain ⟨w, hw, -⟩ := h .largest
    have hpanic : Go.backoff (Go.RetryPolicy.mk 100 0 0 true []).withDefaults 38 .largest =
        none := by decide +kernel
    rw [hpanic] at hw
    cases hw
  · intro h
    obtain ⟨w, hw, -, -, hdue, -⟩ := h .largest
    have hshort : Java.backoffDuration (Java.RetryPolicy.new 100 none none false none) 65
        .largest = some ⟨100, true⟩ := by decide +kernel
    rw [hshort] at hw
    obtain rfl := Option.some.inj hw
    exact absurd hdue (by decide +kernel)

end Rinfra.Sdk
