import Mathlib.Order.WithBot
import Rinfra.Core.Error
import Rinfra.Lib.Lease
import Rinfra.Lib.Transition
import Rinfra.RateLimit.Memory

/-!
# The Redis rate limiter

A counter for each key and window of time, shared by any number of nodes. The
server is a parameter: `RedisCounters` has the three commands the limiter
sends, and `RedisCounters.Lawful` says what their documentation promises.

A counter is a lease of its value: one without an expiry never ends. Times are
Unix times in milliseconds, and a check is a job of two or three steps, since
other nodes can come between its commands.
-/

namespace Rinfra.RateLimit

open Rinfra.Lib

abbrev Counters := Leases String Nat (WithTop Nat)

namespace Counters

def value (l : Counters) (now : Nat) (key : String) : Nat := (l.holder now key).getD 0

/-- When the counter at the key ends; one that is not there yet will not. -/
def ending (l : Counters) (now : Nat) (key : String) : WithTop Nat :=
  match l key with
  | some (_, until_) => if now < until_ then until_ else ⊤
  | none => ⊤

def incr (l : Counters) (now : Nat) (key : String) (delta : Nat) : Counters :=
  l.set key (some (l.value now key + delta, l.ending now key))

/-- An expiry that is not in the future removes the key. -/
def expire (l : Counters) (now : Nat) (key : String) (secs : Int) : Counters :=
  match l.holder now key with
  | some value =>
    if 0 < secs then l.set key (some (value, ↑(now + secs.toNat * 1000))) else l.set key none
  | none => l

end Counters

/-- The commands the limiter sends. An error is given by its text. -/
structure RedisCounters (Db : Type) where
  incr : Db → (now : Nat) → (key : String) → (delta : Nat) → Except String Nat × Db
  expire : Db → (now : Nat) → (key : String) → (secs : Int) → Except String Unit × Db
  del : Db → (now : Nat) → (key : String) → Except String Unit × Db

/-- The commands are atomic. An `EXPIRE` or `DEL` that fails may have been
carried out. -/
structure RedisCounters.Lawful (redis : RedisCounters Db) (counters : Db → Counters) : Prop where
  incr : ∀ db now key delta value db', redis.incr db now key delta = (.ok value, db') →
    value = (counters db).value now key + delta ∧
      Leases.SameLeases (now : WithTop Nat) (counters db') ((counters db).incr now key delta)
  incr_failed : ∀ db now key delta e db', redis.incr db now key delta = (.error e, db') →
    Leases.SameLeases (now : WithTop Nat) (counters db') (counters db)
  expire : ∀ db now key secs db', redis.expire db now key secs = (.ok (), db') →
    Leases.SameLeases (now : WithTop Nat) (counters db') ((counters db).expire now key secs)
  expire_failed : ∀ db now key secs e db', redis.expire db now key secs = (.error e, db') →
    Leases.SameLeases (now : WithTop Nat) (counters db') (counters db) ∨
      Leases.SameLeases (now : WithTop Nat) (counters db') ((counters db).expire now key secs)
  del : ∀ db now key result db', redis.del db now key = (result, db') →
    Leases.SameLeases (now : WithTop Nat) (counters db') (counters db) ∨
      Leases.SameLeases (now : WithTop Nat) (counters db') ((counters db).set key none)

structure RedisRateLimitConfig where
  enabled : Bool
  requestsPerSecond : Nat
  windowSecs : Nat
  requests_u64 : requestsPerSecond < 2 ^ 64 := by decide
  window_u64 : windowSecs < 2 ^ 64 := by decide

def asI64 (n : Nat) : Int := if n < 2 ^ 63 then n else (n : Int) - 2 ^ 64

namespace RedisRateLimitConfig

variable (config : RedisRateLimitConfig)

def windowLen : Nat := max config.windowSecs 1

/-- The arithmetic is on `u64`; a release build wraps around. -/
def limit : Nat := config.requestsPerSecond * config.windowLen % 2 ^ 64

def ttl : Int := asI64 ((config.windowLen + 1) % 2 ^ 64)

def retryAfterMs : Nat := config.windowLen * 1000 % 2 ^ 64

end RedisRateLimitConfig

def notEnabled : AppError := ⟨.rateLimitExceeded, "redis rate limiter not enabled"⟩

def notConnected : AppError := ⟨.cacheConnectionFailed, "redis not connected"⟩

def incrFailed (e : String) : AppError := ⟨.internal, s!"redis INCR failed: {e}"⟩

def delFailed (e : String) : AppError := ⟨.internal, s!"redis DEL failed: {e}"⟩

/-- Where a call stands. `keyed` has its connection and the key of its window. -/
inductive RateJob
  | idle
  | keyed (rk : String)
  | expiring (rk : String)
  | checked (result : Outcome RateLimitResult)
  | resetting (rk : String)
  | wasReset (result : Outcome Unit)
  deriving DecidableEq, Repr

structure RateLimiters (Db : Type) where
  db : Db
  clock : Nat
  jobs : Nat → RateJob
  /-- The checks that were counted, in order: who, under which key, and what the
  count amounts to. -/
  counted : List (Nat × String × RateLimitResult)
  /-- The keys whose `EXPIRE` returned `OK`. -/
  expires : List String

inductive RateEvent
  | check (c : Nat) (key : String) (now : Nat) (connected : Bool)
  | incr (c now : Nat)
  | expire (c now : Nat)
  | reset (c : Nat) (key : String) (now : Nat) (connected : Bool)
  | del (c now : Nat)
  deriving DecidableEq, Repr

def RateEvent.now : RateEvent → Nat
  | .check _ _ now _ | .incr _ now | .expire _ now | .reset _ _ now _ | .del _ now => now

namespace RedisRateLimiter

section
variable (config : RedisRateLimitConfig)

def window (now : Nat) : Nat := now / 1000 / config.windowLen

def keyOf (key : String) (window : Nat) : String := s!"rinfra:rl:{key}:{window}"

def rateKey (key : String) (now : Nat) : String := keyOf key (window config now)

def verdict (count : Nat) : RateLimitResult :=
  if count ≤ config.limit then
    { allowed := true, remaining := config.limit - count, retryAfterMs := none }
  else { allowed := false, remaining := 0, retryAfterMs := some config.retryAfterMs }

/-- Both calls begin like this. -/
def getConn (connected : Bool) : Outcome Unit :=
  if config.enabled then if connected then .ok () else .err notConnected else .err notEnabled

end

end RedisRateLimiter

namespace RateLimiters

open RedisRateLimiter

section
variable {Db : Type} (redis : RedisCounters Db) (config : RedisRateLimitConfig)

def start (db : Db) : RateLimiters Db :=
  { db, clock := 0, jobs := fun _ => .idle, counted := [], expires := [] }

def setJob (s : RateLimiters Db) (c : Nat) (job : RateJob) : RateLimiters Db :=
  { s with jobs := Function.update s.jobs c job }

def act (s : RateLimiters Db) : RateEvent → Option (RateLimiters Db)
  | .check c key now connected => do
    let .idle := s.jobs c | none
    match getConn config connected with
    | .ok () => pure (s.setJob c (.keyed (rateKey config key now)))
    | .err e => pure (s.setJob c (.checked (.err e)))
    | .panicked => none
  | .incr c now => do
    let .keyed rk := s.jobs c | none
    match redis.incr s.db now rk 1 with
    | (.ok count, db) =>
      let result := verdict config count
      let s := { s with db, counted := s.counted ++ [(c, rk, result)] }
      pure (s.setJob c (if count = 1 then .expiring rk else .checked (.ok result)))
    | (.error e, db) => pure ({ s with db }.setJob c (.checked (.err (incrFailed e))))
  | .expire c now => do
    let .expiring rk := s.jobs c | none
    let checked := RateJob.checked (.ok (verdict config 1))
    match redis.expire s.db now rk config.ttl with
    | (.ok (), db) => pure ({ s with db, expires := rk :: s.expires }.setJob c checked)
    | (.error _, db) => pure ({ s with db }.setJob c checked)
  | .reset c key now connected => do
    let .idle := s.jobs c | none
    match getConn config connected with
    | .ok () => pure (s.setJob c (.resetting (rateKey config key now)))
    | .err e => pure (s.setJob c (.wasReset (.err e)))
    | .panicked => none
  | .del c now => do
    let .resetting rk := s.jobs c | none
    match redis.del s.db now rk with
    | (.ok (), db) => pure ({ s with db }.setJob c (.wasReset (.ok ())))
    | (.error e, db) => pure ({ s with db }.setJob c (.wasReset (.err (delFailed e))))

/-- The clock of all nodes and of the server does not go back. -/
def step (s : RateLimiters Db) (e : RateEvent) : Option (RateLimiters Db) :=
  if s.clock ≤ e.now then (s.act redis config e).map fun s => { s with clock := e.now } else none

def results (s : RateLimiters Db) (rk : String) : List RateLimitResult :=
  (s.counted.filter fun entry => entry.2.1 = rk).map fun entry => entry.2.2

end

end RateLimiters

-- ---------------------------------------------------------------------------
-- Keys
-- ---------------------------------------------------------------------------

theorem append_cons_inj {x : α} {l l' r r' : List α} (hr : x ∉ r) (hr' : x ∉ r')
    (h : l ++ x :: r = l' ++ x :: r') : l = l' ∧ r = r' := by
  induction l generalizing l' with
  | nil =>
    cases l' with
    | nil => exact ⟨rfl, (List.cons.inj h).2⟩
    | cons y l' =>
      have hmem : x ∈ r := (List.cons.inj h).2 ▸ by simp
      exact absurd hmem hr
  | cons y l ih =>
    cases l' with
    | nil =>
      have hmem : x ∈ r' := (List.cons.inj h).2 ▸ by simp
      exact absurd hmem hr'
    | cons y' l' =>
      obtain ⟨rfl, htail⟩ := List.cons.inj h
      obtain ⟨rfl, hrest⟩ := ih htail
      exact ⟨rfl, hrest⟩

namespace RedisRateLimiter

/-- A key may contain colons; the window, which comes last, does not. -/
theorem keyOf_inj (h : keyOf key k = keyOf key' k') : key = key' ∧ k = k' := by
  have hcolon : ∀ n, ':' ∉ Nat.toDigits 10 n := by
    intro n hmem
    have hdigit := Nat.isDigit_of_mem_toDigits (by decide) (by decide) hmem
    exact absurd hdigit (by decide)
  have hlist : ∀ key k, (keyOf key k).toList =
      "rinfra:rl:".toList ++ (key.toList ++ ':' :: Nat.toDigits 10 k) := by
    intro key k
    simp [keyOf, ToString.toString, Nat.toList_repr]
  have heq := congrArg String.toList h
  rw [hlist, hlist, List.append_cancel_left_eq] at heq
  obtain ⟨hkey, hdigits⟩ := append_cons_inj (hcolon _) (hcolon _) heq
  refine ⟨String.ext hkey, ?_⟩
  have hread := congrArg (fun digits => Nat.ofDigitChars 10 digits 0) hdigits
  simpa only [Nat.ofDigitChars_ten_toDigits] using hread

end RedisRateLimiter

-- ---------------------------------------------------------------------------
-- Counters
-- ---------------------------------------------------------------------------

namespace Counters

variable {l l' : Counters} {key key' : String} {now n : Nat} {until_ : WithTop Nat}

theorem holder_of_lease (h : l key = some (n, until_)) (hnow : now < until_) :
    l.holder (now : WithTop Nat) key = some n :=
  Leases.holder_eq_some.mpr ⟨until_, h, hnow⟩

theorem value_of_lease (h : l key = some (n, until_)) (hnow : now < until_) :
    l.value now key = n := by
  rw [value, holder_of_lease h hnow, Option.getD_some]

theorem ending_of_lease (h : l key = some (n, until_)) (hnow : now < until_) :
    l.ending now key = until_ := by
  simp [ending, h, hnow]

theorem value_of_absent (h : l.holder (now : WithTop Nat) key = none) : l.value now key = 0 := by
  rw [value, h, Option.getD_none]

theorem ending_of_absent (h : l.holder (now : WithTop Nat) key = none) :
    l.ending now key = ⊤ := by
  unfold ending
  split
  · rename_i n until_ hkey
    rw [if_neg (not_lt.mpr (Leases.holder_eq_none.mp h _ hkey))]
  · rfl

theorem incr_of_ne (h : key' ≠ key) : l.incr now key delta key' = l key' := Leases.set_of_ne h

theorem expire_of_ne (h : key' ≠ key) : l.expire now key secs key' = l key' := by
  unfold expire
  cases l.holder (now : WithTop Nat) key with
  | some n => split <;> exact Leases.set_of_ne h
  | none => rfl

theorem expire_of_lease (h : l key = some (n, until_)) (hnow : now < until_) (hpos : 0 < secs) :
    l.expire now key secs key = some (n, ↑(now + secs.toNat * 1000)) := by
  simp [expire, holder_of_lease h hnow, hpos]

end Counters

end Rinfra.RateLimit
