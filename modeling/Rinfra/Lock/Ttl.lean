import Rinfra.Lock.Exclusion
import Rinfra.Lock.Redis

/-!
# Times to live

A TTL in seconds becomes an instant in `InMemoryLock` and a number of
milliseconds on its way to Redis. Neither conversion is checked: the sum panics
where it does not fit an `Instant`, and the product wraps around.
-/

namespace Rinfra.Lock

open Rinfra.Lib

-- ---------------------------------------------------------------------------
-- The loop of `acquire`
-- ---------------------------------------------------------------------------

/-- One pass of the loop: the lock as the others have left it, the clocks of the attempt
and the UUID it would draw, and when the deadline is looked at after it. -/
structure Round (σ : Type) where
  found : σ
  at_ : Moment
  token : String
  checked : Nat

structure AttemptMade (σ : Type) where
  round : Round σ
  result : Outcome (Option LockHandle)
  left : σ

section
variable {σ : Type} (attempt : Round σ → AttemptMade σ) (key : String) (deadline : Nat)

/-- The attempts that are made, and what is returned; nothing is if the loop goes on
after these rounds. -/
def acquireLoop : List (Round σ) → List (AttemptMade σ) × Option (Outcome LockHandle)
  | [] => ([], none)
  | round :: rounds =>
    let made := attempt round
    match made.result with
    | .ok (some handle) => ([made], some (.ok handle))
    | .ok none =>
      if deadline ≤ round.checked then ([made], some (.err (timedOut key)))
      else
        let (rest, result) := acquireLoop rounds
        (made :: rest, result)
    | .err e => ([made], some (.err e))
    | .panicked => ([made], some .panicked)

/-- A deadline that does not fit an `Instant` panics before the first attempt. -/
def acquireFrom (begun : Moment) (waitTimeoutSecs : Nat) (rounds : List (Round σ)) :
    List (AttemptMade σ) × Option (Outcome LockHandle) :=
  (instantAdd begun.instant (fromSecs waitTimeoutSecs)).elim ([], some .panicked)
    fun deadline => acquireLoop attempt key deadline rounds

end

def InMemoryLock.acquire (begun : Moment) (key : String) (ttlSecs waitTimeoutSecs : Nat)
    (rounds : List (Round InMemoryLock)) :
    List (AttemptMade InMemoryLock) × Option (Outcome LockHandle) :=
  let attempt := fun round : Round InMemoryLock =>
    let (result, left) := round.found.tryAcquire round.at_ key ttlSecs round.token
    { round, result, left }
  acquireFrom attempt key begun waitTimeoutSecs rounds

def RedisLock.acquire {Db : Type} (redis : Redis Db) (lock : RedisLock) (begun : Moment)
    (key : String) (ttlSecs waitTimeoutSecs : Nat) (rounds : List (Round Db)) :
    List (AttemptMade Db) × Option (Outcome LockHandle) :=
  let attempt := fun round : Round Db =>
    let (result, left) := lock.tryAcquire redis round.found round.at_ key ttlSecs round.token
    { round, result, left }
  acquireFrom attempt key begun waitTimeoutSecs rounds

-- ---------------------------------------------------------------------------
-- What a TTL comes to
-- ---------------------------------------------------------------------------

/-- The lease that is granted ends exactly `ttlSecs` later, and where none is granted the
leases stay as they are. -/
def Exact (now : Nat) (key : String) (ttlSecs : Nat) (before after : Leases String String Nat) :
    Outcome (Option LockHandle) → Prop
  | .ok (some handle) => handle.key = key ∧ Leases.SameLeases now after
      (before.set key (some (handle.token, now + fromSecs ttlSecs)))
  | .ok none | .err _ => Leases.SameLeases now after before
  | .panicked => False

def extended (handle : LockHandle) : Outcome Bool → Outcome (Option LockHandle)
  | .ok true => .ok (some handle)
  | .ok false => .ok none
  | .err e => .err e
  | .panicked => .panicked

/-- Each attempt of the loop is exact, it does not panic, and the handle it returns is one
that an attempt has granted. -/
structure ExactLoop {σ : Type} (leases : σ → Leases String String Nat) (key : String)
    (ttlSecs : Nat) (acquired : List (AttemptMade σ) × Option (Outcome LockHandle)) : Prop where
  attempts : ∀ made ∈ acquired.1, Exact made.round.at_.instant key ttlSecs
    (leases made.round.found) (leases made.left) made.result
  result : acquired.2 ≠ some .panicked
  granted : ∀ handle, acquired.2 = some (.ok handle) ↔
    ∃ made ∈ acquired.1, made.result = .ok (some handle)

def Fits (instant secs : Nat) : Prop := instant + fromSecs secs < 2 ^ 63 * nanosPerSec

/-- What Redis does with an expiry it cannot keep: it refuses the command and changes
nothing. -/
structure Redis.Refuses {Db : Type} (redis : Redis Db) (keys : Db → Leases String String Nat) :
    Prop where
  set : ∀ db at_ key value px, px = 0 ∨ maxExpiryMs < at_.unixMs + px →
    ∃ e db', redis.setNxPx db at_ key value px = (.error e, db') ∧
      Leases.SameLeases at_.instant (keys db') (keys db)
  pexpire : ∀ db at_ key px, maxExpiryMs < at_.unixMs + px →
    ∃ e, redis.pexpire db at_ key px = .error e

theorem mapRedis_refuses : mapRedis.Refuses mapKeys where
  set db _ _ _ _ hout := ⟨_, db, if_pos hout, .refl _ _⟩
  pexpire _ _ _ _ hout := ⟨_, if_pos hout⟩

def RedisLock.Sent (lock : RedisLock) (ttlSecs : Nat) : Prop :=
  lock.connected = true → ttlMillis ttlSecs = ttlSecs * 1000

-- ---------------------------------------------------------------------------
-- The attempts of the loop
-- ---------------------------------------------------------------------------

section
variable {σ : Type} {attempt : Round σ → AttemptMade σ} {key : String} {deadline : Nat}

theorem instantAdd_fits (h : Fits instant secs) :
    instantAdd instant (fromSecs secs) = some (instant + fromSecs secs) := if_pos h

theorem instantAdd_not_fits (h : ¬ Fits instant secs) : instantAdd instant (fromSecs secs) = none :=
  if_neg h

theorem acquireLoop_attempt (h : made ∈ (acquireLoop attempt key deadline rounds).1) :
    ∃ round, attempt round = made := by
  induction rounds with
  | nil => cases h
  | cons round rounds ih =>
    simp only [acquireLoop] at h
    split at h
    case h_2 =>
      split at h
      · exact ⟨round, (List.mem_singleton.mp h).symm⟩
      · rcases List.mem_cons.mp h with rfl | h
        · exact ⟨round, rfl⟩
        · exact ih h
    all_goals exact ⟨round, (List.mem_singleton.mp h).symm⟩

/-- What an attempt that is no error ends the loop with. -/
inductive Ends : Outcome (Option LockHandle) → Outcome LockHandle → Prop
  | granted (handle : LockHandle) : Ends (.ok (some handle)) (.ok handle)
  | panicked : Ends .panicked .panicked

theorem acquireLoop_ends {result : Outcome (Option LockHandle)} {answer : Outcome LockHandle}
    (hends : Ends result answer) : (acquireLoop attempt key deadline rounds).2 = some answer ↔
      ∃ made ∈ (acquireLoop attempt key deadline rounds).1, made.result = result := by
  induction rounds with
  | nil => simp [acquireLoop]
  | cons round rounds ih =>
    simp only [acquireLoop]
    split
    · rename_i handle hr
      cases hends <;> simp [hr]
    · rename_i hr
      have hagain : Outcome.ok none ≠ result := by cases hends <;> simp
      split
      · cases hends <;> simp [hr]
      · simp [hr, ih, hagain]
    · rename_i e hr
      cases hends <;> simp [hr]
    · rename_i hr
      cases hends <;> simp [hr]

theorem exactLoop_iff {leases : σ → Leases String String Nat} :
    ExactLoop leases key ttlSecs (acquireFrom attempt key begun waitTimeoutSecs rounds) ↔
      Fits begun.instant waitTimeoutSecs ∧
        ∀ made ∈ (acquireLoop attempt key (begun.instant + fromSecs waitTimeoutSecs) rounds).1,
          Exact made.round.at_.instant key ttlSecs (leases made.round.found) (leases made.left)
            made.result := by
  by_cases hfits : Fits begun.instant waitTimeoutSecs
  · simp only [acquireFrom, instantAdd_fits hfits, Option.elim_some, hfits, true_and]
    constructor
    · exact fun h => h.attempts
    · intro h
      refine ⟨h, fun hpanic => ?_, fun _ => acquireLoop_ends (.granted _)⟩
      obtain ⟨made, hmade, hresult⟩ := (acquireLoop_ends .panicked).mp hpanic
      have hexact := h made hmade
      rw [hresult] at hexact
      exact hexact
  · simp only [acquireFrom, instantAdd_not_fits hfits, Option.elim_none, hfits, false_and,
      iff_false]
    exact fun h => h.result rfl

/-- The rounds the loop gets to: those in which the key is held and there is time left, and
the one after them. -/
def roundsReached (held : Round σ → Bool) (deadline : Nat) : List (Round σ) → List (Round σ)
  | [] => []
  | round :: rounds =>
    round ::
      if held round = true ∧ round.checked < deadline then roundsReached held deadline rounds
      else []

theorem acquireLoop_reached {held : Round σ → Bool}
    (hheld : ∀ round, (attempt round).result = .ok none ↔ held round = true) :
    (acquireLoop attempt key deadline rounds).1 =
      (roundsReached held deadline rounds).map attempt := by
  induction rounds with
  | nil => rfl
  | cons round rounds ih =>
    simp only [acquireLoop, roundsReached, List.map_cons]
    have hround := hheld round
    split
    · rename_i handle hr
      have hfree : held round = false := by simpa [hr] using hround
      simp [hfree]
    · rename_i hr
      have hkey : held round = true := hround.mp hr
      by_cases hover : deadline ≤ round.checked
      · simp [hover, Nat.not_lt_of_le hover]
      · simp [hover, Nat.lt_of_not_le hover, hkey, ih]
    · rename_i e hr
      have hfree : held round = false := by simpa [hr] using hround
      simp [hfree]
    · rename_i hr
      have hfree : held round = false := by simpa [hr] using hround
      simp [hfree]

end

-- ---------------------------------------------------------------------------
-- In memory
-- ---------------------------------------------------------------------------

namespace InMemoryLock

section
variable {lock : InMemoryLock}

theorem tryAcquire_exact_iff (lock : InMemoryLock) (at_ : Moment) (key : String) (ttlSecs : Nat)
    (token : String) :
    let called := lock.tryAcquire at_ key ttlSecs token
    Exact at_.instant key ttlSecs lock.leases called.2.leases called.1 ↔
      lock.leases.holder at_.instant key ≠ none ∨ Fits at_.instant ttlSecs := by
  cases hheld : lock.leases.holder at_.instant key with
  | some owner =>
    simp only [tryAcquire_held hheld, Exact, ne_eq, reduceCtorEq, not_false_eq_true, true_or,
      iff_true]
    exact .refl _ _
  | none =>
    obtain ⟨lock₁, hsame, hacq⟩ := tryAcquire_free ttlSecs token hheld
    by_cases hfits : Fits at_.instant ttlSecs
    · simp only [hacq, instantAdd_fits hfits, Exact, leases_insert, hfits, or_true, iff_true,
        true_and]
      exact hsame.set key _
    · simp [hacq, instantAdd_not_fits hfits, Exact, hfits]

/-- Where the handle's token is not the stored one the TTL is not looked at. -/
theorem extend_exact_iff (lock : InMemoryLock) (at_ : Moment) (handle : LockHandle)
    (ttlSecs : Nat) :
    let called := lock.extend at_ handle ttlSecs
    Exact at_.instant handle.key ttlSecs lock.leases called.2.leases (extended handle called.1) ↔
      ∀ entry, lock.locks[handle.key]? = some entry → entry.token = handle.token →
        Fits at_.instant ttlSecs := by
  cases hk : lock.locks[handle.key]? with
  | none => simpa [extend, hk, extended, Exact] using .refl _ _
  | some entry =>
    by_cases htok : entry.token = handle.token
    · by_cases hfits : Fits at_.instant ttlSecs
      · simp only [extend, hk, htok, if_true, instantAdd_fits hfits, extended, Exact, hfits,
          implies_true, iff_true, true_and, leases_insert]
        exact .refl _ _
      · simp [extend, hk, htok, instantAdd_not_fits hfits, extended, Exact, hfits]
    · simpa [extend, hk, htok, extended, Exact] using .refl _ _

def heldIn (key : String) (round : Round InMemoryLock) : Bool :=
  (round.found.leases.holder round.at_.instant key).isSome

theorem tryAcquire_none_iff (lock : InMemoryLock) (at_ : Moment) (key : String) (ttlSecs : Nat)
    (token : String) : (lock.tryAcquire at_ key ttlSecs token).1 = .ok none ↔
      (lock.leases.holder at_.instant key).isSome = true := by
  cases hheld : lock.leases.holder at_.instant key with
  | some owner => simp [tryAcquire_held hheld]
  | none =>
    obtain ⟨lock₁, -, hacq⟩ := tryAcquire_free ttlSecs token hheld
    cases hend : instantAdd at_.instant (fromSecs ttlSecs) <;> simp [hacq, hend]

theorem acquire_exact_iff (begun : Moment) (key : String) (ttlSecs waitTimeoutSecs : Nat)
    (rounds : List (Round InMemoryLock)) :
    ExactLoop leases key ttlSecs (acquire begun key ttlSecs waitTimeoutSecs rounds) ↔
      Fits begun.instant waitTimeoutSecs ∧
        ∀ round ∈ roundsReached (heldIn key) (begun.instant + fromSecs waitTimeoutSecs) rounds,
          heldIn key round = true ∨ Fits round.at_.instant ttlSecs := by
  have hheld : ∀ round : Round InMemoryLock,
      (round.found.tryAcquire round.at_ key ttlSecs round.token).1 = .ok none ↔
        heldIn key round = true := fun round => tryAcquire_none_iff _ _ _ _ _
  rw [acquire, exactLoop_iff, acquireLoop_reached hheld]
  simp only [List.forall_mem_map, tryAcquire_exact_iff, heldIn, Option.isSome_iff_ne_none]

end

end InMemoryLock

-- ---------------------------------------------------------------------------
-- Through Redis
-- ---------------------------------------------------------------------------

namespace RedisLock

section
variable {Db : Type} {redis : Redis Db} {keys : Db → Leases String String Nat} {lock : RedisLock}

theorem sent_iff (lock : RedisLock) (ttlSecs : Nat) :
    lock.Sent ttlSecs ↔ (lock.connected = true → ttlSecs * 1000 < 2 ^ 64) := by
  apply imp_congr_right
  intro _
  constructor
  · intro h
    rw [← h]
    exact Nat.mod_lt _ (by decide)
  · exact Nat.mod_eq_of_lt

theorem tryAcquire_exact (laws : redis.Lawful keys) (refuses : redis.Refuses keys)
    (hsent : lock.Sent ttlSecs) (db : Db) (at_ : Moment) (key token : String) :
    let called := lock.tryAcquire redis db at_ key ttlSecs token
    Exact at_.instant key ttlSecs (lock.leases keys db) (lock.leases keys called.2) called.1 := by
  by_cases hc : lock.connected = true
  · by_cases hout : ttlSecs * 1000 = 0 ∨ maxExpiryMs < at_.unixMs + ttlSecs * 1000
    · obtain ⟨e, db', hset, hsame⟩ := refuses.set db at_ (lock.fullKey key) token _ hout
      simp only [tryAcquire, if_pos hc, hsent hc, hset, Exact]
      exact hsame.comap lock.fullKey
    · have hpos : 0 < ttlSecs := by omega
      have hr : at_.unixMs + ttlSecs * 1000 ≤ maxExpiryMs := by omega
      obtain ⟨hresult, hsame⟩ := tryAcquire_grant laws hc db key token hpos hr
      simp only [hresult]
      by_cases hfree : (lock.leases keys db).holder at_.instant key = none
      · simp only [Leases.grant, hfree, if_true] at hsame ⊢
        exact ⟨rfl, hsame⟩
      · simp only [Leases.grant, hfree, if_false] at hsame ⊢
        exact hsame
  · simp only [tryAcquire, if_neg hc, Exact]
    exact .refl _ _

theorem extend_exact (laws : redis.Lawful keys) (refuses : redis.Refuses keys)
    (hsent : lock.Sent ttlSecs) (db : Db) (at_ : Moment) (handle : LockHandle) :
    let called := lock.extend redis db at_ handle ttlSecs
    Exact at_.instant handle.key ttlSecs (lock.leases keys db) (lock.leases keys called.2)
      (extended handle called.1) := by
  by_cases hc : lock.connected = true
  · by_cases hr : at_.unixMs + ttlSecs * 1000 ≤ maxExpiryMs
    · obtain ⟨hresult, hsame⟩ := extend_extend laws hc db handle hr
      simp only [hresult]
      by_cases howned : (lock.leases keys db).holder at_.instant handle.key = some handle.token
      · simp only [Leases.extend, howned, if_true] at hsame ⊢
        exact ⟨rfl, hsame⟩
      · simp only [Leases.extend, howned, if_false] at hsame ⊢
        exact hsame
    · -- a refused `PEXPIRE` fails the script
      obtain ⟨e, hpx⟩ := refuses.pexpire db at_ (lock.fullKey handle.key) (ttlSecs * 1000)
        (Nat.lt_of_not_le hr)
      simp only [extend, if_pos hc, extendScript, hsent hc, hpx]
      by_cases howned : redis.get db at_ (lock.fullKey handle.key) = some handle.token
      · rw [if_pos howned]
        exact Leases.SameLeases.refl _ _
      · rw [if_neg howned]
        exact Leases.SameLeases.refl _ _
  · simp only [extend, if_neg hc, extended, Exact]
    exact .refl _ _

theorem acquire_exact_iff (laws : redis.Lawful keys) (refuses : redis.Refuses keys)
    (hsent : lock.Sent ttlSecs) (begun : Moment) (key : String) (waitTimeoutSecs : Nat)
    (rounds : List (Round Db)) :
    ExactLoop (lock.leases keys) key ttlSecs
        (lock.acquire redis begun key ttlSecs waitTimeoutSecs rounds) ↔
      Fits begun.instant waitTimeoutSecs := by
  rw [acquire, exactLoop_iff, and_iff_left_iff_imp]
  intro _ made hmade
  obtain ⟨round, rfl⟩ := acquireLoop_attempt hmade
  exact tryAcquire_exact laws refuses hsent _ _ _ _

end

end RedisLock

/-- In memory a call with a TTL is exact where the instant the lease would end at fits, or
where nothing is to be granted; through Redis where the milliseconds fit a `u64`; and
`acquire` besides where its deadline fits.

Premise: Redis refuses an expiry it cannot keep. -/
theorem ttl_exact_iff {Db : Type} (redis : Redis Db) (keys : Db → Leases String String Nat)
    (laws : redis.Lawful keys) (refuses : redis.Refuses keys) :
    (∀ (lock : InMemoryLock) at_ key ttlSecs token,
      let called := lock.tryAcquire at_ key ttlSecs token
      Exact at_.instant key ttlSecs lock.leases called.2.leases called.1 ↔
        lock.leases.holder at_.instant key ≠ none ∨ Fits at_.instant ttlSecs) ∧
    (∀ (lock : InMemoryLock) at_ handle ttlSecs,
      let called := lock.extend at_ handle ttlSecs
      Exact at_.instant handle.key ttlSecs lock.leases called.2.leases (extended handle called.1) ↔
        ∀ entry, lock.locks[handle.key]? = some entry → entry.token = handle.token →
          Fits at_.instant ttlSecs) ∧
    (∀ begun key ttlSecs waitTimeoutSecs rounds,
      ExactLoop InMemoryLock.leases key ttlSecs
          (InMemoryLock.acquire begun key ttlSecs waitTimeoutSecs rounds) ↔
        Fits begun.instant waitTimeoutSecs ∧
          ∀ round ∈ roundsReached (InMemoryLock.heldIn key)
              (begun.instant + fromSecs waitTimeoutSecs) rounds,
            InMemoryLock.heldIn key round = true ∨ Fits round.at_.instant ttlSecs) ∧
    (∀ (lock : RedisLock) db at_ key ttlSecs token,
      let called := lock.tryAcquire redis db at_ key ttlSecs token
      lock.Sent ttlSecs ∧
          Exact at_.instant key ttlSecs (lock.leases keys db) (lock.leases keys called.2) called.1 ↔
        (lock.connected = true → ttlSecs * 1000 < 2 ^ 64)) ∧
    (∀ (lock : RedisLock) db at_ handle ttlSecs,
      let called := lock.extend redis db at_ handle ttlSecs
      lock.Sent ttlSecs ∧
          Exact at_.instant handle.key ttlSecs (lock.leases keys db) (lock.leases keys called.2)
            (extended handle called.1) ↔
        (lock.connected = true → ttlSecs * 1000 < 2 ^ 64)) ∧
    ∀ (lock : RedisLock) begun key ttlSecs waitTimeoutSecs rounds,
      lock.Sent ttlSecs ∧
          ExactLoop (lock.leases keys) key ttlSecs
            (lock.acquire redis begun key ttlSecs waitTimeoutSecs rounds) ↔
        (lock.connected = true → ttlSecs * 1000 < 2 ^ 64) ∧ Fits begun.instant waitTimeoutSecs := by
  refine ⟨InMemoryLock.tryAcquire_exact_iff, InMemoryLock.extend_exact_iff,
    InMemoryLock.acquire_exact_iff, ?_, ?_, ?_⟩
  · intro lock db at_ key ttlSecs token
    rw [← lock.sent_iff]
    exact and_iff_left_of_imp fun hsent =>
      RedisLock.tryAcquire_exact laws refuses hsent db at_ key token
  · intro lock db at_ handle ttlSecs
    rw [← lock.sent_iff]
    exact and_iff_left_of_imp fun hsent => RedisLock.extend_exact laws refuses hsent db at_ handle
  · intro lock begun key ttlSecs waitTimeoutSecs rounds
    rw [← lock.sent_iff]
    exact and_congr_right fun hsent =>
      RedisLock.acquire_exact_iff laws refuses hsent begun key waitTimeoutSecs rounds

def connectedLock : RedisLock := ⟨"rinfra:lock:", true⟩

/-- A TTL of a minute on an empty server. -/
theorem ttl_exact_minute :
    let called := connectedLock.tryAcquire mapRedis ∅ ⟨0, 0⟩ "k" 60 "t"
    called.1 = .ok (some ⟨"k", "t", 0⟩) ∧
      Exact 0 "k" 60 (connectedLock.leases mapKeys ∅) (connectedLock.leases mapKeys called.2)
        called.1 := by
  intro called
  obtain ⟨-, -, -, htry, -, -⟩ := ttl_exact_iff mapRedis mapKeys mapRedis_lawful mapRedis_refuses
  refine ⟨rfl, ((htry connectedLock ∅ ⟨0, 0⟩ "k" 60 "t").mpr ?_).2⟩
  decide

/-- The longest TTL of all panics in memory, and one of half a billion years is granted by
Redis for less than half a second. -/
theorem long_ttl :
    (InMemoryLock.new.tryAcquire ⟨0, 0⟩ "k" (2 ^ 64 - 1) "t").1 = .panicked ∧
    (let called := connectedLock.tryAcquire mapRedis ∅ ⟨0, 0⟩ "k" 18446744073709552 "t"
     called.1 = .ok (some ⟨"k", "t", 0⟩) ∧
      (connectedLock.leases mapKeys called.2).holder (fromMillis 383) "k" = some "t" ∧
      (connectedLock.leases mapKeys called.2).holder (fromMillis 384) "k" = none) := by
  decide

end Rinfra.Lock
