import Rinfra.Lock.Memory

/-!
# The Redis lock

The server is not part of the repository, so it is a parameter: `Redis` has the
four commands the lock sends, and `Redis.Lawful` says what their documentation
promises, in terms of the keys present with their values and expiry instants.
Scripts run atomically, so each is one function.
-/

namespace Rinfra.Lock

open Rinfra.Lib

/-- The commands the lock sends. An error is given by its text. -/
structure Redis (Db : Type) where
  setNxPx : Db → Moment → (key value : String) → (px : Nat) → Except String (Option String) × Db
  get : Db → Moment → (key : String) → Option String
  del : Db → Moment → (key : String) → Db
  pexpire : Db → Moment → (key : String) → (px : Nat) → Except String Db

/-- The latest Unix time, in milliseconds, at which a key can expire. -/
def maxExpiryMs : Nat := 2 ^ 63 - 1

/-- A key is absent from its expiry instant on. `SET` refuses an expiry that is
not positive, and this before it looks at the key. -/
structure Redis.Lawful (redis : Redis Db) (keys : Db → Leases String String Nat) : Prop where
  get : ∀ db at_ key, redis.get db at_ key = (keys db).holder at_.instant key
  del : ∀ db at_ key,
    Leases.SameLeases at_.instant (keys (redis.del db at_ key)) ((keys db).set key none)
  set_zero : ∀ db at_ key value, ∃ e db', redis.setNxPx db at_ key value 0 = (.error e, db')
  set_present : ∀ db at_ key value px, 0 < px → at_.unixMs + px ≤ maxExpiryMs →
    (keys db).holder at_.instant key ≠ none →
    ∃ db', redis.setNxPx db at_ key value px = (.ok none, db') ∧
      Leases.SameLeases at_.instant (keys db') (keys db)
  set_absent : ∀ db at_ key value px, 0 < px → at_.unixMs + px ≤ maxExpiryMs →
    (keys db).holder at_.instant key = none →
    ∃ db', redis.setNxPx db at_ key value px = (.ok (some "OK"), db') ∧
      Leases.SameLeases at_.instant (keys db')
        ((keys db).set key (some (value, at_.instant + fromMillis px)))
  pexpire : ∀ db at_ key value px, at_.unixMs + px ≤ maxExpiryMs →
    (keys db).holder at_.instant key = some value →
    ∃ db', redis.pexpire db at_ key px = .ok db' ∧
      Leases.SameLeases at_.instant (keys db')
        ((keys db).set key (some (value, at_.instant + fromMillis px)))

structure RedisLock where
  keyPrefix : String
  connected : Bool

/-- `ttl_secs * 1000` on `u64`; a release build wraps around. -/
def ttlMillis (ttlSecs : Nat) : Nat := ttlSecs * 1000 % 2 ^ 64

def lockError (message : String) : AppError := ⟨.lockAcquireFailed, message⟩

namespace RedisLock

section
variable {Db : Type} (redis : Redis Db) (lock : RedisLock)

def fullKey (key : String) : String := lock.keyPrefix ++ key

/-- `RELEASE_SCRIPT` -/
def releaseScript (db : Db) (at_ : Moment) (key token : String) : Except String Nat × Db :=
  if redis.get db at_ key = some token then (.ok 1, redis.del db at_ key) else (.ok 0, db)

/-- `EXTEND_SCRIPT` -/
def extendScript (db : Db) (at_ : Moment) (key token : String) (px : Nat) :
    Except String Nat × Db :=
  if redis.get db at_ key = some token then
    match redis.pexpire db at_ key px with
    | .ok db => (.ok 1, db)
    | .error e => (.error e, db)
  else (.ok 0, db)

def tryAcquire (db : Db) (at_ : Moment) (key : String) (ttlSecs : Nat) (token : String) :
    Outcome (Option LockHandle) × Db :=
  if lock.connected then
    match redis.setNxPx db at_ (lock.fullKey key) token (ttlMillis ttlSecs) with
    | (.ok (some _), db) => (.ok (some ⟨key, token, at_.unixMs⟩), db)
    | (.ok none, db) => (.ok none, db)
    | (.error e, db) => (.err (lockError s!"redis SET NX failed: {e}"), db)
  else (.err (lockError "redis not connected"), db)

def release (db : Db) (at_ : Moment) (handle : LockHandle) : Outcome Bool × Db :=
  if lock.connected then
    match releaseScript redis db at_ (lock.fullKey handle.key) handle.token with
    | (.ok result, db) => (.ok (result == 1), db)
    | (.error e, db) => (.err (lockError s!"redis release script failed: {e}"), db)
  else (.err (lockError "redis not connected"), db)

def extend (db : Db) (at_ : Moment) (handle : LockHandle) (ttlSecs : Nat) : Outcome Bool × Db :=
  if lock.connected then
    match extendScript redis db at_ (lock.fullKey handle.key) handle.token (ttlMillis ttlSecs) with
    | (.ok result, db) => (.ok (result == 1), db)
    | (.error e, db) => (.err (lockError s!"redis extend script failed: {e}"), db)
  else (.err (lockError "redis not connected"), db)

end

-- ---------------------------------------------------------------------------
-- The calls as operations on leases
-- ---------------------------------------------------------------------------

def leases (lock : RedisLock) (keys : Db → Leases String String Nat) (db : Db) :
    Leases String String Nat := (keys db).comap lock.fullKey

section
variable {Db : Type} {redis : Redis Db} {keys : Db → Leases String String Nat} {lock : RedisLock}

theorem fullKey_injective (lock : RedisLock) : Function.Injective lock.fullKey := by
  intro k k' h
  exact String.append_right_inj _ |>.mp h

theorem ttlMillis_eq (h : unixMs + ttlSecs * 1000 ≤ maxExpiryMs) :
    ttlMillis ttlSecs = ttlSecs * 1000 := by
  apply Nat.mod_eq_of_lt
  simp only [maxExpiryMs] at h
  omega

theorem fromMillis_mul (ttlSecs : Nat) : fromMillis (ttlSecs * 1000) = fromSecs ttlSecs := by
  simp only [fromMillis, fromSecs, nanosPerMilli, nanosPerSec]
  omega

theorem tryAcquire_zero (laws : redis.Lawful keys) (hc : lock.connected = true) (db : Db)
    (at_ : Moment) (key token : String) :
    ∃ e, (lock.tryAcquire redis db at_ key 0 token).1 = .err e := by
  obtain ⟨e, db', hset⟩ := laws.set_zero db at_ (lock.fullKey key) token
  have hzero : ttlMillis 0 = 0 := rfl
  exact ⟨lockError s!"redis SET NX failed: {e}", by simp [tryAcquire, hc, hzero, hset]⟩

theorem holder_leases (lock : RedisLock) (db : Db) (now : Nat) (key : String) :
    (lock.leases keys db).holder now key = (keys db).holder now (lock.fullKey key) :=
  Leases.holder_comap

theorem sameLeases_set (h : Leases.SameLeases now (keys db') ((keys db).set (lock.fullKey key) e)) :
    Leases.SameLeases now (lock.leases keys db') ((lock.leases keys db).set key e) := by
  have hcomap := h.comap lock.fullKey
  rwa [Leases.set_comap lock.fullKey_injective] at hcomap

theorem tryAcquire_grant (laws : redis.Lawful keys) (hc : lock.connected = true) (db : Db)
    (key token : String) (hpos : 0 < ttlSecs) (hr : at_.unixMs + ttlSecs * 1000 ≤ maxExpiryMs) :
    let granted := (lock.leases keys db).grant at_.instant key token
      (at_.instant + fromSecs ttlSecs)
    let called := lock.tryAcquire redis db at_ key ttlSecs token
    called.1 = .ok (if granted.1 then some ⟨key, token, at_.unixMs⟩ else none) ∧
      Leases.SameLeases at_.instant (lock.leases keys called.2) granted.2 := by
  have hpx : 0 < ttlSecs * 1000 := by omega
  by_cases hfree : (keys db).holder at_.instant (lock.fullKey key) = none
  · obtain ⟨db', hset, hsame⟩ := laws.set_absent db at_ _ token _ hpx hr hfree
    rw [fromMillis_mul] at hsame
    simp only [tryAcquire, if_pos hc, ttlMillis_eq hr, hset, Leases.grant, holder_leases,
      if_pos hfree]
    exact ⟨rfl, sameLeases_set hsame⟩
  · obtain ⟨db', hset, hsame⟩ := laws.set_present db at_ _ token _ hpx hr hfree
    simp only [tryAcquire, if_pos hc, ttlMillis_eq hr, hset, Leases.grant, holder_leases,
      if_neg hfree]
    exact ⟨rfl, hsame.comap lock.fullKey⟩

theorem release_release (laws : redis.Lawful keys) (hc : lock.connected = true) (db : Db)
    (at_ : Moment) (handle : LockHandle) :
    let released := (lock.leases keys db).release at_.instant handle.key handle.token
    let called := lock.release redis db at_ handle
    called.1 = .ok released.1 ∧
      Leases.SameLeases at_.instant (lock.leases keys called.2) released.2 := by
  by_cases howned : (keys db).holder at_.instant (lock.fullKey handle.key) = some handle.token
  · simp only [release, if_pos hc, releaseScript, laws.get, Leases.release, holder_leases,
      if_pos howned]
    exact ⟨rfl, sameLeases_set (laws.del db at_ _)⟩
  · simp only [release, if_pos hc, releaseScript, laws.get, Leases.release, holder_leases,
      if_neg howned]
    exact ⟨rfl, .refl _ _⟩

theorem extend_extend (laws : redis.Lawful keys) (hc : lock.connected = true) (db : Db)
    (handle : LockHandle) (hr : at_.unixMs + ttlSecs * 1000 ≤ maxExpiryMs) :
    let extended := (lock.leases keys db).extend at_.instant handle.key handle.token
      (at_.instant + fromSecs ttlSecs)
    let called := lock.extend redis db at_ handle ttlSecs
    called.1 = .ok extended.1 ∧
      Leases.SameLeases at_.instant (lock.leases keys called.2) extended.2 := by
  by_cases howned : (keys db).holder at_.instant (lock.fullKey handle.key) = some handle.token
  · obtain ⟨db', hpx, hsame⟩ := laws.pexpire db at_ _ _ _ hr howned
    rw [fromMillis_mul] at hsame
    simp only [extend, if_pos hc, extendScript, laws.get, ttlMillis_eq hr, hpx, Leases.extend,
      holder_leases, if_pos howned]
    exact ⟨rfl, sameLeases_set hsame⟩
  · simp only [extend, if_pos hc, extendScript, laws.get, Leases.extend, holder_leases,
      if_neg howned]
    exact ⟨rfl, .refl _ _⟩

end

end RedisLock

-- ---------------------------------------------------------------------------
-- A lawful server
-- ---------------------------------------------------------------------------

abbrev MapDb := Std.ExtTreeMap String (String × Nat) compare

def mapKeys (db : MapDb) : Leases String String Nat := .ofMap id db

/-- A server that keeps its keys in a map and drops them when they are asked
for too late. -/
def mapRedis : Redis MapDb where
  setNxPx db at_ key value px :=
    if px = 0 ∨ maxExpiryMs < at_.unixMs + px then
      (.error "invalid expire time in 'set' command", db)
    else if ((mapKeys db).holder at_.instant key).isSome then (.ok none, db)
    else (.ok (some "OK"), db.insert key (value, at_.instant + fromMillis px))
  get db at_ key := (mapKeys db).holder at_.instant key
  del db _ key := db.erase key
  pexpire db at_ key px :=
    if maxExpiryMs < at_.unixMs + px then .error "invalid expire time in 'pexpire' command"
    else
      match (mapKeys db).holder at_.instant key with
      | some value => .ok (db.insert key (value, at_.instant + fromMillis px))
      | none => .ok db

theorem mapRedis_lawful : mapRedis.Lawful mapKeys where
  get _ _ _ := rfl
  del db at_ key := by
    rw [mapKeys, mapKeys, ← Leases.ofMap_erase]
    exact .refl _ _
  set_zero db at_ key value := ⟨_, db, rfl⟩
  set_present db at_ key value px hpos hr hsome := by
    have hin : ¬ (px = 0 ∨ maxExpiryMs < at_.unixMs + px) := by omega
    refine ⟨db, ?_, .refl _ _⟩
    simp only [mapRedis, if_neg hin, if_pos (Option.isSome_iff_ne_none.mpr hsome)]
  set_absent db at_ key value px hpos hr hnone := by
    have hin : ¬ (px = 0 ∨ maxExpiryMs < at_.unixMs + px) := by omega
    refine ⟨db.insert key (value, at_.instant + fromMillis px), ?_, ?_⟩
    · simp only [mapRedis, if_neg hin, hnone]
      rfl
    · rw [mapKeys, Leases.ofMap_insert]
      exact .refl _ _
  pexpire db at_ key value px hr hsome := by
    have hin : ¬ maxExpiryMs < at_.unixMs + px := by omega
    refine ⟨db.insert key (value, at_.instant + fromMillis px), ?_, ?_⟩
    · simp only [mapRedis, if_neg hin, hsome]
    · rw [mapKeys, Leases.ofMap_insert]
      exact .refl _ _

end Rinfra.Lock
