import Mathlib.Data.Nat.Basic
import Std.Data.ExtTreeMap.Lemmas
import Rinfra.Core.Error
import Rinfra.Core.Time
import Rinfra.Lib.Lease

/-!
# The in-memory lock

Each definition is one section under the mutex of `InMemoryLock`. An entry that
has run out stays in the map until `tryAcquire` meets its key.

`leases` reads the map as a table of leases, which is what a lock with a time
to live is for.
-/

namespace Rinfra.Lock

open Rinfra.Lib

structure LockHandle where
  key : String
  token : String
  acquiredAtMs : Nat
  deriving DecidableEq, Repr

structure LockEntry where
  token : String
  expiresAt : Nat
  deriving DecidableEq, Repr

structure InMemoryLock where
  locks : Std.ExtTreeMap String LockEntry compare

namespace InMemoryLock

def new : InMemoryLock := ⟨∅⟩

def dropExpired (lock : InMemoryLock) (key : String) (now : Nat) : InMemoryLock :=
  match lock.locks[key]? with
  | some entry => if entry.expiresAt ≤ now then ⟨lock.locks.erase key⟩ else lock
  | none => lock

/-- `token` is the UUID the call draws if it gets that far. -/
def tryAcquire (lock : InMemoryLock) (at_ : Moment) (key : String) (ttlSecs : Nat)
    (token : String) : Outcome (Option LockHandle) × InMemoryLock :=
  let lock := lock.dropExpired key at_.instant
  if lock.locks.contains key then (.ok none, lock)
  else
    match instantAdd at_.instant (fromSecs ttlSecs) with
    | some expiresAt =>
      (.ok (some ⟨key, token, at_.unixMs⟩), ⟨lock.locks.insert key ⟨token, expiresAt⟩⟩)
    | none => (.panicked, lock)

def release (lock : InMemoryLock) (handle : LockHandle) : Bool × InMemoryLock :=
  match lock.locks[handle.key]? with
  | some entry =>
    if entry.token = handle.token then (true, ⟨lock.locks.erase handle.key⟩) else (false, lock)
  | none => (false, lock)

def extend (lock : InMemoryLock) (at_ : Moment) (handle : LockHandle) (ttlSecs : Nat) :
    Outcome Bool × InMemoryLock :=
  match lock.locks[handle.key]? with
  | some entry =>
    if entry.token = handle.token then
      match instantAdd at_.instant (fromSecs ttlSecs) with
      | some expiresAt =>
        (.ok true, ⟨lock.locks.insert handle.key { entry with expiresAt }⟩)
      | none => (.panicked, lock)
    else (.ok false, lock)
  | none => (.ok false, lock)

def leases (lock : InMemoryLock) : Leases String String Nat :=
  .ofMap (fun entry => (entry.token, entry.expiresAt)) lock.locks

-- ---------------------------------------------------------------------------
-- The sections as operations on leases
-- ---------------------------------------------------------------------------

section
variable {lock : InMemoryLock}

theorem leases_getElem : lock.leases key =
    lock.locks[key]?.map fun entry => (entry.token, entry.expiresAt) := rfl

theorem leases_erase : leases ⟨lock.locks.erase key⟩ = lock.leases.set key none :=
  Leases.ofMap_erase

theorem leases_insert :
    leases ⟨lock.locks.insert key ⟨token, expiresAt⟩⟩ =
      lock.leases.set key (some (token, expiresAt)) := Leases.ofMap_insert

theorem dropExpired_cases (lock : InMemoryLock) (key : String) (now : Nat) :
    lock.leases.holder now key = none ∧ lock.dropExpired key now = ⟨lock.locks.erase key⟩ ∨
      lock.dropExpired key now = lock ∧
        (lock.locks.contains key = true → (lock.leases.holder now key).isSome = true) := by
  unfold dropExpired
  cases h : lock.locks[key]? with
  | none =>
    refine .inr ⟨rfl, fun hc => ?_⟩
    rw [Std.ExtTreeMap.contains_eq_isSome_getElem?, h] at hc
    cases hc
  | some entry =>
    by_cases he : entry.expiresAt ≤ now
    · exact .inl ⟨by simp [Leases.holder, leases_getElem, h, he], by simp [he]⟩
    · refine .inr ⟨by simp [he], fun _ => ?_⟩
      simp [Leases.holder, leases_getElem, h, Nat.lt_of_not_le he]

theorem contains_of_holder (h : lock.leases.holder now key = some token) :
    lock.locks.contains key = true := by
  obtain ⟨u, hk, -⟩ := Leases.holder_eq_some.mp h
  simp only [leases_getElem, Option.map_eq_some_iff] at hk
  obtain ⟨entry, hentry, -⟩ := hk
  rw [Std.ExtTreeMap.contains_eq_isSome_getElem?, hentry]
  rfl

theorem tryAcquire_held (h : lock.leases.holder at_.instant key = some owner) :
    lock.tryAcquire at_ key ttl token = (.ok none, lock) := by
  rcases dropExpired_cases lock key at_.instant with ⟨hnone, -⟩ | ⟨hsame, -⟩
  · simp [h] at hnone
  · simp only [tryAcquire, hsame]
    rw [if_pos (contains_of_holder h)]

/-- With nobody holding the key, the lease is granted unless the instant it
would end at overflows. -/
theorem tryAcquire_free (ttl : Nat) (token : String)
    (h : lock.leases.holder at_.instant key = none) :
    ∃ lock₁, Leases.SameLeases at_.instant lock₁.leases lock.leases ∧
      lock.tryAcquire at_ key ttl token =
        match instantAdd at_.instant (fromSecs ttl) with
        | some expiresAt =>
          (.ok (some ⟨key, token, at_.unixMs⟩), ⟨lock₁.locks.insert key ⟨token, expiresAt⟩⟩)
        | none => (.panicked, lock₁) := by
  rcases dropExpired_cases lock key at_.instant with ⟨-, hdrop⟩ | ⟨hsame, hcontains⟩
  · refine ⟨⟨lock.locks.erase key⟩, ?_, ?_⟩
    · rw [leases_erase]
      exact Leases.SameLeases.drop h
    · simp [tryAcquire, hdrop]
  · refine ⟨lock, .refl _ _, ?_⟩
    simp only [tryAcquire, hsame]
    rw [if_neg]
    intro hc
    simpa [h] using hcontains hc

theorem tryAcquire_grant (lock : InMemoryLock) (at_ : Moment) (key token : String)
    (h : instantAdd at_.instant (fromSecs ttl) = some expiresAt) :
    let granted := lock.leases.grant at_.instant key token expiresAt
    let called := lock.tryAcquire at_ key ttl token
    called.1 = .ok (if granted.1 then some ⟨key, token, at_.unixMs⟩ else none) ∧
      Leases.SameLeases at_.instant called.2.leases granted.2 := by
  cases hheld : lock.leases.holder at_.instant key with
  | some owner =>
    simp only [tryAcquire_held hheld, Leases.grant, hheld]
    exact ⟨rfl, .refl _ _⟩
  | none =>
    obtain ⟨lock₁, hsame, hacq⟩ := tryAcquire_free ttl token hheld
    simp only [hacq, h, Leases.grant, hheld, if_true, leases_insert, true_and]
    exact hsame.set key _

theorem release_other (h : ∀ entry, lock.locks[handle.key]? = some entry →
    entry.token ≠ handle.token) : lock.release handle = (false, lock) := by
  unfold release
  cases hk : lock.locks[handle.key]? with
  | none => rfl
  | some entry => simp [h entry hk]

theorem extend_other (h : ∀ entry, lock.locks[handle.key]? = some entry →
    entry.token ≠ handle.token) : lock.extend at_ handle ttl = (.ok false, lock) := by
  unfold extend
  cases hk : lock.locks[handle.key]? with
  | none => rfl
  | some entry => simp [h entry hk]

/-- The map still has an entry for the handle, though its time is over. -/
def Stale (lock : InMemoryLock) (now : Nat) (handle : LockHandle) : Prop :=
  ∃ entry, lock.locks[handle.key]? = some entry ∧ entry.token = handle.token ∧
    entry.expiresAt ≤ now

theorem Stale.holder_ne (h : lock.Stale now handle) :
    lock.leases.holder now handle.key ≠ some handle.token := by
  obtain ⟨entry, hk, -, hle⟩ := h
  simp [Leases.holder, leases_getElem, hk, Nat.not_lt_of_le hle]

theorem Stale.release (h : lock.Stale now handle) : (lock.release handle).1 = true := by
  obtain ⟨entry, hk, htok, -⟩ := h
  simp [InMemoryLock.release, hk, htok]

theorem Stale.extend (h : lock.Stale at_.instant handle)
    (hend : instantAdd at_.instant (fromSecs ttl) = some expiresAt) :
    (lock.extend at_ handle ttl).1 = .ok true := by
  obtain ⟨entry, hk, htok, -⟩ := h
  simp [InMemoryLock.extend, hk, htok, hend]

/-- Apart from stale handles, the entry's token says who holds the key. -/
theorem token_iff_holder (h : ¬ lock.Stale now handle) (hk : lock.locks[handle.key]? = some entry) :
    entry.token = handle.token ↔ lock.leases.holder now handle.key = some handle.token := by
  simp only [Leases.holder, leases_getElem, hk, Option.map_some, Option.bind_some,
    Option.ite_none_right_eq_some, Option.some.injEq]
  constructor
  · intro htok
    exact ⟨Nat.lt_of_not_le fun hle => h ⟨entry, hk, htok, hle⟩, htok⟩
  · exact fun hhold => hhold.2

theorem holder_missing (hk : lock.locks[key]? = none) : lock.leases.holder now key = none := by
  simp [Leases.holder, leases_getElem, hk]

theorem release_release (h : ¬ lock.Stale now handle) :
    let released := lock.leases.release now handle.key handle.token
    let called := lock.release handle
    called.1 = released.1 ∧ called.2.leases = released.2 := by
  cases hk : lock.locks[handle.key]? with
  | none => simp [InMemoryLock.release, Leases.release, hk, holder_missing hk]
  | some entry =>
    simp only [InMemoryLock.release, Leases.release, hk, ← token_iff_holder h hk]
    split
    · exact ⟨rfl, leases_erase⟩
    · exact ⟨rfl, rfl⟩

theorem extend_extend (h : ¬ lock.Stale at_.instant handle)
    (hend : instantAdd at_.instant (fromSecs ttl) = some expiresAt) :
    let extended := lock.leases.extend at_.instant handle.key handle.token expiresAt
    let called := lock.extend at_ handle ttl
    called.1 = .ok extended.1 ∧ called.2.leases = extended.2 := by
  cases hk : lock.locks[handle.key]? with
  | none => simp [InMemoryLock.extend, Leases.extend, hk, holder_missing hk]
  | some entry =>
    simp only [InMemoryLock.extend, Leases.extend, hk, hend, ← token_iff_holder h hk]
    split
    · rename_i htok
      rw [← htok]
      exact ⟨rfl, leases_insert⟩
    · exact ⟨rfl, rfl⟩

end

end InMemoryLock

/-- Stand-ins for UUIDs: all of one shape and no two equal. -/
def countedUuid (n : Nat) : String := "uuid-" ++ String.ofList (List.replicate n '0')

theorem countedUuid_injective : Function.Injective countedUuid := by
  intro n m h
  have hl := congrArg String.toList h
  simpa [countedUuid] using hl

end Rinfra.Lock
