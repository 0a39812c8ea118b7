import Rinfra.Lib.Transition
import Rinfra.Lock.Redis

/-!
# The two locks side by side

The same timed calls go to an `InMemoryLock` and to a connected `RedisLock`.
UUIDs differ between the two, so a token is named by the number of the call
that drew it; `uuidM` and `uuidR` say what each lock got under that name.
Numbers beyond the calls of a run stand for tokens nobody drew.

Between them stands one table of leases whose tokens are the names: each lock
refines it, and the two agree as long as both do.
-/

namespace Rinfra.Lock

open Rinfra.Lib

structure HandleName where
  key : String
  token : Nat
  acquiredAtMs : Nat
  deriving DecidableEq, Repr

def HandleName.under (h : HandleName) (uuid : Nat → String) : LockHandle :=
  ⟨h.key, uuid h.token, h.acquiredAtMs⟩

inductive Op
  | tryAcquire (key : String) (ttlSecs : Nat)
  | release (handle : HandleName)
  | extend (handle : HandleName) (ttlSecs : Nat)
  deriving DecidableEq, Repr

structure Call where
  at_ : Moment
  op : Op
  deriving DecidableEq, Repr

inductive Result
  | acquired (r : Outcome (Option LockHandle))
  | flag (r : Outcome Bool)
  deriving DecidableEq, Repr

def Result.eraseToken : Result → Result
  | .acquired (.ok (some handle)) => .acquired (.ok (some { handle with token := "" }))
  | r => r

/-- The instant a lease would end at is one both locks can write down. -/
def ttlInRange (at_ : Moment) (ttlSecs : Nat) : Prop :=
  at_.unixMs + ttlSecs * 1000 ≤ maxExpiryMs ∧
    at_.instant + fromSecs ttlSecs < 2 ^ 63 * nanosPerSec

instance : Decidable (ttlInRange at_ ttlSecs) := inferInstanceAs (Decidable (_ ∧ _))

def Call.inRange (c : Call) : Prop :=
  match c.op with
  | .tryAcquire _ ttlSecs | .extend _ ttlSecs => ttlInRange c.at_ ttlSecs
  | .release _ => True

instance (c : Call) : Decidable c.inRange := by
  unfold Call.inRange
  split <;> infer_instance

def InMemoryLock.call (lock : InMemoryLock) (uuid : Nat → String) (n : Nat) (at_ : Moment) :
    Op → Result × InMemoryLock
  | .tryAcquire key ttlSecs =>
    let (r, lock) := lock.tryAcquire at_ key ttlSecs (uuid n)
    (.acquired r, lock)
  | .release handle =>
    let (r, lock) := lock.release (handle.under uuid)
    (.flag (.ok r), lock)
  | .extend handle ttlSecs =>
    let (r, lock) := lock.extend at_ (handle.under uuid) ttlSecs
    (.flag r, lock)

def RedisLock.call (lock : RedisLock) (redis : Redis Db) (uuid : Nat → String) (db : Db) (n : Nat)
    (at_ : Moment) : Op → Result × Db
  | .tryAcquire key ttlSecs =>
    let (r, db) := lock.tryAcquire redis db at_ key ttlSecs (uuid n)
    (.acquired r, db)
  | .release handle =>
    let (r, db) := lock.release redis db at_ (handle.under uuid)
    (.flag r, db)
  | .extend handle ttlSecs =>
    let (r, db) := lock.extend redis db at_ (handle.under uuid) ttlSecs
    (.flag r, db)

/-- What a lock with a time to live is to do at its `n`th call. -/
def leaseCall (l : Leases String Nat Nat) (n : Nat) (at_ : Moment) :
    Op → Result × Leases String Nat Nat
  | .tryAcquire key ttlSecs =>
    let (granted, l) := l.grant at_.instant key n (at_.instant + fromSecs ttlSecs)
    (.acquired (.ok (if granted then some ⟨key, "", at_.unixMs⟩ else none)), l)
  | .release handle =>
    let (released, l) := l.release at_.instant handle.key handle.token
    (.flag (.ok released), l)
  | .extend handle ttlSecs =>
    let (extended, l) := l.extend at_.instant handle.key handle.token
      (at_.instant + fromSecs ttlSecs)
    (.flag (.ok extended), l)

-- ---------------------------------------------------------------------------
-- Each lock refines the table of leases
-- ---------------------------------------------------------------------------

/-- The in-memory lock serves the call as a lock with a time to live would:
it is not asked about a lease that has run out but is still in the map. -/
def InMemoryLock.Fresh (lock : InMemoryLock) (uuid : Nat → String) (c : Call) : Prop :=
  match c.op with
  | .tryAcquire .. => True
  | .release handle | .extend handle _ => ¬ lock.Stale c.at_.instant (handle.under uuid)

def Call.Positive (c : Call) : Prop :=
  match c.op with
  | .tryAcquire _ ttlSecs => 0 < ttlSecs
  | .release _ | .extend .. => True

theorem eraseToken_acquired (granted : Bool) :
    Result.eraseToken (.acquired (.ok (if granted then some ⟨key, token, ms⟩ else none))) =
      .acquired (.ok (if granted then some ⟨key, "", ms⟩ else none)) := by
  cases granted <;> rfl

theorem ttlInRange.instantAdd (h : ttlInRange at_ ttlSecs) :
    instantAdd at_.instant (fromSecs ttlSecs) = some (at_.instant + fromSecs ttlSecs) :=
  instantAdd_eq_some.mpr ⟨h.2, rfl⟩

section
variable {uuid : Nat → String} {l : Leases String Nat Nat} {c : Call} {mem : InMemoryLock}

theorem InMemoryLock.call_refines (hu : Function.Injective uuid)
    (hsame : Leases.SameLeases c.at_.instant mem.leases (l.rename uuid)) (hr : c.inRange)
    (hf : mem.Fresh uuid c) (n : Nat) :
    (mem.call uuid n c.at_ c.op).1.eraseToken = (leaseCall l n c.at_ c.op).1 ∧
      Leases.SameLeases c.at_.instant (mem.call uuid n c.at_ c.op).2.leases
        ((leaseCall l n c.at_ c.op).2.rename uuid) := by
  obtain ⟨at_, op⟩ := c
  cases op with
  | tryAcquire key ttlSecs =>
    obtain ⟨hres, hleases⟩ :=
      InMemoryLock.tryAcquire_grant mem at_ key (uuid n) (ttlInRange.instantAdd hr)
    obtain ⟨hgrant, hgrants⟩ := hsame.grant key (uuid n) (at_.instant + fromSecs ttlSecs)
    rw [Leases.grant_rename] at hgrant hgrants
    simp only [InMemoryLock.call, leaseCall, hres, eraseToken_acquired, hgrant, true_and]
    exact hleases.trans hgrants
  | release handle =>
    obtain ⟨hres, hleases⟩ := InMemoryLock.release_release hf
    obtain ⟨hrel, hrels⟩ := hsame.release handle.key (uuid handle.token)
    rw [Leases.release_rename hu] at hrel hrels
    simp only [InMemoryLock.call, leaseCall, hres, hleases]
    exact ⟨congrArg (fun b => Result.flag (.ok b)) hrel, hrels⟩
  | extend handle ttlSecs =>
    obtain ⟨hres, hleases⟩ := InMemoryLock.extend_extend hf (ttlInRange.instantAdd hr)
    obtain ⟨hext, hexts⟩ := hsame.extend handle.key (uuid handle.token)
      (at_.instant + fromSecs ttlSecs)
    rw [Leases.extend_rename hu] at hext hexts
    simp only [InMemoryLock.call, leaseCall, hres, hleases]
    exact ⟨congrArg (fun b => Result.flag (.ok b)) hext, hexts⟩

variable {Db : Type} {redis : Redis Db} {keys : Db → Leases String String Nat} {lock : RedisLock}

theorem RedisLock.call_refines (laws : redis.Lawful keys) (hc : lock.connected = true)
    (hu : Function.Injective uuid)
    (hsame : Leases.SameLeases c.at_.instant (lock.leases keys db) (l.rename uuid))
    (hr : c.inRange) (hp : c.Positive) (n : Nat) :
    (lock.call redis uuid db n c.at_ c.op).1.eraseToken = (leaseCall l n c.at_ c.op).1 ∧
      Leases.SameLeases c.at_.instant (lock.leases keys (lock.call redis uuid db n c.at_ c.op).2)
        ((leaseCall l n c.at_ c.op).2.rename uuid) := by
  obtain ⟨at_, op⟩ := c
  cases op with
  | tryAcquire key ttlSecs =>
    obtain ⟨hres, hleases⟩ := RedisLock.tryAcquire_grant laws hc db key (uuid n) hp hr.1
    obtain ⟨hgrant, hgrants⟩ := hsame.grant key (uuid n) (at_.instant + fromSecs ttlSecs)
    rw [Leases.grant_rename] at hgrant hgrants
    simp only [RedisLock.call, leaseCall, hres, eraseToken_acquired, hgrant, true_and]
    exact hleases.trans hgrants
  | release handle =>
    obtain ⟨hres, hleases⟩ := RedisLock.release_release laws hc db at_ (handle.under uuid)
    obtain ⟨hrel, hrels⟩ := hsame.release handle.key (uuid handle.token)
    rw [Leases.release_rename hu] at hrel hrels
    simp only [RedisLock.call, leaseCall, hres]
    exact ⟨congrArg (fun b => Result.flag (.ok b)) hrel, hleases.trans hrels⟩
  | extend handle ttlSecs =>
    obtain ⟨hres, hleases⟩ := RedisLock.extend_extend laws hc db (handle.under uuid) hr.1
    obtain ⟨hext, hexts⟩ := hsame.extend handle.key (uuid handle.token)
      (at_.instant + fromSecs ttlSecs)
    rw [Leases.extend_rename hu] at hext hexts
    simp only [RedisLock.call, leaseCall, hres]
    exact ⟨congrArg (fun b => Result.flag (.ok b)) hext, hleases.trans hexts⟩

end

-- ---------------------------------------------------------------------------
-- Runs
-- ---------------------------------------------------------------------------

/-- Both locks after the same calls, and what each of these returned, the
latest first. -/
structure Backends (Db : Type) where
  memory : InMemoryLock
  db : Db
  clock : Nat
  results : List (Result × Result)

section
variable {Db : Type} (redis : Redis Db) (lock : RedisLock) (uuidM uuidR : Nat → String)

def Backends.start (db : Db) : Backends Db := ⟨.new, db, 0, []⟩

def Backends.call (s : Backends Db) (c : Call) : Option (Backends Db) :=
  if s.clock ≤ c.at_.instant ∧ c.inRange then
    let n := s.results.length
    let (inMemory, memory) := s.memory.call uuidM n c.at_ c.op
    let (inRedis, db) := lock.call redis uuidR s.db n c.at_ c.op
    some ⟨memory, db, c.at_.instant, (inMemory, inRedis) :: s.results⟩
  else none

/-- The results so far are the same up to the names of the tokens. -/
def Backends.Agree (s : Backends Db) : Prop :=
  ∀ p ∈ s.results, p.1.eraseToken = p.2.eraseToken

/-- The call takes no lease of zero length and presents no handle whose lease
has run out while its entry is still in the in-memory map. -/
def Backends.Alike (uuidM : Nat → String) (s : Backends Db) (c : Call) : Prop :=
  c.Positive ∧ s.memory.Fresh uuidM c

/-- Both locks refine one table of leases. -/
def Backends.Refine (keys : Db → Leases String String Nat) (s : Backends Db) : Prop :=
  ∃ l : Leases String Nat Nat,
    Leases.SameLeases s.clock s.memory.leases (l.rename uuidM) ∧
      Leases.SameLeases s.clock (lock.leases keys s.db) (l.rename uuidR)

variable {redis lock uuidM uuidR} {keys : Db → Leases String String Nat} {s s' : Backends Db}
  {mem : InMemoryLock} {c : Call}

theorem Backends.call_some (h : s.call redis lock uuidM uuidR c = some s') :
    s.clock ≤ c.at_.instant ∧ c.inRange ∧
      s' = ⟨(s.memory.call uuidM s.results.length c.at_ c.op).2,
        (lock.call redis uuidR s.db s.results.length c.at_ c.op).2, c.at_.instant,
        ((s.memory.call uuidM s.results.length c.at_ c.op).1,
          (lock.call redis uuidR s.db s.results.length c.at_ c.op).1) :: s.results⟩ := by
  unfold Backends.call at h
  split at h
  · rename_i hin
    exact ⟨hin.1, hin.2, (Option.some.inj h).symm⟩
  · cases h

theorem Backends.call_alike (laws : redis.Lawful keys) (hc : lock.connected = true)
    (huM : Function.Injective uuidM) (huR : Function.Injective uuidR)
    (href : s.Refine lock uuidM uuidR keys) (ha : s.Alike uuidM c)
    (h : s.call redis lock uuidM uuidR c = some s') :
    s'.Refine lock uuidM uuidR keys ∧ (s.Agree → s'.Agree) := by
  obtain ⟨l, hm, hd⟩ := href
  obtain ⟨hclock, hr, rfl⟩ := call_some h
  obtain ⟨hresM, hsameM⟩ :=
    InMemoryLock.call_refines huM (hm.mono hclock) hr ha.2 s.results.length
  obtain ⟨hresR, hsameR⟩ :=
    RedisLock.call_refines laws hc huR (hd.mono hclock) hr ha.1 s.results.length
  refine ⟨⟨_, hsameM, hsameR⟩, fun hagree p hp => ?_⟩
  rcases List.mem_cons.mp hp with rfl | hp
  · exact hresM.trans hresR.symm
  · exact hagree p hp

/-- Redis refuses the empty lease that the in-memory lock grants or finds
taken. -/
theorem zero_differs (laws : redis.Lawful keys) (hc : lock.connected = true)
    (hr : ttlInRange at_ 0) :
    (mem.call uuidM n at_ (.tryAcquire key 0)).1.eraseToken ≠
      (lock.call redis uuidR db n at_ (.tryAcquire key 0)).1.eraseToken := by
  obtain ⟨hres, -⟩ := InMemoryLock.tryAcquire_grant mem at_ key (uuidM n) hr.instantAdd
  obtain ⟨e, herr⟩ := RedisLock.tryAcquire_zero laws hc db at_ key (uuidR n)
  simp only [InMemoryLock.call, RedisLock.call, hres, herr, eraseToken_acquired]
  simp [Result.eraseToken]

/-- With a handle whose lease has run out but is still in the map, the
in-memory lock answers true and Redis false. -/
theorem stale_differs (laws : redis.Lawful keys) (hc : lock.connected = true)
    (huR : Function.Injective uuidR) {l : Leases String Nat Nat}
    (hm : Leases.SameLeases c.at_.instant mem.leases (l.rename uuidM))
    (hd : Leases.SameLeases c.at_.instant (lock.leases keys db) (l.rename uuidR))
    (hr : c.inRange) (hf : ¬ mem.Fresh uuidM c) :
    (mem.call uuidM n c.at_ c.op).1.eraseToken ≠
      (lock.call redis uuidR db n c.at_ c.op).1.eraseToken := by
  have hlost : ∀ handle : HandleName, mem.Stale c.at_.instant (handle.under uuidM) →
      l.holder c.at_.instant handle.key ≠ some handle.token := by
    intro handle hstale hhold
    apply hstale.holder_ne
    rw [hm.holder, Leases.holder_rename]
    simp [HandleName.under, hhold]
  obtain ⟨at_, op⟩ := c
  cases op with
  | tryAcquire key ttlSecs => exact absurd trivial hf
  | release handle =>
    have hstale : mem.Stale at_.instant (handle.under uuidM) := not_not.mp hf
    have hM : (mem.call uuidM n at_ (.release handle)).1 = .flag (.ok true) := by
      simp [InMemoryLock.call, hstale.release]
    obtain ⟨hR, -⟩ := RedisLock.call_refines laws hc huR hd hr trivial n
    rw [hM, hR]
    simp [leaseCall, Leases.release, hlost handle hstale, Result.eraseToken]
  | extend handle ttlSecs =>
    have hstale : mem.Stale at_.instant (handle.under uuidM) := not_not.mp hf
    have hM : (mem.call uuidM n at_ (.extend handle ttlSecs)).1 = .flag (.ok true) := by
      simp [InMemoryLock.call, hstale.extend (ttlInRange.instantAdd hr)]
    obtain ⟨hR, -⟩ := RedisLock.call_refines laws hc huR hd hr trivial n
    rw [hM, hR]
    simp [leaseCall, Leases.extend, hlost handle hstale, Result.eraseToken]

/-- While the locks are in step, their results stay the same exactly when the
call is one they serve alike. -/
theorem Backends.agree_iff_alike (laws : redis.Lawful keys) (hc : lock.connected = true)
    (huM : Function.Injective uuidM) (huR : Function.Injective uuidR)
    (href : s.Refine lock uuidM uuidR keys) (hagree : s.Agree)
    (h : s.call redis lock uuidM uuidR c = some s') : s'.Agree ↔ s.Alike uuidM c := by
  constructor
  · intro hagree'
    obtain ⟨l, hm, hd⟩ := href
    obtain ⟨hclock, hr, rfl⟩ := call_some h
    have hsame := hagree' _ List.mem_cons_self
    constructor
    · obtain ⟨at_, op⟩ := c
      cases op with
      | tryAcquire key ttlSecs =>
        apply Nat.pos_of_ne_zero
        rintro rfl
        exact zero_differs laws hc hr hsame
      | release handle => trivial
      | extend handle ttlSecs => trivial
    · by_contra hf
      exact stale_differs laws hc huR (hm.mono hclock) (hd.mono hclock) hr hf hsame
  · exact fun ha => (call_alike laws hc huM huR href ha h).2 hagree

/-- Over every timed sequence of calls with lengths in range, the in-memory
lock and a connected Redis lock give the same results, up to the names of the
tokens, exactly when no call takes a lease of zero length and none presents a
handle whose lease has run out while its entry is still in the in-memory map.

Premise: Redis is as documented, no two UUIDs of one lock are equal, and the
database holds none of the lock's keys at the start. -/
theorem backends_agree_iff (redis : Redis Db) (lock : RedisLock) (uuidM uuidR : Nat → String)
    (keys : Db → Leases String String Nat) (laws : redis.Lawful keys)
    (hc : lock.connected = true) (huM : Function.Injective uuidM)
    (huR : Function.Injective uuidR) (db : Db)
    (hdb : ∀ key, keys db (lock.fullKey key) = none) (calls : List Call) :
    Always (Backends.call redis lock uuidM uuidR) Backends.Agree (.start db) calls ↔
      Guarded (Backends.call redis lock uuidM uuidR) (Backends.Alike uuidM) (.start db) calls := by
  have hstart : Backends.Refine lock uuidM uuidR keys (.start db) := by
    refine ⟨.empty, ?_, ?_⟩ <;> intro key tok u hu
    · simp [Backends.start, InMemoryLock.leases_getElem, InMemoryLock.new, Leases.rename,
        Leases.empty]
    · simp [Backends.start, RedisLock.leases, Leases.comap, hdb, Leases.rename, Leases.empty]
  refine always_iff_guarded (I := Backends.Refine lock uuidM uuidR keys) hstart
    (fun _ hp => absurd hp List.not_mem_nil) ?_ ?_
  · intro s c s' href hagree h hagree'
    have ha := (Backends.agree_iff_alike laws hc huM huR href hagree h).mp hagree'
    exact (Backends.call_alike laws hc huM huR href ha h).1
  · intro s c s' href hagree h
    exact Backends.agree_iff_alike laws hc huM huR href hagree h

end

def lateRelease : List Call :=
  [⟨⟨0, 0⟩, .tryAcquire "k" 1⟩, ⟨⟨fromSecs 2, 2000⟩, .release ⟨"k", 0, 0⟩⟩]

def theRedisLock : RedisLock := ⟨"rinfra:lock:", true⟩

/-- The in-memory lock says the late release succeeded, Redis that it did not. -/
theorem late_release_differs :
    (run (Backends.call mapRedis theRedisLock countedUuid countedUuid) (.start ∅) lateRelease).map
        (fun s => s.results.head?) =
      some (some (.flag (.ok true), .flag (.ok false))) ∧
    ¬ Always (Backends.call mapRedis theRedisLock countedUuid countedUuid) Backends.Agree
      (.start ∅) lateRelease := by
  refine ⟨rfl, fun h => ?_⟩
  have := h.last (t := _) rfl
  exact absurd (this _ List.mem_cons_self) (by decide)

def timelyRelease : List Call :=
  [⟨⟨0, 0⟩, .tryAcquire "k" 2⟩, ⟨⟨fromSecs 1, 1000⟩, .extend ⟨"k", 0, 0⟩ 3⟩,
    ⟨⟨fromSecs 3, 3000⟩, .release ⟨"k", 0, 0⟩⟩]

theorem backends_agree_iff_timely :
    Always (Backends.call mapRedis theRedisLock countedUuid countedUuid) Backends.Agree (.start ∅)
        timelyRelease ↔
      Guarded (Backends.call mapRedis theRedisLock countedUuid countedUuid)
        (Backends.Alike countedUuid) (.start ∅) timelyRelease :=
  backends_agree_iff mapRedis theRedisLock countedUuid countedUuid mapKeys mapRedis_lawful rfl
    countedUuid_injective countedUuid_injective ∅ (fun _ => rfl) timelyRelease

end Rinfra.Lock
