import Mathlib.Order.WithBot
import Rinfra.Cache.Multilevel
import Rinfra.Core.Time
import Rinfra.Lib.Lease
import Rinfra.Lib.Transition

/-!
# How long a cache keeps a value

The multi-level cache over the two backends: moka in memory, which has one time
to live for all entries, and a Redis server. Both are parameters with what their
documentation promises. An entry is a lease of its value, and either backend may
drop one early.

A call has one time, in nanoseconds.
-/

namespace Rinfra.Cache

open Rinfra.Lib

-- ---------------------------------------------------------------------------
-- The backends
-- ---------------------------------------------------------------------------

structure Moka (M : Type) where
  get : M → (now : Nat) → (key : String) → Option Value × M
  insert : M → (now : Nat) → (key : String) → (value : Value) → M
  invalidate : M → (now : Nat) → (key : String) → M

structure Moka.Lawful (moka : Moka M) (timeToLive : Nat) (entries : M → Leases String Value Nat) :
    Prop where
  get : ∀ m now key, (∀ v, (moka.get m now key).1 = some v →
    (entries m).holder now key = some v) ∧ (entries (moka.get m now key).2).Sub (entries m)
  insert : ∀ m now key value, (entries (moka.insert m now key value)).Sub
    ((entries m).set key (some (value, now + timeToLive)))
  invalidate : ∀ m now key, (entries (moka.invalidate m now key)).Sub ((entries m).set key none)

abbrev Entries := Leases String Value (WithTop Nat)

/-- The commands `RedisCache` sends. An error is given by its text. -/
structure RedisCommands (R : Type) where
  get : R → (now : Nat) → (key : String) → Except String (Option Value) × R
  set : R → (now : Nat) → (key : String) → (value : Value) → Except String Unit × R
  setEx : R → (now : Nat) → (key : String) → (value : Value) → (secs : Nat) →
    Except String Unit × R
  del : R → (now : Nat) → (key : String) → Except String Unit × R
  exists_ : R → (now : Nat) → (key : String) → Except String Bool × R

/-- A command that changes `before` into `done`. One that fails may have been
carried out. -/
def Commits (result : Except String α) (before done after : Entries) : Prop :=
  after.Sub done ∨ (∃ e, result = .error e) ∧ after.Sub before

structure RedisCommands.Lawful (redis : RedisCommands R) (entries : R → Entries) : Prop where
  get : ∀ r now key, (∀ v, (redis.get r now key).1 = .ok (some v) →
    (entries r).holder (WithTop.some now) key = some v) ∧
      (entries (redis.get r now key).2).Sub (entries r)
  set : ∀ r now key value, Commits (redis.set r now key value).1 (entries r)
    ((entries r).set key (some (value, ⊤))) (entries (redis.set r now key value).2)
  setEx : ∀ r now key value secs, Commits (redis.setEx r now key value secs).1 (entries r)
    ((entries r).set key (some (value, WithTop.some (now + fromSecs secs))))
    (entries (redis.setEx r now key value secs).2)
  del : ∀ r now key, Commits (redis.del r now key).1 (entries r) ((entries r).set key none)
    (entries (redis.del r now key).2)
  exists_ : ∀ r now key, (entries (redis.exists_ r now key).2).Sub (entries r)

-- ---------------------------------------------------------------------------
-- The caches over them
-- ---------------------------------------------------------------------------

/-- The time of a call, and whether there is a connection to the server. -/
structure At where
  now : Nat
  connected : Bool
  deriving DecidableEq, Repr

abbrev Timed (S : Type) : Type → Type := ReaderT At (StateM S)

structure MemoryCacheConfig where
  maxCapacity : Nat
  ttlSecs : Nat
  deriving DecidableEq, Repr

section
variable {M R : Type}

/-- `MemoryCache` over the first half of the state. -/
def memoryCache (moka : Moka M) : Cache (Timed (M × R)) where
  get key := ExceptT.lift fun at_ s =>
    let (result, m) := moka.get s.1 at_.now key
    (result, m, s.2)
  set key value := ExceptT.lift fun at_ s => ((), moka.insert s.1 at_.now key value, s.2)
  -- moka has one time to live for the whole cache
  setWithTtl key value _ := ExceptT.lift fun at_ s =>
    ((), moka.insert s.1 at_.now key value, s.2)
  delete key := ExceptT.lift fun at_ s => ((), moka.invalidate s.1 at_.now key, s.2)
  exists_ key := ExceptT.lift fun at_ s =>
    let (result, m) := moka.get s.1 at_.now key
    (result.isSome, m, s.2)

namespace RedisCache

def getConn : ExceptT AppError (Timed (M × R)) Unit := fun at_ s =>
  (if at_.connected then .ok () else .error ⟨.cacheConnectionFailed, "redis not connected"⟩, s)

def send (code : ErrorCode) (command : String) (run : R → (now : Nat) → Except String α × R) :
    ExceptT AppError (Timed (M × R)) α := fun at_ s =>
  let (result, r) := run s.2 at_.now
  (result.mapError fun e => ⟨code, s!"redis {command} failed: {e}"⟩, s.1, r)

end RedisCache

open RedisCache in
def redisCache (redis : RedisCommands R) : Cache (Timed (M × R)) where
  get key := do
    getConn
    send .cacheGetFailed "GET" fun r now => redis.get r now key
  set key value := do
    getConn
    send .cacheSetFailed "SET" fun r now => redis.set r now key value
  setWithTtl key value ttl := do
    getConn
    let ttlSecs := max (asSecs ttl) 1
    send .cacheSetFailed "SETEX" fun r now => redis.setEx r now key value ttlSecs
  delete key := do
    getConn
    send .cacheDeleteFailed "DEL" fun r now => redis.del r now key
  exists_ key := do
    getConn
    send .cacheGetFailed "EXISTS" fun r now => redis.exists_ r now key

/-- The two caches in one. `build` is moka's builder. -/
def twoLevels (build : (maxCapacity timeToLive : Nat) → Moka M) (config : MemoryCacheConfig)
    (redis : RedisCommands R) : MultilevelCache (Timed (M × R)) where
  l1 := memoryCache (build config.maxCapacity (fromSecs config.ttlSecs))
  l2 := redisCache redis

def step (cache : Cache (Timed S)) (s : S) (e : At × Call) : Option S :=
  some ((cache.call e.2).run e.1 s).2

def reply (cache : Cache (Timed S)) (s : S) (at_ : At) (call : Call) : Reply :=
  ((cache.call call).run at_ s).1

def Call.Stores (call : Call) (key : String) (value : Value) : Prop :=
  call = .set key value ∨ ∃ ttl, call = .setWithTtl key value ttl

end

-- ---------------------------------------------------------------------------
-- What a call keeps
-- ---------------------------------------------------------------------------

/-- The call keeps `I`, and what it returns without an error satisfies `Q`. -/
def Ensures (at_ : At) (I : S → Prop) (x : ExceptT AppError (Timed S) α) (Q : α → Prop) : Prop :=
  ∀ s, I s → I (x.run at_ s).2 ∧ ∀ a, (x.run at_ s).1 = .ok a → Q a

namespace Ensures

variable {S α β : Type} {at_ : At} {I : S → Prop} {P Q : α → Prop} {Q' : β → Prop}

theorem pure {a : α} (h : Q a) : Ensures at_ I (Pure.pure a) Q := by
  refine fun s hs => ⟨hs, ?_⟩
  rintro _ ⟨⟩
  exact h

theorem bind {x : ExceptT AppError (Timed S) α} {f : α → ExceptT AppError (Timed S) β}
    (hx : Ensures at_ I x P) (hf : ∀ a, P a → Ensures at_ I (f a) Q') :
    Ensures at_ I (x >>= f) Q' := by
  intro s hs
  obtain ⟨hs', ha⟩ := hx s hs
  have hbind : (x >>= f).run at_ s =
      ExceptT.bindCont f (x.run at_ s).1 at_ (x.run at_ s).2 := rfl
  rw [hbind]
  generalize x.run at_ s = p at hs' ha
  obtain ⟨e | a, s'⟩ := p
  · exact ⟨hs', nofun⟩
  · exact hf _ (ha _ rfl) s' hs'

theorem ignored {x : ExceptT AppError (Timed S) α} (hx : Ensures at_ I x P) :
    Ensures at_ I (ExceptT.lift x.run) fun _ => True :=
  fun s hs => ⟨(hx s hs).1, fun _ _ => trivial⟩

end Ensures

theorem run_bind_ok {S α β : Type} {x : ExceptT AppError (Timed S) α}
    {f : α → ExceptT AppError (Timed S) β} {s s' : S} {b : β} {at_ : At}
    (h : (x >>= f).run at_ s = (.ok b, s')) :
    ∃ a s₁, x.run at_ s = (.ok a, s₁) ∧ (f a).run at_ s₁ = (.ok b, s') := by
  have hbind : (x >>= f).run at_ s =
      ExceptT.bindCont f (x.run at_ s).1 at_ (x.run at_ s).2 := rfl
  rw [hbind] at h
  generalize x.run at_ s = p at h ⊢
  obtain ⟨e | a, s₁⟩ := p
  · cases h
  · exact ⟨a, s₁, rfl, h⟩

/-- Neither level keeps the value under the key beyond its bound. -/
structure Kept (l1 : M → Leases String Value Nat) (l2 : R → Entries) (key : String)
    (value : Value) (b₁ b₂ : Nat) (s : M × R) : Prop where
  l1 : (l1 s.1).EndsBy key value b₁
  l2 : (l2 s.2).EndsBy key value (WithTop.some b₂)

section
variable {M R : Type} {moka : Moka M} {redis : RedisCommands R} {timeToLive b₁ b₂ : Nat}
  {l1 : M → Leases String Value Nat} {l2 : R → Entries} {key : String} {value : Value}
  {at_ : At}

theorem Commits.ends {result : Except String α} {before done after : Entries}
    (h : Commits result before done after) (hbefore : before.EndsBy key value bound)
    (hdone : done.EndsBy key value bound) : after.EndsBy key value bound := by
  rcases h with hsub | ⟨-, hsub⟩
  · exact hdone.sub hsub
  · exact hbefore.sub hsub

section
variable (hmoka : moka.Lawful timeToLive l1)

include hmoka

theorem memory_get (k : String) :
    Ensures at_ (Kept l1 l2 key value b₁ b₂) ((memoryCache moka).get k)
      fun r => k = key → r = some value → at_.now < b₁ := by
  intro s hs
  obtain ⟨hvalue, hsub⟩ := hmoka.get s.1 at_.now k
  refine ⟨⟨hs.l1.sub hsub, hs.l2⟩, ?_⟩
  rintro r ⟨⟩ rfl hr
  exact hs.l1.lt (hvalue value hr)

theorem memory_set {k : String} {v : Value}
    (h : k = key → v = value → at_.now + timeToLive ≤ b₁) :
    Ensures at_ (Kept l1 l2 key value b₁ b₂) ((memoryCache moka).set k v) fun _ => True := by
  refine fun s hs => ⟨⟨?_, hs.l2⟩, fun _ _ => trivial⟩
  refine (hs.l1.set ?_).sub (hmoka.insert s.1 at_.now k v)
  rintro hk u ⟨⟩
  exact h hk rfl

theorem memory_delete (k : String) :
    Ensures at_ (Kept l1 l2 key value b₁ b₂) ((memoryCache moka).delete k) fun _ => True := by
  refine fun s hs => ⟨⟨?_, hs.l2⟩, fun _ _ => trivial⟩
  exact hs.l1.erase.sub (hmoka.invalidate s.1 at_.now k)

theorem memory_exists (k : String) :
    Ensures at_ (Kept l1 l2 key value b₁ b₂) ((memoryCache moka).exists_ k) fun _ => True :=
  fun s hs => ⟨⟨hs.l1.sub (hmoka.get s.1 at_.now k).2, hs.l2⟩, fun _ _ => trivial⟩

end

theorem getConn_ensures {I : M × R → Prop} :
    Ensures at_ I (RedisCache.getConn (M := M) (R := R)) fun _ => True :=
  fun _ hs => ⟨hs, fun _ _ => trivial⟩

theorem send_run {α : Type} (code : ErrorCode) (command : String)
    (run : R → (now : Nat) → Except String α × R) (s : M × R) :
    (RedisCache.send code command run).run at_ s =
      ((run s.2 at_.now).1.mapError fun e => (⟨code, s!"redis {command} failed: {e}"⟩ : AppError),
        s.1, (run s.2 at_.now).2) := rfl

theorem send_ok {α : Type} {code : ErrorCode} {command : String} {a : α}
    {run : R → (now : Nat) → Except String α × R} {s s' : M × R}
    (h : (RedisCache.send (M := M) code command run).run at_ s = (.ok a, s')) :
    run s.2 at_.now = (.ok a, s'.2) ∧ s'.1 = s.1 := by
  rw [send_run] at h
  generalize run s.2 at_.now = p at h
  obtain ⟨e | a, r⟩ := p
  · cases h
  · cases h
    exact ⟨rfl, rfl⟩

theorem send_ensures {α : Type} {code : ErrorCode} {command : String}
    {run : R → (now : Nat) → Except String α × R} {Q : α → Prop}
    (h : ∀ r, (l2 r).EndsBy key value (WithTop.some b₂) →
      (l2 (run r at_.now).2).EndsBy key value (WithTop.some b₂) ∧
        ∀ a, (run r at_.now).1 = .ok a → Q a) :
    Ensures at_ (Kept l1 l2 key value b₁ b₂) (RedisCache.send (M := M) code command run) Q := by
  intro s hs
  obtain ⟨hends, hresult⟩ := h s.2 hs.l2
  rw [send_run]
  refine ⟨⟨hs.l1, hends⟩, fun a ha => hresult a ?_⟩
  generalize (run s.2 at_.now).1 = result at ha
  cases result with
  | error e => cases ha
  | ok a' => cases ha; rfl

section
variable (hredis : redis.Lawful l2)

include hredis

theorem redis_get (k : String) :
    Ensures at_ (Kept l1 l2 key value b₁ b₂) ((redisCache redis).get k)
      fun r => k = key → r = some value → at_.now < b₂ := by
  refine getConn_ensures.bind fun _ _ => send_ensures fun r hr => ?_
  obtain ⟨hvalue, hsub⟩ := hredis.get r at_.now k
  refine ⟨hr.sub hsub, ?_⟩
  rintro _ hget rfl rfl
  exact WithTop.coe_lt_coe.mp (hr.lt (hvalue value hget))

theorem redis_set {k : String} {v : Value} (h : k = key → v ≠ value) :
    Ensures at_ (Kept l1 l2 key value b₁ b₂) ((redisCache redis).set k v) fun _ => True := by
  refine getConn_ensures.bind fun _ _ => send_ensures fun r hr => ⟨?_, fun _ _ => trivial⟩
  refine (hredis.set r at_.now k v).ends hr (hr.set ?_)
  rintro hk u ⟨⟩
  exact absurd rfl (h hk)

theorem redis_setWithTtl {k : String} {v : Value} {ttl : Nat} (h : k = key → v ≠ value) :
    Ensures at_ (Kept l1 l2 key value b₁ b₂) ((redisCache redis).setWithTtl k v ttl)
      fun _ => True := by
  refine getConn_ensures.bind fun _ _ => send_ensures fun r hr => ⟨?_, fun _ _ => trivial⟩
  refine (hredis.setEx r at_.now k v _).ends hr (hr.set ?_)
  rintro hk u ⟨⟩
  exact absurd rfl (h hk)

theorem redis_delete (k : String) :
    Ensures at_ (Kept l1 l2 key value b₁ b₂) ((redisCache redis).delete k) fun _ => True := by
  refine getConn_ensures.bind fun _ _ => send_ensures fun r hr => ⟨?_, fun _ _ => trivial⟩
  exact (hredis.del r at_.now k).ends hr hr.erase

theorem redis_exists (k : String) :
    Ensures at_ (Kept l1 l2 key value b₁ b₂) ((redisCache redis).exists_ k) fun _ => True := by
  refine getConn_ensures.bind fun _ _ => send_ensures fun r hr => ⟨?_, fun _ _ => trivial⟩
  exact hr.sub (hredis.exists_ r at_.now k)

end

-- ---------------------------------------------------------------------------
-- Both levels
-- ---------------------------------------------------------------------------

section
variable (hmoka : moka.Lawful timeToLive l1) (hredis : redis.Lawful l2)
  (hbounds : b₂ + timeToLive ≤ b₁)

include hmoka hredis hbounds

/-- A value that a get puts back into the first level is one that the second
level still has, so it stays for one time to live beyond the bound of that. -/
theorem multilevel_get (k : String) :
    Ensures at_ (Kept l1 l2 key value b₁ b₂)
      (MultilevelCache.get ⟨memoryCache moka, redisCache redis⟩ k)
      fun r => k = key → r = some value → at_.now < b₁ := by
  refine (memory_get hmoka k).bind fun r hr => ?_
  cases r with
  | some val => exact .pure hr
  | none =>
    refine (redis_get hredis k).bind fun r hr => ?_
    cases r with
    | some val =>
      refine (Ensures.ignored (memory_set hmoka ?_)).bind fun _ _ => .pure ?_
      · rintro rfl rfl
        have := hr rfl rfl
        omega
      · rintro rfl hval
        have := hr rfl hval
        omega
    | none => exact .pure nofun

theorem call_keeps {call : Call} (h : ¬ call.Stores key value) :
    Ensures at_ (Kept l1 l2 key value b₁ b₂)
      ((MultilevelCache.toCache ⟨memoryCache moka, redisCache redis⟩).call call)
      fun answer => call = .get key → answer = .value (some value) → at_.now < b₁ := by
  have hnew : ∀ {k v}, (call = .set k v ∨ ∃ ttl, call = .setWithTtl k v ttl) → k = key →
      v ≠ value := by
    rintro k v hcall rfl rfl
    exact h hcall
  cases call with
  | get k =>
    refine (multilevel_get hmoka hredis hbounds k).bind fun r hr => .pure ?_
    rintro ⟨⟩ ⟨⟩
    exact hr rfl rfl
  | set k v =>
    refine (Ensures.bind (P := fun _ => True) ?_ fun _ _ => .pure nofun)
    refine (memory_set hmoka fun hk hv => absurd hv (hnew (.inl rfl) hk)).bind fun _ _ => ?_
    exact redis_set hredis (hnew (.inl rfl))
  | setWithTtl k v ttl =>
    refine (Ensures.bind (P := fun _ => True) ?_ fun _ _ => .pure nofun)
    refine (memory_set hmoka fun hk hv => absurd hv (hnew (.inr ⟨ttl, rfl⟩) hk)).bind fun _ _ => ?_
    exact redis_setWithTtl hredis (hnew (.inr ⟨ttl, rfl⟩))
  | delete k =>
    refine (Ensures.bind (P := fun _ => True) ?_ fun _ _ => .pure nofun)
    exact (memory_delete hmoka k).bind fun _ _ => redis_delete hredis k
  | exists_ k =>
    refine (Ensures.bind (P := fun _ => True) ?_ fun _ _ => .pure nofun)
    refine (memory_exists hmoka k).bind fun found _ => ?_
    cases found with
    | true => exact .pure trivial
    | false => exact redis_exists hredis k

end

-- ---------------------------------------------------------------------------
-- Runs
-- ---------------------------------------------------------------------------

section
variable {build : (maxCapacity timeToLive : Nat) → Moka M} {config : MemoryCacheConfig}

/-- A set with a time to live that succeeds leaves an entry of its own in both
levels, whatever they had. -/
theorem stored_kept (hmoka : moka.Lawful timeToLive l1) (hredis : redis.Lawful l2) {s s' : M × R}
    {ttl : Nat} (h : ((MultilevelCache.toCache ⟨memoryCache moka, redisCache redis⟩).call
      (.setWithTtl key value ttl)).run at_ s = (.ok .done, s')) :
    Kept l1 l2 key value (at_.now + fromSecs (max (asSecs ttl) 1) + timeToLive)
      (at_.now + fromSecs (max (asSecs ttl) 1)) s' := by
  obtain ⟨_, _, hset, ⟨⟩⟩ := run_bind_ok h
  obtain ⟨_, _, ⟨⟩, hl2⟩ := run_bind_ok hset
  obtain ⟨_, s₁, hconn, hsend⟩ := run_bind_ok hl2
  obtain rfl : _ = s₁ := congrArg Prod.snd hconn
  obtain ⟨hsetEx, hsame⟩ := send_ok hsend
  constructor
  · rw [hsame]
    exact .sub (.of_set (by omega)) (hmoka.insert s.1 at_.now key value)
  · have hdone := hredis.setEx s.2 at_.now key value (max (asSecs ttl) 1)
    rw [show redis.setEx s.2 at_.now key value _ = _ from hsetEx] at hdone
    rcases hdone with hsub | ⟨⟨e, he⟩, -⟩
    · exact .sub (.of_set le_rfl) hsub
    · cases he

theorem ttl_bound (hmoka : ∀ maxCapacity timeToLive, (build maxCapacity timeToLive).Lawful
      timeToLive l1) (hredis : redis.Lawful l2) {s s' s'' : M × R} {ttl : Nat} {at_ at' : At}
    {es : List (At × Call)}
    (hs : step (twoLevels build config redis).toCache s (at_, .setWithTtl key value ttl) = some s')
    (hreply : reply (twoLevels build config redis).toCache s at_ (.setWithTtl key value ttl) =
      .ok .done)
    (hstored : ∀ e ∈ es, ¬ e.2.Stores key value)
    (hr : run (step (twoLevels build config redis).toCache) s' es = some s'')
    (hget : reply (twoLevels build config redis).toCache s'' at' (.get key) =
      .ok (.value (some value))) :
    at'.now < at_.now + fromSecs (max (asSecs ttl) 1) + fromSecs config.ttlSecs := by
  have hmoka := hmoka config.maxCapacity (fromSecs config.ttlSecs)
  have hkept := stored_kept hmoka hredis (Prod.ext hreply (Option.some.inj hs))
  have hguarded : Guarded (step (twoLevels build config redis).toCache)
      (fun _ e => True ∧ ¬ e.2.Stores key value) s' es :=
    (Guarded.of_forall fun _ _ => trivial).and_all hstored
  have hkept := (hguarded.invariant hkept fun s e t hs he ht => by
    cases ht
    exact (call_keeps hmoka hredis le_rfl he.2 s hs).1).last hr
  have hnot : ¬ (Call.get key).Stores key value := by
    rintro (h | ⟨_, h⟩) <;> cases h
  exact (call_keeps hmoka hredis le_rfl hnot s'' hkept).2 _ hget rfl rfl

end

end

-- ---------------------------------------------------------------------------
-- Exact backends
-- ---------------------------------------------------------------------------

/-- moka's cache, where it drops nothing early. -/
def mokaMap (timeToLive : Nat) : Moka (Leases String Value Nat) where
  get m now key := (m.holder now key, m)
  insert m now key value := m.set key (some (value, now + timeToLive))
  invalidate m _ key := m.set key none

/-- A server that always answers. -/
def redisMap : RedisCommands Entries where
  get r now key := (.ok (r.holder (WithTop.some now) key), r)
  set r _ key value := (.ok (), r.set key (some (value, ⊤)))
  setEx r now key value secs :=
    (.ok (), r.set key (some (value, WithTop.some (now + fromSecs secs))))
  del r _ key := (.ok (), r.set key none)
  exists_ r now key := (.ok (r.holder (WithTop.some now) key).isSome, r)

theorem mokaMap_lawful (timeToLive : Nat) : (mokaMap timeToLive).Lawful timeToLive id where
  get m _ _ := ⟨fun _ h => h, .refl m⟩
  insert _ _ _ _ := .refl _
  invalidate _ _ _ := .refl _

theorem redisMap_lawful : redisMap.Lawful id where
  get r _ _ := ⟨fun _ h => Except.ok.inj h, .refl r⟩
  set _ _ _ _ := .inl (.refl _)
  setEx _ _ _ _ _ := .inl (.refl _)
  del _ _ _ := .inl (.refl _)
  exists_ r _ _ := .refl r

/-- Both levels, where the memory keeps an entry so many seconds. -/
def keepsFor (ttlSecs : Nat) : Cache (Timed (Leases String Value Nat × Entries)) :=
  (twoLevels (fun _ => mokaMap) ⟨100, ttlSecs⟩ redisMap).toCache

/-- The memory has dropped the value when it is read at 9 s, and gets it back. -/
def readAgain : List (At × Call) :=
  [(⟨fromSecs 3, true⟩, .set "other" [2]), (⟨fromSecs 9, true⟩, .get "k")]

theorem readAgain_stores : ∀ e ∈ readAgain, ¬ e.2.Stores "k" [1] := by
  intro e he
  simp only [readAgain, List.mem_cons, List.not_mem_nil, or_false] at he
  rcases he with rfl | rfl <;> rintro (h | ⟨_, h⟩) <;> simp at h

theorem readAgain_run : ∃ s' s'', step (keepsFor 5) (.empty, .empty)
      (⟨0, true⟩, .setWithTtl "k" [1] (fromSecs 10)) = some s' ∧
    reply (keepsFor 5) (.empty, .empty) ⟨0, true⟩ (.setWithTtl "k" [1] (fromSecs 10)) =
      .ok .done ∧
    run (step (keepsFor 5)) s' readAgain = some s'' ∧
    reply (keepsFor 5) s'' ⟨fromSecs 13, true⟩ (.get "k") = .ok (.value (some [1])) :=
  ⟨_, _, rfl, rfl, rfl, rfl⟩

/-- A value set for 10 s is read after 13 s. -/
theorem ttl_bound_readAgain :
    fromSecs 13 < 0 + fromSecs (max (asSecs (fromSecs 10)) 1) + fromSecs 5 := by
  obtain ⟨s', s'', hs, hreply, hr, hget⟩ := readAgain_run
  exact ttl_bound (fun _ => mokaMap_lawful) redisMap_lawful hs hreply readAgain_stores hr hget

/-- A value set for one second is there two seconds later. -/
theorem get_after_ttl : ∃ s', step (keepsFor 60) (.empty, .empty)
      (⟨0, true⟩, .setWithTtl "k" [1] (fromSecs 1)) = some s' ∧
    reply (keepsFor 60) (.empty, .empty) ⟨0, true⟩ (.setWithTtl "k" [1] (fromSecs 1)) = .ok .done ∧
    0 + fromSecs 1 < fromSecs 2 ∧
    reply (keepsFor 60) s' ⟨fromSecs 2, true⟩ (.get "k") = .ok (.value (some [1])) :=
  ⟨_, rfl, rfl, by decide, rfl⟩

end Rinfra.Cache
