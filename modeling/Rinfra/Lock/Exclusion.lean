import Mathlib.Data.List.Pairwise
import Rinfra.Lib.Transition
import Rinfra.Lock.Memory

/-!
# Mutual exclusion of the in-memory lock

Any number of callers use one `InMemoryLock`. The mutex makes every section
atomic, so an interleaving is a list of sections at nondecreasing instants;
`acquire` is a loop of them, parked on `Notify` between two attempts.

UUIDs come from outside: `newV4 n` is the `n`th one drawn, and the proofs ask
only that no two are equal.
-/

namespace Rinfra.Lock

open Rinfra.Lib InMemoryLock

/-- Where a caller of `acquire` stands. `refused` has seen `try_acquire` return
`None` and has not yet created its `notified()` future. -/
inductive Caller
  | idle
  | trying (key : String) (ttlSecs deadline : Nat)
  | refused (key : String) (ttlSecs deadline : Nat)
  | waiting (key : String) (ttlSecs deadline : Nat) (notified : Bool)
  | returned (result : Outcome LockHandle)
  deriving DecidableEq, Repr

structure World where
  lock : InMemoryLock
  clock : Nat
  callers : Nat → Caller
  drawn : Nat
  /-- Every handle the lock has handed out, the latest first. -/
  granted : List LockHandle

inductive Event
  | tryAcquire (at_ : Moment) (key : String) (ttlSecs : Nat)
  | release (at_ : Moment) (handle : LockHandle)
  | extend (at_ : Moment) (handle : LockHandle) (ttlSecs : Nat)
  | acquire (at_ : Moment) (c : Nat) (key : String) (ttlSecs waitTimeoutSecs : Nat)
  | attempt (at_ : Moment) (c : Nat)
  | park (at_ : Moment) (c : Nat)
  | wake (at_ : Moment) (c : Nat)
  deriving DecidableEq, Repr

def Event.moment : Event → Moment
  | .tryAcquire at_ .. | .release at_ .. | .extend at_ .. | .acquire at_ .. | .attempt at_ _
  | .park at_ _ | .wake at_ _ => at_

def World.init : World where
  lock := .new
  clock := 0
  callers _ := .idle
  drawn := 0
  granted := []

def World.setCaller (w : World) (c : Nat) (p : Caller) : World :=
  { w with callers := Function.update w.callers c p }

/-- `acquire` up to its loop: the deadline is `Instant::now() + wait_timeout`. -/
def Caller.begin (at_ : Moment) (key : String) (ttlSecs waitTimeoutSecs : Nat) : Caller :=
  match instantAdd at_.instant (fromSecs waitTimeoutSecs) with
  | some deadline => .trying key ttlSecs deadline
  | none => .returned .panicked

/-- `notify_waiters` reaches those who wait at that moment, and no others. -/
def Caller.notify : Caller → Caller
  | .waiting key ttlSecs deadline _ => .waiting key ttlSecs deadline true
  | c => c

/-- One `try_acquire`; a UUID is drawn unless the key is held. -/
def World.tryAcquire (newV4 : Nat → String) (w : World) (at_ : Moment) (key : String)
    (ttlSecs : Nat) : Outcome (Option LockHandle) × World :=
  match w.lock.tryAcquire at_ key ttlSecs (newV4 w.drawn) with
  | (.ok (some h), lock) =>
    (.ok (some h), { w with lock, drawn := w.drawn + 1, granted := h :: w.granted })
  | (.ok none, lock) => (.ok none, { w with lock })
  | (.err e, lock) => (.err e, { w with lock })
  | (.panicked, lock) => (.panicked, { w with lock, drawn := w.drawn + 1 })

def timedOut (key : String) : AppError :=
  ⟨.lockAcquireFailed, s!"timed out waiting for lock '{key}'"⟩

def World.act (newV4 : Nat → String) (w : World) : Event → Option World
  | .tryAcquire at_ key ttlSecs => some (w.tryAcquire newV4 at_ key ttlSecs).2
  | .release _ handle =>
    match w.lock.release handle with
    | (true, lock) => some { w with lock, callers := fun c => (w.callers c).notify }
    | (false, lock) => some { w with lock }
  | .extend at_ handle ttlSecs => some { w with lock := (w.lock.extend at_ handle ttlSecs).2 }
  | .acquire at_ c key ttlSecs waitTimeoutSecs => do
    let .idle := w.callers c | none
    pure (w.setCaller c (.begin at_ key ttlSecs waitTimeoutSecs))
  | .attempt at_ c => do
    let .trying key ttlSecs deadline := w.callers c | none
    match w.tryAcquire newV4 at_ key ttlSecs with
    | (.ok (some h), w) => pure (w.setCaller c (.returned (.ok h)))
    | (.ok none, w) => pure (w.setCaller c (.refused key ttlSecs deadline))
    | (.err e, w) => pure (w.setCaller c (.returned (.err e)))
    | (.panicked, w) => pure (w.setCaller c (.returned .panicked))
  | .park at_ c => do
    let .refused key ttlSecs deadline := w.callers c | none
    if deadline - at_.instant = 0 then pure (w.setCaller c (.returned (.err (timedOut key))))
    else pure (w.setCaller c (.waiting key ttlSecs deadline false))
  | .wake at_ c => do
    let .waiting key ttlSecs deadline notified := w.callers c | none
    if notified ∨ deadline ≤ at_.instant then pure (w.setCaller c (.trying key ttlSecs deadline))
    else none

def step (newV4 : Nat → String) (w : World) (e : Event) : Option World :=
  if w.clock ≤ e.moment.instant then
    (w.act newV4 e).map fun w => { w with clock := e.moment.instant }
  else none

-- ---------------------------------------------------------------------------
-- What a step does to the lock and to the handles
-- ---------------------------------------------------------------------------

/-- A handle and the lease the lock keeps for it at instant `t`. -/
def Valid (lock : InMemoryLock) (t : Nat) (handle : LockHandle) : Prop :=
  ∃ entry, lock.locks[handle.key]? = some entry ∧ entry.token = handle.token ∧ t < entry.expiresAt

theorem valid_iff_holder :
    Valid lock t handle ↔ lock.leases.holder t handle.key = some handle.token := by
  rw [Leases.holder_eq_some]
  simp only [Valid, leases_getElem, Option.map_eq_some_iff, Prod.mk.injEq]
  constructor
  · rintro ⟨entry, hk, ht, hlt⟩
    exact ⟨_, ⟨entry, hk, ht, rfl⟩, hlt⟩
  · rintro ⟨_, ⟨entry, hk, ht, rfl⟩, hlt⟩
    exact ⟨entry, hk, ht, hlt⟩

section
variable {newV4 : Nat → String} {w w' : World}

/-- Handles are granted one at a time, under the UUID just drawn, and only
while nobody holds the key. -/
theorem World.tryAcquire_cases (newV4 : Nat → String) (w : World) (at_ : Moment) (key : String)
    (ttlSecs : Nat) :
    (∃ lock h, h.key = key ∧ h.token = newV4 w.drawn ∧
        w.lock.leases.holder at_.instant key = none ∧
        w.tryAcquire newV4 at_ key ttlSecs =
          (.ok (some h), { w with lock, drawn := w.drawn + 1, granted := h :: w.granted })) ∨
      ∃ r lock drawn, w.drawn ≤ drawn ∧ (∀ h, r ≠ .ok (some h)) ∧
        w.tryAcquire newV4 at_ key ttlSecs = (r, { w with lock, drawn }) := by
  cases hheld : w.lock.leases.holder at_.instant key with
  | some owner =>
    exact .inr ⟨.ok none, w.lock, w.drawn, Nat.le_refl _, by simp,
      by simp [World.tryAcquire, tryAcquire_held hheld]⟩
  | none =>
    obtain ⟨lock₁, -, hacq⟩ := tryAcquire_free ttlSecs (newV4 w.drawn) hheld
    cases hend : instantAdd at_.instant (fromSecs ttlSecs) with
    | some expiresAt =>
      exact .inl ⟨⟨lock₁.locks.insert key ⟨newV4 w.drawn, expiresAt⟩⟩,
        ⟨key, newV4 w.drawn, at_.unixMs⟩, rfl, rfl, rfl, by simp [World.tryAcquire, hacq, hend]⟩
    | none =>
      exact .inr ⟨.panicked, lock₁, w.drawn + 1, Nat.le_succ _, by simp,
        by simp [World.tryAcquire, hacq, hend]⟩

theorem World.act_granted (h : w.act newV4 e = some w') :
    w'.granted = w.granted ∧ w.drawn ≤ w'.drawn ∨
      ∃ handle, w'.granted = handle :: w.granted ∧ w'.drawn = w.drawn + 1 ∧
        handle.token = newV4 w.drawn ∧
        w.lock.leases.holder e.moment.instant handle.key = none := by
  cases e with
  | tryAcquire at_ key ttlSecs =>
    simp only [World.act, Option.some.injEq] at h
    subst h
    rcases tryAcquire_cases newV4 w at_ key ttlSecs with
      ⟨lock, hd, rfl, htok, hfree, heq⟩ | ⟨r, lock, drawn, hle, -, heq⟩
    · exact .inr ⟨hd, by simp [heq], by simp [heq], htok, hfree⟩
    · exact .inl ⟨by simp [heq], by simpa [heq] using hle⟩
  | release at_ handle =>
    simp only [World.act] at h
    split at h <;> cases h <;> exact .inl ⟨rfl, Nat.le_refl _⟩
  | extend at_ handle ttlSecs =>
    simp only [World.act, Option.some.injEq] at h
    subst h
    exact .inl ⟨rfl, Nat.le_refl _⟩
  | acquire at_ c key ttlSecs waitTimeoutSecs =>
    simp only [World.act] at h
    split at h
    · cases h; exact .inl ⟨rfl, Nat.le_refl _⟩
    · cases h
  | attempt at_ c =>
    simp only [World.act] at h
    split at h
    · rename_i key ttlSecs deadline hc
      rcases tryAcquire_cases newV4 w at_ key ttlSecs with
        ⟨lock, hd, rfl, htok, hfree, heq⟩ | ⟨r, lock, drawn, hle, hr, heq⟩
      · rw [heq] at h
        cases h
        exact .inr ⟨hd, rfl, rfl, htok, hfree⟩
      · rw [heq] at h
        cases r with
        | ok o =>
          cases o with
          | some hd => exact absurd rfl (hr hd)
          | none => cases h; exact .inl ⟨rfl, hle⟩
        | err e => cases h; exact .inl ⟨rfl, hle⟩
        | panicked => cases h; exact .inl ⟨rfl, hle⟩
    · cases h
  | park at_ c =>
    simp only [World.act] at h
    split at h
    · split at h <;> cases h <;> exact .inl ⟨rfl, Nat.le_refl _⟩
    · cases h
  | wake at_ c =>
    simp only [World.act] at h
    split at h
    · split at h
      · cases h; exact .inl ⟨rfl, Nat.le_refl _⟩
      · cases h
    · cases h

theorem step_some (h : step newV4 w e = some w') :
    w.clock ≤ e.moment.instant ∧
      ∃ w₁, w.act newV4 e = some w₁ ∧ w' = { w₁ with clock := e.moment.instant } := by
  unfold step at h
  split at h
  · rename_i hle
    obtain ⟨w₁, hact, rfl⟩ := Option.map_eq_some_iff.mp h
    exact ⟨hle, w₁, hact, rfl⟩
  · cases h

-- ---------------------------------------------------------------------------
-- The invariant
-- ---------------------------------------------------------------------------

/-- The handles that are out carry UUIDs already drawn, no two the same. -/
structure Inv (newV4 : Nat → String) (w : World) : Prop where
  drawn : ∀ h ∈ w.granted, ∃ n < w.drawn, h.token = newV4 n
  tokens : w.granted.Pairwise fun h h' => h.token ≠ h'.token

theorem Inv.step (hu : Function.Injective newV4) (hi : Inv newV4 w)
    (hs : step newV4 w e = some w') : Inv newV4 w' := by
  obtain ⟨-, w₁, hact, rfl⟩ := step_some hs
  rcases World.act_granted hact with ⟨hg, hle⟩ | ⟨handle, hg, hdrawn, htok, -⟩
  · refine ⟨?_, by simpa [hg] using hi.tokens⟩
    intro h hh
    obtain ⟨n, hn, ht⟩ := hi.drawn h (by simpa [hg] using hh)
    exact ⟨n, Nat.lt_of_lt_of_le hn hle, ht⟩
  · have hold : ∀ h ∈ w.granted, ∃ n < w.drawn + 1, h.token = newV4 n := by
      intro h hh
      obtain ⟨n, hn, ht⟩ := hi.drawn h hh
      exact ⟨n, Nat.lt_succ_of_lt hn, ht⟩
    constructor
    · intro h hh
      simp only [hg, List.mem_cons, hdrawn] at hh ⊢
      rcases hh with rfl | hh
      · exact ⟨w.drawn, Nat.lt_succ_self _, htok⟩
      · exact hold h hh
    · simp only [hg, List.pairwise_cons]
      refine ⟨?_, hi.tokens⟩
      intro h hh heq
      obtain ⟨n, hn, ht⟩ := hi.drawn h hh
      have : w.drawn = n := hu (by rw [← htok, heq, ht])
      omega

theorem reachable_inv (hu : Function.Injective newV4) (hr : Reachable (step newV4) World.init w) :
    Inv newV4 w :=
  hr.invariant ⟨by simp [World.init], by simp [World.init]⟩ fun _ _ _ hi hs => hi.step hu hs

theorem Inv.handle_unique (hi : Inv newV4 w) (hh : h ∈ w.granted) (hh' : h' ∈ w.granted)
    (heq : h.token = h'.token) : h = h' := by
  by_contra hne
  have : Std.Symm fun h h' : LockHandle => h.token ≠ h'.token := ⟨fun _ _ => Ne.symm⟩
  exact hi.tokens.forall hh hh' hne heq

/-- At most one handle per key is valid at any instant; a handle is granted
only when the key has no unexpired entry; a handle whose token is not the one
stored releases and extends nothing.

Premise: no two UUIDs drawn are equal. -/
theorem memory_lock_exclusive (newV4 : Nat → String) (hu : Function.Injective newV4) (w : World)
    (hr : Reachable (step newV4) World.init w) :
    (∀ t, ∀ h ∈ w.granted, ∀ h' ∈ w.granted,
      Valid w.lock t h → Valid w.lock t h' → h.key = h'.key → h = h') ∧
    (∀ e w', step newV4 w e = some w' → ∀ h ∈ w'.granted, h ∉ w.granted →
      ∀ entry, w.lock.locks[h.key]? = some entry → entry.expiresAt ≤ w'.clock) ∧
    (∀ h, (∀ entry, w.lock.locks[h.key]? = some entry → entry.token ≠ h.token) →
      w.lock.release h = (false, w.lock) ∧
        ∀ at_ ttlSecs, w.lock.extend at_ h ttlSecs = (.ok false, w.lock)) := by
  have hi : Inv newV4 w := reachable_inv hu hr
  refine ⟨?_, ?_, fun h hother => ⟨release_other hother, fun _ _ => extend_other hother⟩⟩
  · intro t h hh h' hh' hv hv' hkey
    rw [valid_iff_holder] at hv hv'
    exact hi.handle_unique hh hh' (Leases.holder_unique hv (hkey ▸ hv'))
  · intro e w' hs h hh hnew entry hentry
    obtain ⟨-, w₁, hact, rfl⟩ := step_some hs
    rcases World.act_granted hact with ⟨hg, -⟩ | ⟨handle, hg, -, -, hfree⟩
    · exact absurd (hg ▸ hh) hnew
    · simp only [hg, List.mem_cons, hnew, or_false] at hh
      subst hh
      have hlease : w.lock.leases h.key = some (entry.token, entry.expiresAt) := by
        simp [leases_getElem, hentry]
      exact Leases.holder_eq_none.mp hfree _ hlease

end

def regrant : List Event :=
  [.tryAcquire ⟨0, 0⟩ "k" 1, .tryAcquire ⟨fromSecs 1, 1000⟩ "k" 1]

/-- A first handle on `k` is granted, runs out, and a second one is granted. -/
theorem memory_lock_exclusive_regrant :
    ∃ w, run (step countedUuid) World.init regrant = some w ∧ w.granted.length = 2 ∧
      ∀ t, ∀ h ∈ w.granted, ∀ h' ∈ w.granted,
        Valid w.lock t h → Valid w.lock t h' → h.key = h'.key → h = h' :=
  ⟨_, rfl, rfl, (memory_lock_exclusive countedUuid countedUuid_injective _ ⟨regrant, rfl⟩).1⟩

end Rinfra.Lock
