import Rinfra.Lock.Exclusion

/-!
# Waiting for the in-memory lock

A caller that waits is woken by a release, of any key, or by its deadline.
Nothing wakes it when an entry runs out, and a release that comes between its
last attempt and its `notified()` future does not reach it.

Here the clock moves by itself between the sections, so that an entry can run
out with nobody doing anything.
-/

namespace Rinfra.Lock

open Rinfra.Lib InMemoryLock

/-- Time passes, or somebody runs a section now. -/
inductive Turn
  | tick (now : Nat)
  | section_ (e : Event)
  deriving DecidableEq, Repr

def World.turn (newV4 : Nat → String) (w : World) : Turn → Option World
  | .tick now => if w.clock ≤ now then some { w with clock := now } else none
  | .section_ e => if e.moment.instant = w.clock then step newV4 w e else none

/-- A caller waits for the key at instant `t`, with no notification pending. -/
def World.Parked (w : World) (t : Nat) (key : String) : Prop :=
  ∃ c ttlSecs deadline, w.callers c = .waiting key ttlSecs deadline false ∧ t < deadline

def InMemoryLock.Held (lock : InMemoryLock) (t : Nat) (key : String) : Prop :=
  ∃ entry, lock.locks[key]? = some entry ∧ t < entry.expiresAt

/-- Whoever waits for a key waits for an entry that holds it. -/
def NoLostWakeup (w : World) : Prop :=
  ∀ key, w.Parked w.clock key → w.lock.Held w.clock key

/-- What nothing would be told about does not happen: an entry running out, or being
given no time at all, while somebody waits for its key, and a key becoming free between
a failed attempt and the wait that follows it. -/
def Told (w : World) : Turn → Prop
  | .tick now => ∀ key entry, w.lock.locks[key]? = some entry → w.Parked now key →
      now < entry.expiresAt
  | .section_ (.park at_ c) => ∀ key ttlSecs deadline,
      w.callers c = .refused key ttlSecs deadline → at_.instant < deadline →
        w.lock.Held at_.instant key
  | .section_ (.extend at_ handle ttlSecs) => ∀ entry,
      w.lock.locks[handle.key]? = some entry → entry.token = handle.token →
        w.Parked at_.instant handle.key →
          instantAdd at_.instant (fromSecs ttlSecs) ≠ some at_.instant
  | .section_ _ => True

-- ---------------------------------------------------------------------------
-- Entries that hold their key
-- ---------------------------------------------------------------------------

namespace InMemoryLock

section
variable {lock : InMemoryLock} {key : String}

theorem held_iff_holder : lock.Held t key ↔ (lock.leases.holder t key).isSome = true := by
  simp only [Held, Leases.holder, leases_getElem]
  cases lock.locks[key]? <;> simp

theorem Held.tryAcquire (h : lock.Held at_.instant key) :
    (lock.tryAcquire at_ key' ttl token).2.Held at_.instant key := by
  rw [held_iff_holder] at h ⊢
  cases hheld : lock.leases.holder at_.instant key' with
  | some owner => simpa [tryAcquire_held hheld] using h
  | none =>
    have hne : key ≠ key' := by
      rintro rfl
      simp [hheld] at h
    obtain ⟨lock₁, hsame, hacq⟩ := tryAcquire_free ttl token hheld
    rw [← hsame.holder] at h
    rw [hacq]
    split
    · simpa [leases_insert, Leases.holder, hne] using h
    · exact h

theorem Held.extend (h : lock.Held at_.instant key)
    (httl : ∀ entry, lock.locks[handle.key]? = some entry → entry.token = handle.token →
      handle.key = key → instantAdd at_.instant (fromSecs ttl) ≠ some at_.instant) :
    (lock.extend at_ handle ttl).2.Held at_.instant key := by
  obtain ⟨entry, hentry, hlive⟩ := h
  unfold InMemoryLock.extend
  cases hk : lock.locks[handle.key]? with
  | none => exact ⟨entry, hentry, hlive⟩
  | some own =>
    by_cases htok : own.token = handle.token
    · cases hend : instantAdd at_.instant (fromSecs ttl) with
      | none => simpa [htok] using ⟨entry, hentry, hlive⟩
      | some expiresAt =>
        by_cases hkey : handle.key = key
        · refine ⟨{ own with expiresAt }, by simp [htok, hkey], ?_⟩
          have hne : expiresAt ≠ at_.instant := by
            rintro rfl
            exact httl own hk htok hkey hend
          obtain ⟨-, hsum⟩ := instantAdd_eq_some.mp hend
          show at_.instant < expiresAt
          omega
        · refine ⟨entry, ?_, hlive⟩
          simpa [htok, Std.ExtTreeMap.getElem?_insert, hkey] using hentry
    · simpa [htok] using ⟨entry, hentry, hlive⟩

theorem release_false (h : lock.release handle = (false, lock')) : lock' = lock := by
  unfold InMemoryLock.release at h
  split at h
  · split at h
    · cases h
    · simpa using h.symm
  · simpa using h.symm

end

end InMemoryLock

-- ---------------------------------------------------------------------------
-- One turn
-- ---------------------------------------------------------------------------

section
variable {newV4 : Nat → String} {w w' : World}

theorem World.turn_section (h : w.turn newV4 (.section_ e) = some w') :
    e.moment.instant = w.clock ∧ w'.clock = w.clock ∧
      ∃ w₁, w.act newV4 e = some w₁ ∧ w'.lock = w₁.lock ∧ w'.callers = w₁.callers := by
  simp only [World.turn] at h
  split at h
  · rename_i hnow
    obtain ⟨-, w₁, hact, rfl⟩ := step_some h
    exact ⟨hnow, hnow, w₁, hact, rfl, rfl⟩
  · cases h

/-- With no more callers waiting than before, the entries they wait for are what counts. -/
theorem NoLostWakeup.of_fewer (h : NoLostWakeup w) (hclock : w'.clock = w.clock)
    (hcallers : ∀ c key ttlSecs deadline, w'.callers c = .waiting key ttlSecs deadline false →
      w.callers c = .waiting key ttlSecs deadline false)
    (hheld : ∀ key, w.Parked w.clock key → w.lock.Held w.clock key →
      w'.lock.Held w.clock key) : NoLostWakeup w' := by
  rintro key ⟨c, ttlSecs, deadline, hc, hlt⟩
  rw [hclock] at hlt ⊢
  have hparked : w.Parked w.clock key :=
    ⟨c, ttlSecs, deadline, hcallers c key ttlSecs deadline hc, hlt⟩
  exact hheld key hparked (h key hparked)

theorem World.tryAcquire_lock (newV4 : Nat → String) (w : World) (at_ : Moment) (key : String)
    (ttlSecs : Nat) :
    (w.tryAcquire newV4 at_ key ttlSecs).2.lock =
        (w.lock.tryAcquire at_ key ttlSecs (newV4 w.drawn)).2 ∧
      (w.tryAcquire newV4 at_ key ttlSecs).2.callers = w.callers := by
  unfold World.tryAcquire
  split <;> simp [*]

theorem World.setCaller_waiting
    (hp : ∀ key ttlSecs deadline, p ≠ .waiting key ttlSecs deadline false)
    (h : (w.setCaller c p).callers c' = .waiting key ttlSecs deadline false) :
    w.callers c' = .waiting key ttlSecs deadline false := by
  by_cases hc : c' = c
  · subst hc
    exact absurd (by simpa [World.setCaller] using h) (hp key ttlSecs deadline)
  · simpa [World.setCaller, hc] using h

/-- An attempt is no concern of those who wait. -/
theorem NoLostWakeup.attempt (h : NoLostWakeup w) (hclock : w'.clock = w.clock)
    (hlock : w'.lock = (w.tryAcquire newV4 at_ key ttlSecs).2.lock)
    (hnow : at_.instant = w.clock)
    (hcallers : ∀ c key ttlSecs deadline, w'.callers c = .waiting key ttlSecs deadline false →
      w.callers c = .waiting key ttlSecs deadline false) : NoLostWakeup w' := by
  apply h.of_fewer hclock hcallers
  intro key' _ hheld
  rw [hlock, (World.tryAcquire_lock newV4 w at_ key ttlSecs).1, ← hnow]
  exact Held.tryAcquire (hnow ▸ hheld)

theorem noLostWakeup_tick_iff (h : NoLostWakeup w) (ht : w.turn newV4 (.tick now) = some w') :
    NoLostWakeup w' ↔ Told w (.tick now) := by
  simp only [World.turn, Option.ite_none_right_eq_some, Option.some.injEq] at ht
  obtain ⟨hle, rfl⟩ := ht
  constructor
  · intro h' key entry hentry hparked
    obtain ⟨entry', hentry', hlive⟩ := h' key hparked
    obtain rfl := Option.some.inj (hentry.symm.trans hentry')
    exact hlive
  · rintro htold key ⟨c, ttlSecs, deadline, hc, hlt⟩
    obtain ⟨entry, hentry, -⟩ := h key ⟨c, ttlSecs, deadline, hc, hle.trans_lt hlt⟩
    exact ⟨entry, hentry, htold key entry hentry ⟨c, ttlSecs, deadline, hc, hlt⟩⟩

theorem noLostWakeup_park_iff (h : NoLostWakeup w)
    (ht : w.turn newV4 (.section_ (.park at_ c)) = some w') :
    NoLostWakeup w' ↔ Told w (.section_ (.park at_ c)) := by
  obtain ⟨hnow, hclock, w₁, hact, hlock, hcallers⟩ := World.turn_section ht
  replace hnow : at_.instant = w.clock := hnow
  simp only [World.act] at hact
  split at hact
  case h_2 => cases hact
  rename_i key ttlSecs deadline hc
  split at hact
  · -- its time is over
    rename_i hover
    cases hact
    constructor
    · intro _ key' ttlSecs' deadline' hc' hlt
      obtain ⟨rfl, rfl, rfl⟩ : key = key' ∧ ttlSecs = ttlSecs' ∧ deadline = deadline' := by
        simpa using hc.symm.trans hc'
      omega
    · intro _
      apply h.of_fewer hclock
      · intro c' key' ttlSecs' deadline' hc'
        rw [hcallers] at hc'
        exact World.setCaller_waiting (by simp) hc'
      · intro key' _ hheld
        rwa [hlock]
  · rename_i hleft
    cases hact
    have hlater : at_.instant < deadline := by omega
    constructor
    · intro h' key' ttlSecs' deadline' hc' _
      obtain ⟨rfl, rfl, rfl⟩ : key = key' ∧ ttlSecs = ttlSecs' ∧ deadline = deadline' := by
        simpa using hc.symm.trans hc'
      have hparked : w'.Parked w'.clock key := by
        refine ⟨c, ttlSecs, deadline, ?_, by rw [hclock, ← hnow]; exact hlater⟩
        simp [hcallers, World.setCaller]
      have hheld := h' key hparked
      rwa [hlock, hclock, ← hnow] at hheld
    · rintro htold key' ⟨c', ttlSecs', deadline', hc', hlt⟩
      rw [hclock] at hlt ⊢
      rw [hlock]
      by_cases hself : c' = c
      · subst hself
        obtain ⟨rfl, -, -⟩ : key = key' ∧ ttlSecs = ttlSecs' ∧ deadline = deadline' := by
          simpa [hcallers, World.setCaller] using hc'
        exact hnow ▸ htold key ttlSecs deadline hc hlater
      · have hold : w.callers c' = .waiting key' ttlSecs' deadline' false := by
          simpa [hcallers, World.setCaller, hself] using hc'
        exact h key' ⟨c', ttlSecs', deadline', hold, hlt⟩

theorem noLostWakeup_extend_iff (h : NoLostWakeup w)
    (ht : w.turn newV4 (.section_ (.extend at_ handle ttlSecs)) = some w') :
    NoLostWakeup w' ↔ Told w (.section_ (.extend at_ handle ttlSecs)) := by
  obtain ⟨hnow, hclock, w₁, hact, hlock, hcallers⟩ := World.turn_section ht
  replace hnow : at_.instant = w.clock := hnow
  simp only [World.act, Option.some.injEq] at hact
  subst hact
  constructor
  · intro h' entry hentry htok hparked
    obtain ⟨c, ttl, deadline, hc, hlt⟩ := hparked
    have hparked : w'.Parked w'.clock handle.key :=
      ⟨c, ttl, deadline, by simpa [hcallers] using hc, by simpa [hclock, ← hnow] using hlt⟩
    have hheld := h' handle.key hparked
    rw [hlock, hclock, ← hnow] at hheld
    intro hend
    obtain ⟨entry', hentry', hlive⟩ := hheld
    obtain rfl : { entry with expiresAt := at_.instant } = entry' := by
      simpa [InMemoryLock.extend, hentry, htok, hend] using hentry'
    exact absurd hlive (Nat.lt_irrefl _)
  · intro htold
    apply h.of_fewer hclock
    · intro c key ttl deadline hc
      simpa [hcallers] using hc
    · intro key hparked hheld
      rw [hlock, ← hnow]
      apply Held.extend (hnow ▸ hheld)
      rintro entry hentry htok rfl
      exact htold entry hentry htok (hnow ▸ hparked)

theorem noLostWakeup_release (h : NoLostWakeup w)
    (ht : w.turn newV4 (.section_ (.release at_ handle)) = some w') : NoLostWakeup w' := by
  obtain ⟨-, hclock, w₁, hact, hlock, hcallers⟩ := World.turn_section ht
  simp only [World.act] at hact
  split at hact
  · -- everybody who waits is notified
    cases hact
    rintro key ⟨c, ttlSecs, deadline, hc, -⟩
    rw [hcallers] at hc
    cases hw : w.callers c <;> simp [hw, Caller.notify] at hc
  · rename_i lock hrefused
    cases hact
    apply h.of_fewer hclock
    · intro c key ttlSecs deadline hc
      rwa [hcallers] at hc
    · intro key _ hheld
      rwa [hlock, release_false hrefused]

/-- Of the constant: the kernel would evaluate `instantAdd` to unfold an application. -/
theorem Caller.begin_eq : Caller.begin = fun at_ key ttlSecs waitTimeoutSecs =>
    match instantAdd at_.instant (fromSecs waitTimeoutSecs) with
    | some deadline => .trying key ttlSecs deadline
    | none => .returned .panicked := rfl

theorem Caller.begin_waiting (key' : String) (ttlSecs' deadline : Nat) :
    Caller.begin at_ key ttlSecs waitTimeoutSecs ≠ .waiting key' ttlSecs' deadline false := by
  have hend : ∀ end_ : Option Nat, (match end_ with
      | some deadline => .trying key ttlSecs deadline
      | none => .returned .panicked) ≠ Caller.waiting key' ttlSecs' deadline false := by
    intro end_
    cases end_ <;> simp
  rw [Caller.begin_eq]
  exact hend _

theorem noLostWakeup_caller (h : NoLostWakeup w) (ht : w.turn newV4 (.section_ e) = some w')
    (he : ∃ p c, (∀ key ttlSecs deadline, p ≠ .waiting key ttlSecs deadline false) ∧
      w.act newV4 e = some (w.setCaller c p)) : NoLostWakeup w' := by
  obtain ⟨-, hclock, w₁, hact, hlock, hcallers⟩ := World.turn_section ht
  obtain ⟨p, c, hp, hact'⟩ := he
  obtain rfl := Option.some.inj (hact.symm.trans hact')
  apply h.of_fewer hclock
  · intro c' key ttlSecs deadline hc'
    rw [hcallers] at hc'
    exact World.setCaller_waiting hp hc'
  · intro key _ hheld
    rwa [hlock]

theorem noLostWakeup_attempt (h : NoLostWakeup w)
    (ht : w.turn newV4 (.section_ (.attempt at_ c)) = some w') : NoLostWakeup w' := by
  obtain ⟨hnow, hclock, w₁, hact, hlock, hcallers⟩ := World.turn_section ht
  replace hnow : at_.instant = w.clock := hnow
  simp only [World.act] at hact
  split at hact
  case h_2 => cases hact
  rename_i key ttlSecs deadline hc
  obtain ⟨-, hothers⟩ := World.tryAcquire_lock newV4 w at_ key ttlSecs
  have hset : ∃ p, (∀ key ttlSecs deadline, p ≠ .waiting key ttlSecs deadline false) ∧
      w₁ = ((w.tryAcquire newV4 at_ key ttlSecs).2.setCaller c p) := by
    split at hact <;> rename_i hr <;> cases hact <;> rw [hr] <;> exact ⟨_, by simp, rfl⟩
  obtain ⟨p, hp, rfl⟩ := hset
  apply h.attempt hclock hlock hnow
  intro c' key' ttlSecs' deadline' hc'
  rw [hcallers] at hc'
  rw [← hothers]
  exact World.setCaller_waiting hp hc'

theorem noLostWakeup_iff (h : NoLostWakeup w) (ht : w.turn newV4 t = some w') :
    NoLostWakeup w' ↔ Told w t := by
  cases t with
  | tick now => exact noLostWakeup_tick_iff h ht
  | section_ e =>
    cases e with
    | park at_ c => exact noLostWakeup_park_iff h ht
    | extend at_ handle ttlSecs => exact noLostWakeup_extend_iff h ht
    | release at_ handle => exact iff_of_true (noLostWakeup_release h ht) trivial
    | attempt at_ c => exact iff_of_true (noLostWakeup_attempt h ht) trivial
    | tryAcquire at_ key ttlSecs =>
      refine iff_of_true ?_ trivial
      obtain ⟨hnow, hclock, w₁, hact, hlock, hcallers⟩ := World.turn_section ht
      simp only [World.act, Option.some.injEq] at hact
      subst hact
      apply h.attempt hclock hlock hnow
      intro c key' ttl deadline hc
      rwa [hcallers, (World.tryAcquire_lock newV4 w at_ key ttlSecs).2] at hc
    | acquire at_ c key ttlSecs waitTimeoutSecs =>
      refine iff_of_true (noLostWakeup_caller h ht ?_) trivial
      obtain ⟨-, -, w₁, hact, -, -⟩ := World.turn_section ht
      simp only [World.act] at hact ⊢
      split at hact
      · exact ⟨_, c, Caller.begin_waiting, rfl⟩
      · cases hact
    | wake at_ c =>
      refine iff_of_true (noLostWakeup_caller h ht ?_) trivial
      obtain ⟨-, -, w₁, hact, -, -⟩ := World.turn_section ht
      simp only [World.act] at hact ⊢
      split at hact
      · rename_i key ttlSecs deadline notified hc
        split at hact
        · rename_i hwoken
          refine ⟨.trying key ttlSecs deadline, c, by simp, ?_⟩
          rw [if_pos hwoken]
          rfl
        · cases hact
      · cases hact

end

/-- Nobody waits for a free key exactly in the runs in which no key becomes free
untold: none by an entry that runs out while it is waited for, none between a failed
attempt and the wait after it. -/
theorem noLostWakeup_iff_told (newV4 : Nat → String) (ts : List Turn) :
    Always (World.turn newV4) NoLostWakeup World.init ts ↔
      Guarded (World.turn newV4) Told World.init ts := by
  have hstart : NoLostWakeup World.init := by
    rintro key ⟨c, ttlSecs, deadline, hc, -⟩
    simp [World.init] at hc
  exact always_iff_guarded (I := fun _ => True) trivial hstart (fun _ _ _ _ _ _ _ => trivial)
    fun _ _ _ _ h ht => noLostWakeup_iff h ht

/-- The holder releases after the other caller's failed attempt and before it waits. -/
def releasedBetween : List Turn :=
  [.section_ (.tryAcquire ⟨0, 0⟩ "k" 60), .section_ (.acquire ⟨0, 0⟩ 1 "k" 60 30),
    .section_ (.attempt ⟨0, 0⟩ 1), .section_ (.release ⟨0, 0⟩ ⟨"k", countedUuid 0, 0⟩),
    .section_ (.park ⟨0, 0⟩ 1)]

def ranOut : List Turn :=
  [.section_ (.tryAcquire ⟨0, 0⟩ "k" 1), .section_ (.acquire ⟨0, 0⟩ 1 "k" 60 30),
    .section_ (.attempt ⟨0, 0⟩ 1), .section_ (.park ⟨0, 0⟩ 1), .tick (fromSecs 2)]

/-- A caller is parked for a key that is free. -/
theorem not_noLostWakeup {w : World} (hwaiting : w.callers c = .waiting key ttlSecs deadline false)
    (hlt : w.clock < deadline) (hfree : w.lock.leases.holder w.clock key = none) :
    w.Parked w.clock key ∧ ¬ w.lock.Held w.clock key ∧ ¬ NoLostWakeup w := by
  have hparked : w.Parked w.clock key := ⟨c, ttlSecs, deadline, hwaiting, hlt⟩
  have hnone : ¬ w.lock.Held w.clock key := by simp [held_iff_holder, hfree]
  exact ⟨hparked, hnone, fun h => hnone (h key hparked)⟩

/-- Either way the caller waits on for a key that is free. -/
theorem waits_for_free_key :
    (∃ w, run (World.turn countedUuid) World.init releasedBetween = some w ∧
      w.Parked w.clock "k" ∧ ¬ w.lock.Held w.clock "k" ∧ ¬ NoLostWakeup w) ∧
    ∃ w, run (World.turn countedUuid) World.init ranOut = some w ∧
      w.Parked w.clock "k" ∧ ¬ w.lock.Held w.clock "k" ∧ ¬ NoLostWakeup w := by
  constructor
  · obtain ⟨w, hw, hwaiting, hlt, hfree⟩ :
        ∃ w, run (World.turn countedUuid) World.init releasedBetween = some w ∧
          w.callers 1 = .waiting "k" 60 (fromSecs 30) false ∧ w.clock < fromSecs 30 ∧
          w.lock.leases.holder w.clock "k" = none := ⟨_, rfl, by decide, by decide, by decide⟩
    exact ⟨w, hw, not_noLostWakeup hwaiting hlt hfree⟩
  · obtain ⟨w, hw, hwaiting, hlt, hfree⟩ :
        ∃ w, run (World.turn countedUuid) World.init ranOut = some w ∧
          w.callers 1 = .waiting "k" 60 (fromSecs 30) false ∧ w.clock < fromSecs 30 ∧
          w.lock.leases.holder w.clock "k" = none := ⟨_, rfl, by decide, by decide, by decide⟩
    exact ⟨w, hw, not_noLostWakeup hwaiting hlt hfree⟩

end Rinfra.Lock
