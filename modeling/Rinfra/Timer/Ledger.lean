import Rinfra.Timer.Fleet

/-!
# The ledger of a fleet

A granted lease is in the lock's table until the attempt has given it back or
its time is up, so the leases of one key follow one another.
-/

namespace Rinfra.Timer

open Rinfra.Lib Rinfra.Lock

def Attempt.Over (a : Attempt) (now : Nat) : Prop :=
  (∃ began ended at_, a.progress = .released began ended at_ ∧ at_ ≤ now) ∨ a.until_ ≤ now

def Attempt.InOrder (a : Attempt) (now : Nat) : Prop :=
  match a.progress with
  | .waiting => a.at_ ≤ now
  | .executing began => a.at_ ≤ began ∧ began ≤ now
  | .through began ended => a.at_ ≤ began ∧ began ≤ ended ∧ ended ≤ now
  | .released began ended at_ => a.at_ ≤ began ∧ began ≤ ended ∧ ended ≤ at_ ∧ at_ ≤ now

theorem Attempt.Over.mono (h : Attempt.Over a now) (hle : now ≤ later) : a.Over later := by
  rcases h with ⟨began, ended, at_, hp, hat⟩ | hu
  · exact .inl ⟨began, ended, at_, hp, Nat.le_trans hat hle⟩
  · exact .inr (Nat.le_trans hu hle)

theorem Attempt.Over.advance (h : Attempt.Over a t) (now : Nat) : (a.advance now).Over t := by
  rcases h with ⟨began, ended, at_, hp, hat⟩ | hu
  · exact .inl ⟨began, ended, at_, by simp [Attempt.advance, hp, Progress.advance], hat⟩
  · exact .inr hu

theorem Attempt.InOrder.mono (h : Attempt.InOrder a now) (hle : now ≤ later) : a.InOrder later := by
  unfold Attempt.InOrder at *
  cases hp : a.progress <;> simp only [hp] at h ⊢ <;> omega

theorem Attempt.InOrder.advance (h : Attempt.InOrder a now) : (a.advance now).InOrder now := by
  unfold Attempt.InOrder at *
  cases hp : a.progress <;> simp only [hp, Attempt.advance, Progress.advance] at h ⊢ <;> omega

-- ---------------------------------------------------------------------------
-- The lock
-- ---------------------------------------------------------------------------

namespace Ledger

/-- A lease that was granted is in the table until it is over, and two leases
of one key are one after the other. -/
structure Sound (uuid : Nat → String) (d : Ledger) : Prop where
  fresh : ∀ k, d.count ≤ k → d.attempts k = none
  own : ∀ i k, d.current i = some k → ∃ a, d.attempts k = some a ∧ a.loop = i
  inOrder : ∀ k a, d.attempts k = some a → a.InOrder d.clock
  answered : ∀ k a, d.attempts k = some a → a.progress ≠ .waiting →
    a.reply = .granted ∨ a.reply = .failed
  leased : ∀ k a, d.attempts k = some a → a.reply = .granted →
    a.Over d.clock ∨ d.leases a.task.lockKey = some (uuid k, a.until_)
  apart : ∀ j k a b, j < k → d.attempts j = some a → d.attempts k = some b →
    a.reply = .granted → b.reply = .granted → a.task.lockKey = b.task.lockKey → a.Over b.at_

section
variable {uuid : Nat → String} {d d' : Ledger} {l : Loop} {i : LoopId}

theorem Sound.init : Sound uuid Ledger.init := by
  constructor <;> simp [Ledger.init]

theorem Sound.tick (hs : Sound uuid d) (hle : d.clock ≤ now) : Sound uuid (d.tick now) := by
  refine ⟨hs.fresh, hs.own, ?_, hs.answered, ?_, hs.apart⟩
  · intro k a ha
    exact (hs.inOrder k a ha).mono hle
  · intro k a ha hr
    exact (hs.leased k a ha hr).imp_left (·.mono hle)

theorem Sound.lt_count (hs : Sound uuid d) (ha : d.attempts k = some a) : k < d.count := by
  by_contra hk
  simp [hs.fresh k (by omega)] at ha

theorem attempt_cases (ha : (d.attempt i l reply).attempts k = some a) :
    k = d.count ∧ a = ⟨i, l.task, l.trigger, d.clock, reply, .waiting⟩ ∨
      k ≠ d.count ∧ d.attempts k = some a := by
  have ha : Function.update d.attempts d.count _ k = some a := ha
  by_cases hk : k = d.count
  · subst hk
    exact .inl ⟨rfl, by simpa using ha.symm⟩
  · exact .inr ⟨hk, by simpa [hk] using ha⟩

theorem attempt_new (d : Ledger) (i : LoopId) (l : Loop) (reply : Reply) :
    (d.attempt i l reply).attempts d.count =
      some ⟨i, l.task, l.trigger, d.clock, reply, .waiting⟩ := by
  simp [Ledger.attempt]

theorem Sound.attempt_old (hs : Sound uuid d) (ha : d.attempts k = some a) :
    (d.attempt i l reply).attempts k = some a := by
  have hk : k ≠ d.count := Nat.ne_of_lt (hs.lt_count ha)
  simpa [Ledger.attempt, hk] using ha

/-- Who takes the lease of a key finds that every earlier one is over. -/
theorem Sound.over_of_free (hs : Sound uuid d) (ha : d.attempts k = some a)
    (hr : a.reply = .granted) (hfree : d.leases.holder d.clock a.task.lockKey = none) :
    a.Over d.clock := by
  rcases hs.leased k a ha hr with hover | hlease
  · exact hover
  · exact .inr (Leases.holder_eq_none.mp hfree _ hlease)

theorem granted_iff : Reply.ofOutcome outcome = .granted ↔
    ∃ handle, outcome = .ok (some handle) := by
  cases outcome with
  | ok o => cases o <;> simp [Reply.ofOutcome]
  | err e => simp [Reply.ofOutcome]
  | panicked => simp [Reply.ofOutcome]

theorem Sound.attempted (hs : Sound uuid d) (h : d.Attempted uuid i l outcome d') :
    Sound uuid d' := by
  obtain ⟨⟨leases, rfl⟩, hleases, hgranted⟩ := h
  constructor
  · intro k hk
    by_contra hne
    obtain ⟨a, ha⟩ := Option.ne_none_iff_exists'.mp hne
    have hk : d.count + 1 ≤ k := hk
    rcases attempt_cases ha with ⟨rfl, -⟩ | ⟨-, ha⟩
    · omega
    · have := hs.lt_count ha
      omega
  · intro j k hj
    have hj : Function.update d.current i (some d.count) j = some k := hj
    by_cases hji : j = i
    · subst hji
      obtain rfl : d.count = k := by simpa using hj
      exact ⟨_, attempt_new .., rfl⟩
    · obtain ⟨a, ha, hloop⟩ := hs.own j k (by simpa [hji] using hj)
      exact ⟨a, hs.attempt_old ha, hloop⟩
  · intro k a ha
    rcases attempt_cases ha with ⟨-, rfl⟩ | ⟨-, ha⟩
    · exact Nat.le_refl _
    · exact hs.inOrder k a ha
  · intro k a ha hp
    rcases attempt_cases ha with ⟨-, rfl⟩ | ⟨-, ha⟩
    · exact absurd rfl hp
    · exact hs.answered k a ha hp
  · intro k a ha hr
    rcases attempt_cases ha with ⟨rfl, rfl⟩ | ⟨-, ha⟩
    · obtain ⟨handle, hout⟩ := granted_iff.mp hr
      exact .inr (hgranted handle hout).2.2.2
    · rcases hleases with heq | ⟨hfree, heq⟩
      · exact heq ▸ hs.leased k a ha hr
      · by_cases hkey : a.task.lockKey = l.task.lockKey
        · exact .inl (hs.over_of_free ha hr (hkey ▸ hfree))
        · apply (hs.leased k a ha hr).imp_right
          intro h
          rw [heq, Leases.set_of_ne hkey]
          exact h
  · intro j k a b hjk ha hb hra hrb hkey
    rcases attempt_cases ha with ⟨rfl, rfl⟩ | ⟨-, ha⟩
    · -- nothing was attempted after the new one
      rcases attempt_cases hb with ⟨rfl, -⟩ | ⟨-, hb⟩
      · omega
      · have := hs.lt_count hb
        omega
    · rcases attempt_cases hb with ⟨rfl, rfl⟩ | ⟨-, hb⟩
      · obtain ⟨handle, hout⟩ := granted_iff.mp hrb
        exact hs.over_of_free ha hra (hkey ▸ (hgranted handle hout).2.2.1)
      · exact hs.apart j k a b hjk ha hb hra hrb hkey

-- ---------------------------------------------------------------------------
-- Handlers begin and end
-- ---------------------------------------------------------------------------

@[simp] theorem advance_clock : (d.advance i).clock = d.clock := by
  unfold Ledger.advance
  split <;> rfl

@[simp] theorem advance_leases : (d.advance i).leases = d.leases := by
  unfold Ledger.advance
  split <;> rfl

@[simp] theorem advance_count : (d.advance i).count = d.count := by
  unfold Ledger.advance
  split <;> rfl

@[simp] theorem advance_current : (d.advance i).current = d.current := by
  unfold Ledger.advance
  split <;> rfl

theorem advance_attempts (hcur : d.current i = some k) : (d.advance i).attempts =
    Function.update d.attempts k ((d.attempts k).map (·.advance d.clock)) := by
  simp only [Ledger.advance, hcur]

theorem advance_self (hcur : d.current i = some k) (ha : d.attempts k = some a) :
    (d.advance i).attempts k = some (a.advance d.clock) := by
  simp [advance_attempts hcur, ha]

theorem advance_of_ne (hcur : d.current i = some k) (hj : j ≠ k) :
    (d.advance i).attempts j = d.attempts j := by
  simp [advance_attempts hcur, hj]

theorem advance_cases (hcur : d.current i = some k) (ha : (d.advance i).attempts j = some a) :
    (∃ b, j = k ∧ d.attempts j = some b ∧ a = b.advance d.clock) ∨
      j ≠ k ∧ d.attempts j = some a := by
  by_cases hj : j = k
  · subst hj
    rw [advance_attempts hcur, Function.update_self] at ha
    obtain ⟨b, hb, rfl⟩ := Option.map_eq_some_iff.mp ha
    exact .inl ⟨b, rfl, hb, rfl⟩
  · exact .inr ⟨hj, (advance_of_ne hcur hj).symm.trans ha⟩

theorem advance_old (hcur : d.current i = some k) (ha : (d.advance i).attempts j = some a) :
    ∃ b, d.attempts j = some b ∧ (a = b ∨ a = b.advance d.clock) := by
  rcases advance_cases hcur ha with ⟨b, -, hb, rfl⟩ | ⟨-, ha⟩
  · exact ⟨b, hb, .inr rfl⟩
  · exact ⟨a, ha, .inl rfl⟩

theorem Sound.advance (hs : Sound uuid d) (hcur : d.current i = some k)
    (hreply : ∀ a, d.attempts k = some a → a.reply = .granted ∨ a.reply = .failed) :
    Sound uuid (d.advance i) := by
  constructor
  · intro j hj
    rw [advance_count] at hj
    by_contra hne
    obtain ⟨a, ha⟩ := Option.ne_none_iff_exists'.mp hne
    obtain ⟨b, hb, -⟩ := advance_old hcur ha
    simp [hs.fresh j hj] at hb
  · intro i' j hj
    rw [advance_current] at hj
    obtain ⟨a, ha, hloop⟩ := hs.own i' j hj
    by_cases hjk : j = k
    · subst hjk
      exact ⟨_, advance_self hcur ha, hloop⟩
    · exact ⟨a, (advance_of_ne hcur hjk).trans ha, hloop⟩
  · intro j a ha
    rw [advance_clock]
    obtain ⟨b, hb, rfl | rfl⟩ := advance_old hcur ha
    · exact hs.inOrder j a hb
    · exact (hs.inOrder j b hb).advance
  · intro j a ha hp
    rcases advance_cases hcur ha with ⟨b, rfl, hb, rfl⟩ | ⟨-, ha⟩
    · exact hreply b hb
    · exact hs.answered j a ha hp
  · intro j a ha hr
    rw [advance_clock, advance_leases]
    obtain ⟨b, hb, rfl | rfl⟩ := advance_old hcur ha
    · exact hs.leased j a hb hr
    · exact (hs.leased j b hb hr).imp_left (·.advance d.clock)
  · intro j j' a a' hlt ha ha' hr hr' hkey
    obtain ⟨b, hb, heq⟩ := advance_old hcur ha
    obtain ⟨b', hb', heq'⟩ := advance_old hcur ha'
    have hover : a.reply = .granted → a.task.lockKey = b'.task.lockKey → b'.reply = .granted →
        a.Over b'.at_ := by
      intro hr hkey hr'
      rcases heq with rfl | rfl
      · exact hs.apart j j' a b' hlt hb hb' hr hr' hkey
      · exact (hs.apart j j' b b' hlt hb hb' hr hr' hkey).advance d.clock
    rcases heq' with rfl | rfl
    · exact hover hr hkey hr'
    · exact hover hr hkey hr'

theorem Sound.release (hs : Sound uuid d) (hu : Function.Injective uuid)
    (hcur : d.current i = some k) (ha : d.attempts k = some a)
    (hreply : a.reply = .granted) (hp : a.progress = .through began ended)
    (hhold : d.leases.holder d.clock a.task.lockKey = some (uuid k)) :
    Sound uuid { d.advance i with leases := d.leases.set a.task.lockKey none } := by
  have hadv : Sound uuid (d.advance i) := by
    apply hs.advance hcur
    intro a' ha'
    obtain rfl := Option.some.inj (ha.symm.trans ha')
    exact .inl hreply
  refine ⟨hadv.fresh, hadv.own, hadv.inOrder, hadv.answered, ?_, hadv.apart⟩
  intro j b hb hr
  by_cases hj : j = k
  · subst hj
    obtain rfl := Option.some.inj ((advance_self hcur ha).symm.trans hb)
    refine .inl (.inl ⟨began, ended, d.clock, ?_, ?_⟩)
    · simp [Attempt.advance, hp, Progress.advance]
    · simp
  · apply (hadv.leased j b hb hr).imp_right
    intro hlease
    rw [advance_leases] at hlease
    have hkey : b.task.lockKey ≠ a.task.lockKey := by
      intro heq
      obtain ⟨u, hlease', -⟩ := Leases.holder_eq_some.mp hhold
      rw [heq, hlease'] at hlease
      exact hj (hu (congrArg Prod.fst (Option.some.inj hlease)).symm)
    exact (Leases.set_of_ne hkey).trans hlease

end

end Ledger

end Rinfra.Timer
