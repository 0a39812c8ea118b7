import Mathlib.Algebra.Group.Nat.Defs

/-!
# Instants and durations

An `Instant` is a number of nanoseconds and so is a `Duration`. Adding the two
panics once the seconds no longer fit the `i64` of a monotonic time stamp.
-/

namespace Rinfra

def nanosPerSec : Nat := 1000000000

def nanosPerMilli : Nat := 1000000

def fromSecs (secs : Nat) : Nat := secs * nanosPerSec

def fromMillis (millis : Nat) : Nat := millis * nanosPerMilli

def asSecs (nanos : Nat) : Nat := nanos / nanosPerSec

def elapsed (now since : Nat) : Nat := now - since

def instantAdd (instant duration : Nat) : Option Nat :=
  if instant + duration < 2 ^ 63 * nanosPerSec then some (instant + duration) else none

/-- What one call reads off its clocks: the monotonic one and the Unix one. -/
structure Moment where
  instant : Nat
  unixMs : Nat
  deriving DecidableEq, Repr

theorem asSecs_elapsed (h : since ≤ now) :
    secs ≤ asSecs (elapsed now since) ↔ since + fromSecs secs ≤ now := by
  simp only [asSecs, elapsed, fromSecs, nanosPerSec]
  omega

theorem instantAdd_eq_some :
    instantAdd t d = some u ↔ t + d < 2 ^ 63 * nanosPerSec ∧ t + d = u := by
  simp [instantAdd]

end Rinfra
