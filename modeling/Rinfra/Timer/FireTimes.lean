import Rinfra.Lib.Transition
import Rinfra.Timer.Engine

/-!
# When a timer fires

One loop beside a monotonic clock: an event happens at an instant, and a sleep
is over at its deadline. The Unix clock is read anew each time and may jump.
What `tokio::time::sleep` makes of a delay is a parameter.
-/

namespace Rinfra.Timer

open Rinfra.Lib Rinfra.Lock

/-- The deadline of a sleep that begins at an instant. -/
structure Sleep where
  deadline : (now delay : Nat) → Nat

/-- Where the sum is an `Instant`, the sleep ends at it. -/
def Sleep.Lawful (sleep : Sleep) : Prop :=
  ∀ now delay, now + delay < 2 ^ 63 * nanosPerSec → sleep.deadline now delay = now + delay

/-- What a loop writes down before it sleeps, and the sleep. -/
structure Announcement where
  nowMs : Nat
  delay : Nat
  nextRun : Option Nat
  began : Nat
  deadline : Nat
  deriving DecidableEq, Repr

structure TimedLoop where
  loop : Loop
  clock : Nat
  /-- Of the latest sleep. -/
  deadline : Nat
  announced : List Announcement
  /-- The instants at which a sleep was over, the latest first. -/
  fires : List Nat
  /-- The instants at which the handler was called. -/
  calls : List Nat

structure TimedEvent where
  at_ : Nat
  e : LoopEvent

namespace TimedLoop

def init (task : TimerTask) (nowMs : Nat) (next : Option Nat) : TimedLoop where
  loop := (Engine.newLoop task nowMs next).loop
  clock := 0
  deadline := 0
  announced := []
  fires := []
  calls := []

/-- What is to be seen of a step of the loop. -/
def note (sleep : Sleep) (t : TimedLoop) (ev : TimedEvent) (loop : Loop) : TimedLoop :=
  match ev.e, loop.phase with
  | .announce nowMs, .sleeping delay =>
    let deadline := sleep.deadline ev.at_ delay
    let announcement : Announcement :=
      { nowMs, delay, nextRun := loop.state.nextRun, began := ev.at_, deadline }
    { t with deadline, announced := announcement :: t.announced }
  | .wake, _ => { t with fires := ev.at_ :: t.fires }
  | .start, _ => { t with calls := ev.at_ :: t.calls }
  | _, _ => t

/-- Nobody is woken before the deadline. -/
def Timely (t : TimedLoop) (ev : TimedEvent) : Prop :=
  t.clock ≤ ev.at_ ∧ match ev.e with
    | .wake => t.deadline ≤ ev.at_
    | _ => True

instance (t : TimedLoop) (ev : TimedEvent) : Decidable (t.Timely ev) := by
  unfold Timely
  split <;> infer_instance

def step (cron : Cron) (hasLock : Bool) (sleep : Sleep) (t : TimedLoop) (ev : TimedEvent) :
    Option TimedLoop :=
  if t.Timely ev then
    (t.loop.step cron hasLock ev.e).map fun loop =>
      { t.note sleep ev loop with loop, clock := ev.at_ }
  else none

/-- The sums are in the range of their types. -/
def Fits (t : TimedLoop) (ev : TimedEvent) : Prop :=
  match ev.e, t.loop.phase with
  | .announce nowMs, .announcing delay =>
    nowMs + delay / nanosPerMilli < 2 ^ 64 ∧ ev.at_ + delay < 2 ^ 63 * nanosPerSec
  | _, _ => True

instance (t : TimedLoop) (ev : TimedEvent) : Decidable (t.Fits ev) := by
  unfold Fits
  split <;> infer_instance

/-- The time stamps and deadlines are the sums, and what fires at an interval does so no
more often than the interval says. -/
structure OnTime (t : TimedLoop) : Prop where
  nextRun : ∀ a ∈ t.announced, a.nextRun = some (a.nowMs + a.delay / nanosPerMilli)
  deadline : ∀ a ∈ t.announced, a.deadline = a.began + a.delay
  fires : ∀ secs, t.loop.task.schedule = .interval secs →
    t.fires.Pairwise fun later earlier => earlier + fromSecs secs ≤ later
  calls : ∀ secs, t.loop.task.schedule = .interval secs →
    t.calls.Pairwise fun later earlier => earlier + fromSecs secs ≤ later

end TimedLoop

-- ---------------------------------------------------------------------------
-- Delays and time stamps
-- ---------------------------------------------------------------------------

theorem nextRunMs_eq (h : nowMs + delay / nanosPerMilli < 2 ^ 64) :
    nextRunMs nowMs delay = nowMs + delay / nanosPerMilli := by
  have hdelay : delay / nanosPerMilli % 2 ^ 64 = delay / nanosPerMilli :=
    Nat.mod_eq_of_lt (by omega)
  rw [nextRunMs, hdelay, Nat.mod_eq_of_lt h]

/-- A delay leads to the fire instant, to the millisecond, unless that is over. -/
theorem delay_reaches (h : computeNextFire cron reads schedule = .ok (some delay)) :
    ∃ fire, fireInstant cron reads schedule = some fire ∧
      (reads.now ≤ fire → fire ≤ reads.now + delay ∧ reads.now + delay < fire + nanosPerMilli) := by
  have hpos : 0 < nanosPerMilli := by decide
  cases schedule with
  | interval secs | delay secs =>
    obtain rfl : fromSecs secs = delay := by simpa [computeNextFire] using h
    exact ⟨_, rfl, fun _ => ⟨le_rfl, Nat.lt_add_of_pos_right hpos⟩⟩
  | cron expr =>
    simp only [computeNextFire] at h
    split at h
    · rename_i upcoming hparse
      split at h
      · rename_i next hnext
        refine ⟨next, by simp [fireInstant, hparse, hnext], fun hle => ?_⟩
        obtain rfl : next - reads.now = delay := by simpa [hle] using h
        omega
      · cases h
    · cases h
  | once atUnixMs =>
    refine ⟨_, rfl, fun hle => ?_⟩
    have hfloor := Nat.div_add_mod reads.now nanosPerMilli
    have hmod := Nat.mod_lt reads.now hpos
    by_cases hpast : atUnixMs ≤ reads.now / nanosPerMilli
    · obtain rfl : 0 = delay := by simpa [computeNextFire, hpast] using h
      simp only [fromMillis, nanosPerMilli] at *
      omega
    · obtain rfl : fromMillis (atUnixMs - reads.now / nanosPerMilli) = delay := by
        simpa [computeNextFire, hpast] using h
      simp only [fromMillis, nanosPerMilli] at *
      omega

-- ---------------------------------------------------------------------------
-- The loop
-- ---------------------------------------------------------------------------

def Phase.awake : Phase → Bool
  | .permitting | .locking | .starting _ => true
  | _ => false

/-- Where an interval's loop stands against its clock: the next fire, and the next call, is
as far off from the earlier ones as it has to be. -/
structure Paced (period : Nat) (t : TimedLoop) : Prop where
  past : ∀ at_ ∈ t.fires ++ t.calls, at_ ≤ t.clock
  announcing : ∀ delay, t.loop.phase = .announcing delay → delay = period
  sleeping : ∀ delay, t.loop.phase = .sleeping delay →
    ∀ at_ ∈ t.fires ++ t.calls, at_ + period ≤ t.deadline
  awake : t.loop.phase.awake = true → ∀ at_ ∈ t.calls, at_ + period ≤ t.clock
  fires : t.fires.Pairwise fun later earlier => earlier + period ≤ later
  calls : t.calls.Pairwise fun later earlier => earlier + period ≤ later

/-- Most of what a loop does is neither to lie down nor to wake up. -/
structure Quiet (l l' : Loop) : Prop where
  announcing : ∀ secs, l.task.schedule = .interval secs →
    ∀ delay, l'.phase = .announcing delay → delay = fromSecs secs
  sleeping : ∀ delay, l'.phase ≠ .sleeping delay
  awake : l'.phase.awake = true → l.phase.awake = true

def Phase.delayed : Phase → Bool
  | .announcing _ | .sleeping _ => true
  | _ => false

theorem quiet_of_not {l l' : Loop} (h : l'.phase.delayed = false)
    (hawake : l'.phase.awake = false ∨ l.phase.awake = true) : Quiet l l' := by
  refine ⟨fun _ _ delay hp => ?_, fun delay hp => ?_, fun hup => ?_⟩
  · simp [hp, Phase.delayed] at h
  · simp [hp, Phase.delayed] at h
  · rcases hawake with hdown | hbefore
    · simp [hdown] at hup
    · exact hbefore

theorem quiet_of_step {l l' : Loop} (h : l.step cron hasLock le = some l')
    (hannounce : ∀ nowMs, le ≠ .announce nowMs) (hwake : le ≠ .wake) : Quiet l l' := by
  cases Loop.goes h with
  | @due reads delay hp hnext =>
    refine ⟨fun secs hsecs d hd => ?_, by simp, by simp [Phase.awake]⟩
    obtain rfl : delay = d := by simpa using hd
    simpa [hsecs, computeNextFire, eq_comm] using hnext
  | announce hp => exact absurd rfl (hannounce _)
  | wake hp => exact absurd rfl hwake
  | never | invalid | fail | start | released => exact quiet_of_not rfl (.inl rfl)
  | permit hp =>
    refine quiet_of_not ?_ (.inr (by simp [hp, Phase.awake]))
    cases hneed : l.task.needLock hasLock <;> simp [Loop.goto, Phase.delayed]
  | locked hp | unlocked hp | lockPanicked hp =>
    exact quiet_of_not rfl (.inr (by simp [hp, Phase.awake]))
  | skipped hp =>
    refine quiet_of_not ?_ (.inr (by simp [hp, Phase.awake]))
    cases hrec : l.task.recurring <;> simp [Loop.again, Loop.goto, hrec, Phase.delayed]
  | @returned handle | @erred handle => cases handle <;> exact quiet_of_not rfl (.inl rfl)
  | panicked => exact quiet_of_not rfl (.inl rfl)
  | @record result nowMs hp =>
    apply quiet_of_not
    · cases hrec : l.task.recurring <;>
        simp [Loop.again, Loop.goto, Loop.recorded, hrec, Phase.delayed]
    · cases hrec : l.task.recurring <;>
        simp [Loop.again, Loop.goto, Loop.recorded, hrec, Phase.awake]

namespace TimedLoop

section
variable {cron : Cron} {hasLock : Bool} {sleep : Sleep} {t t' : TimedLoop} {ev : TimedEvent}

theorem step_some (h : t.step cron hasLock sleep ev = some t') :
    t.Timely ev ∧ ∃ loop, t.loop.step cron hasLock ev.e = some loop ∧
      t' = { t.note sleep ev loop with loop, clock := ev.at_ } := by
  unfold step at h
  split at h
  · rename_i htimely
    obtain ⟨loop, hl, rfl⟩ := Option.map_eq_some_iff.mp h
    exact ⟨htimely, loop, hl, rfl⟩
  · cases h

theorem step_announce (h : t.step cron hasLock sleep ⟨at_, .announce nowMs⟩ = some t') :
    t.clock ≤ at_ ∧ ∃ delay, t.loop.phase = .announcing delay ∧
      t' = {
        loop := {
          t.loop with
          state := {
            t.loop.state with nextRun := some (nextRunMs nowMs delay), status := .scheduled }
          phase := .sleeping delay }
        clock := at_
        deadline := sleep.deadline at_ delay
        announced :=
          { nowMs, delay, nextRun := some (nextRunMs nowMs delay), began := at_
            deadline := sleep.deadline at_ delay } :: t.announced
        fires := t.fires
        calls := t.calls } := by
  obtain ⟨⟨hle, -⟩, loop, hl, rfl⟩ := step_some h
  cases Loop.goes hl with
  | @announce delay _ hp => exact ⟨hle, delay, hp, rfl⟩

theorem step_wake (h : t.step cron hasLock sleep ⟨at_, .wake⟩ = some t') :
    t.clock ≤ at_ ∧ t.deadline ≤ at_ ∧ ∃ delay, t.loop.phase = .sleeping delay ∧
      t' = { t with
        loop := t.loop.goto .permitting, clock := at_, fires := at_ :: t.fires } := by
  obtain ⟨⟨hle, hdue⟩, loop, hl, rfl⟩ := step_some h
  cases Loop.goes hl with
  | @wake delay hp => exact ⟨hle, hdue, delay, hp, rfl⟩

theorem step_start (h : t.step cron hasLock sleep ⟨at_, .start⟩ = some t') :
    t.clock ≤ at_ ∧ ∃ handle, t.loop.phase = .starting handle ∧
      t' = { t with
        loop := (t.loop.setStatus .running).goto (.running handle)
        clock := at_
        calls := at_ :: t.calls } := by
  obtain ⟨⟨hle, -⟩, loop, hl, rfl⟩ := step_some h
  cases Loop.goes hl with
  | @start handle hp => exact ⟨hle, handle, hp, rfl⟩

theorem step_quiet (h : t.step cron hasLock sleep ⟨at_, le⟩ = some t')
    (hannounce : ∀ nowMs, le ≠ .announce nowMs) (hwake : le ≠ .wake) (hstart : le ≠ .start) :
    t.clock ≤ at_ ∧ ∃ loop, Quiet t.loop loop ∧ t' = { t with loop, clock := at_ } := by
  obtain ⟨⟨hle, -⟩, loop, hl, rfl⟩ := step_some h
  refine ⟨hle, loop, quiet_of_step hl hannounce hwake, ?_⟩
  cases le with
  | announce nowMs => exact absurd rfl (hannounce nowMs)
  | wake => exact absurd rfl hwake
  | start => exact absurd rfl hstart
  | _ => rfl

theorem step_schedule (h : t.step cron hasLock sleep ev = some t') :
    t'.loop.task = t.loop.task := by
  obtain ⟨-, loop, hl, rfl⟩ := step_some h
  exact step_task hl

end

end TimedLoop

section
variable {cron : Cron} {hasLock : Bool} {sleep : Sleep} {t t' : TimedLoop}

theorem Paced.announce (h : Paced period t) (hsleep : sleep.Lawful)
    (hfits : t.Fits ⟨at_, .announce nowMs⟩)
    (hs : t.step cron hasLock sleep ⟨at_, .announce nowMs⟩ = some t') : Paced period t' := by
  obtain ⟨hle, delay, hp, rfl⟩ := TimedLoop.step_announce hs
  simp only [TimedLoop.Fits, hp] at hfits
  obtain rfl := h.announcing delay hp
  refine ⟨fun at' hat => (h.past at' hat).trans hle, nofun, fun _ _ at' hat => ?_, nofun,
    h.fires, h.calls⟩
  have hpast := h.past at' hat
  simp only [hsleep at_ delay hfits.2]
  omega

theorem Paced.wake (h : Paced period t)
    (hs : t.step cron hasLock sleep ⟨at_, .wake⟩ = some t') : Paced period t' := by
  obtain ⟨hle, hdue, delay, hp, rfl⟩ := TimedLoop.step_wake hs
  have hslept := h.sleeping delay hp
  have hpaced : ∀ at' ∈ t.fires ++ t.calls, at' + period ≤ at_ :=
    fun at' hat => (hslept at' hat).trans hdue
  refine ⟨fun at' hat => ?_, nofun, nofun, fun _ at' hat => ?_, ?_, h.calls⟩
  · rcases List.mem_cons.mp hat with rfl | hat
    · exact le_rfl
    · exact (h.past at' hat).trans hle
  · exact hpaced at' (List.mem_append_right _ hat)
  · exact h.fires.cons fun at' hat => hpaced at' (List.mem_append_left _ hat)

theorem Paced.start (h : Paced period t)
    (hs : t.step cron hasLock sleep ⟨at_, .start⟩ = some t') : Paced period t' := by
  obtain ⟨hle, handle, hp, rfl⟩ := TimedLoop.step_start hs
  have hawake := h.awake (by simp [hp, Phase.awake])
  refine ⟨fun at' hat => ?_, nofun, nofun, nofun, h.fires, ?_⟩
  · simp only [List.mem_append, List.mem_cons] at hat
    rcases hat with hat | rfl | hat
    · exact (h.past at' (List.mem_append_left _ hat)).trans hle
    · exact le_rfl
    · exact (h.past at' (List.mem_append_right _ hat)).trans hle
  · exact h.calls.cons fun at' hat => (hawake at' hat).trans hle

theorem Paced.quiet (h : Paced (fromSecs secs) t) (hsecs : t.loop.task.schedule = .interval secs)
    (hle : t.clock ≤ at_) (hq : Quiet t.loop loop) :
    Paced (fromSecs secs) { t with loop, clock := at_ } :=
  ⟨fun at' hat => (h.past at' hat).trans hle, hq.announcing secs hsecs,
    fun delay hp => absurd hp (hq.sleeping delay),
    fun hawake at' hat => (h.awake (hq.awake hawake) at' hat).trans hle, h.fires, h.calls⟩

theorem Paced.step (h : Paced (fromSecs secs) t) (hsecs : t.loop.task.schedule = .interval secs)
    (hsleep : sleep.Lawful) (hfits : t.Fits ev) (hs : t.step cron hasLock sleep ev = some t') :
    Paced (fromSecs secs) t' := by
  obtain ⟨at_, le⟩ := ev
  cases le with
  | announce nowMs => exact h.announce hsleep hfits hs
  | wake => exact h.wake hs
  | start => exact h.start hs
  | _ =>
    obtain ⟨hle, loop, hq, rfl⟩ := TimedLoop.step_quiet hs nofun nofun nofun
    exact h.quiet hsecs hle hq

/-- What has been announced is exact, and an interval's loop is paced. -/
structure OnTimeInv (t : TimedLoop) : Prop where
  nextRun : ∀ a ∈ t.announced, a.nextRun = some (a.nowMs + a.delay / nanosPerMilli)
  deadline : ∀ a ∈ t.announced, a.deadline = a.began + a.delay
  paced : ∀ secs, t.loop.task.schedule = .interval secs → Paced (fromSecs secs) t

theorem OnTimeInv.init (task : TimerTask) (nowMs : Nat) (next : Option Nat) :
    OnTimeInv (.init task nowMs next) := by
  refine ⟨by simp [TimedLoop.init], by simp [TimedLoop.init], fun secs _ => ?_⟩
  constructor <;> simp [TimedLoop.init, Engine.newLoop]

theorem OnTimeInv.step (h : OnTimeInv t) (hsleep : sleep.Lawful) (hfits : t.Fits ev)
    (hs : t.step cron hasLock sleep ev = some t') : OnTimeInv t' := by
  have hpaced : ∀ secs, t'.loop.task.schedule = .interval secs → Paced (fromSecs secs) t' := by
    intro secs hsecs
    rw [TimedLoop.step_schedule hs] at hsecs
    exact (h.paced secs hsecs).step hsecs hsleep hfits hs
  suffices hannounced : ∀ a ∈ t'.announced, a ∈ t.announced ∨
      a.nextRun = some (a.nowMs + a.delay / nanosPerMilli) ∧ a.deadline = a.began + a.delay by
    refine ⟨fun a ha => ?_, fun a ha => ?_, hpaced⟩
    · rcases hannounced a ha with hold | hnew
      · exact h.nextRun a hold
      · exact hnew.1
    · rcases hannounced a ha with hold | hnew
      · exact h.deadline a hold
      · exact hnew.2
  intro a ha
  obtain ⟨at_, le⟩ := ev
  cases le with
  | announce nowMs =>
    obtain ⟨hle, delay, hp, rfl⟩ := TimedLoop.step_announce hs
    simp only [TimedLoop.Fits, hp] at hfits
    rcases List.mem_cons.mp ha with rfl | ha
    · exact .inr ⟨by rw [nextRunMs_eq hfits.1], hsleep at_ delay hfits.2⟩
    · exact .inl ha
  | wake =>
    obtain ⟨_, _, _, _, rfl⟩ := TimedLoop.step_wake hs
    exact .inl ha
  | start =>
    obtain ⟨_, _, _, rfl⟩ := TimedLoop.step_start hs
    exact .inl ha
  | _ =>
    obtain ⟨_, _, _, rfl⟩ := TimedLoop.step_quiet hs nofun nofun nofun
    exact .inl ha

end

/-- In every run whose sums are in range the time stamps and deadlines are exact, from the
first that `schedule` computes on, and what fires at an interval of `secs` fires no two
times within them, and calls no two times within them.

Premise: a sleep ends at its deadline where that is an `Instant`. -/
theorem fires_on_time (cron : Cron) (hasLock : Bool) (sleep : Sleep) (hsleep : sleep.Lawful)
    (task : TimerTask) (reads : Reads) (delay nowMs : Nat)
    (hnext : computeNextFire cron reads task.schedule = .ok (some delay))
    (hnow : nowMs + delay / nanosPerMilli < 2 ^ 64) (evs : List TimedEvent)
    (hfits : Guarded (TimedLoop.step cron hasLock sleep) TimedLoop.Fits
      (.init task nowMs (some delay)) evs) :
    (∃ fire, fireInstant cron reads task.schedule = some fire ∧
      (reads.now ≤ fire →
        fire ≤ reads.now + delay ∧ reads.now + delay < fire + nanosPerMilli)) ∧
    (TimedLoop.init task nowMs (some delay)).loop.state.nextRun =
      some (nowMs + delay / nanosPerMilli) ∧
    Always (TimedLoop.step cron hasLock sleep) TimedLoop.OnTime
      (.init task nowMs (some delay)) evs := by
  refine ⟨delay_reaches hnext, ?_, ?_⟩
  · simp [TimedLoop.init, Engine.newLoop, nextRunMs_eq hnow]
  · have hinv := hfits.invariant (OnTimeInv.init task nowMs (some delay))
      fun _ _ _ h hf hs => h.step hsleep hf hs
    apply hinv.mono
    exact fun t h => ⟨h.nextRun, h.deadline, fun secs hsecs => (h.paced secs hsecs).fires,
      fun secs hsecs => (h.paced secs hsecs).calls⟩

/-- A sleep whose end would not be an `Instant` lasts thirty years. -/
def tokioSleep : Sleep where
  deadline now delay := (instantAdd now delay).getD (now + fromSecs (86400 * 365 * 30))

theorem tokioSleep_lawful : tokioSleep.Lawful := by
  intro now delay h
  have hadd : instantAdd now delay = some (now + delay) := instantAdd_eq_some.mpr ⟨h, rfl⟩
  simp [tokioSleep, hadd]

/-- An interval's loop goes round twice, one round at `first` and one at `second`. -/
def twoRounds (first second : Nat) : List TimedEvent :=
  [⟨0, .compute ⟨0, 0⟩⟩, ⟨0, .announce 0⟩, ⟨first, .wake⟩, ⟨first, .permit⟩, ⟨first, .start⟩,
    ⟨first, .finish (.ok ())⟩, ⟨first, .record 0⟩, ⟨first, .compute ⟨0, 0⟩⟩, ⟨first, .announce 0⟩,
    ⟨second, .wake⟩, ⟨second, .permit⟩, ⟨second, .start⟩]

def everySecs (secs : Nat) : TimerTask := ⟨"t", "report", .interval secs, .node, none, []⟩

theorem fires_on_time_twoRounds :
    ∃ t, run (TimedLoop.step ⟨fun _ => .error ""⟩ false tokioSleep)
        (.init (everySecs 1) 0 (some (fromSecs 1))) (twoRounds (fromSecs 1) (fromSecs 2)) = some t ∧
      t.calls = [fromSecs 2, fromSecs 1] ∧ t.OnTime := by
  have hrun : ∃ t, run (TimedLoop.step ⟨fun _ => .error ""⟩ false tokioSleep)
      (.init (everySecs 1) 0 (some (fromSecs 1))) (twoRounds (fromSecs 1) (fromSecs 2)) = some t ∧
      t.calls = [fromSecs 2, fromSecs 1] := ⟨_, rfl, rfl⟩
  obtain ⟨t, ht, hcalls⟩ := hrun
  have hontime := fires_on_time ⟨fun _ => .error ""⟩ false tokioSleep tokioSleep_lawful
    (everySecs 1) ⟨0, 0⟩ (fromSecs 1) 0 rfl (by decide) (twoRounds (fromSecs 1) (fromSecs 2))
    (by decide)
  exact ⟨t, ht, hcalls, hontime.2.2.last ht⟩

/-- An interval of no seconds is accepted and spins, here a millisecond apart; for the
longest interval the time stamp is not the sum. -/
theorem interval_spins_or_wraps :
    (∃ t, run (TimedLoop.step ⟨fun _ => .error ""⟩ false tokioSleep)
        (.init (everySecs 0) 0 (some 0)) (twoRounds 0 nanosPerMilli) = some t ∧
      t.calls = [nanosPerMilli, 0] ∧
      ¬ t.calls.Pairwise fun later earlier => earlier + fromSecs (max 1 0) ≤ later) ∧
    ∃ delay, computeNextFire ⟨fun _ => .error ""⟩ ⟨0, 0⟩ (.interval (2 ^ 64 - 1)) =
        .ok (some delay) ∧
      (TimedLoop.init (everySecs (2 ^ 64 - 1)) 0 (some delay)).loop.state.nextRun ≠
        some (0 + delay / nanosPerMilli) :=
  ⟨⟨_, rfl, rfl, by decide⟩, _, rfl, by decide⟩

end Rinfra.Timer
