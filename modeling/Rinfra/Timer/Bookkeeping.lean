import Rinfra.Lib.Transition
import Rinfra.Timer.Engine

/-!
# What the books say of a loop

A loop writes its state down before it sleeps, before it calls the handler and
after that; `list_tasks` shows what is written. Beside the engine stands how
often each loop has called its handler, and how often the handler has ended.

A panic of the handler ends the loop where the books say it is running, and a
single execution that another node has the lock for ends it where they say it is
yet to come.
-/

namespace Rinfra.Timer

open Rinfra.Lib

structure TimerTaskInfo where
  id : String
  name : String
  schedule : TimerSchedule
  scope : TimerScope
  status : TimerTaskStatus
  lastRun : Option Nat
  nextRun : Option Nat
  runCount : Nat
  deriving DecidableEq, Repr

/-- An entry shares its loop's state. -/
def Engine.listTasks (s : Engine) : List TimerTaskInfo :=
  s.tasks.toList.filterMap fun (_, entry) => (s.loops entry.handle).map fun sp =>
    { id := entry.task.id
      name := entry.task.name
      schedule := entry.task.schedule
      scope := entry.task.scope
      status := sp.loop.state.status
      lastRun := sp.loop.state.lastRun
      nextRun := sp.loop.state.nextRun
      runCount := sp.loop.state.runCount }

def LoopEvent.starts : LoopEvent → Nat
  | .start => 1
  | _ => 0

def LoopEvent.ends : LoopEvent → Nat
  | .finish _ => 1
  | _ => 0

def Event.count (f : LoopEvent → Nat) (n : Nat) : Event → Nat
  | .loop m le => if m = n then f le else 0
  | _ => 0

structure Tally where
  engine : Engine
  started : Nat → Nat
  ended : Nat → Nat

namespace Tally

def init : Tally := ⟨.init, fun _ => 0, fun _ => 0⟩

def step (engine : SimpleTimerEngine) (t : Tally) (e : Event) : Option Tally :=
  (t.engine.step engine e).map fun s =>
    { engine := s
      started := fun n => t.started n + e.count LoopEvent.starts n
      ended := fun n => t.ended n + e.count LoopEvent.ends n }

end Tally

/-- No execution of the handler is about to start, in progress or being recorded. -/
def Phase.idle : Phase → Bool
  | .starting _ | .running _ | .releasing .. | .recording _ => false
  | _ => true

structure Booked (sp : Spawned) (started ended : Nat) : Prop where
  count : sp.loop.phase.idle = true → sp.loop.state.runCount = ended
  status : sp.loop.phase.idle = true → sp.loop.state.status ≠ .running
  once : sp.loop.task.recurring = false → started ≤ 1
  settled : sp.aborted = false → sp.dropped = false → sp.loop.phase.over = true →
    sp.loop.state.status = .completed ∨ sp.loop.state.status = .failed

def Tally.Matches (t : Tally) : Prop :=
  ∀ n sp, t.engine.loops n = some sp → Booked sp (t.started n) (t.ended n)

/-- The handler does not panic, and a loop that nobody has aborted does not end at the
lock: its try does not panic either, and is refused only where the task comes again. -/
def Spawned.Bookable (sp : Spawned) : LoopEvent → Prop
  | .finish outcome => outcome ≠ .panicked
  | .tryAcquire outcome => sp.aborted = false →
      outcome ≠ .panicked ∧ (outcome = .ok none → sp.loop.task.recurring = true)
  | _ => True

def Tally.Bookable (t : Tally) : Event → Prop
  | .loop n le => ∀ sp, t.engine.loops n = some sp → sp.Bookable le
  | _ => True

-- ---------------------------------------------------------------------------
-- One loop
-- ---------------------------------------------------------------------------

/-- Up to the lock nothing has been said of this execution. -/
def Phase.early : Phase → Bool
  | .computing | .failing | .announcing _ | .sleeping _ | .permitting | .locking => true
  | _ => false

/-- Executions that have ended and are not in the books yet. -/
def Phase.unrecorded : Phase → Nat
  | .releasing .. | .recording _ => 1
  | _ => 0

/-- The handler has been called since the loop last slept. -/
def Phase.begun : Phase → Nat
  | .running _ | .releasing .. | .recording _ | .ended => 1
  | _ => 0

/-- What holds of a loop wherever it stands, but for the end. -/
structure Tallied (sp : Spawned) (started ended : Nat) : Prop where
  ended_eq : sp.loop.phase.over = false →
    ended = sp.loop.state.runCount + sp.loop.phase.unrecorded
  calm : sp.loop.phase.early = true → sp.loop.state.status ≠ .running
  scheduled : sp.loop.phase.early = true → sp.aborted = false → sp.dropped = false →
    sp.loop.state.status = .scheduled
  started_le : sp.loop.task.recurring = false → started ≤ sp.loop.phase.begun

section
variable {sp sp' : Spawned} {started ended : Nat}

theorem Phase.begun_le (p : Phase) : p.begun ≤ 1 := by
  cases p <;> simp [Phase.begun]

/-- Before its end a loop is booked as it is tallied. -/
theorem Tallied.booked (h : Tallied sp started ended) (hover : sp.loop.phase.over = false) :
    Booked sp started ended := by
  have hended := h.ended_eq hover
  refine ⟨fun hidle => ?_, fun hidle => ?_, fun hsingle => ?_, fun _ _ => by simp [hover]⟩
  · cases hp : sp.loop.phase <;> simp_all [Phase.idle, Phase.unrecorded]
  · apply h.calm
    cases hp : sp.loop.phase <;> simp_all [Phase.idle, Phase.early, Phase.over]
  · exact (h.started_le hsingle).trans (Phase.begun_le _)

theorem newLoop_tallied (task : TimerTask) (nowMs : Nat) (next : Option Nat) :
    Tallied (Engine.newLoop task nowMs next) 0 0 := by
  constructor <;> simp [Engine.newLoop, Phase.unrecorded]

/-- What others do to a loop: they abort it, and may mark it as cancelled. -/
structure Untouched (sp sp' : Spawned) : Prop where
  task : sp'.loop.task = sp.loop.task
  phase : sp'.loop.phase = sp.loop.phase
  runCount : sp'.loop.state.runCount = sp.loop.state.runCount
  status : sp'.loop.state.status = sp.loop.state.status ∨
    sp'.loop.state.status = .cancelled ∧ (sp'.aborted = true ∨ sp'.dropped = true)
  aborted : sp'.aborted = false → sp'.dropped = false → sp.aborted = false ∧ sp.dropped = false

theorem Untouched.refl (sp : Spawned) : Untouched sp sp :=
  ⟨rfl, rfl, rfl, .inl rfl, fun ha hd => ⟨ha, hd⟩⟩

theorem Untouched.abort (sp : Spawned) : Untouched sp sp.abort := by
  unfold Spawned.abort
  split
  · exact ⟨rfl, rfl, rfl, .inl rfl, by simp⟩
  · exact ⟨rfl, rfl, rfl, .inl rfl, by simp⟩

theorem Untouched.cancel (sp : Spawned) : Untouched sp sp.cancel := by
  unfold Spawned.cancel Spawned.abort
  split
  · exact ⟨rfl, rfl, rfl, .inr ⟨rfl, .inl rfl⟩, by simp⟩
  · exact ⟨rfl, rfl, rfl, .inr ⟨rfl, .inr rfl⟩, by simp⟩

theorem Untouched.not_running (hu : Untouched sp sp') (h : sp.loop.state.status ≠ .running) :
    sp'.loop.state.status ≠ .running := by
  rcases hu.status with hsame | ⟨hcancelled, -⟩
  · rwa [hsame]
  · simp [hcancelled]

theorem Untouched.status_eq (hu : Untouched sp sp') (ha : sp'.aborted = false)
    (hd : sp'.dropped = false) : sp'.loop.state.status = sp.loop.state.status := by
  rcases hu.status with hsame | ⟨-, hgone⟩
  · exact hsame
  · simp [ha, hd] at hgone

theorem Tallied.untouched (h : Tallied sp started ended) (hu : Untouched sp sp') :
    Tallied sp' started ended := by
  refine ⟨?_, ?_, ?_, ?_⟩
  · rw [hu.phase, hu.runCount]
    exact h.ended_eq
  · rw [hu.phase]
    exact fun hearly => hu.not_running (h.calm hearly)
  · rw [hu.phase]
    intro hearly ha hd
    obtain ⟨ha', hd'⟩ := hu.aborted ha hd
    rw [hu.status_eq ha hd]
    exact h.scheduled hearly ha' hd'
  · rw [hu.task, hu.phase]
    exact h.started_le

theorem Booked.untouched (h : Booked sp started ended) (hu : Untouched sp sp') :
    Booked sp' started ended := by
  refine ⟨?_, ?_, ?_, ?_⟩
  · rw [hu.phase, hu.runCount]
    exact h.count
  · rw [hu.phase]
    exact fun hidle => hu.not_running (h.status hidle)
  · rw [hu.task]
    exact h.once
  · rw [hu.phase]
    intro ha hd hover
    obtain ⟨ha', hd'⟩ := hu.aborted ha hd
    rw [hu.status_eq ha hd]
    exact h.settled ha' hd' hover

theorem computeNextFire_ne_none (cron : Cron) (reads : Reads) (schedule : TimerSchedule) :
    computeNextFire cron reads schedule ≠ .ok none := by
  cases schedule with
  | cron expr =>
    simp only [computeNextFire]
    split
    · split <;> simp
    · simp
  | interval secs | delay secs => simp [computeNextFire]
  | once atUnixMs =>
    simp only [computeNextFire]
    split <;> simp

theorem Tallied.over (h : Tallied sp started ended) (htask : l'.task = sp.loop.task)
    (hp : l'.phase = .ended) (ended' : Nat) :
    Tallied { sp with loop := l' } started ended' := by
  refine ⟨by simp [hp, Phase.over], by simp [hp, Phase.early], by simp [hp, Phase.early], ?_⟩
  rw [hp, htask]
  exact fun hs => (h.started_le hs).trans (Phase.begun_le _)

theorem Tallied.late (hp : l'.phase.early = false)
    (hended : l'.phase.over = false → ended = l'.state.runCount + l'.phase.unrecorded)
    (hstarted : l'.task.recurring = false → started ≤ l'.phase.begun) :
    Tallied { sp with loop := l' } started ended :=
  ⟨hended, by simp [hp], by simp [hp], hstarted⟩

theorem Tallied.early (h : Tallied sp started ended) (hp : sp.loop.phase.early = true)
    (htask : l'.task = sp.loop.task) (hcount : l'.state.runCount = sp.loop.state.runCount)
    (hstatus : l'.state.status = sp.loop.state.status ∨ l'.state.status = .scheduled)
    (hp' : l'.phase.early = true ∨ ∃ handle, l'.phase = .starting handle) :
    Tallied { sp with loop := l' } started ended := by
  have hbefore : sp.loop.phase.over = false ∧ sp.loop.phase.unrecorded = 0 ∧
      sp.loop.phase.begun = 0 := by
    cases hphase : sp.loop.phase <;>
      simp_all [Phase.early, Phase.over, Phase.unrecorded, Phase.begun]
  have hafter : l'.phase.unrecorded = 0 ∧ l'.phase.begun = 0 := by
    cases hphase : l'.phase <;> simp_all [Phase.early, Phase.unrecorded, Phase.begun]
  obtain ⟨hover, hnone, hbegun⟩ := hbefore
  refine ⟨fun _ => ?_, fun _ => ?_, fun _ ha hd => ?_, fun hs => ?_⟩
  · rw [hcount, hafter.1, h.ended_eq hover, hnone]
  · rcases hstatus with hsame | hset
    · rw [hsame]
      exact h.calm hp
    · simp [hset]
  · rcases hstatus with hsame | hset
    · rw [hsame]
      exact h.scheduled hp ha hd
    · exact hset
  · rw [hafter.2, ← hbegun]
    exact h.started_le (htask ▸ hs)

theorem Tallied.step (h : Tallied sp started ended)
    (hl : sp.loop.step cron hasLock le = some l') :
    Tallied { sp with loop := l' } (started + le.starts) (ended + le.ends) := by
  have htask := step_task hl
  have hthrough : ∀ handle result, sp.loop.phase = .running handle →
      Tallied { sp with loop := sp.loop.goto (afterHandler handle result) } started
        (ended + 1) := by
    intro handle result hp
    have hended := h.ended_eq (by simp [hp, Phase.over])
    have hstarted := h.started_le
    simp only [hp] at hended hstarted
    cases handle
    · exact .late rfl (fun _ => congrArg (· + 1) hended) hstarted
    · exact .late rfl (fun _ => congrArg (· + 1) hended) hstarted
  cases Loop.goes hl with
  | due hp | invalid hp | wake hp =>
    exact h.early (by simp [hp, Phase.early]) rfl rfl (.inl rfl) (.inl rfl)
  | never hp | fail hp | lockPanicked hp | panicked hp => exact h.over htask rfl _
  | announce hp => exact h.early (by simp [hp, Phase.early]) rfl rfl (.inr rfl) (.inl rfl)
  | permit hp =>
    refine h.early (by simp [hp, Phase.early]) rfl rfl (.inl rfl) ?_
    cases hneed : sp.loop.task.needLock hasLock
    · exact .inr ⟨none, by simp [Loop.goto]⟩
    · exact .inl (by simp [Loop.goto, Phase.early])
  | locked hp | unlocked hp =>
    exact h.early (by simp [hp, Phase.early]) rfl rfl (.inl rfl) (.inr ⟨_, rfl⟩)
  | skipped hp =>
    cases hrec : sp.loop.task.recurring
    · exact h.over htask (by simp [Loop.again, Loop.goto, hrec]) _
    · exact h.early (by simp [hp, Phase.early]) rfl rfl (.inl rfl)
        (.inl (by simp [Loop.again, Loop.goto, hrec, Phase.early]))
  | start hp =>
    obtain ⟨hended, hcalm, hscheduled, hstarted⟩ := h
    simp only [hp] at hended hstarted
    exact .late rfl hended fun hs => Nat.add_le_add_right (hstarted hs) 1
  | returned hp | erred hp => exact hthrough _ _ hp
  | released hp =>
    obtain ⟨hended, hcalm, hscheduled, hstarted⟩ := h
    simp only [hp] at hended hstarted
    exact .late rfl hended hstarted
  | @record result nowMs hp =>
    obtain ⟨hended, hcalm, hscheduled, hstarted⟩ := h
    simp only [hp] at hended hstarted
    cases hrec : sp.loop.task.recurring
    · have hover : ((sp.loop.recorded result nowMs).again).phase = .ended := by
        simp [Loop.again, Loop.goto, Loop.recorded, hrec]
      refine ⟨by simp [hover, Phase.over], by simp [hover, Phase.early],
        by simp [hover, Phase.early], ?_⟩
      rw [hover]
      exact hstarted
    · have hnext : ((sp.loop.recorded result nowMs).again).phase = .computing := by
        simp [Loop.again, Loop.goto, Loop.recorded, hrec]
      have hstatus : ((sp.loop.recorded result nowMs).again).state.status = .scheduled := by
        simp [Loop.again, Loop.goto, Loop.recorded, hrec]
      refine ⟨fun _ => ?_, by simp [hstatus], by simp [hstatus], fun hs => ?_⟩
      · rw [hnext]
        exact hended rfl
      · rw [htask, hrec] at hs
        cases hs

theorem Tallied.booked_of (h : Tallied sp started ended)
    (hlast : sp.loop.phase.over = true → sp.loop.state.runCount = ended ∧
      (sp.loop.state.status = .completed ∨ sp.loop.state.status = .failed)) :
    Booked sp started ended := by
  cases hover : sp.loop.phase.over
  · exact h.booked hover
  · obtain ⟨hcount, hstatus⟩ := hlast hover
    refine ⟨fun _ => hcount, fun _ => ?_, fun hs => ?_, fun _ _ _ => hstatus⟩
    · rcases hstatus with hst | hst <;> simp [hst]
    · exact (h.started_le hs).trans (Phase.begun_le _)

/-- The lock ends a loop where the books say it is scheduled. -/
theorem Tallied.tryAcquire_iff (h : Tallied sp started ended) (hdropped : sp.dropped = false)
    (hl : sp.loop.step cron hasLock (.tryAcquire outcome) = some l') :
    Booked { sp with loop := l' } started ended ↔ sp.Bookable (.tryAcquire outcome) := by
  have h' := h.step hl
  -- at its end an aborted loop is not asked for a status
  have hend : ∀ l'', sp.loop.phase = .locking → l''.task = sp.loop.task →
      l''.state = sp.loop.state → l''.phase = .ended →
      (Booked { sp with loop := l'' } started ended ↔ sp.aborted = true) := by
    intro l'' hp htask hstate hphase
    have hcount := h.ended_eq (by simp [hp, Phase.over])
    have hearly : sp.loop.phase.early = true := by simp [hp, Phase.early]
    simp only [hp, Phase.unrecorded, Nat.add_zero] at hcount
    constructor
    · intro hb
      by_contra hne
      have hstatus := hb.settled (by simpa using hne) hdropped (by simp [hphase, Phase.over])
      simp [hstate, h.scheduled hearly (by simpa using hne) hdropped] at hstatus
    · intro haborted
      refine ⟨fun _ => ?_, fun _ => ?_, ?_, by simp [haborted]⟩
      · rw [hstate, hcount]
      · rw [hstate]
        exact h.calm hearly
      · rw [htask]
        exact fun hs => (h.started_le hs).trans (Phase.begun_le _)
  cases Loop.goes hl with
  | locked | unlocked => exact iff_of_true (h'.booked rfl) fun _ => ⟨by simp, by simp⟩
  | skipped hp =>
    cases hrec : sp.loop.task.recurring
    · rw [hend sp.loop.again hp rfl rfl (by simp [Loop.again, Loop.goto, hrec])]
      simp [Spawned.Bookable, hrec]
    · refine iff_of_true (h'.booked ?_) fun _ => ⟨by simp, fun _ => hrec⟩
      simp [Loop.again, Loop.goto, hrec, Phase.over]
  | lockPanicked hp =>
    rw [hend (sp.loop.goto .ended) hp rfl rfl rfl]
    simp [Spawned.Bookable]

/-- A panic of the handler ends a loop whose execution is not counted. -/
theorem Tallied.finish_iff (h : Tallied sp started ended)
    (hl : sp.loop.step cron hasLock (.finish outcome) = some l') :
    Booked { sp with loop := l' } started (ended + 1) ↔ sp.Bookable (.finish outcome) := by
  have h' := h.step hl
  have hnotover : ∀ handle result, (afterHandler handle result).over = false := by
    intro handle result
    cases handle <;> rfl
  cases Loop.goes hl with
  | returned | erred =>
    exact iff_of_true (h'.booked (hnotover _ _)) (by simp [Spawned.Bookable])
  | panicked hp =>
    have hcount := h.ended_eq (by simp [hp, Phase.over])
    simp only [hp, Phase.unrecorded, Nat.add_zero] at hcount
    refine iff_of_false (fun hb => ?_) (by simp [Spawned.Bookable])
    have hlost := hb.count rfl
    simp only [Loop.goto] at hlost
    omega

theorem Tallied.booked_iff (h : Tallied sp started ended) (hdropped : sp.dropped = false)
    (hl : sp.loop.step cron hasLock le = some l') :
    Booked { sp with loop := l' } (started + le.starts) (ended + le.ends) ↔ sp.Bookable le := by
  have h' := h.step hl
  cases Loop.goes hl with
  | locked | skipped | unlocked | lockPanicked => exact h.tryAcquire_iff hdropped hl
  | returned | erred | panicked => exact h.finish_iff hl
  | never hp hnone => exact absurd hnone (computeNextFire_ne_none _ _ _)
  | due | invalid | announce | wake | start | released =>
    exact iff_of_true (h'.booked rfl) trivial
  | permit hp =>
    refine iff_of_true (h'.booked ?_) trivial
    cases hneed : sp.loop.task.needLock hasLock <;> simp [Loop.goto, Phase.over]
  | fail hp =>
    have hcount := h.ended_eq (by simp [hp, Phase.over])
    simp only [hp, Phase.unrecorded] at hcount
    exact iff_of_true (h'.booked_of fun _ => ⟨hcount.symm, .inr rfl⟩) trivial
  | @record result nowMs hp =>
    refine iff_of_true (h'.booked_of fun hover => ?_) trivial
    have hcount := h.ended_eq (by simp [hp, Phase.over])
    simp only [hp, Phase.unrecorded] at hcount
    cases hrec : sp.loop.task.recurring
    · refine ⟨hcount.symm, ?_⟩
      cases result <;> simp [Loop.again, Loop.goto, Loop.recorded, hrec]
    · simp [Loop.again, Loop.goto, Loop.recorded, hrec, Phase.over] at hover

end

-- ---------------------------------------------------------------------------
-- The engine
-- ---------------------------------------------------------------------------

namespace Engine

section
variable {engine : SimpleTimerEngine} {s s' : Engine} {sp sp' : Spawned}

/-- What an event that is not a loop's own does to the loops: it spawns one, or
leaves all where they are. -/
structure Aside (s s' : Engine) : Prop where
  spawned : s'.spawned = s.spawned ∨ s'.spawned = s.spawned + 1
  loops : ∀ m sp', s'.loops m = some sp' →
    (∃ sp, s.loops m = some sp ∧ Untouched sp sp') ∨
      m = s.spawned ∧ s'.spawned = s.spawned + 1 ∧
        ∃ task nowMs next, sp' = newLoop task nowMs next
  stay : ∀ m, s'.loops m = none → s.loops m = none

theorem Aside.same (hspawned : s'.spawned = s.spawned) (hloops : s'.loops = s.loops) :
    Aside s s' := by
  refine ⟨.inl hspawned, fun m sp' hm => .inl ⟨sp', ?_, .refl _⟩, fun m hm => ?_⟩
  · rwa [← hloops]
  · rwa [← hloops]

theorem Aside.spawn (task : TimerTask) (nowMs : Nat) (next : Option Nat)
    (hspawned : s'.spawned = s.spawned + 1)
    (hloops : s'.loops = (s.spawnLoop task nowMs next).loops) : Aside s s' := by
  refine ⟨.inr hspawned, fun m sp' hm => ?_, fun m hm => ?_⟩
  · rw [hloops] at hm
    obtain ⟨rfl, rfl⟩ | ⟨-, hm⟩ := setLoop_cases hm
    · exact .inr ⟨rfl, hspawned, task, nowMs, next, rfl⟩
    · exact .inl ⟨sp', hm, .refl _⟩
  · rw [hloops] at hm
    exact setLoop_eq_none hm

theorem Aside.map {f : Nat → Spawned → Spawned} (hspawned : s'.spawned = s.spawned)
    (hloops : ∀ m, s'.loops m = (s.loops m).map (f m)) (hf : ∀ m sp, Untouched sp (f m sp)) :
    Aside s s' := by
  refine ⟨.inl hspawned, fun m sp' hm => .inl ?_, fun m hm => ?_⟩
  · rw [hloops] at hm
    obtain ⟨sp, hsp, rfl⟩ := Option.map_eq_some_iff.mp hm
    exact ⟨sp, hsp, hf m sp⟩
  · rw [hloops] at hm
    exact Option.map_eq_none_iff.mp hm

theorem Aside.set (hn : s.loops n = some sp) (hu : Untouched sp sp') :
    Aside s (s.setLoop n sp') := by
  refine ⟨.inl rfl, fun m sp'' hm => .inl ?_, fun m hm => setLoop_eq_none hm⟩
  obtain ⟨rfl, rfl⟩ | ⟨-, hm⟩ := setLoop_cases hm
  · exact ⟨sp, hn, hu⟩
  · exact ⟨sp'', hm, .refl _⟩

/-- An event is one loop's own, or none's. -/
theorem own_or_aside (e : Event) : (∃ n le, e = .loop n le) ∨ ∀ n le, e ≠ .loop n le := by
  by_cases he : ∃ n le, e = .loop n le
  · exact .inl he
  · exact .inr fun n le heq => he ⟨n, le, heq⟩

theorem aside_of_step (h : s.step engine e = some s') (he : ∀ n le, e ≠ .loop n le) :
    Aside s s' := by
  cases goes h with
  | scheduled | spawned => exact .spawn _ _ _ rfl rfl
  | refused | inserted | absent => exact .same rfl rfl
  | @cancelled id entry _ =>
    refine .map rfl (s.cancelEntry_loops id entry) fun m sp => ?_
    split
    · exact .cancel sp
    · exact .refl sp
  | shutdown =>
    refine .map rfl s.shutdownAll_loops fun m sp => ?_
    split
    · exact .abort sp
    · exact .refl sp
  | polled hsp => exact .set hsp ⟨rfl, rfl, rfl, .inl rfl, fun ha hd => ⟨ha, hd⟩⟩
  | @parked n sp hsp hlive _ _ =>
    have hdropped : sp.dropped = false := by simp_all [Spawned.live]
    exact .set hsp ⟨rfl, rfl, rfl, .inl rfl, fun ha _ => ⟨ha, hdropped⟩⟩
  | loop => exact absurd rfl (he _ _)

end

end Engine

namespace Tally

/-- Every loop is tallied, and the numbers of those to come have not been used. -/
structure Inv (t : Tally) : Prop where
  loops : ∀ n sp, t.engine.loops n = some sp → Tallied sp (t.started n) (t.ended n)
  fresh : ∀ n, t.engine.spawned ≤ n →
    t.engine.loops n = none ∧ t.started n = 0 ∧ t.ended n = 0

section
variable {engine : SimpleTimerEngine} {t t' : Tally} {sp sp' : Spawned}

theorem Inv.init : Inv Tally.init where
  loops n sp h := by simp [Tally.init, Engine.init] at h
  fresh n _ := ⟨rfl, rfl, rfl⟩

theorem count_of_ne {e : Event} (h : ∀ n le, e ≠ .loop n le) (f : LoopEvent → Nat) (n : Nat) :
    e.count f n = 0 := by
  cases e with
  | loop n le => exact absurd rfl (h n le)
  | _ => rfl

theorem step_some (h : t.step engine e = some t') :
    t.engine.step engine e = some t'.engine ∧
      (∀ n, t'.started n = t.started n + e.count LoopEvent.starts n) ∧
      ∀ n, t'.ended n = t.ended n + e.count LoopEvent.ends n := by
  obtain ⟨s, hs, rfl⟩ := Option.map_eq_some_iff.mp h
  exact ⟨hs, fun _ => rfl, fun _ => rfl⟩

theorem step_own (h : t.step engine (.loop n le) = some t') :
    ∃ sp l', t.engine.loops n = some sp ∧ sp.dropped = false ∧
      sp.loop.step engine.cron engine.hasLock le = some l' ∧
      t'.engine.spawned = t.engine.spawned ∧
      t'.engine.loops n = some { sp with loop := l' } ∧
      t'.started n = t.started n + le.starts ∧ t'.ended n = t.ended n + le.ends ∧
      ∀ m, m ≠ n → t'.engine.loops m = t.engine.loops m ∧ t'.started m = t.started m ∧
        t'.ended m = t.ended m := by
  obtain ⟨hs, hstarted, hended⟩ := step_some h
  obtain ⟨sp, l', hsp, hlive, hl, heq⟩ := Engine.step_loop hs
  refine ⟨sp, l', hsp, by simp_all [Spawned.live], hl, by rw [heq]; rfl, ?_, ?_, ?_, ?_⟩
  · rw [heq]
    exact Engine.setLoop_same
  · simp [hstarted, Event.count]
  · simp [hended, Event.count]
  · intro m hne
    refine ⟨?_, ?_, ?_⟩
    · rw [heq]
      exact Engine.setLoop_of_ne hne
    · simp [hstarted, Event.count, Ne.symm hne]
    · simp [hended, Event.count, Ne.symm hne]

theorem Inv.aside (hi : Inv t) (ha : t.engine.Aside t'.engine)
    (hstarted : ∀ n, t'.started n = t.started n) (hended : ∀ n, t'.ended n = t.ended n) :
    Inv t' := by
  constructor
  · intro n sp' hn
    rw [hstarted, hended]
    rcases ha.loops n sp' hn with ⟨sp, hsp, hu⟩ | ⟨rfl, -, task, nowMs, next, rfl⟩
    · exact (hi.loops n sp hsp).untouched hu
    · obtain ⟨-, hs, he⟩ := hi.fresh _ le_rfl
      rw [hs, he]
      exact newLoop_tallied task nowMs next
  · intro n hn
    obtain ⟨hnone, hs, he⟩ := hi.fresh n (by rcases ha.spawned with h | h <;> omega)
    refine ⟨?_, by rw [hstarted, hs], by rw [hended, he]⟩
    cases hn' : t'.engine.loops n with
    | none => rfl
    | some sp' =>
      rcases ha.loops n sp' hn' with ⟨sp, hsp, -⟩ | ⟨rfl, hone, -⟩
      · simp [hnone] at hsp
      · omega

theorem Inv.step (hi : Inv t) (h : t.step engine e = some t') : Inv t' := by
  obtain ⟨n, le, rfl⟩ | he := Engine.own_or_aside e
  · obtain ⟨sp, l', hsp, -, hl, hspawned, hown, hs, hd, hothers⟩ := step_own h
    have hlt : n < t.engine.spawned := by
      by_contra hge
      simp [(hi.fresh n (Nat.le_of_not_lt hge)).1] at hsp
    constructor
    · intro m sp' hm
      by_cases hne : m = n
      · subst hne
        obtain rfl := Option.some.inj (hown.symm.trans hm)
        rw [hs, hd]
        exact (hi.loops m sp hsp).step hl
      · obtain ⟨hsame, hs', hd'⟩ := hothers m hne
        rw [hs', hd']
        exact hi.loops m sp' (hsame ▸ hm)
    · intro m hm
      rw [hspawned] at hm
      obtain ⟨hsame, hs', hd'⟩ := hothers m (by omega)
      rw [hsame, hs', hd']
      exact hi.fresh m hm
  · obtain ⟨hengine, hstarted, hended⟩ := step_some h
    simp only [count_of_ne he, Nat.add_zero] at hstarted hended
    exact hi.aside (Engine.aside_of_step hengine he) hstarted hended

theorem matches_iff (hi : Inv t) (hm : t.Matches) (h : t.step engine e = some t') :
    t'.Matches ↔ t.Bookable e := by
  obtain ⟨n, le, rfl⟩ | he := Engine.own_or_aside e
  · obtain ⟨sp, l', hsp, hdropped, hl, -, hown, hs, hd, hothers⟩ := step_own h
    have hiff := (hi.loops n sp hsp).booked_iff hdropped hl
    rw [← hs, ← hd] at hiff
    constructor
    · intro hm' sp' hsp'
      obtain rfl := Option.some.inj (hsp.symm.trans hsp')
      exact hiff.mp (hm' n _ hown)
    · intro hbook m sp' hsp'
      by_cases hne : m = n
      · subst hne
        obtain rfl := Option.some.inj (hown.symm.trans hsp')
        exact hiff.mpr (hbook sp hsp)
      · obtain ⟨hsame, hs', hd'⟩ := hothers m hne
        rw [hs', hd']
        exact hm m sp' (hsame ▸ hsp')
  · obtain ⟨hengine, hstarted, hended⟩ := step_some h
    simp only [count_of_ne he, Nat.add_zero] at hstarted hended
    have haside := Engine.aside_of_step hengine he
    refine iff_of_true ?_ (by cases e <;> simp_all [Tally.Bookable])
    intro n sp' hn
    rw [hstarted, hended]
    rcases haside.loops n sp' hn with ⟨sp, hsp, hu⟩ | ⟨rfl, -, task, nowMs, next, rfl⟩
    · exact (hm n sp hsp).untouched hu
    · obtain ⟨-, hs, he⟩ := hi.fresh _ le_rfl
      rw [hs, he]
      exact (newLoop_tallied task nowMs next).booked rfl

end

end Tally

/-- The books of every loop match what it does exactly in the runs in which no handler
panics and no loop ends at the lock that nobody has aborted. -/
theorem books_match_iff (engine : SimpleTimerEngine) (es : List Event) :
    Always (Tally.step engine) Tally.Matches Tally.init es ↔
      Guarded (Tally.step engine) Tally.Bookable Tally.init es := by
  have hstart : Tally.init.Matches := by
    intro n sp h
    simp [Tally.init, Engine.init] at h
  exact always_iff_guarded Tally.Inv.init hstart (fun _ _ _ hi _ hs _ => hi.step hs)
    fun _ _ _ hi hm hs => Tally.matches_iff hi hm hs

def upToLock : List Event :=
  let task : TimerTask := ⟨"t", "report", .delay 1, .cluster, none, []⟩
  [.schedule 0 task ⟨0, 0⟩ 0, .poll 0, .loop 0 (.compute ⟨0, 0⟩), .loop 0 (.announce 0),
    .loop 0 .wake, .loop 0 .permit]

def panics : List Event :=
  upToLock ++ [.loop 0 (.tryAcquire (.ok (some ⟨"timer:t", "uuid", 1000⟩))), .loop 0 .start,
    .loop 0 (.finish .panicked)]

def skipped : List Event := upToLock ++ [.loop 0 (.tryAcquire (.ok none))]

/-- Both loops have ended; the tasks are listed, one as running and one as yet to come. -/
theorem books_of_ended_loops :
    (∃ t, run (Tally.step ⟨⟨fun _ => .error ""⟩, true, 4⟩) Tally.init panics = some t ∧
      t.started 0 = 1 ∧ t.ended 0 = 1 ∧
      (t.engine.listTasks.map fun info => (info.status, info.runCount)) = [(.running, 0)] ∧
      ¬ t.Matches) ∧
    ∃ t, run (Tally.step ⟨⟨fun _ => .error ""⟩, true, 4⟩) Tally.init skipped = some t ∧
      t.started 0 = 0 ∧
      (t.engine.listTasks.map fun info => (info.status, info.runCount)) = [(.scheduled, 0)] ∧
      ¬ t.Matches := by
  constructor
  · refine ⟨_, rfl, rfl, rfl, by decide, fun h => ?_⟩
    exact absurd ((h 0 _ rfl).count rfl) (by decide)
  · refine ⟨_, rfl, rfl, by decide, fun h => ?_⟩
    exact absurd ((h 0 _ rfl).settled rfl rfl rfl) (by decide)

end Rinfra.Timer
