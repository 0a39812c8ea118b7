import Mathlib.Logic.Function.Basic
import Std.Data.ExtTreeMap.Lemmas
import Rinfra.Timer.Loop

/-!
# The timer engine

`SimpleTimerEngine` spawns one loop for each call of `schedule` and keeps its
join handle in the tasks map under the task's id. A spawned loop is either
polled by a worker or parked at an await. Aborting a parked loop drops it;
a polled one goes on until it would park.

`cancel` and `shutdown` hold the map from its change to their return, so each is
one step, taken where it returns. `schedule` is one step where nobody comes
between its spawn and its insert, and two where somebody does.
-/

namespace Rinfra.Timer

structure SimpleTimerEngine where
  cron : Cron
  hasLock : Bool
  maxConcurrent : Nat

/-- `handle` is the number of the loop; the loop's state is shared with it. -/
structure TaskEntry where
  task : TimerTask
  handle : Nat

structure Spawned where
  loop : Loop
  polling : Bool
  aborted : Bool
  dropped : Bool

def Spawned.live (sp : Spawned) : Bool := !sp.dropped && !sp.loop.phase.over

def Spawned.abort (sp : Spawned) : Spawned :=
  if sp.polling then { sp with aborted := true } else { sp with dropped := true }

/-- `cancel` also marks the state it shares with the loop. -/
def Spawned.cancel (sp : Spawned) : Spawned :=
  { sp.abort with loop := sp.loop.setStatus .cancelled }

inductive ScheduleCall
  | idle
  | spawned (task : TimerTask) (handle : Nat)
  | done (result : Except AppError Unit)

structure Engine where
  tasks : Std.ExtTreeMap String TaskEntry compare
  loops : Nat → Option Spawned
  /-- How many loops have been spawned. -/
  spawned : Nat
  calls : Nat → ScheduleCall
  /-- The ids cancelled, or shut down, and not scheduled since. -/
  stopped : String → Bool

inductive Event
  | schedule (c : Nat) (task : TimerTask) (reads : Reads) (nowMs : Nat)
  | spawn (c : Nat) (task : TimerTask) (reads : Reads) (nowMs : Nat)
  | insert (c : Nat)
  | cancel (id : String)
  | shutdown
  | poll (n : Nat)
  | park (n : Nat)
  | loop (n : Nat) (e : LoopEvent)

namespace Engine

def init : Engine where
  tasks := ∅
  loops _ := none
  spawned := 0
  calls _ := .idle
  stopped _ := false

def setCall (s : Engine) (c : Nat) (call : ScheduleCall) : Engine :=
  { s with calls := Function.update s.calls c call }

def setLoop (s : Engine) (n : Nat) (sp : Spawned) : Engine :=
  { s with loops := Function.update s.loops n (some sp) }

def newLoop (task : TimerTask) (nowMs : Nat) (next : Option Nat) : Spawned where
  loop := ⟨task, ⟨.scheduled, none, next.map (nextRunMs nowMs), 0⟩, .computing, none⟩
  polling := false
  aborted := false
  dropped := false

/-- `spawn_timer_loop`, and the loop's number. -/
def spawnLoop (s : Engine) (task : TimerTask) (nowMs : Nat) (next : Option Nat) : Engine :=
  { s.setLoop s.spawned (newLoop task nowMs next) with
    spawned := s.spawned + 1
    stopped := Function.update s.stopped task.id false }

/-- The entry that is replaced goes away, and with it its join handle; the loop
behind it is not aborted. -/
def insertTask (s : Engine) (task : TimerTask) (handle : Nat) : Engine :=
  { s with tasks := s.tasks.insert task.id ⟨task, handle⟩ }

def permitsHeld (s : Engine) : Nat :=
  ((List.range s.spawned).filter fun n => match s.loops n with
    | some sp => sp.live && sp.loop.phase.holdsPermit
    | none => false).length

def mayStep (engine : SimpleTimerEngine) (s : Engine) : LoopEvent → Bool
  | .permit => s.permitsHeld < engine.maxConcurrent
  | _ => true

def cancelEntry (s : Engine) (id : String) (entry : TaskEntry) : Engine :=
  { s with
    tasks := s.tasks.erase id
    loops := fun n => (s.loops n).map fun sp =>
      if n = entry.handle then sp.cancel else sp
    stopped := Function.update s.stopped id true }

def shutdownAll (s : Engine) : Engine :=
  { s with
    tasks := ∅
    loops := fun n => (s.loops n).map fun sp =>
      if s.tasks.toList.any fun p => p.2.handle = n then sp.abort else sp
    stopped := fun _ => true }

def step (engine : SimpleTimerEngine) (s : Engine) : Event → Option Engine
  | .schedule c task reads nowMs => do
    let .idle := s.calls c | none
    match computeNextFire engine.cron reads task.schedule with
    | .ok next =>
      pure (((s.spawnLoop task nowMs next).insertTask task s.spawned).setCall c (.done (.ok ())))
    | .error e => pure (s.setCall c (.done (.error e)))
  | .spawn c task reads nowMs => do
    let .idle := s.calls c | none
    let .ok next := computeNextFire engine.cron reads task.schedule | none
    pure ((s.spawnLoop task nowMs next).setCall c (.spawned task s.spawned))
  | .insert c => do
    let .spawned task n := s.calls c | none
    pure ((s.insertTask task n).setCall c (.done (.ok ())))
  | .cancel id =>
    match s.tasks[id]? with
    | some entry => some (s.cancelEntry id entry)
    | none => some s
  | .shutdown => some s.shutdownAll
  | .poll n => do
    let some sp := s.loops n | none
    if sp.live && !sp.polling then pure (s.setLoop n { sp with polling := true }) else none
  | .park n => do
    let some sp := s.loops n | none
    if sp.live && sp.polling && sp.loop.phase.awaits then
      pure (s.setLoop n { sp with polling := false, dropped := sp.aborted })
    else none
  | .loop n e => do
    let some sp := s.loops n | none
    if sp.live && sp.polling && s.mayStep engine e then
      let loop ← sp.loop.step engine.cron engine.hasLock e
      pure (s.setLoop n { sp with loop })
    else none

-- ---------------------------------------------------------------------------
-- What a step does
-- ---------------------------------------------------------------------------

inductive Goes (engine : SimpleTimerEngine) (s : Engine) : Event → Engine → Prop
  | scheduled (hc : s.calls c = .idle)
      (hnext : computeNextFire engine.cron reads task.schedule = .ok next) :
      Goes engine s (.schedule c task reads nowMs)
        (((s.spawnLoop task nowMs next).insertTask task s.spawned).setCall c (.done (.ok ())))
  | refused (hc : s.calls c = .idle)
      (herr : computeNextFire engine.cron reads task.schedule = .error e) :
      Goes engine s (.schedule c task reads nowMs) (s.setCall c (.done (.error e)))
  | spawned (hc : s.calls c = .idle)
      (hnext : computeNextFire engine.cron reads task.schedule = .ok next) :
      Goes engine s (.spawn c task reads nowMs)
        ((s.spawnLoop task nowMs next).setCall c (.spawned task s.spawned))
  | inserted (hc : s.calls c = .spawned task n) :
      Goes engine s (.insert c) ((s.insertTask task n).setCall c (.done (.ok ())))
  | cancelled {id : String} {entry : TaskEntry} (hentry : s.tasks[id]? = some entry) :
      Goes engine s (.cancel id) (s.cancelEntry id entry)
  | absent {id : String} (hentry : s.tasks[id]? = none) : Goes engine s (.cancel id) s
  | shutdown : Goes engine s .shutdown s.shutdownAll
  | polled (hsp : s.loops n = some sp) (hlive : sp.live = true) (hpolling : sp.polling = false) :
      Goes engine s (.poll n) (s.setLoop n { sp with polling := true })
  | parked (hsp : s.loops n = some sp) (hlive : sp.live = true) (hpolling : sp.polling = true)
      (hawaits : sp.loop.phase.awaits = true) :
      Goes engine s (.park n) (s.setLoop n { sp with polling := false, dropped := sp.aborted })
  | loop (hsp : s.loops n = some sp) (hlive : sp.live = true) (hpolling : sp.polling = true)
      (hmay : s.mayStep engine le = true)
      (hl : sp.loop.step engine.cron engine.hasLock le = some l') :
      Goes engine s (.loop n le) (s.setLoop n { sp with loop := l' })

theorem goes {s s' : Engine} (h : s.step engine e = some s') : s.Goes engine e s' := by
  cases e with
  | schedule c task reads nowMs =>
    simp only [Engine.step] at h
    split at h
    · split at h <;> cases h
      · exact .scheduled ‹_› ‹_›
      · exact .refused ‹_› ‹_›
    · cases h
  | spawn c task reads nowMs =>
    simp only [Engine.step] at h
    split at h
    · split at h <;> cases h
      exact .spawned ‹_› ‹_›
    · cases h
  | insert c =>
    simp only [Engine.step] at h
    split at h <;> cases h
    exact .inserted ‹_›
  | cancel id =>
    simp only [Engine.step] at h
    split at h <;> cases h
    · exact .cancelled ‹_›
    · exact .absent ‹_›
  | shutdown =>
    cases h
    exact .shutdown
  | poll n =>
    simp only [Engine.step] at h
    split at h
    · split at h <;> cases h
      rename_i sp hsp hc
      obtain ⟨hlive, hpolling⟩ : sp.live = true ∧ sp.polling = false := by simpa using hc
      exact .polled hsp hlive hpolling
    · cases h
  | park n =>
    simp only [Engine.step] at h
    split at h
    · split at h <;> cases h
      rename_i sp hsp hc
      simp only [Bool.and_eq_true] at hc
      exact .parked hsp hc.1.1 hc.1.2 hc.2
    · cases h
  | loop n le =>
    simp only [Engine.step] at h
    split at h
    · split at h
      · rename_i sp hsp hc
        simp only [Bool.and_eq_true] at hc
        obtain ⟨l', hl, h⟩ := Option.bind_eq_some_iff.mp h
        cases h
        exact .loop hsp hc.1.1 hc.1.2 hc.2 hl
      · cases h
    · cases h

-- ---------------------------------------------------------------------------
-- What a step does to one loop
-- ---------------------------------------------------------------------------

section
variable {engine : SimpleTimerEngine} {s s' : Engine} {sp sp' : Spawned}

@[simp] theorem setLoop_same : (s.setLoop n sp).loops n = some sp := Function.update_self ..

theorem setLoop_of_ne (h : m ≠ n) : (s.setLoop n sp).loops m = s.loops m :=
  Function.update_of_ne h ..

theorem setLoop_cases (hm : (s.setLoop n sp).loops m = some sp') :
    m = n ∧ sp = sp' ∨ m ≠ n ∧ s.loops m = some sp' := by
  by_cases hne : m = n
  · subst hne
    exact .inl ⟨rfl, Option.some.inj (setLoop_same.symm.trans hm)⟩
  · exact .inr ⟨hne, (setLoop_of_ne hne).symm.trans hm⟩

theorem setLoop_eq_none (hm : (s.setLoop n sp).loops m = none) : s.loops m = none := by
  have hne : m ≠ n := by
    rintro rfl
    cases setLoop_same.symm.trans hm
  exact (setLoop_of_ne hne).symm.trans hm

@[simp] theorem abort_loop (sp : Spawned) : sp.abort.loop = sp.loop := by
  unfold Spawned.abort
  split <;> rfl

theorem cancelEntry_loops (s : Engine) (id : String) (entry : TaskEntry) (n : Nat) :
    (s.cancelEntry id entry).loops n = (s.loops n).map fun sp =>
      if n = entry.handle then sp.cancel else sp := rfl

theorem shutdownAll_loops (s : Engine) (n : Nat) :
    s.shutdownAll.loops n = (s.loops n).map fun sp =>
      if s.tasks.toList.any fun p => p.2.handle = n then sp.abort else sp := rfl

/-- In `s` the loop was where it is now, or it had not been spawned. -/
def OldOrNew (s : Engine) (m : Nat) (sp' : Spawned) : Prop :=
  sp'.loop.phase = .computing ∨ ∃ sp, s.loops m = some sp ∧ SamePlace sp.loop sp'.loop ∧
    (sp.dropped = true → sp'.dropped = true)

theorem spawnLoop_oldOrNew (hm : (s.spawnLoop task nowMs next).loops m = some sp') :
    s.OldOrNew m sp' := by
  obtain ⟨-, rfl⟩ | ⟨-, hm⟩ := setLoop_cases hm
  · exact .inl rfl
  · exact .inr ⟨sp', hm, .refl _, fun h => h⟩

theorem setLoop_oldOrNew {old : Spawned} (hn : s.loops n = some old)
    (hm : (s.setLoop n sp).loops m = some sp') (hplace : SamePlace old.loop sp.loop)
    (hdropped : old.dropped = true → sp.dropped = true) : s.OldOrNew m sp' := by
  obtain ⟨rfl, rfl⟩ | ⟨-, hm⟩ := setLoop_cases hm
  · exact .inr ⟨old, hn, hplace, hdropped⟩
  · exact .inr ⟨sp', hm, .refl _, fun h => h⟩

theorem abort_dropped {sp : Spawned} (h : sp.dropped = true) : sp.abort.dropped = true := by
  unfold Spawned.abort
  split
  · exact h
  · rfl

theorem step_loop (h : s.step engine (.loop n le) = some s') :
    ∃ sp l', s.loops n = some sp ∧ sp.live = true ∧
      sp.loop.step engine.cron engine.hasLock le = some l' ∧
      s' = s.setLoop n { sp with loop := l' } := by
  cases goes h with
  | @loop _ sp le l' hsp hlive hpolling hmay hl => exact ⟨sp, l', hsp, hlive, hl, rfl⟩

theorem loops_after (h : s.step engine e = some s') (hm : s'.loops m = some sp') :
    (∃ le sp, e = .loop m le ∧ s.loops m = some sp ∧
        sp.loop.step engine.cron engine.hasLock le = some sp'.loop) ∨
      (∀ le, e ≠ .loop m le) ∧ s.OldOrNew m sp' := by
  cases goes h with
  | scheduled | spawned => exact .inr ⟨by simp, spawnLoop_oldOrNew hm⟩
  | refused | inserted | absent => exact .inr ⟨by simp, .inr ⟨sp', hm, .refl _, fun h => h⟩⟩
  | cancelled =>
    obtain ⟨sp, hsp, rfl⟩ := Option.map_eq_some_iff.mp ((cancelEntry_loops ..).symm.trans hm)
    refine .inr ⟨by simp, .inr ⟨sp, hsp, ?_⟩⟩
    split
    · exact ⟨⟨rfl, rfl, rfl⟩, abort_dropped⟩
    · exact ⟨.refl _, fun h => h⟩
  | shutdown =>
    obtain ⟨sp, hsp, rfl⟩ := Option.map_eq_some_iff.mp ((shutdownAll_loops ..).symm.trans hm)
    refine .inr ⟨by simp, .inr ⟨sp, hsp, ?_⟩⟩
    split
    · rw [abort_loop]
      exact ⟨.refl _, abort_dropped⟩
    · exact ⟨.refl _, fun h => h⟩
  | polled hsp => exact .inr ⟨by simp, setLoop_oldOrNew hsp hm (.refl _) fun h => h⟩
  | parked hsp hlive =>
    refine .inr ⟨by simp, setLoop_oldOrNew hsp hm (.refl _) fun h => ?_⟩
    simp [Spawned.live, h] at hlive
  | @loop n sp le l' hsp _ _ _ hl =>
    obtain ⟨rfl, rfl⟩ | ⟨hne, hm⟩ := setLoop_cases hm
    · exact .inl ⟨le, sp, rfl, hsp, hl⟩
    · exact .inr ⟨by simp [Ne.symm hne], .inr ⟨sp', hm, .refl _, fun h => h⟩⟩

end

end Engine

end Rinfra.Timer
