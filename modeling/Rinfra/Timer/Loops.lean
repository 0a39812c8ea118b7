import Rinfra.Lib.Transition
import Rinfra.Timer.Engine

/-!
# One loop for each id

The tasks map is the only way to reach a loop, and `schedule` puts the new entry
over the old one without a look at its loop. So every live loop keeps its entry
exactly as long as an id is scheduled only when no loop of it is live, nobody
comes between a spawn and its insert, and what is aborted is parked.
-/

namespace Rinfra.Timer

open Rinfra.Lib

namespace Engine

structure SingleLoop (s : Engine) : Prop where
  entry : ∀ n sp, s.loops n = some sp → sp.live = true →
    ∃ e, s.tasks[sp.loop.task.id]? = some e ∧ e.handle = n
  unique : ∀ n m sp sp', s.loops n = some sp → s.loops m = some sp' → sp.live = true →
    sp'.live = true → sp.loop.task.id = sp'.loop.task.id → n = m
  stopped : ∀ n sp, s.loops n = some sp → sp.live = true → s.stopped sp.loop.task.id = false

/-- What is aborted under `id` is not in the middle of a poll. -/
def ParkedAt (s : Engine) (id : String) : Prop :=
  ∀ e sp, s.tasks[id]? = some e → s.loops e.handle = some sp → sp.live = true →
    sp.polling = false

def Orderly (engine : SimpleTimerEngine) (s : Engine) : Event → Prop
  | .schedule _ task reads _ =>
    (∃ next, computeNextFire engine.cron reads task.schedule = .ok next) →
      ∀ n sp, s.loops n = some sp → sp.live = true → sp.loop.task.id ≠ task.id
  | .spawn .. => False
  | .cancel id => s.ParkedAt id
  | .shutdown => ∀ id, s.ParkedAt id
  | _ => True

/-- The books are straight while every live loop has its entry. -/
structure Book (s : Engine) : Prop where
  fresh : ∀ n, s.spawned ≤ n → s.loops n = none
  handles : ∀ (id : String) e, s.tasks[id]? = some e →
    ∃ sp, s.loops e.handle = some sp ∧ sp.loop.task.id = id
  calls : ∀ c task n, s.calls c ≠ .spawned task n
  stopped : ∀ id, s.stopped id = true → s.tasks[id]? = none

section
variable {engine : SimpleTimerEngine} {s s' : Engine} {sp sp' : Spawned}

theorem abort_live (sp : Spawned) : sp.abort.live = (sp.live && sp.polling) := by
  unfold Spawned.abort
  split <;> simp_all [Spawned.live]

theorem cancel_live (sp : Spawned) : sp.cancel.live = (sp.live && sp.polling) := by
  unfold Spawned.cancel Spawned.abort
  split <;> simp_all [Spawned.live, Loop.setStatus]

@[simp] theorem cancel_task (sp : Spawned) : sp.cancel.loop.task = sp.loop.task := rfl

theorem Book.singleLoop (hb : Book s) (h : ∀ n sp, s.loops n = some sp → sp.live = true →
    ∃ e, s.tasks[sp.loop.task.id]? = some e ∧ e.handle = n) : SingleLoop s := by
  refine ⟨h, ?_, ?_⟩
  · intro n m sp sp' hn hm hlive hlive' hid
    obtain ⟨e, he, rfl⟩ := h n sp hn hlive
    obtain ⟨e', he', rfl⟩ := h m sp' hm hlive'
    rw [hid, he'] at he
    rw [Option.some.inj he]
  · intro n sp hn hlive
    obtain ⟨e, he, -⟩ := h n sp hn hlive
    by_contra hst
    rw [hb.stopped _ (by simpa using hst)] at he
    cases he

theorem Book.setLoop (hb : Book s) (hsp : s.loops n = some sp)
    (htask : sp'.loop.task = sp.loop.task) : Book (s.setLoop n sp') := by
  refine ⟨fun m hm => ?_, fun id e he => ?_, hb.calls, hb.stopped⟩
  · have hne : m ≠ n := by
      rintro rfl
      simp [hb.fresh m hm] at hsp
    exact (setLoop_of_ne hne).trans (hb.fresh m hm)
  · obtain ⟨old, hold, hid⟩ := hb.handles id e he
    by_cases hn : e.handle = n
    · subst hn
      obtain rfl := Option.some.inj (hsp.symm.trans hold)
      exact ⟨sp', setLoop_same, by rw [htask, hid]⟩
    · exact ⟨old, (setLoop_of_ne hn).trans hold, hid⟩

theorem SingleLoop.setLoop (hp : SingleLoop s) (hb : Book s) (hsp : s.loops n = some sp)
    (hlive : sp.live = true) (htask : sp'.loop.task = sp.loop.task) :
    SingleLoop (s.setLoop n sp') := by
  apply (hb.setLoop hsp htask).singleLoop
  intro m sp₁ hm hlive₁
  obtain ⟨rfl, rfl⟩ | ⟨-, hm⟩ := setLoop_cases hm
  · rw [htask]
    exact hp.entry m sp hsp hlive
  · exact hp.entry m sp₁ hm hlive₁

-- ---------------------------------------------------------------------------
-- schedule
-- ---------------------------------------------------------------------------

theorem Book.setCall (hb : Book s) (c : Nat) (result : Except AppError Unit) :
    Book (s.setCall c (.done result)) := by
  refine ⟨hb.fresh, hb.handles, fun c' task n => ?_, hb.stopped⟩
  by_cases hc : c' = c
  · subst hc
    simp [Engine.setCall]
  · simpa [Engine.setCall, hc] using hb.calls c' task n

theorem getElem_insertTask (s : Engine) (task : TimerTask) (n : Nat) (id : String) :
    (s.insertTask task n).tasks[id]? = if id = task.id then some ⟨task, n⟩ else s.tasks[id]? := by
  by_cases h : id = task.id
  · simp [Engine.insertTask, h]
  · simp [Engine.insertTask, Std.ExtTreeMap.getElem?_insert, h, Ne.symm h]

theorem Book.schedule (hb : Book s) (task : TimerTask) (nowMs : Nat) (next : Option Nat) :
    Book ((s.spawnLoop task nowMs next).insertTask task s.spawned) := by
  refine ⟨fun n hn => ?_, fun id e he => ?_, hb.calls, fun id hid => ?_⟩
  · have hn : s.spawned + 1 ≤ n := hn
    exact (setLoop_of_ne (by omega)).trans (hb.fresh n (by omega))
  · rw [getElem_insertTask] at he
    split at he
    · rename_i hid
      cases he
      exact ⟨newLoop task nowMs next, setLoop_same, hid.symm⟩
    · obtain ⟨sp, hsp, hid⟩ := hb.handles id e he
      have hne : e.handle ≠ s.spawned := by
        intro heq
        simp [heq, hb.fresh _ (Nat.le_refl _)] at hsp
      exact ⟨sp, (setLoop_of_ne hne).trans hsp, hid⟩
  · have hid : Function.update s.stopped task.id false id = true := hid
    have hne : id ≠ task.id := by
      rintro rfl
      simp at hid
    rw [getElem_insertTask, if_neg hne]
    exact hb.stopped id (by simpa [hne] using hid)

/-- An id is scheduled into a single loop exactly when none of it is live. -/
theorem singleLoop_schedule (hb : Book s) (hp : SingleLoop s) (task : TimerTask) (nowMs : Nat)
    (next : Option Nat) (c : Nat) :
    SingleLoop (((s.spawnLoop task nowMs next).insertTask task s.spawned).setCall c
        (.done (.ok ()))) ↔
      ∀ n sp, s.loops n = some sp → sp.live = true → sp.loop.task.id ≠ task.id := by
  have hold : ∀ n sp, s.loops n = some sp → n ≠ s.spawned := by
    rintro n sp hn rfl
    simp [hb.fresh _ (Nat.le_refl _)] at hn
  constructor
  · intro hp' n sp hn hlive hid
    obtain ⟨e, he, heq⟩ := hp'.entry n sp ((setLoop_of_ne (hold n sp hn)).trans hn) hlive
    have he := (getElem_insertTask (s.spawnLoop task nowMs next) task s.spawned _).symm.trans he
    rw [if_pos hid] at he
    cases he
    exact hold n sp hn heq.symm
  · intro hnone
    apply ((hb.schedule task nowMs next).setCall c _).singleLoop
    intro n sp hn hlive
    obtain ⟨rfl, rfl⟩ | ⟨-, hn⟩ := setLoop_cases hn
    · exact ⟨⟨task, s.spawned⟩, (getElem_insertTask ..).trans (if_pos rfl), rfl⟩
    · obtain ⟨e, he, heq⟩ := hp.entry n sp hn hlive
      exact ⟨e, ((getElem_insertTask ..).trans (if_neg (hnone n sp hn hlive))).trans he, heq⟩

/-- Between its spawn and its insert a loop has no entry. -/
theorem not_singleLoop_spawn (hb : Book s) (task : TimerTask) (nowMs : Nat) (next : Option Nat)
    (c : Nat) (call : ScheduleCall) :
    ¬ SingleLoop ((s.spawnLoop task nowMs next).setCall c call) := by
  intro hp'
  obtain ⟨e, he, heq⟩ := hp'.entry s.spawned (newLoop task nowMs next) setLoop_same rfl
  obtain ⟨sp, hsp, -⟩ := hb.handles task.id e he
  simp [heq, hb.fresh _ (Nat.le_refl _)] at hsp

-- ---------------------------------------------------------------------------
-- cancel and shutdown
-- ---------------------------------------------------------------------------

theorem any_handle : (s.tasks.toList.any fun p => p.2.handle = n) = true ↔
    ∃ (id : String) (e : TaskEntry), s.tasks[id]? = some e ∧ e.handle = n := by
  simp [List.any_eq_true, Std.ExtTreeMap.mem_toList_iff_getElem?_eq_some]

theorem getElem_cancelEntry (s : Engine) (id : String) (entry : TaskEntry) (id' : String) :
    (s.cancelEntry id entry).tasks[id']? = if id' = id then none else s.tasks[id']? := by
  by_cases h : id' = id
  · simp [Engine.cancelEntry, h]
  · simp [Engine.cancelEntry, Std.ExtTreeMap.getElem?_erase, h, Ne.symm h]

theorem Book.cancelEntry (hb : Book s) (id : String) (entry : TaskEntry) :
    Book (s.cancelEntry id entry) := by
  refine ⟨fun n hn => ?_, fun id' e he => ?_, hb.calls, fun id' hid => ?_⟩
  · rw [cancelEntry_loops, hb.fresh n hn]
    rfl
  · have he := (getElem_cancelEntry s id entry id').symm.trans he
    split at he
    · cases he
    · obtain ⟨sp, hsp, hid⟩ := hb.handles id' e he
      rw [cancelEntry_loops, hsp]
      refine ⟨_, rfl, ?_⟩
      split <;> exact hid
  · have hid : Function.update s.stopped id true id' = true := hid
    rw [getElem_cancelEntry]
    split
    · rfl
    · rename_i hne
      exact hb.stopped id' (by simpa [hne] using hid)

/-- A cancelled id is left without a live loop exactly when its loop was parked. -/
theorem singleLoop_cancel {id : String} (hb : Book s) (hp : SingleLoop s)
    (he : s.tasks[id]? = some entry) : SingleLoop (s.cancelEntry id entry) ↔ s.ParkedAt id := by
  obtain ⟨old, hold, hid⟩ := hb.handles id entry he
  constructor
  · intro hp' e sp he' hsp hlive
    obtain rfl := Option.some.inj (he.symm.trans he')
    obtain rfl := Option.some.inj (hold.symm.trans hsp)
    by_contra hpoll
    have hloop : (s.cancelEntry id entry).loops entry.handle = some old.cancel := by
      simp [cancelEntry_loops, hold]
    obtain ⟨e, hnone, -⟩ := hp'.entry _ _ hloop (by simpa [cancel_live, hlive] using hpoll)
    rw [cancel_task, hid, getElem_cancelEntry, if_pos rfl] at hnone
    cases hnone
  · intro hparked
    apply (hb.cancelEntry id entry).singleLoop
    intro n sp' hn hlive
    obtain ⟨sp, hsp, rfl⟩ := Option.map_eq_some_iff.mp hn
    split at hlive
    · rename_i hne
      subst hne
      rw [cancel_live, Bool.and_eq_true] at hlive
      have := hparked entry sp he hsp hlive.1
      simp [this] at hlive
    · rename_i hne
      obtain ⟨e, he', rfl⟩ := hp.entry n sp hsp hlive
      have hid' : sp.loop.task.id ≠ id := by
        intro heq
        rw [heq, he] at he'
        exact hne (congrArg TaskEntry.handle (Option.some.inj he')).symm
      rw [if_neg hne, getElem_cancelEntry, if_neg hid']
      exact ⟨e, he', rfl⟩

theorem Book.shutdownAll (hb : Book s) : Book s.shutdownAll := by
  refine ⟨fun n hn => ?_, fun id e he => ?_, hb.calls, fun id _ => ?_⟩
  · rw [shutdownAll_loops, hb.fresh n hn]
    rfl
  · simp [Engine.shutdownAll] at he
  · simp [Engine.shutdownAll]

/-- After a shutdown no loop is live, exactly when all that were aborted were
parked. -/
theorem singleLoop_shutdown (hb : Book s) (hp : SingleLoop s) :
    SingleLoop s.shutdownAll ↔ ∀ id, s.ParkedAt id := by
  constructor
  · intro hp' id e sp he hsp hlive
    by_contra hpoll
    have hany : (s.tasks.toList.any fun p => p.2.handle = e.handle) = true :=
      any_handle.mpr ⟨id, e, he, rfl⟩
    have hloop : s.shutdownAll.loops e.handle = some sp.abort := by
      rw [shutdownAll_loops, hsp, Option.map_some, if_pos hany]
    obtain ⟨e', hnone, -⟩ := hp'.entry _ _ hloop (by simpa [abort_live, hlive] using hpoll)
    simp [Engine.shutdownAll] at hnone
  · intro hparked
    apply hb.shutdownAll.singleLoop
    intro n sp' hn hlive
    obtain ⟨sp, hsp, rfl⟩ := Option.map_eq_some_iff.mp hn
    split at hlive
    · rename_i hany
      rw [abort_live, Bool.and_eq_true] at hlive
      obtain ⟨id, e, he, rfl⟩ := any_handle.mp hany
      have := hparked id e sp he hsp hlive.1
      simp [this] at hlive
    · rename_i hany
      obtain ⟨e, he, heq⟩ := hp.entry n sp hsp hlive
      exact absurd (any_handle.mpr ⟨_, e, he, heq⟩) hany

-- ---------------------------------------------------------------------------
-- Runs
-- ---------------------------------------------------------------------------

theorem SingleLoop.setCall (hp : SingleLoop s) (c : Nat) (call : ScheduleCall) :
    SingleLoop (s.setCall c call) := ⟨hp.entry, hp.unique, hp.stopped⟩

theorem SingleLoop.step_iff (hb : Book s) (hp : SingleLoop s) (h : s.step engine e = some s') :
    (SingleLoop s' ↔ Orderly engine s e) ∧ (SingleLoop s' → Book s') := by
  cases goes h with
  | scheduled hc hnext =>
    refine ⟨(singleLoop_schedule hb hp _ _ _ _).trans ?_, fun _ =>
      (hb.schedule _ _ _).setCall _ _⟩
    exact ⟨fun hnone _ => hnone, fun ho => ho ⟨_, hnext⟩⟩
  | refused hc herr =>
    refine ⟨iff_of_true (hp.setCall _ _) ?_, fun _ => hb.setCall _ _⟩
    rintro ⟨next, hnext⟩
    rw [herr] at hnext
    cases hnext
  | @spawned c _ next task nowMs hc hnext =>
    have hnot := not_singleLoop_spawn hb task nowMs next c (.spawned task s.spawned)
    exact ⟨iff_of_false hnot id, fun hp' => absurd hp' hnot⟩
  | @inserted c task n hc => exact absurd hc (hb.calls c task n)
  | @cancelled id entry hentry =>
    exact ⟨singleLoop_cancel hb hp hentry, fun _ => hb.cancelEntry id entry⟩
  | absent hnone =>
    refine ⟨iff_of_true hp fun e sp he => ?_, fun _ => hb⟩
    rw [hnone] at he
    cases he
  | shutdown => exact ⟨singleLoop_shutdown hb hp, fun _ => hb.shutdownAll⟩
  | polled hsp hlive | parked hsp hlive =>
    exact ⟨iff_of_true (hp.setLoop hb hsp hlive rfl) trivial, fun _ => hb.setLoop hsp rfl⟩
  | loop hsp hlive hpolling hmay hl =>
    have htask := step_task hl
    exact ⟨iff_of_true (hp.setLoop hb hsp hlive htask) trivial, fun _ => hb.setLoop hsp htask⟩

end

/-- In every run of one engine, each live loop is the only one of its id and has
its entry, and none is live under an id that was cancelled or shut down, exactly
when ids are scheduled while no loop of theirs is live, no `schedule` is
interrupted between spawn and insert, and aborted loops are parked. -/
theorem singleLoop_iff_orderly (engine : SimpleTimerEngine) (es : List Event) :
    Always (step engine) SingleLoop init es ↔ Guarded (step engine) (Orderly engine) init es := by
  have hb : Book init := by
    constructor <;> simp [init]
  have hp : SingleLoop init := by
    constructor <;> simp [init]
  exact always_iff_guarded (I := Book) hb hp
    (fun s e s' hb hp h hp' => (SingleLoop.step_iff hb hp h).2 hp')
    fun s e s' hb hp h => (SingleLoop.step_iff hb hp h).1

/-- The same id is scheduled twice and then cancelled. -/
def scheduledTwice : List Event :=
  let task : TimerTask := ⟨"t", "report", .interval 60, .node, none, []⟩
  [.schedule 0 task ⟨0, 0⟩ 0, .schedule 1 task ⟨0, 0⟩ 0, .cancel "t", .poll 0,
    .loop 0 (.compute ⟨0, 0⟩), .loop 0 (.announce 0), .loop 0 .wake, .loop 0 .permit,
    .loop 0 .start]

/-- After `cancel` returned true the first loop is still there and starts its
handler. -/
theorem scheduled_twice_survives_cancel :
    ∃ s sp, run (step ⟨⟨fun _ => .error ""⟩, false, 4⟩) init scheduledTwice = some s ∧
      s.stopped "t" = true ∧ s.loops 0 = some sp ∧ sp.live = true ∧ sp.loop.task.id = "t" ∧
      sp.loop.state.status = .running :=
  ⟨_, _, rfl, rfl, rfl, rfl, rfl, rfl⟩

end Engine

end Rinfra.Timer
