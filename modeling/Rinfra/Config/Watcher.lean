import Mathlib.Logic.Basic
import Rinfra.Lib.Slots
import Rinfra.Lib.Transition

/-!
# Starting and stopping the watcher

The calls of `start` and `stop` and the polling tasks take their steps in any
order. Two things of the watcher say whether it runs: a flag, which `stop` sets
back, and a cancellation token, which stays cancelled.
-/

namespace Rinfra.Config

open Rinfra.Lib

inductive CallKind
  | start
  | stop
  deriving DecidableEq, Repr

/-- A call is before a step of its own, or has returned: `start` swaps the flag and
spawns a task, `stop` cancels the token and stores the flag. -/
inductive CallStage
  | starting
  | spawning
  | stopping
  | storing
  | returned
  deriving DecidableEq, Repr

/-- A task is at the head of its loop, in `select!`, with a change of the file, or
over. At the head of the loop the sleep is a new one. -/
inductive PollStage
  | entering
  | sleeping
  | reloading
  | ended
  deriving DecidableEq, Repr

/-- The watcher, and the call that was made last. -/
structure Watching where
  running : Bool
  cancelled : Bool
  calls : List CallStage
  tasks : List PollStage
  last : Option CallKind
  deriving DecidableEq, Repr

inductive Watching.Event
  | call (kind : CallKind)
  | swap (c : Nat)
  | spawn (c : Nat)
  | cancel (c : Nat)
  | store (c : Nat)
  | enter (i : Nat)
  | elapse (i : Nat)
  | notice (i : Nat)
  | reloaded (i : Nat)
  /-- A handler panics, and with it the task. -/
  | panic (i : Nat)

namespace Watching

def new : Watching := ⟨false, false, [], [], none⟩

def setCall (w : Watching) (c : Nat) (stage : CallStage) : Watching :=
  { w with calls := w.calls.set c stage }

def setTask (w : Watching) (i : Nat) (stage : PollStage) : Watching :=
  { w with tasks := w.tasks.set i stage }

def step (w : Watching) : Event → Option Watching
  | .call kind =>
    let stage : CallStage := match kind with
      | .start => .starting
      | .stop => .stopping
    some { w with calls := w.calls ++ [stage], last := some kind }
  | .swap c =>
    if w.calls[c]? = some .starting then
      if w.running then some (w.setCall c .returned)
      else some (setCall { w with running := true } c .spawning)
    else none
  | .spawn c =>
    if w.calls[c]? = some .spawning then
      some (setCall { w with tasks := w.tasks ++ [.entering] } c .returned)
    else none
  | .cancel c =>
    if w.calls[c]? = some .stopping then some (setCall { w with cancelled := true } c .storing)
    else none
  | .store c =>
    if w.calls[c]? = some .storing then some (setCall { w with running := false } c .returned)
    else none
  | .enter i =>
    if w.tasks[i]? = some .entering then
      -- a sleep that has just begun is not over, so a cancelled token is noticed
      if w.cancelled then some (w.setTask i .ended) else some (w.setTask i .sleeping)
    else none
  | .elapse i =>
    -- `select!` may take this branch with the token cancelled
    if w.tasks[i]? = some .sleeping then some (w.setTask i .reloading) else none
  | .notice i =>
    if w.tasks[i]? = some .sleeping ∧ w.cancelled then some (w.setTask i .ended) else none
  | .reloaded i =>
    if w.tasks[i]? = some .reloading then some (w.setTask i .entering) else none
  | .panic i =>
    if w.tasks[i]? = some .reloading then some (w.setTask i .ended) else none

def mayNotify (cancelled : Bool) : PollStage → Bool
  | .entering => !cancelled
  | .sleeping | .reloading => true
  | .ended => false

def alive : PollStage → Bool
  | .ended => false
  | .entering | .sleeping | .reloading => true

/-- The calls have returned, and what was cancelled has ended. -/
def Quiescent (w : Watching) : Prop :=
  (∀ stage ∈ w.calls, stage = .returned) ∧ (w.cancelled = true → ∀ t ∈ w.tasks, t = .ended)

/-- There is a task after a start, and none after a stop. -/
def Settled (w : Watching) : Prop :=
  w.Quiescent →
    (w.last = some .start → w.tasks.countP alive = 1) ∧
      (w.last = some .stop → w.tasks.countP alive = 0)

def OneNotifier (w : Watching) : Prop := w.tasks.countP (mayNotify w.cancelled) ≤ 1

/-- No start comes after a stop, and no handler panics before one. -/
def StartsFirst (w : Watching) : Event → Prop
  | .call .start => w.last ≠ some .stop
  | .panic _ => w.last = some .stop
  | _ => True

instance : DecidablePred Quiescent := fun _ => instDecidableAnd

instance : DecidablePred Settled := fun w =>
  inferInstanceAs (Decidable (w.Quiescent → _))

instance (w : Watching) : DecidablePred w.StartsFirst := fun e =>
  match e with
  | .call .start => inferInstanceAs (Decidable (w.last ≠ some .stop))
  | .panic _ => inferInstanceAs (Decidable (w.last = some .stop))
  | .call .stop | .swap _ | .spawn _ | .cancel _ | .store _ | .enter _ | .elapse _ | .notice _
  | .reloaded _ => .isTrue trivial

-- ---------------------------------------------------------------------------
-- Steps
-- ---------------------------------------------------------------------------

/-- What a step does: a call is made, a call goes on, or a task does. -/
inductive Goes (w : Watching) : Event → Watching → Prop
  | call (kind : CallKind) (stage : CallStage)
      (hstage : kind = .start ∧ stage = .starting ∨ kind = .stop ∧ stage = .stopping) :
      Goes w (.call kind) { w with calls := w.calls ++ [stage], last := some kind }
  | refused {c : Nat} (hcall : w.calls[c]? = some .starting) (hrunning : w.running = true) :
      Goes w (.swap c) (w.setCall c .returned)
  | swapped {c : Nat} (hcall : w.calls[c]? = some .starting) (hrunning : w.running = false) :
      Goes w (.swap c) (setCall { w with running := true } c .spawning)
  | spawn {c : Nat} (hcall : w.calls[c]? = some .spawning) :
      Goes w (.spawn c) (setCall { w with tasks := w.tasks ++ [.entering] } c .returned)
  | cancel {c : Nat} (hcall : w.calls[c]? = some .stopping) :
      Goes w (.cancel c) (setCall { w with cancelled := true } c .storing)
  | store {c : Nat} (hcall : w.calls[c]? = some .storing) :
      Goes w (.store c) (setCall { w with running := false } c .returned)
  /-- A task goes on, and may notify after only if it might before. It ends when it is
  cancelled or panics. -/
  | task {i : Nat} {e : Event} (old next : PollStage) (htask : w.tasks[i]? = some old)
      (hnotify : mayNotify w.cancelled next = true → mayNotify w.cancelled old = true)
      (halive : alive old = true) (hcall : ∀ kind, e ≠ .call kind)
      (hends : alive next = true ∨ w.cancelled = true ∨ ∃ j, e = .panic j) :
      Goes w e (w.setTask i next)

section
variable {w w' : Watching} {e : Event}

theorem goes (h : w.step e = some w') : Goes w e w' := by
  cases e with
  | call kind =>
    cases h
    cases kind
    · exact .call .start _ (.inl ⟨rfl, rfl⟩)
    · exact .call .stop _ (.inr ⟨rfl, rfl⟩)
  | swap c =>
    simp only [step] at h
    split at h
    · rename_i hcall
      split at h <;> cases h <;> rename_i hrunning
      · exact .refused hcall hrunning
      · exact .swapped hcall (by simpa using hrunning)
    · cases h
  | spawn c =>
    simp only [step] at h
    split at h <;> cases h
    rename_i hcall
    exact .spawn hcall
  | cancel c =>
    simp only [step] at h
    split at h <;> cases h
    rename_i hcall
    exact .cancel hcall
  | store c =>
    simp only [step] at h
    split at h <;> cases h
    rename_i hcall
    exact .store hcall
  | enter i =>
    simp only [step] at h
    split at h
    · rename_i htask
      split at h <;> cases h <;> rename_i hcancelled
      · exact .task _ _ htask (by simp [mayNotify]) rfl (by simp) (.inr (.inl hcancelled))
      · exact .task _ _ htask (by simp [mayNotify, hcancelled]) rfl (by simp) (.inl rfl)
    · cases h
  | elapse i =>
    simp only [step] at h
    split at h <;> cases h
    rename_i htask
    exact .task _ _ htask (fun _ => rfl) rfl (by simp) (.inl rfl)
  | notice i =>
    simp only [step] at h
    split at h <;> cases h
    rename_i hcan
    exact .task _ _ hcan.1 (fun _ => rfl) rfl (by simp) (.inr (.inl hcan.2))
  | reloaded i =>
    simp only [step] at h
    split at h <;> cases h
    rename_i htask
    exact .task _ _ htask (fun _ => rfl) rfl (by simp) (.inl rfl)
  | panic i =>
    simp only [step] at h
    split at h <;> cases h
    rename_i htask
    exact .task _ _ htask (fun _ => rfl) rfl (by simp) (.inr (.inr ⟨i, rfl⟩))

-- ---------------------------------------------------------------------------
-- At most one task notifies
-- ---------------------------------------------------------------------------

def spawning (w : Watching) : Nat := w.calls.countP fun stage => stage = .spawning

/-- Until the token is cancelled only one call finds the flag clear, and what is
spawned after that never gets past its first `select!`. -/
structure Bounded (w : Watching) : Prop where
  storing : .storing ∈ w.calls → w.cancelled = true
  before : w.cancelled = false →
    w.tasks.countP (mayNotify false) + w.spawning ≤ if w.running then 1 else 0
  after : w.cancelled = true → w.tasks.countP (mayNotify true) ≤ 1

theorem Bounded.oneNotifier (hb : w.Bounded) : w.OneNotifier := by
  rw [OneNotifier]
  cases hcancelled : w.cancelled with
  | true => exact hb.after hcancelled
  | false =>
    have hle := hb.before hcancelled
    split at hle <;> omega

theorem mayNotify_true_le (tasks : List PollStage) :
    tasks.countP (mayNotify true) ≤ tasks.countP (mayNotify false) := by
  refine List.countP_mono_left fun stage _ h => ?_
  cases stage <;> simp_all [mayNotify]

theorem Bounded.storing_set (hb : w.Bounded) (hnext : next ≠ .storing) :
    CallStage.storing ∈ w.calls.set c next → w.cancelled = true := by
  intro hmem
  rcases List.mem_or_eq_of_mem_set hmem with hmem | heq
  · exact hb.storing hmem
  · exact absurd heq.symm hnext

theorem spawning_setCall {old : CallStage} (next : CallStage) (hcall : w.calls[c]? = some old) :
    (w.setCall c next).spawning + (if old = .spawning then 1 else 0) =
      w.spawning + if next = .spawning then 1 else 0 := by
  have hadd := countP_set_add (b := next) (fun stage : CallStage => stage = .spawning) hcall
  simpa [spawning, setCall] using hadd

theorem spawning_setCall_of_ne {old next : CallStage} (hcall : w.calls[c]? = some old)
    (hold : old ≠ .spawning) (hnext : next ≠ .spawning) :
    (w.setCall c next).spawning = w.spawning := by
  have hadd := spawning_setCall next hcall
  rwa [if_neg hold, if_neg hnext] at hadd

theorem Bounded.called (hb : w.Bounded) (kind : CallKind) (stage : CallStage)
    (hspawn : stage ≠ .spawning) (hstore : stage ≠ .storing) :
    Bounded { w with calls := w.calls ++ [stage], last := some kind } := by
  refine ⟨fun hmem => ?_, fun hcancelled => ?_, hb.after⟩
  · rcases List.mem_append.mp hmem with hmem | hmem
    · exact hb.storing hmem
    · exact absurd (List.mem_singleton.mp hmem).symm hstore
  · have hle := hb.before hcancelled
    simpa [spawning, List.countP_append, hspawn] using hle

theorem Bounded.task (hb : w.Bounded) {old next : PollStage} (htask : w.tasks[i]? = some old)
    (hnotify : mayNotify w.cancelled next = true → mayNotify w.cancelled old = true) :
    (w.setTask i next).Bounded := by
  have hle : (w.tasks.set i next).countP (mayNotify w.cancelled) ≤
      w.tasks.countP (mayNotify w.cancelled) := by
    have hadd := countP_set_add (b := next) (mayNotify w.cancelled) htask
    split at hadd <;> split at hadd
    · omega
    · omega
    · rename_i hold hnext
      exact absurd (hnotify hnext) hold
    · omega
  refine ⟨hb.storing, fun hcancelled => ?_, fun hcancelled => ?_⟩
  · have hcancelled : w.cancelled = false := hcancelled
    rw [hcancelled] at hle
    exact Nat.le_trans (Nat.add_le_add_right hle _) (hb.before hcancelled)
  · have hcancelled : w.cancelled = true := hcancelled
    rw [hcancelled] at hle
    exact Nat.le_trans hle (hb.after hcancelled)

theorem Bounded.step (hb : w.Bounded) (h : w.step e = some w') : w'.Bounded := by
  cases goes h with
  | call kind stage hstage =>
    rcases hstage with ⟨-, rfl⟩ | ⟨-, rfl⟩
    · exact hb.called kind .starting (by simp) (by simp)
    · exact hb.called kind .stopping (by simp) (by simp)
  | refused hcall hrunning =>
    refine ⟨hb.storing_set (by simp), fun hcancelled => ?_, hb.after⟩
    rw [spawning_setCall_of_ne hcall (by simp) (by simp)]
    exact hb.before hcancelled
  | swapped hcall hrunning =>
    refine ⟨hb.storing_set (by simp), fun hcancelled => ?_, hb.after⟩
    have hle := hb.before hcancelled
    have hadd : (w.setCall _ .spawning).spawning + 0 = w.spawning + 1 := spawning_setCall _ hcall
    rw [if_neg (by simp [hrunning])] at hle
    show w.tasks.countP (mayNotify false) + (w.setCall _ .spawning).spawning ≤ 1
    omega
  | spawn hcall =>
    refine ⟨hb.storing_set (by simp), fun hcancelled => ?_, fun hcancelled => ?_⟩
    · have hle := hb.before hcancelled
      have hadd : (w.setCall _ .returned).spawning + 1 = w.spawning + 0 := spawning_setCall _ hcall
      have hmore : (w.tasks ++ [PollStage.entering]).countP (mayNotify false) =
          w.tasks.countP (mayNotify false) + 1 := by simp [List.countP_append, mayNotify]
      show (w.tasks ++ [PollStage.entering]).countP (mayNotify false) +
        (w.setCall _ .returned).spawning ≤ if w.running then 1 else 0
      omega
    · -- the new task is not to get past its first `select!`
      simpa [setCall, List.countP_append, mayNotify] using hb.after hcancelled
  | cancel hcall =>
    refine ⟨fun _ => rfl, by simp [setCall], fun _ => ?_⟩
    cases hcancelled : w.cancelled with
    | true => exact hb.after hcancelled
    | false =>
      have hle := hb.before hcancelled
      refine Nat.le_trans (mayNotify_true_le w.tasks) ?_
      split at hle <;> omega
  | store hcall =>
    -- the token is cancelled before the flag is cleared
    have hcancelled : w.cancelled = true := hb.storing (List.mem_of_getElem? hcall)
    exact ⟨fun _ => hcancelled, fun hnot => absurd (hcancelled.symm.trans hnot) (by simp),
      hb.after⟩
  | task old next htask hnotify => exact hb.task htask hnotify

theorem bounded_new : new.Bounded := ⟨by simp [new], by simp [new, spawning], by simp [new]⟩

-- ---------------------------------------------------------------------------
-- Flag and token agree
-- ---------------------------------------------------------------------------

/-- Without a start after a stop, the flag and the token say what the last call does. -/
structure Sound (w : Watching) : Prop where
  uncancelled : w.last ≠ some .stop → w.cancelled = false
  unstopped : w.last ≠ some .stop → ∀ stage ∈ w.calls, stage ≠ .stopping ∧ stage ≠ .storing
  started : w.last = some .start → w.running = true ∨ .starting ∈ w.calls
  stopped : w.last = some .stop → w.cancelled = true ∨ .stopping ∈ w.calls
  single : w.last ≠ some .stop →
    w.tasks.countP alive + w.spawning = if w.running then 1 else 0

theorem sound_new : new.Sound :=
  ⟨fun _ => rfl, by simp [new], by simp [new], by simp [new], by simp [new, spawning]⟩

theorem Sound.settled (hs : w.Sound) : w.Settled := by
  rintro ⟨hreturned, hended⟩
  constructor
  · intro hlast
    have hnot : w.last ≠ some .stop := by simp [hlast]
    have hrunning : w.running = true :=
      (hs.started hlast).resolve_right fun hmem => absurd (hreturned _ hmem) (by simp)
    have hnone : w.spawning = 0 :=
      List.countP_eq_zero.mpr fun stage hmem => by simp [hreturned stage hmem]
    have hsingle := hs.single hnot
    rwa [hnone, Nat.add_zero, if_pos hrunning] at hsingle
  · intro hlast
    have hcancelled : w.cancelled = true :=
      (hs.stopped hlast).resolve_right fun hmem => absurd (hreturned _ hmem) (by simp)
    exact List.countP_eq_zero.mpr fun t hmem => by simp [hended hcancelled t hmem, alive]

/-- A call goes on while the last one made is a stop. -/
theorem Sound.of_stop (hlast : w.last = some .stop)
    (hstopped : w.cancelled = true ∨ .stopping ∈ w.calls) : w.Sound :=
  ⟨fun hnot => absurd hlast hnot, fun hnot => absurd hlast hnot, by simp [hlast],
    fun _ => hstopped, fun hnot => absurd hlast hnot⟩

theorem unstopped_set {next : CallStage}
    (hcalls : ∀ stage ∈ w.calls, stage ≠ .stopping ∧ stage ≠ .storing)
    (hnext : next ≠ .stopping ∧ next ≠ .storing) :
    ∀ stage ∈ w.calls.set c next, stage ≠ .stopping ∧ stage ≠ .storing := by
  intro stage hmem
  rcases List.mem_or_eq_of_mem_set hmem with hmem | rfl
  · exact hcalls stage hmem
  · exact hnext

theorem stopping_set {old next : CallStage} (hcall : w.calls[c]? = some old)
    (hold : old ≠ .stopping) (hmem : .stopping ∈ w.calls) : .stopping ∈ w.calls.set c next :=
  mem_set_of_ne hcall hmem hold.symm

theorem Sound.step (hs : w.Sound) (hg : w.StartsFirst e) (h : w.step e = some w') :
    w'.Sound := by
  by_cases hstop : w.last = some .stop
  · -- only the call of stop matters, which cancels the token if it has not yet
    cases goes h with
    | call kind stage hstage =>
      rcases hstage with ⟨rfl, rfl⟩ | ⟨rfl, rfl⟩
      · exact absurd hstop hg
      · exact .of_stop rfl (.inr (List.mem_append_right _ List.mem_cons_self))
    | refused hcall | swapped hcall | spawn hcall | store hcall =>
      exact .of_stop hstop ((hs.stopped hstop).imp_right (stopping_set hcall (by simp)))
    | cancel hcall => exact .of_stop hstop (.inl rfl)
    | task old next htask => exact .of_stop hstop (hs.stopped hstop)
  · have hsingle := hs.single hstop
    cases goes h with
    | call kind stage hstage =>
      rcases hstage with ⟨rfl, rfl⟩ | ⟨rfl, rfl⟩
      · refine ⟨fun _ => hs.uncancelled hstop, fun _ stage hmem => ?_,
          fun _ => .inr (List.mem_append_right _ List.mem_cons_self), by simp, fun _ => ?_⟩
        · rcases List.mem_append.mp hmem with hmem | hmem
          · exact hs.unstopped hstop stage hmem
          · simp [List.mem_singleton.mp hmem]
        · simpa [spawning, List.countP_append] using hsingle
      · exact .of_stop rfl (.inr (List.mem_append_right _ List.mem_cons_self))
    | refused hcall hrunning =>
      refine ⟨hs.uncancelled, fun _ => unstopped_set (hs.unstopped hstop) (by simp),
        fun _ => .inl hrunning, fun hlast => absurd hlast hstop, fun _ => ?_⟩
      rwa [spawning_setCall_of_ne hcall (by simp) (by simp)]
    | swapped hcall hrunning =>
      have hadd : (w.setCall _ .spawning).spawning + 0 = w.spawning + 1 := spawning_setCall _ hcall
      rw [if_neg (by simp [hrunning])] at hsingle
      refine ⟨hs.uncancelled, fun _ => unstopped_set (hs.unstopped hstop) (by simp),
        fun _ => .inl rfl, fun hlast => absurd hlast hstop, fun _ => ?_⟩
      show w.tasks.countP alive + (w.setCall _ .spawning).spawning = 1
      omega
    | spawn hcall =>
      have hadd : (w.setCall _ .returned).spawning + 1 = w.spawning + 0 := spawning_setCall _ hcall
      have hmore : (w.tasks ++ [PollStage.entering]).countP alive = w.tasks.countP alive + 1 := by
        simp [List.countP_append, alive]
      refine ⟨hs.uncancelled, fun _ => unstopped_set (hs.unstopped hstop) (by simp),
        fun hlast => (hs.started hlast).imp_right fun hmem => mem_set_of_ne hcall hmem (by simp),
        fun hlast => absurd hlast hstop, fun _ => ?_⟩
      show (w.tasks ++ [PollStage.entering]).countP alive + (w.setCall _ .returned).spawning =
        if w.running then 1 else 0
      omega
    | cancel hcall | store hcall =>
      have hunstopped := hs.unstopped hstop _ (List.mem_of_getElem? hcall)
      simp at hunstopped
    | task old next htask hnotify halive hcall hends =>
      have halive' : alive next = true := by
        rcases hends with halive' | hcancelled | ⟨j, rfl⟩
        · exact halive'
        · exact absurd ((hs.uncancelled hstop).symm.trans hcancelled) (by simp)
        · exact absurd hg hstop
      refine ⟨hs.uncancelled, hs.unstopped, hs.started, hs.stopped, fun _ => ?_⟩
      have hsame := countP_set_same (b := next) alive htask (halive'.trans halive.symm)
      exact (congrArg (· + w.spawning) hsame).trans hsingle

/-- Two tasks never notify. With every start before the first stop, there is a task
after a start, and none after a stop. -/
theorem restart_right (es : List Event) :
    Always step OneNotifier new es ∧
      (Guarded step StartsFirst new es → Always step Settled new es) := by
  constructor
  · have hbounded : Always step Bounded new es :=
      always_of_step bounded_new fun _ _ _ hb h => hb.step h
    exact hbounded.mono fun _ hb => hb.oneNotifier
  · intro hg
    have hsound : Always step Sound new es :=
      hg.invariant sound_new fun _ _ _ hs hg h => hs.step hg h
    exact hsound.mono fun _ hs => hs.settled

end

def startStop : List Event :=
  [.call .start, .swap 0, .spawn 0, .enter 0, .call .stop, .cancel 1, .store 1, .notice 0]

theorem restart_right_startStop :
    Always step OneNotifier new startStop ∧ Always step Settled new startStop :=
  (restart_right startStop).imp_right fun h => h (by decide +kernel)

/-- Started again after that it has no task, and tells nobody; so it does when a
handler panics. -/
theorem restart_polls_nothing :
    ¬ Always step Settled new
        (startStop ++ [.call .start, .swap 2, .spawn 2, .enter 1]) ∧
      ¬ Always step Settled new
        [.call .start, .swap 0, .spawn 0, .enter 0, .elapse 0, .panic 0] := by
  decide +kernel

end Watching

end Rinfra.Config
