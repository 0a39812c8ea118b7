import Rinfra.Lib.Transition
import Rinfra.Timer.Ledger

/-!
# One node at a time

The lock is for the id of the task, and it is released as soon as the handler is
through. So it keeps the executions of a task apart, and no more than that: a
node that comes to a fire instant after another one has left it runs the handler
again. A node whose `try_acquire` fails runs it without the lock.
-/

namespace Rinfra.Timer

open Rinfra.Lib Rinfra.Lock

-- ---------------------------------------------------------------------------
-- The loops
-- ---------------------------------------------------------------------------

/-- What `try_acquire` left the loop with, on its way through the handler. -/
def Phase.carries : Phase → Option (Option LockHandle)
  | .starting handle | .running handle => some handle
  | .releasing handle _ => some (some handle)
  | _ => none

def Phase.locked : Phase → Bool
  | .locking | .starting (some _) | .running (some _) | .releasing .. => true
  | _ => false

def Phase.Agrees : Phase → Progress → Prop
  | .starting _, .waiting | .running _, .executing _ | .releasing .., .through .. => True
  | _, _ => False

def Attempt.Fits (uuid : Nat → String) (k : Nat) (a : Attempt) : Option LockHandle → Prop
  | some handle => a.reply = .granted ∧ handle.key = a.task.lockKey ∧ handle.token = uuid k
  | none => a.reply = .failed

/-- The loop is at its last attempt, and as far as the ledger says. -/
structure Shows (uuid : Nat → String) (d : Ledger) (i : LoopId) (l : Loop)
    (handle : Option LockHandle) (k : Nat) (a : Attempt) : Prop where
  current : d.current i = some k
  attempt : d.attempts k = some a
  task : a.task = l.task
  trigger : a.trigger = l.trigger
  progress : l.phase.Agrees a.progress
  fits : a.Fits uuid k handle

structure Follows (uuid : Nat → String) (d : Ledger) (i : LoopId) (l : Loop) : Prop where
  locked : l.phase.locked = true → l.task.needLock true = true
  shown : l.task.needLock true = true → ∀ handle, l.phase.carries = some handle →
    ∃ k a, Shows uuid d i l handle k a

section
variable {uuid : Nat → String} {d d' : Ledger} {l l' : Loop} {i : LoopId} {le : LoopEvent}

theorem Attempt.Fits.reply (h : Attempt.Fits uuid k a handle) :
    a.reply = .granted ∨ a.reply = .failed := by
  cases handle with
  | some handle => exact .inl h.1
  | none => exact .inr h

theorem Follows.idle (hlocked : l.phase.locked = false) (hcarries : l.phase.carries = none) :
    Follows uuid d i l := by
  constructor
  · simp [hlocked]
  · simp [hcarries]

theorem Follows.again (l : Loop) : Follows uuid d i l.again := by
  unfold Loop.again
  split <;> exact .idle rfl rfl

theorem Follows.frame (hf : Follows uuid d i l) (hplace : SamePlace l l')
    (hcur : d'.current i = d.current i)
    (hatt : ∀ k, d.current i = some k → d'.attempts k = d.attempts k) : Follows uuid d' i l' := by
  constructor
  · rw [hplace.phase, hplace.task]
    exact hf.locked
  · rw [hplace.phase, hplace.task]
    intro hneed handle hcarries
    obtain ⟨k, a, hshow⟩ := hf.shown hneed handle hcarries
    refine ⟨k, a, hcur.trans hshow.current, (hatt k hshow.current).trans hshow.attempt, ?_, ?_, ?_,
      hshow.fits⟩
    · rw [hplace.task, hshow.task]
    · rw [hplace.trigger, hshow.trigger]
    · rw [hplace.phase]
      exact hshow.progress

theorem Phase.Agrees.start (h : (Phase.starting handle).Agrees p) :
    (Phase.running handle).Agrees (p.advance now) := by
  cases p <;> simp_all [Phase.Agrees, Progress.advance]

theorem Phase.Agrees.finish (h : (Phase.running handle).Agrees p) :
    (Phase.releasing handle' result).Agrees (p.advance now) := by
  cases p <;> simp_all [Phase.Agrees, Progress.advance]

theorem Shows.advance (h : Shows uuid d i l handle k a) (htask : l'.task = l.task)
    (htrigger : l'.trigger = l.trigger) (hagree : l'.phase.Agrees (a.progress.advance d.clock)) :
    Shows uuid (d.advance i) i l' handle k (a.advance d.clock) where
  current := by rw [Ledger.advance_current, h.current]
  attempt := Ledger.advance_self h.current h.attempt
  task := h.task.trans htask.symm
  trigger := h.trigger.trans htrigger.symm
  progress := hagree
  fits := by cases handle <;> exact h.fits

/-- What an event of a loop does to the ledger. -/
theorem note_cases (h : d.note uuid i l reached le = some d') :
    d' = d ∨ (∃ outcome, le = .tryAcquire outcome ∧ d.Attempted uuid i l outcome d') ∨
      (l.task.needLock true = true ∧ (le = .start ∨ ∃ outcome, le = .finish outcome) ∧
        d' = d.advance i) ∨
      ∃ handle result, l.phase = .releasing handle result ∧
        d.leases.holder d.clock handle.key = some handle.token ∧
        d' = { d.advance i with leases := d.leases.set handle.key none } := by
  cases le with
  | tryAcquire outcome => exact .inr (.inl ⟨outcome, rfl, Ledger.tryAcquire_attempted h⟩)
  | start =>
    simp only [Ledger.note] at h
    split at h <;> cases h
    · exact .inr (.inr (.inl ⟨‹_›, .inl rfl, rfl⟩))
    · exact .inl rfl
  | finish outcome =>
    simp only [Ledger.note] at h
    split at h <;> cases h
    · exact .inr (.inr (.inl ⟨‹_›, .inr ⟨outcome, rfl⟩, rfl⟩))
    · exact .inl rfl
  | released result =>
    simp only [Ledger.note] at h
    split at h
    · rename_i handle result' hp
      rcases Ledger.release_cases h with rfl | ⟨hhold, rfl⟩
      · exact .inl rfl
      · exact .inr (.inr (.inr ⟨handle, result', hp, hhold, rfl⟩))
    · cases h
  | compute | fail | announce | wake | permit | record =>
    cases h
    exact .inl rfl

theorem Ledger.Sound.note (hs : d.Sound uuid) (hu : Function.Injective uuid)
    (hf : Follows uuid d i l) (hl : l.step cron true le = some l')
    (h : d.note uuid i l reached le = some d') : d'.Sound uuid := by
  rcases note_cases h with
    rfl | ⟨outcome, rfl, hatt⟩ | ⟨hneed, hle, rfl⟩ | ⟨handle, result, hp, hhold, rfl⟩
  · exact hs
  · exact hs.attempted hatt
  · have hshow : ∃ handle, l.phase.carries = some handle := by
      rcases hle with rfl | ⟨outcome, rfl⟩
      · cases Loop.goes hl with
        | start hp => exact ⟨_, by rw [hp]; rfl⟩
      · cases Loop.goes hl with
        | returned hp | erred hp | panicked hp => exact ⟨_, by rw [hp]; rfl⟩
    obtain ⟨handle, hcarries⟩ := hshow
    obtain ⟨k, a, hshow⟩ := hf.shown hneed handle hcarries
    apply hs.advance hshow.current
    intro a' ha'
    obtain rfl := Option.some.inj (hshow.attempt.symm.trans ha')
    exact hshow.fits.reply
  · have hneed := hf.locked (by rw [hp]; rfl)
    obtain ⟨k, a, hshow⟩ := hf.shown hneed (some handle) (by rw [hp]; rfl)
    obtain ⟨hreply, hkey, htok⟩ := hshow.fits
    have hagree := hshow.progress
    rw [hp] at hagree
    cases hprog : a.progress with
    | through began ended =>
      rw [hkey, htok] at hhold
      rw [hkey]
      exact hs.release hu hshow.current hshow.attempt hreply hprog hhold
    | waiting | executing | released => simp [hprog, Phase.Agrees] at hagree

theorem note_other (hs : d.Sound uuid) (h : d.note uuid i l reached le = some d') (hne : j ≠ i) :
    d'.current j = d.current j ∧ ∀ k, d.current j = some k → d'.attempts k = d.attempts k := by
  have hadv : (d.advance i).current j = d.current j ∧
      ∀ k, d.current j = some k → (d.advance i).attempts k = d.attempts k := by
    rw [Ledger.advance_current]
    refine ⟨rfl, fun k hk => ?_⟩
    cases hcur : d.current i with
    | none => simp only [Ledger.advance, hcur]
    | some k' =>
      apply Ledger.advance_of_ne hcur
      rintro rfl
      obtain ⟨a, ha, hloop⟩ := hs.own j k hk
      obtain ⟨a', ha', hloop'⟩ := hs.own i k hcur
      obtain rfl := Option.some.inj (ha.symm.trans ha')
      exact hne (hloop.symm.trans hloop')
  rcases note_cases h with
    rfl | ⟨outcome, -, ⟨⟨leases, rfl⟩, -, -⟩⟩ | ⟨-, -, rfl⟩ | ⟨_, _, -, -, rfl⟩
  · exact ⟨rfl, fun _ _ => rfl⟩
  · refine ⟨Function.update_of_ne hne .., fun k hk => ?_⟩
    obtain ⟨a, ha, -⟩ := hs.own j k hk
    exact (hs.attempt_old ha).trans ha.symm
  · exact hadv
  · exact hadv

theorem Follows.finish (hf : Follows uuid d i l) (hp : l.phase = .running handle)
    (h : d.note uuid i l reached (.finish outcome) = some d') (result : Except AppError Unit) :
    Follows uuid d' i (l.goto (afterHandler handle result)) := by
  cases handle with
  | none => exact .idle rfl rfl
  | some handle =>
    have hneed := hf.locked (by rw [hp]; rfl)
    simp only [Ledger.note, if_pos hneed] at h
    cases h
    refine ⟨fun _ => hneed, fun _ _ hc => ?_⟩
    cases hc
    obtain ⟨k, a, hshow⟩ := hf.shown hneed (some handle) (by rw [hp]; rfl)
    exact ⟨k, _, hshow.advance rfl rfl (hp ▸ hshow.progress).finish⟩

theorem Follows.tryAcquire (hf : Follows uuid d i l)
    (hl : l.step cron true (.tryAcquire outcome) = some l')
    (h : d.note uuid i l reached (.tryAcquire outcome) = some d') : Follows uuid d' i l' := by
  obtain ⟨⟨leases, rfl⟩, -, hgranted⟩ := Ledger.tryAcquire_attempted h
  have hnew := Ledger.attempt_new d i l (.ofOutcome outcome)
  have hcur : (d.attempt i l (.ofOutcome outcome)).current i = some d.count :=
    Function.update_self ..
  cases Loop.goes hl with
  | locked hp =>
    obtain ⟨hkey, htok, -⟩ := hgranted _ rfl
    refine ⟨fun _ => hf.locked (by rw [hp]; rfl), fun _ _ hc => ?_⟩
    cases hc
    exact ⟨_, _, hcur, hnew, rfl, rfl, trivial, rfl, hkey, htok⟩
  | skipped => exact .again _
  | unlocked hp =>
    refine ⟨fun _ => hf.locked (by rw [hp]; rfl), fun _ _ hc => ?_⟩
    cases hc
    exact ⟨_, _, hcur, hnew, rfl, rfl, trivial, rfl⟩
  | lockPanicked => exact .idle rfl rfl

/-- The loop and the ledger go on together. -/
theorem Follows.note (hf : Follows uuid d i l) (hl : l.step cron true le = some l')
    (h : d.note uuid i l reached le = some d') : Follows uuid d' i l' := by
  cases Loop.goes hl with
  | due | never | invalid | fail | announce | wake | panicked | released => exact .idle rfl rfl
  | record => exact .again _
  | locked | skipped | unlocked | lockPanicked => exact hf.tryAcquire hl h
  | returned hp | erred hp => exact hf.finish hp h _
  | permit =>
    cases hneed : l.task.needLock true with
    | true => exact ⟨fun _ => hneed, by simp [Loop.goto, Phase.carries]⟩
    | false => exact ⟨by simp [Loop.goto, Phase.locked], by simp [Loop.goto, hneed]⟩
  | @start handle hp =>
    constructor
    · intro hlocked
      apply hf.locked
      rw [hp]
      cases handle <;> simp_all [Loop.goto, Phase.locked]
    · rintro hneed _ ⟨⟩
      simp only [Ledger.note, if_pos (show l.task.needLock true = true from hneed)] at h
      cases h
      obtain ⟨k, a, hshow⟩ := hf.shown hneed handle (by rw [hp]; rfl)
      exact ⟨k, _, hshow.advance rfl rfl (hp ▸ hshow.progress).start⟩

-- ---------------------------------------------------------------------------
-- The fleet
-- ---------------------------------------------------------------------------

structure Inv (uuid : Nat → String) (f : Fleet) : Prop where
  sound : f.ledger.Sound uuid
  follows : ∀ node n sp, (f.engines node).loops n = some sp →
    Follows uuid f.ledger ⟨node, n⟩ sp.loop

theorem Inv.init : Inv uuid Fleet.init := ⟨.init, by simp [Fleet.init, Engine.init]⟩

theorem Follows.tick (hf : Follows uuid d i l) (now : Nat) : Follows uuid (d.tick now) i l :=
  hf.frame (.refl l) rfl fun _ _ => rfl

theorem Inv.note (hu : Function.Injective uuid) (hi : Inv uuid f)
    (hs : (f.engines e.node).step ⟨cron, true, maxConcurrent⟩ e.act = some s)
    (hle : f.ledger.clock ≤ e.at_) (h : f.note uuid e = some d') : d'.Sound uuid := by
  have hsound := hi.sound.tick hle
  unfold Fleet.note at h
  split at h
  · rename_i n le hact
    obtain ⟨sp, l', hsp, -, hl, -⟩ := Engine.step_loop (hact ▸ hs)
    rw [hsp] at h
    exact hsound.note hu ((hi.follows e.node n sp hsp).tick e.at_) hl h
  · cases h
    exact hsound

theorem Inv.note_other (hi : Inv uuid f) (hle : f.ledger.clock ≤ e.at_)
    (h : f.note uuid e = some d') (hne : ∀ n le, e.act = .loop n le → i ≠ ⟨e.node, n⟩) :
    d'.current i = f.ledger.current i ∧
      ∀ k, f.ledger.current i = some k → d'.attempts k = f.ledger.attempts k := by
  have hsound := hi.sound.tick hle
  unfold Fleet.note at h
  split at h
  · rename_i n le hact
    split at h
    · have hother := Timer.note_other hsound h (hne n le hact)
      exact hother
    · cases h
  · cases h
    exact ⟨rfl, fun _ _ => rfl⟩

theorem Fleet.stepped {f f' : Fleet} {e : FleetEvent}
    (h : f.step cron maxConcurrent uuid e = some f') :
    f.ledger.clock ≤ e.at_ ∧ ∃ s d',
      (f.engines e.node).step ⟨cron, true, maxConcurrent e.node⟩ e.act = some s ∧
        f.note uuid e = some d' ∧ f' = ⟨Function.update f.engines e.node s, d'⟩ := by
  unfold Fleet.step at h
  split at h
  · rename_i hle
    obtain ⟨s, hs, h⟩ := Option.bind_eq_some_iff.mp h
    obtain ⟨d', hd, h⟩ := Option.bind_eq_some_iff.mp h
    exact ⟨hle, s, d', hs, hd, (Option.some.inj h).symm⟩
  · cases h

theorem Inv.step (hu : Function.Injective uuid) (hi : Inv uuid f)
    (h : f.step cron maxConcurrent uuid e = some f') : Inv uuid f' := by
  obtain ⟨hle, s, d', hs, hd, rfl⟩ := Fleet.stepped h
  refine ⟨hi.note hu hs hle hd, fun node n sp' hm => ?_⟩
  have hm : (Function.update f.engines e.node s node).loops n = some sp' := hm
  have hkept : ∀ sp, (f.engines node).loops n = some sp → SamePlace sp.loop sp'.loop →
      (∀ m le, e.act = .loop m le → LoopId.mk node n ≠ ⟨e.node, m⟩) →
      Follows uuid d' ⟨node, n⟩ sp'.loop := by
    intro sp hsp hplace hne
    obtain ⟨hcur, hatt⟩ := hi.note_other hle hd hne
    exact (hi.follows node n sp hsp).frame hplace hcur hatt
  by_cases hnode : node = e.node
  · subst hnode
    rw [Function.update_self] at hm
    rcases Engine.loops_after hs hm with
      ⟨le, sp, hact, hsp, hl⟩ | ⟨hact, hcomp | ⟨sp, hsp, hplace, -⟩⟩
    · have hd : (f.ledger.tick e.at_).note uuid ⟨e.node, n⟩ sp.loop e.reached le = some d' := by
        simpa [Fleet.note, hact, hsp] using hd
      exact ((hi.follows e.node n sp hsp).tick e.at_).note hl hd
    · exact .idle (by rw [hcomp]; rfl) (by rw [hcomp]; rfl)
    · apply hkept sp hsp hplace
      intro m le hm heq
      apply hact le
      rw [hm, LoopId.mk.inj heq |>.2]
  · rw [Function.update_of_ne hnode] at hm
    exact hkept sp' hm (.refl _) fun m le _ heq => hnode (LoopId.mk.inj heq).1

end

-- ---------------------------------------------------------------------------
-- Executions
-- ---------------------------------------------------------------------------

def Attempt.Ran (a : Attempt) : Prop := a.progress ≠ .waiting

structure Exclusive (f : Fleet) : Prop where
  /-- Each execution is on record, with the fire instant its loop is at. -/
  recorded : ∀ node n sp handle, (f.engines node).loops n = some sp →
    sp.loop.phase = .running handle → sp.loop.task.scope = .cluster →
    ∃ k a began, f.ledger.attempts k = some a ∧ a.loop = ⟨node, n⟩ ∧ a.task = sp.loop.task ∧
      a.trigger = sp.loop.trigger ∧ a.progress = .executing began
  inOrder : ∀ k a, f.ledger.attempts k = some a → a.InOrder f.ledger.clock
  answered : ∀ k a, f.ledger.attempts k = some a → a.Ran → a.reply = .granted ∨ a.reply = .failed
  apart : ∀ j k a b, j < k → f.ledger.attempts j = some a → f.ledger.attempts k = some b →
    a.task.id = b.task.id → a.Ran → b.Ran →
    a.reply = .failed ∨ b.reply = .failed ∨ a.Over b.at_

theorem Inv.exclusive (hi : Inv uuid f) : Exclusive f where
  recorded node n sp handle hsp hp hscope := by
    obtain ⟨k, a, hshow⟩ := (hi.follows node n sp hsp).shown
      (by simp [TimerTask.needLock, hscope]) handle (by rw [hp]; rfl)
    obtain ⟨a', ha', hloop⟩ := hi.sound.own _ _ hshow.current
    obtain rfl := Option.some.inj (hshow.attempt.symm.trans ha')
    have hagree := hshow.progress
    rw [hp] at hagree
    cases hprog : a.progress with
    | executing began =>
      exact ⟨k, a, began, hshow.attempt, hloop, hshow.task, hshow.trigger, hprog⟩
    | waiting | through | released => simp [hprog, Phase.Agrees] at hagree
  inOrder := hi.sound.inOrder
  answered := hi.sound.answered
  apart j k a b hjk ha hb hid hra hrb := by
    rcases hi.sound.answered j a ha hra with hga | hfa
    · rcases hi.sound.answered k b hb hrb with hgb | hfb
      · refine .inr (.inr (hi.sound.apart j k a b hjk ha hb hga hgb ?_))
        simp only [TimerTask.lockKey, hid]
      · exact .inr (.inl hfb)
    · exact .inl hfa

/-- Of two executions of one cluster task, on any nodes, either one goes without
the lock because its `try_acquire` failed, or the later lease was granted after
the earlier one had been released, at the end of its handler, or had run out.

Premise: no two tokens drawn are equal. -/
theorem cluster_executions_apart (cron : Cron) (maxConcurrent : Nat → Nat) (uuid : Nat → String)
    (hu : Function.Injective uuid) (es : List FleetEvent) :
    Always (Fleet.step cron maxConcurrent uuid) Exclusive Fleet.init es :=
  (always_of_step Inv.init fun _ _ _ hi h => hi.step hu h).mono fun _ hi => hi.exclusive

end Rinfra.Timer
