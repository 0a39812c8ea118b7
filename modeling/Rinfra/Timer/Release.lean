import Rinfra.Timer.Bookkeeping
import Rinfra.Timer.Loops

/-!
# Locks that are given back

A loop gives the lock of an iteration back after the handler has returned, and
nowhere else. Beside the engine stands the backend of its lock: what it has
granted to a try whose answer is yet to come, and which locks a loop has been
granted and has not passed to `release`.
-/

namespace Rinfra.Timer

open Rinfra.Lib Rinfra.Lock

/-- The answer to a try says what the backend has granted, unless it is an error. -/
def LoopEvent.Answers (granted : Option LockHandle) : LoopEvent → Prop
  | .tryAcquire (.ok outcome) => outcome = granted
  | _ => True

instance (granted : Option LockHandle) (le : LoopEvent) : Decidable (le.Answers granted) := by
  unfold LoopEvent.Answers
  split <;> infer_instance

def LoopEvent.pending (granted : Option LockHandle) : LoopEvent → Option LockHandle
  | .tryAcquire _ => none
  | _ => granted

def Loop.handsBack (l : Loop) : LoopEvent → Option LockHandle
  | .finish (.ok _) | .finish (.err _) =>
    match l.phase with
    | .running handle => handle
    | _ => none
  | _ => none

def Loop.stillOwed (l : Loop) (le : LoopEvent) (owed : List LockHandle) : List LockHandle :=
  match l.handsBack le with
  | some handle => owed.erase handle
  | none => owed

structure Custody where
  engine : Engine
  granted : Nat → Option LockHandle
  owed : Nat → List LockHandle

inductive CustodyEvent
  | engine (e : Event)
  /-- The backend grants the lock to the try of loop `n`. The loop may be gone by then. -/
  | grant (n : Nat) (handle : LockHandle)

namespace Custody

def init : Custody := ⟨.init, fun _ => none, fun _ => []⟩

def step (engine : SimpleTimerEngine) (t : Custody) : CustodyEvent → Option Custody
  | .grant n handle => do
    let some sp := t.engine.loops n | none
    let .locking := sp.loop.phase | none
    let none := t.granted n | none
    pure { t with
      granted := Function.update t.granted n (some handle)
      owed := Function.update t.owed n (handle :: t.owed n) }
  | .engine (.loop n le) => do
    let some sp := t.engine.loops n | none
    if le.Answers (t.granted n) then
      let s ← t.engine.step engine (.loop n le)
      pure {
        engine := s
        granted := Function.update t.granted n (le.pending (t.granted n))
        owed := Function.update t.owed n (sp.loop.stillOwed le (t.owed n)) }
    else none
  | .engine e => (t.engine.step engine e).map fun s => { t with engine := s }

end Custody

/-- The iteration may have been granted a lock, and has not come to releasing it. -/
def Phase.midway : Phase → Bool
  | .locking | .starting _ | .running _ => true
  | _ => false

/-- A lock that has not been released belongs to an iteration that goes on. -/
def Custody.Released (t : Custody) : Prop :=
  ∀ n sp, t.engine.loops n = some sp → t.owed n ≠ [] →
    sp.dropped = false ∧ sp.loop.phase.midway = true

def Engine.Drops (s : Engine) (n : Nat) : Event → Prop
  | .cancel id => ∃ entry sp, s.tasks[id]? = some entry ∧ entry.handle = n ∧
      s.loops n = some sp ∧ sp.polling = false
  | .shutdown => ∃ (id : String) (entry : TaskEntry) (sp : Spawned),
      s.tasks[id]? = some entry ∧ entry.handle = n ∧ s.loops n = some sp ∧ sp.polling = false
  | .park m => m = n ∧ ∃ sp, s.loops n = some sp ∧ sp.aborted = true
  | _ => False

/-- Nothing is owed where an iteration ends without a release: by a panic, or because the
answer to its try was an error and so it has no handle. -/
def Loop.Settles (l : Loop) (owed : List LockHandle) : LoopEvent → Prop
  | .finish .panicked | .tryAcquire .panicked => owed = []
  | .finish _ =>
    match l.phase with
    | .running none => owed = []
    | _ => True
  | _ => True

/-- A loop that owes a lock is not dropped, and ends its iterations with a release; nothing
is granted to a loop that has been dropped. -/
def Custody.Kept (t : Custody) : CustodyEvent → Prop
  | .grant n _ => ∀ sp, t.engine.loops n = some sp → sp.dropped = false
  | .engine (.loop n le) => ∀ sp, t.engine.loops n = some sp → sp.loop.Settles (t.owed n) le
  | .engine e => ∀ n, t.engine.Drops n e → t.owed n = []

-- ---------------------------------------------------------------------------
-- One loop
-- ---------------------------------------------------------------------------

/-- What a loop owes by where it stands. -/
def Phase.Accounts (granted : Option LockHandle) (owed : List LockHandle) : Phase → Prop
  | .locking => owed = granted.toList
  | .starting (some handle) | .running (some handle) => granted = none ∧ owed = [handle]
  | _ => granted = none

section
variable {l l' : Loop} {granted : Option LockHandle} {owed : List LockHandle}

theorem Phase.Accounts.outside {p : Phase} (h : p.Accounts granted owed) (hp : p.midway = false) :
    granted = none := by
  cases p <;> first | exact h | cases hp

theorem Phase.accounts_outside {p : Phase} (hp : p.midway = false) (owed : List LockHandle) :
    p.Accounts none owed := by
  cases p <;> first | rfl | cases hp

theorem accounts_aside (h : l.phase.Accounts granted owed)
    (hidle : l.phase.midway = false → owed = []) (hp : l.phase.midway = false)
    (hp' : l'.phase.midway = false) (hstill : l.stillOwed le owed = owed)
    (hpending : le.pending granted = granted) (hsettles : l.Settles owed le) :
    l'.phase.Accounts (le.pending granted) (l.stillOwed le owed) ∧
      ((l.stillOwed le owed ≠ [] → l'.phase.midway = true) ↔ l.Settles owed le) := by
  obtain rfl := h.outside hp
  rw [hstill, hpending, hidle hp]
  exact ⟨Phase.accounts_outside hp' [],
    iff_of_true (fun hne => absurd rfl hne) (hidle hp ▸ hsettles)⟩

theorem accounts_step (h : l.phase.Accounts granted owed)
    (hidle : l.phase.midway = false → owed = []) (hanswers : le.Answers granted)
    (hl : l.step cron hasLock le = some l') :
    l'.phase.Accounts (le.pending granted) (l.stillOwed le owed) ∧
      ((l.stillOwed le owed ≠ [] → l'.phase.midway = true) ↔ l.Settles owed le) := by
  cases Loop.goes hl with
  | locked hp =>
    obtain rfl : _ = granted := hanswers
    simp only [hp, Phase.Accounts] at h
    exact ⟨⟨rfl, h⟩, iff_of_true (fun _ => rfl) trivial⟩
  | skipped hp =>
    obtain rfl : _ = granted := hanswers
    simp only [hp, Phase.Accounts, Option.toList_none] at h
    subst h
    refine ⟨?_, iff_of_true (fun hne => absurd rfl hne) trivial⟩
    cases hrec : l.task.recurring <;>
      simp [Loop.again, Loop.goto, hrec, Phase.Accounts, LoopEvent.pending]
  | unlocked hp => exact ⟨rfl, iff_of_true (fun _ => rfl) trivial⟩
  | lockPanicked hp =>
    refine ⟨rfl, ?_⟩
    simp [Loop.stillOwed, Loop.handsBack, Loop.goto, Phase.midway, Loop.Settles]
  | @returned handle _ hp | @erred handle _ hp | @panicked handle hp =>
    simp only [hp, Phase.Accounts] at h
    cases handle with
    | none =>
      refine ⟨h, ?_⟩
      simp [Loop.stillOwed, Loop.handsBack, Loop.goto, afterHandler, Phase.midway, Loop.Settles, hp]
    | some handle =>
      obtain ⟨hgranted, rfl⟩ := h
      refine ⟨hgranted, ?_⟩
      simp [Loop.stillOwed, Loop.handsBack, Loop.goto, afterHandler, Phase.midway, Loop.Settles, hp]
  | @start handle hp =>
    simp only [hp] at h
    refine ⟨?_, iff_of_true (fun _ => rfl) trivial⟩
    cases handle <;> exact h
  | permit hp =>
    simp only [hp, Phase.midway, forall_const, Phase.Accounts] at h hidle
    subst h hidle
    refine ⟨?_, iff_of_true (fun hne => absurd rfl hne) trivial⟩
    cases hneed : l.task.needLock hasLock <;>
      simp [Loop.goto, Phase.Accounts, LoopEvent.pending, Loop.stillOwed, Loop.handsBack]
  | due hp | never hp | invalid hp | fail hp | announce hp | wake hp | released hp =>
    exact accounts_aside h hidle (by simp [hp, Phase.midway]) rfl rfl rfl trivial
  | @record result nowMs hp =>
    refine accounts_aside h hidle (by simp [hp, Phase.midway]) ?_ rfl rfl trivial
    cases hrec : l.task.recurring <;>
      simp [Loop.again, Loop.goto, Loop.recorded, hrec, Phase.midway]

end

-- ---------------------------------------------------------------------------
-- The engine
-- ---------------------------------------------------------------------------

theorem Engine.Drops.isSome {s : Engine} (h : s.Drops n e) : ∃ sp, s.loops n = some sp := by
  cases e with
  | cancel id =>
    obtain ⟨entry, sp, -, -, hsp, -⟩ := h
    exact ⟨sp, hsp⟩
  | shutdown =>
    obtain ⟨id, entry, sp, -, -, hsp, -⟩ := h
    exact ⟨sp, hsp⟩
  | park m =>
    obtain ⟨rfl, sp, hsp, -⟩ := h
    exact ⟨sp, hsp⟩
  | _ => cases h

theorem Spawned.abort_dropped (sp : Spawned) :
    sp.abort.dropped = true ↔ sp.dropped = true ∨ sp.polling = false := by
  unfold Spawned.abort
  split <;> simp_all

theorem Spawned.cancel_dropped (sp : Spawned) :
    sp.cancel.dropped = true ↔ sp.dropped = true ∨ sp.polling = false := abort_dropped sp

namespace Engine

section
variable {engine : SimpleTimerEngine} {s s' : Engine} {sp sp' : Spawned}

theorem dropped_iff (h : s.step engine e = some s') (he : ∀ n le, e ≠ .loop n le)
    (hfresh : s.loops s.spawned = none) (hn : s.loops n = some sp) (hn' : s'.loops n = some sp') :
    sp'.dropped = true ↔ sp.dropped = true ∨ s.Drops n e := by
  have hne : n ≠ s.spawned := by
    rintro rfl
    simp [hfresh] at hn
  cases goes h with
  | scheduled | spawned =>
    obtain rfl : sp = sp' := by simpa [hn] using (setLoop_of_ne hne).symm.trans hn'
    simp [Drops]
  | refused | inserted =>
    obtain rfl : sp = sp' := Option.some.inj (hn.symm.trans hn')
    simp [Drops]
  | absent hentry =>
    obtain rfl : sp = sp' := Option.some.inj (hn.symm.trans hn')
    simp [Drops, hentry]
  | @cancelled id entry hentry =>
    rw [cancelEntry_loops, hn, Option.map_some, Option.some.injEq] at hn'
    subst hn'
    by_cases hself : n = entry.handle
    · rw [if_pos hself, sp.cancel_dropped]
      simp [Drops, hentry, hself ▸ hn, hself]
    · rw [if_neg hself]
      simp [Drops, hentry, Ne.symm hself]
  | shutdown =>
    rw [shutdownAll_loops, hn, Option.map_some, Option.some.injEq] at hn'
    subst hn'
    split
    · rename_i hany
      obtain ⟨id, entry, hentry, rfl⟩ := any_handle.mp hany
      rw [sp.abort_dropped]
      apply or_congr_right
      constructor
      · exact fun hparked => ⟨id, entry, sp, hentry, rfl, hn, hparked⟩
      · rintro ⟨_, _, sp₁, -, -, hsp₁, hparked⟩
        obtain rfl := Option.some.inj (hn.symm.trans hsp₁)
        exact hparked
    · rename_i hnone
      refine (or_iff_left ?_).symm
      rintro ⟨id, entry, -, hentry, rfl, -, -⟩
      exact hnone (any_handle.mpr ⟨id, entry, hentry, rfl⟩)
  | @polled m old hold =>
    obtain ⟨rfl, rfl⟩ | ⟨-, hn'⟩ := setLoop_cases hn'
    · obtain rfl := Option.some.inj (hn.symm.trans hold)
      simp [Drops]
    · obtain rfl := Option.some.inj (hn.symm.trans hn')
      simp [Drops]
  | @parked m old hold hlive _ _ =>
    obtain ⟨rfl, rfl⟩ | ⟨hself, hn'⟩ := setLoop_cases hn'
    · obtain rfl := Option.some.inj (hn.symm.trans hold)
      have hdropped : sp.dropped = false := by simp_all [Spawned.live]
      simp [Drops, hdropped, hn]
    · obtain rfl := Option.some.inj (hn.symm.trans hn')
      simp [Drops, Ne.symm hself]
  | loop => exact absurd rfl (he _ _)

end

end Engine

namespace Custody

/-- Each loop owes what its place accounts for. -/
structure Inv (t : Custody) : Prop where
  loops : ∀ n sp, t.engine.loops n = some sp →
    sp.loop.phase.Accounts (t.granted n) (t.owed n)
  fresh : ∀ n, t.engine.spawned ≤ n →
    t.engine.loops n = none ∧ t.granted n = none ∧ t.owed n = []

section
variable {engine : SimpleTimerEngine} {t t' : Custody} {sp : Spawned}

theorem Inv.init : Inv Custody.init where
  loops n sp h := by simp [Custody.init, Engine.init] at h
  fresh n _ := ⟨rfl, rfl, rfl⟩

/-- A loop does not owe anything to another one. -/
theorem Released.owed_eq (hr : t.Released) (hn : t.engine.loops n = some sp)
    (hp : sp.loop.phase.midway = false) : t.owed n = [] := by
  by_contra hne
  simp [(hr n sp hn hne).2] at hp

theorem step_grant (h : t.step engine (.grant n handle) = some t') :
    ∃ sp, t.engine.loops n = some sp ∧ sp.loop.phase = .locking ∧ t.granted n = none ∧
      t' = { t with
        granted := Function.update t.granted n (some handle)
        owed := Function.update t.owed n (handle :: t.owed n) } := by
  simp only [step] at h
  split at h
  · rename_i sp hsp
    split at h
    · split at h <;> cases h
      exact ⟨sp, hsp, ‹_›, ‹_›, rfl⟩
    · cases h
  · cases h

theorem step_own (h : t.step engine (.engine (.loop n le)) = some t') :
    ∃ sp l', t.engine.loops n = some sp ∧ sp.dropped = false ∧ le.Answers (t.granted n) ∧
      sp.loop.step engine.cron engine.hasLock le = some l' ∧
      t' = {
        engine := t.engine.setLoop n { sp with loop := l' }
        granted := Function.update t.granted n (le.pending (t.granted n))
        owed := Function.update t.owed n (sp.loop.stillOwed le (t.owed n)) } := by
  simp only [step] at h
  split at h
  · rename_i sp hsp
    split at h
    · rename_i hanswers
      obtain ⟨s, hs, heq⟩ := Option.bind_eq_some_iff.mp h
      cases heq
      obtain ⟨sp₁, l', hsp₁, hlive, hl, rfl⟩ := Engine.step_loop hs
      obtain rfl := Option.some.inj (hsp.symm.trans hsp₁)
      exact ⟨sp, l', hsp, by simp_all [Spawned.live], hanswers, hl, rfl⟩
    · cases h
  · cases h

theorem step_aside (h : t.step engine (.engine e) = some t') (he : ∀ n le, e ≠ .loop n le) :
    ∃ s, t.engine.step engine e = some s ∧ t' = { t with engine := s } := by
  have h : (t.engine.step engine e).map (fun s => { t with engine := s }) = some t' := by
    cases e with
    | loop n le => exact absurd rfl (he n le)
    | _ => exact h
  obtain ⟨s, hs, rfl⟩ := Option.map_eq_some_iff.mp h
  exact ⟨s, hs, rfl⟩

theorem released_grant_iff (hi : Inv t) (hr : t.Released)
    (h : t.step engine (.grant n handle) = some t') :
    (t'.Released → Inv t') ∧ (t'.Released ↔ t.Kept (.grant n handle)) := by
  obtain ⟨sp, hsp, hp, hnone, rfl⟩ := step_grant h
  have howed : t.owed n = [] := by
    have haccounts := hi.loops n sp hsp
    simpa [hp, hnone, Phase.Accounts] using haccounts
  refine ⟨fun _ => ⟨?_, ?_⟩, ?_, ?_⟩
  · intro m sp' hm
    by_cases hne : m = n
    · subst hne
      obtain rfl := Option.some.inj (hsp.symm.trans hm)
      simp [hp, howed, Phase.Accounts]
    · simpa [hne] using hi.loops m sp' hm
  · intro m hm
    have hne : m ≠ n := by
      rintro rfl
      simp [(hi.fresh m hm).1] at hsp
    simpa [hne] using hi.fresh m hm
  · intro hr' sp' hsp'
    exact (hr' n sp' hsp' (by simp)).1
  · intro hkept m sp' hm hne'
    by_cases hne : m = n
    · subst hne
      obtain rfl := Option.some.inj (hsp.symm.trans hm)
      exact ⟨hkept sp hsp, by simp [hp, Phase.midway]⟩
    · exact hr m sp' hm (by simpa [hne] using hne')

theorem released_own_iff (hi : Inv t) (hr : t.Released)
    (h : t.step engine (.engine (.loop n le)) = some t') :
    Inv t' ∧ (t'.Released ↔ t.Kept (.engine (.loop n le))) := by
  obtain ⟨sp, l', hsp, hdropped, hanswers, hl, rfl⟩ := step_own h
  obtain ⟨haccounts, hiff⟩ := accounts_step (hi.loops n sp hsp) (hr.owed_eq hsp) hanswers hl
  refine ⟨⟨?_, ?_⟩, ?_, ?_⟩
  · intro m sp' hm
    obtain ⟨rfl, rfl⟩ | ⟨hne, hm⟩ := Engine.setLoop_cases hm
    · simpa using haccounts
    · simpa [hne] using hi.loops m sp' hm
  · intro m hm
    have hne : m ≠ n := by
      rintro rfl
      simp [(hi.fresh m hm).1] at hsp
    obtain ⟨hnone, hrest⟩ := hi.fresh m hm
    exact ⟨(Engine.setLoop_of_ne hne).trans hnone, by simpa [hne] using hrest⟩
  · intro hr' sp₁ hsp₁
    obtain rfl := Option.some.inj (hsp.symm.trans hsp₁)
    apply hiff.mp
    intro hne'
    exact (hr' n { sp with loop := l' } Engine.setLoop_same (by simpa using hne')).2
  · intro hkept m sp' hm hne'
    obtain ⟨rfl, rfl⟩ | ⟨hne, hm⟩ := Engine.setLoop_cases hm
    · exact ⟨hdropped, hiff.mpr (hkept sp hsp) (by simpa using hne')⟩
    · exact hr m sp' hm (by simpa [hne] using hne')

theorem released_aside_iff (hi : Inv t) (hr : t.Released)
    (h : t.step engine (.engine e) = some t') (he : ∀ n le, e ≠ .loop n le) :
    Inv t' ∧ (t'.Released ↔ t.Kept (.engine e)) := by
  obtain ⟨s, hs, rfl⟩ := step_aside h he
  have haside := Engine.aside_of_step hs he
  have hkept : t.Kept (.engine e) ↔ ∀ n, t.engine.Drops n e → t.owed n = [] := by
    cases e with
    | loop n le => exact absurd rfl (he n le)
    | _ => rfl
  rw [hkept]
  obtain ⟨hfresh, -, hnothing⟩ := hi.fresh _ (le_refl t.engine.spawned)
  refine ⟨⟨?_, ?_⟩, ?_, ?_⟩
  · intro n sp' hn
    rcases haside.loops n sp' hn with ⟨sp, hsp, hu⟩ | ⟨rfl, -, task, nowMs, next, rfl⟩
    · rw [hu.phase]
      exact hi.loops n sp hsp
    · exact (hi.fresh _ le_rfl).2.1
  · intro n hn
    have hle : t.engine.spawned ≤ s.spawned := by rcases haside.spawned with hn | hn <;> omega
    obtain ⟨hnone, hrest⟩ := hi.fresh n (hle.trans hn)
    refine ⟨?_, hrest⟩
    cases hn' : s.loops n with
    | none => rfl
    | some sp' =>
      rcases haside.loops n sp' hn' with ⟨sp, hsp, -⟩ | ⟨rfl, hone, -⟩
      · simp [hnone] at hsp
      · exact absurd (hone ▸ hn) (Nat.not_succ_le_self _)
  · intro hr' n hdrops
    by_contra hne
    obtain ⟨sp, hsp⟩ := hdrops.isSome
    obtain ⟨sp', hsp'⟩ : ∃ sp', s.loops n = some sp' := by
      apply Option.ne_none_iff_exists'.mp
      intro hnone
      simp [haside.stay n hnone] at hsp
    have hdropped := (Engine.dropped_iff hs he hfresh hsp hsp').mpr (.inr hdrops)
    simp [(hr' n sp' hsp' hne).1] at hdropped
  · intro hnone n sp' hn hne
    rcases haside.loops n sp' hn with ⟨sp, hsp, hu⟩ | ⟨rfl, -, -⟩
    · obtain ⟨hdropped, hmidway⟩ := hr n sp hsp hne
      rw [hu.phase]
      refine ⟨?_, hmidway⟩
      by_contra hgone
      have hdrops := (Engine.dropped_iff hs he hfresh hsp hn).mp (by simpa using hgone)
      rcases hdrops with hbefore | hnow
      · simp [hdropped] at hbefore
      · exact hne (hnone n hnow)
    · exact absurd hnothing hne

end

end Custody

/-- Each lock that an iteration is granted has been given to `release` when the iteration
ends or its loop is dropped, exactly in the runs in which no loop is dropped, and no
iteration ends without a handle to release, while a lock is owed. -/
theorem released_iff_kept (engine : SimpleTimerEngine) (es : List CustodyEvent) :
    Always (Custody.step engine) Custody.Released Custody.init es ↔
      Guarded (Custody.step engine) Custody.Kept Custody.init es := by
  have hstart : Custody.init.Released := by
    intro n sp h
    simp [Custody.init, Engine.init] at h
  have hstep : ∀ t e t', Custody.Inv t → t.Released → Custody.step engine t e = some t' →
      (t'.Released → Custody.Inv t') ∧ (t'.Released ↔ t.Kept e) := by
    intro t e t' hi hr h
    cases e with
    | grant n handle => exact Custody.released_grant_iff hi hr h
    | engine e =>
      obtain ⟨n, le, rfl⟩ | he := Engine.own_or_aside e
      · obtain ⟨hi', hiff⟩ := Custody.released_own_iff hi hr h
        exact ⟨fun _ => hi', hiff⟩
      · obtain ⟨hi', hiff⟩ := Custody.released_aside_iff hi hr h he
        exact ⟨fun _ => hi', hiff⟩
  exact always_iff_guarded Custody.Inv.init hstart
    (fun t e t' hi hr h hr' => (hstep t e t' hi hr h).1 hr')
    fun t e t' hi hr h => (hstep t e t' hi hr h).2

def upToHandler : List CustodyEvent :=
  let task : TimerTask := ⟨"t", "report", .interval 60, .cluster, none, []⟩
  let handle : LockHandle := ⟨"timer:t", "uuid", 1000⟩
  [.engine (.schedule 0 task ⟨0, 0⟩ 0), .engine (.poll 0), .engine (.loop 0 (.compute ⟨0, 0⟩)),
    .engine (.loop 0 (.announce 0)), .engine (.loop 0 .wake), .engine (.loop 0 .permit),
    .grant 0 handle, .engine (.loop 0 (.tryAcquire (.ok (some handle)))),
    .engine (.loop 0 .start)]

/-- The task is cancelled while its handler waits; or the handler panics. -/
theorem lock_outlives_its_loop :
    (∃ t sp, run (Custody.step ⟨⟨fun _ => .error ""⟩, true, 4⟩) Custody.init
        (upToHandler ++ [.engine (.park 0), .engine (.cancel "t")]) = some t ∧
      t.engine.loops 0 = some sp ∧ sp.live = false ∧
      t.owed 0 = [⟨"timer:t", "uuid", 1000⟩] ∧ ¬ t.Released) ∧
    ∃ t sp, run (Custody.step ⟨⟨fun _ => .error ""⟩, true, 4⟩) Custody.init
        (upToHandler ++ [.engine (.loop 0 (.finish .panicked))]) = some t ∧
      t.engine.loops 0 = some sp ∧ sp.live = false ∧
      t.owed 0 = [⟨"timer:t", "uuid", 1000⟩] ∧ ¬ t.Released := by
  refine ⟨⟨_, _, rfl, rfl, rfl, rfl, fun h => ?_⟩, _, _, rfl, rfl, rfl, rfl, fun h => ?_⟩
  · exact absurd (h 0 _ rfl (by decide)).1 (by decide)
  · exact absurd (h 0 _ rfl (by decide)).2 (by decide)

end Rinfra.Timer
