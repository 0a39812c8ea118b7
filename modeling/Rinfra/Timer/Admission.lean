import Rinfra.Timer.Triggers

/-!
# Once per trigger

A cluster task is meant to run on one node at each of its fire instants. The lock
only keeps a node from the handler while another one has the key: a node that asks
later, or gets an error, is let through as well. So a trigger is executed by one node as
long as every other node asks while the key is leased, and is answered.
-/

namespace Rinfra.Timer

open Rinfra.Lib Rinfra.Lock

/-- What a cluster timer is for. -/
def OncePerTrigger (f : Fleet) : Prop :=
  ∀ j k a b, f.ledger.attempts j = some a → f.ledger.attempts k = some b →
    a.task.id = b.task.id → a.trigger = b.trigger → a.Ran → b.Ran → a.loop.node = b.loop.node

namespace Fleet

def AtHandler (f : Fleet) (i : LoopId) : Prop :=
  ∃ sp handle, (f.engines i.node).loops i.loop = some sp ∧ sp.dropped = false ∧
    sp.loop.phase = .starting handle ∧ sp.loop.task.needLock true = true

def Admitted (f : Fleet) (k : Nat) (a : Attempt) : Prop :=
  a.Ran ∨ f.ledger.current a.loop = some k ∧ f.AtHandler a.loop

/-- A loop that asks at a trigger for which another node has been admitted finds the key
leased, and the call does not fail. -/
def InTime (f : Fleet) (e : FleetEvent) : Prop :=
  ∀ n outcome sp, e.act = .loop n (.tryAcquire outcome) →
    (f.engines e.node).loops n = some sp →
    (∃ k a, f.ledger.attempts k = some a ∧ a.task.id = sp.loop.task.id ∧
      a.trigger = sp.loop.trigger ∧ a.loop.node ≠ e.node ∧ f.Admitted k a) →
    f.ledger.leases.holder e.at_ sp.loop.task.lockKey ≠ none ∧ ∀ err, outcome ≠ .err err

def Single (f : Fleet) : Prop :=
  ∀ j k a b, f.ledger.attempts j = some a → f.ledger.attempts k = some b →
    a.task.id = b.task.id → a.trigger = b.trigger → f.Admitted j a → f.Admitted k b →
    a.loop.node = b.loop.node

end Fleet

/-- The same attempt, perhaps further on. -/
structure Attempt.Earlier (a a' : Attempt) : Prop where
  loop : a.loop = a'.loop
  task : a.task = a'.task
  trigger : a.trigger = a'.trigger

theorem Attempt.Earlier.refl (a : Attempt) : a.Earlier a := ⟨rfl, rfl, rfl⟩

theorem Attempt.Earlier.advance (a : Attempt) (now : Nat) : a.Earlier (a.advance now) :=
  ⟨rfl, rfl, rfl⟩

-- ---------------------------------------------------------------------------
-- Who is admitted
-- ---------------------------------------------------------------------------

section
variable {uuid : Nat → String} {d d' : Ledger} {l l' : Loop} {i : LoopId} {le : LoopEvent}
variable {f f' : Fleet} {e : FleetEvent} {a a' b : Attempt}

theorem Phase.Agrees.ran (h : Phase.Agrees p a.progress) (hp : ∀ handle, p ≠ .starting handle) :
    a.Ran := by
  intro hwaiting
  rw [hwaiting] at h
  cases p with
  | starting handle => exact hp handle rfl
  | _ => exact h

theorem ran_before (hs : d.Sound uuid) (hf : Follows uuid d i l)
    (hl : l.step cron true le = some l') (h : d.note uuid i l reached le = some d')
    (ha : d'.attempts k = some a') (hran : a'.Ran) :
    ∃ a, d.attempts k = some a ∧ a.Earlier a' ∧ (a.Ran ∨ d.current i = some k ∧ a.loop = i ∧
      l.task.needLock true = true ∧ ∃ handle, l.phase = .starting handle) := by
  have hadvanced : ∀ handle, l.task.needLock true = true → l.phase.carries = some handle →
      (d.advance i).attempts k = some a' → ∃ a, d.attempts k = some a ∧ a.Earlier a' ∧
        (a.Ran ∨ d.current i = some k ∧ a.loop = i ∧ l.task.needLock true = true ∧
          ∃ handle, l.phase = .starting handle) := by
    intro handle hneed hc ha
    obtain ⟨m, b, hshow⟩ := hf.shown hneed handle hc
    rcases Ledger.advance_cases hshow.current ha with ⟨b', rfl, hb', rfl⟩ | ⟨-, ha⟩
    · obtain rfl := Option.some.inj (hshow.attempt.symm.trans hb')
      refine ⟨b, hb', .advance b _, ?_⟩
      by_cases hp : ∃ handle, l.phase = .starting handle
      · obtain ⟨b', hb', hloop⟩ := hs.own i _ hshow.current
        obtain rfl := Option.some.inj (hshow.attempt.symm.trans hb')
        exact .inr ⟨hshow.current, hloop, hneed, hp⟩
      · exact .inl (hshow.progress.ran fun handle heq => hp ⟨handle, heq⟩)
    · exact ⟨a', ha, .refl a', .inl hran⟩
  rcases note_cases h with
    rfl | ⟨outcome, -, ⟨⟨leases, rfl⟩, -, -⟩⟩ | ⟨hneed, hle, rfl⟩ | ⟨handle, result, hp, -, rfl⟩
  · exact ⟨a', ha, .refl a', .inl hran⟩
  · rcases Ledger.attempt_cases ha with ⟨-, rfl⟩ | ⟨-, ha⟩
    · exact absurd rfl hran
    · exact ⟨a', ha, .refl a', .inl hran⟩
  · obtain ⟨handle, hc⟩ : ∃ handle, l.phase.carries = some handle := by
      rcases hle with rfl | ⟨outcome, rfl⟩
      · cases Loop.goes hl with
        | start hp => exact ⟨_, by rw [hp]; rfl⟩
      · cases Loop.goes hl with
        | returned hp | erred hp | panicked hp => exact ⟨_, by rw [hp]; rfl⟩
    exact hadvanced handle hneed hc ha
  · exact hadvanced (some handle) (hf.locked (by rw [hp]; rfl)) (by rw [hp]; rfl) ha

theorem Loop.to_starting (hl : l.step cron true le = some l')
    (hp' : l'.phase = .starting handle) (hneed : l'.task.needLock true = true) :
    ∃ outcome, le = .tryAcquire outcome ∧
      ((∃ handle, outcome = .ok (some handle)) ∨ ∃ err, outcome = .err err) := by
  cases Loop.goes hl with
  | locked => exact ⟨_, rfl, .inl ⟨_, rfl⟩⟩
  | unlocked => exact ⟨_, rfl, .inr ⟨_, rfl⟩⟩
  | permit =>
    have hneed : l.task.needLock true = true := hneed
    simp [Loop.goto, hneed] at hp'
  | skipped | record =>
    unfold Loop.again at hp'
    split at hp' <;> simp [Loop.goto] at hp'
  | @returned handle' | @erred handle' => cases handle' <;> simp [Loop.goto, afterHandler] at hp'
  | due | never | invalid | fail | announce | wake | lockPanicked | start | panicked | released =>
    simp [Loop.goto] at hp'

structure Fleet.Admits (f : Fleet) (e : FleetEvent) (a : Attempt) : Prop where
  asked : ∃ n outcome sp, e.act = .loop n (.tryAcquire outcome) ∧
    (f.engines e.node).loops n = some sp ∧ a.task = sp.loop.task ∧ a.trigger = sp.loop.trigger ∧
    (f.ledger.leases.holder e.at_ sp.loop.task.lockKey = none ∨ ∃ err, outcome = .err err)
  node : a.loop.node = e.node

/-- An admitted attempt was so before, or the event admits it. -/
theorem Inv.admitted_before (hi : Inv uuid f) (h : f.step cron maxConcurrent uuid e = some f')
    (ha : f'.ledger.attempts k = some a') (hadm : f'.Admitted k a') :
    (∃ a, f.ledger.attempts k = some a ∧ a.Earlier a' ∧ f.Admitted k a) ∨ f.Admits e a' := by
  obtain ⟨hle, s, d', hs, hd, rfl⟩ := Fleet.stepped h
  have hsound := hi.sound.tick hle
  rcases hadm with hran | ⟨hcur, sp', handle, hsp', hdropped, hp', hneed⟩
  · by_cases hact : ∃ n le, e.act = .loop n le
    · obtain ⟨n, le, hact⟩ := hact
      obtain ⟨sp, l', hsp, hlive, hl, -⟩ := Engine.step_loop (hact ▸ hs)
      have hd : (f.ledger.tick e.at_).note uuid ⟨e.node, n⟩ sp.loop e.reached le = some d' := by
        simpa [Fleet.note, hact, hsp] using hd
      obtain ⟨a, ha, hearlier, hadm⟩ :=
        ran_before hsound ((hi.follows e.node n sp hsp).tick e.at_) hl hd ha hran
      refine .inl ⟨a, ha, hearlier, hadm.imp_right ?_⟩
      rintro ⟨hcur, hloop, hneed, handle, hp⟩
      rw [hloop]
      exact ⟨hcur, sp, handle, hsp, by simp_all [Spawned.live], hp, hneed⟩
    · have hd : f.ledger.tick e.at_ = d' := by
        unfold Fleet.note at hd
        split at hd
        · exact absurd ⟨_, _, ‹_›⟩ hact
        · exact Option.some.inj hd
      subst hd
      exact .inl ⟨a', ha, .refl a', .inl hran⟩
  · have hold : ∀ sp, (f.engines a'.loop.node).loops a'.loop.loop = some sp →
        SamePlace sp.loop sp'.loop → (sp.dropped = true → sp'.dropped = true) →
        (∀ n le, e.act = .loop n le → a'.loop ≠ ⟨e.node, n⟩) →
        ∃ a, f.ledger.attempts k = some a ∧ a.Earlier a' ∧ f.Admitted k a := by
      intro sp hsp hplace hdrop hne
      obtain ⟨hcur', hatt⟩ := hi.note_other hle hd hne
      have hcur : f.ledger.current a'.loop = some k := hcur' ▸ hcur
      refine ⟨a', (hatt k hcur) ▸ ha, .refl a', .inr ⟨hcur, sp, handle, hsp, ?_, ?_, ?_⟩⟩
      · cases hd : sp.dropped with
        | false => rfl
        | true => exact absurd (hdrop hd) (by simp [hdropped])
      · exact hplace.phase ▸ hp'
      · exact hplace.task ▸ hneed
    have hsp' : (Function.update f.engines e.node s a'.loop.node).loops a'.loop.loop = some sp' :=
      hsp'
    by_cases hnode : a'.loop.node = e.node
    · rw [hnode, Function.update_self] at hsp'
      rcases Engine.loops_after hs hsp' with
        ⟨le, sp, hact, hsp, hl⟩ | ⟨hact, hcomp | ⟨sp, hsp, hplace, hdrop⟩⟩
      · obtain ⟨outcome, rfl, hthrough⟩ := Loop.to_starting hl hp' hneed
        have hd : (f.ledger.tick e.at_).note uuid ⟨e.node, a'.loop.loop⟩ sp.loop e.reached
            (.tryAcquire outcome) = some d' := by
          simpa [Fleet.note, hact, hsp] using hd
        obtain ⟨⟨leases, rfl⟩, -, hgranted⟩ := Ledger.tryAcquire_attempted hd
        have hloop : (⟨e.node, a'.loop.loop⟩ : LoopId) = a'.loop := by rw [← hnode]
        rw [hloop] at hcur ha
        obtain rfl : f.ledger.count = k := by
          simpa [Ledger.attempt, Ledger.tick] using hcur
        have heq := Option.some.inj ((Ledger.attempt_new (f.ledger.tick e.at_) a'.loop sp.loop
          (.ofOutcome outcome)).symm.trans ha)
        refine .inr ⟨⟨_, outcome, sp, hact, hsp, (congrArg Attempt.task heq).symm,
          (congrArg Attempt.trigger heq).symm, ?_⟩, hnode⟩
        rcases hthrough with ⟨handle', rfl⟩ | herr
        · exact .inl (hgranted handle' rfl).2.2.1
        · exact .inr herr
      · rw [hcomp] at hp'
        cases hp'
      · refine .inl (hold sp (hnode ▸ hsp) hplace hdrop ?_)
        rintro n le hm hloop
        exact hact le (by rw [hm, hloop])
    · rw [Function.update_of_ne hnode] at hsp'
      refine .inl (hold sp' hsp' (.refl _) (fun h => h) ?_)
      rintro n le - hloop
      exact hnode (by rw [hloop])

theorem Attempt.Earlier.id_eq (h : Attempt.Earlier a a') : a.task.id = a'.task.id := by
  rw [h.task]

theorem Fleet.InTime.not_admits (h : f.InTime e) (hadm : f.Admits e b)
    (ha : f.ledger.attempts k = some a) (hid : a.task.id = b.task.id)
    (htrigger : a.trigger = b.trigger) (hadm' : f.Admitted k a) : a.loop.node = e.node := by
  obtain ⟨n, outcome, sp, hact, hsp, htask, htrig, hthrough⟩ := hadm.asked
  by_contra hne
  obtain ⟨hleased, hanswered⟩ := h n outcome sp hact hsp
    ⟨k, a, ha, by rw [hid, htask], by rw [htrigger, htrig], hne, hadm'⟩
  rcases hthrough with hfree | ⟨err, herr⟩
  · exact hleased hfree
  · exact hanswered err herr

theorem Fleet.Single.step (hi : Inv uuid f) (hs : f.Single) (hin : f.InTime e)
    (h : f.step cron maxConcurrent uuid e = some f') : f'.Single := by
  intro j k a b ha hb hid htrigger hadma hadmb
  rcases hi.admitted_before h ha hadma with ⟨a₀, ha₀, hea, hadma⟩ | hadma
  · rcases hi.admitted_before h hb hadmb with ⟨b₀, hb₀, heb, hadmb⟩ | hadmb
    · rw [← hea.loop, ← heb.loop]
      exact hs j k a₀ b₀ ha₀ hb₀ (by rw [hea.id_eq, heb.id_eq, hid])
        (by rw [hea.trigger, heb.trigger, htrigger]) hadma hadmb
    · rw [← hea.loop, hadmb.node]
      exact hin.not_admits hadmb ha₀ (hea.id_eq.trans hid) (hea.trigger.trans htrigger) hadma
  · rcases hi.admitted_before h hb hadmb with ⟨b₀, hb₀, heb, hadmb⟩ | hadmb
    · rw [← heb.loop, hadma.node]
      exact (hin.not_admits hadma hb₀ (heb.id_eq.trans hid.symm)
        (heb.trigger.trans htrigger.symm) hadmb).symm
    · rw [hadma.node, hadmb.node]

theorem Fleet.Single.oncePerTrigger (h : f.Single) : OncePerTrigger f :=
  fun j k a b ha hb hid htrigger hrana hranb =>
    h j k a b ha hb hid htrigger (.inl hrana) (.inl hranb)

end

-- ---------------------------------------------------------------------------
-- Runs
-- ---------------------------------------------------------------------------

/-- A trigger of a cluster task is executed by one node at most, in every run in which a
loop that asks for the lock, at a trigger another node has been admitted for, finds the
key leased and gets an answer.

Premise: no two tokens drawn are equal. -/
theorem once_per_trigger_of_inTime (cron : Cron) (maxConcurrent : Nat → Nat)
    (uuid : Nat → String) (hu : Function.Injective uuid) (es : List FleetEvent)
    (hin : Guarded (Fleet.step cron maxConcurrent uuid) Fleet.InTime Fleet.init es) :
    Always (Fleet.step cron maxConcurrent uuid) OncePerTrigger Fleet.init es := by
  have hinit : Inv uuid Fleet.init ∧ Fleet.init.Single := by
    refine ⟨.init, fun j k a b ha => ?_⟩
    simp [Fleet.init, Ledger.init] at ha
  have hstep : Always (Fleet.step cron maxConcurrent uuid) (fun f => Inv uuid f ∧ f.Single)
      Fleet.init es :=
    hin.invariant hinit fun f e f' hi he h => ⟨hi.1.step hu h, hi.2.step hi.1 he h⟩
  exact hstep.mono fun f hi => hi.2.oncePerTrigger

def report : TimerTask := ⟨"t", "report", .once 1000, .cluster, none, []⟩

/-- The node schedules the report and sleeps until second 1. -/
def waits (node : Nat) : List FleetEvent :=
  [⟨0, node, .schedule 0 report ⟨0, 0⟩ 0, true⟩, ⟨0, node, .poll 0, true⟩,
    ⟨0, node, .loop 0 (.compute ⟨0, 0⟩), true⟩, ⟨0, node, .loop 0 (.announce 0), true⟩,
    ⟨0, node, .park 0, true⟩]

def comes (node at_ : Nat) : List FleetEvent :=
  [⟨at_, node, .poll 0, true⟩, ⟨at_, node, .loop 0 .wake, true⟩,
    ⟨at_, node, .loop 0 .permit, true⟩]

def asks (node at_ : Nat) (answer : Option LockHandle) : FleetEvent :=
  ⟨at_, node, .loop 0 (.tryAcquire (.ok answer)), true⟩

def runs (node began ended : Nat) : List FleetEvent :=
  [⟨began, node, .loop 0 .start, true⟩, ⟨ended, node, .loop 0 (.finish (.ok ())), true⟩,
    ⟨ended, node, .loop 0 (.released (.ok true)), true⟩]

/-- Events other than a call of `try_acquire` are always in time. -/
theorem Fleet.InTime.of_others {es : List FleetEvent}
    (h : ∀ e ∈ es, ∀ n outcome, e.act ≠ .loop n (.tryAcquire outcome)) :
    Guarded (Fleet.step cron maxConcurrent uuid) Fleet.InTime f es := by
  induction es generalizing f with
  | nil => trivial
  | cons e es ih =>
    refine fun f' _ => ⟨fun n outcome _ hact => absurd hact (h e List.mem_cons_self n outcome), ?_⟩
    exact ih fun e' he' => h e' (List.mem_cons_of_mem e he')

/-- The second node asks while the first one runs the handler. -/
def heldNode : List FleetEvent :=
  waits 0 ++ waits 1 ++ comes 0 (fromMillis 1000) ++
    ([asks 0 (fromMillis 1000) (some ⟨"timer:t", countedUuid 0, 1000⟩)] ++
      (⟨fromMillis 1000, 0, .loop 0 .start, true⟩ :: comes 1 (fromMillis 1050) ++
        [asks 1 (fromMillis 1050) none]))

theorem heldNode_inTime :
    Guarded (Fleet.step ⟨fun _ => .error ""⟩ (fun _ => 4) countedUuid) Fleet.InTime Fleet.init
      heldNode := by
  refine Guarded.append (Fleet.InTime.of_others (by simp [waits, comes])) rfl
    (Guarded.append ?_ rfl (Guarded.append (Fleet.InTime.of_others (by simp [comes])) rfl ?_))
  · refine (guarded_cons rfl).mpr ⟨?_, trivial⟩
    rintro n outcome sp - - ⟨k, a, ha, -⟩
    cases ha
  · refine (guarded_cons rfl).mpr ⟨?_, trivial⟩
    rintro n outcome sp hact hsp -
    cases hact
    cases hsp
    exact ⟨by decide +kernel, by simp⟩

theorem once_per_trigger_of_inTime_held :
    ∃ f, run (Fleet.step ⟨fun _ => .error ""⟩ (fun _ => 4) countedUuid) Fleet.init heldNode =
        some f ∧ f.ledger.count = 2 ∧ OncePerTrigger f :=
  ⟨_, rfl, rfl, (once_per_trigger_of_inTime ⟨fun _ => .error ""⟩ (fun _ => 4) countedUuid
    countedUuid_injective heldNode heldNode_inTime).last rfl⟩

/-- Two nodes wait for second 1. The second one gets to the lock at second 2,
after the first one has released it. -/
def lateNode : List FleetEvent :=
  waits 0 ++ waits 1 ++ comes 0 (fromMillis 1000) ++
    asks 0 (fromMillis 1000) (some ⟨"timer:t", countedUuid 0, 1000⟩) ::
    runs 0 (fromMillis 1000) (fromMillis 1100) ++ comes 1 (fromMillis 2000) ++
    asks 1 (fromMillis 2000) (some ⟨"timer:t", countedUuid 1, 2000⟩) ::
    runs 1 (fromMillis 2000) (fromMillis 2100)

/-- Both nodes run the handler for second 1, for a tenth of a second each, under
a lease of five minutes. -/
theorem late_node_runs_again :
    ∃ f a b, run (Fleet.step ⟨fun _ => .error ""⟩ (fun _ => 4) countedUuid) Fleet.init lateNode =
        some f ∧ f.ledger.attempts 0 = some a ∧ f.ledger.attempts 1 = some b ∧
      a.trigger = some (fromMillis 1000) ∧ b.trigger = a.trigger ∧
      a.progress = .released (fromMillis 1000) (fromMillis 1100) (fromMillis 1100) ∧
      b.progress = .released (fromMillis 2000) (fromMillis 2100) (fromMillis 2100) ∧
      ¬ OncePerTrigger f := by
  refine ⟨_, _, _, rfl, rfl, rfl, rfl, rfl, rfl, rfl, fun h => ?_⟩
  have hnode := h 0 1 _ _ rfl rfl rfl rfl (by simp [Attempt.Ran, Attempt.advance, Progress.advance])
    (by simp [Attempt.Ran, Attempt.advance, Progress.advance])
  cases hnode

end Rinfra.Timer
