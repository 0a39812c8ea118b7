import Rinfra.Sdk.TsClient

/-!
# Requests and responses in TypeScript

A message that `waitVariant` finds in the inbox was there before the request,
and it stays there; a waiter is given what comes in next, from any socket. So
what has to hold is that neither of these is ever the wrong one.
-/

namespace Rinfra.Sdk.Ts

open Rinfra.Lib Client

/-- An attempt goes by the messages of its own socket. -/
def Owner.owns : Owner → Nat → Bool
  | .attempt c, socket => c = socket
  | .call _, _ => true

/-- A resolution of a request that was sent, by a message that came in later, and
on a socket of its owner. -/
def Resolution.Proper (r : Resolution) : Prop :=
  r.waiter.sent ∧ r.waiter.since ≤ r.number ∧ r.waiter.owner.owns r.socket

instance : DecidablePred Resolution.Proper := fun r =>
  inferInstanceAs (Decidable
    (r.waiter.sent ∧ r.waiter.since ≤ r.number ∧ r.waiter.owner.owns r.socket))

/-- Each message resolves once and is removed, and every resolution is proper. -/
structure Paired (s : Client) : Prop where
  once : (s.resolved.map (·.number)).Nodup
  removed : ∀ r ∈ s.resolved, ∀ m ∈ s.inbox, m.number ≠ r.number
  proper : ∀ r ∈ s.resolved, r.Proper

instance : DecidablePred Paired := fun s =>
  decidable_of_iff
    ((s.resolved.map (·.number)).Nodup ∧
      (∀ r ∈ s.resolved, ∀ m ∈ s.inbox, m.number ≠ r.number) ∧ ∀ r ∈ s.resolved, r.Proper)
    ⟨fun h => ⟨h.1, h.2.1, h.2.2⟩, fun h => ⟨h.once, h.removed, h.proper⟩⟩

/-- What is waited for is not in the inbox yet; and a message that somebody waits
for comes in on the socket of the attempt that is the first to want it, and its
request was sent. -/
def Fresh (s : Client) : Event → Prop
  | .connect _ => ∀ m ∈ s.inbox, m.msg.registerAck = none
  | .listNodes => ∀ m ∈ s.inbox, m.msg.nodeList = false
  | .frame c (.object msg) => ∀ w, (s.waiters.find? fun w => w.owner.wants msg) = some w →
    w.sent ∧ w.owner.owns c
  | _ => True

/-- Nothing in the inbox is waited for. -/
structure Settled (s : Client) : Prop where
  unwanted : ∀ m ∈ s.inbox, ∀ w ∈ s.waiters, w.owner.wants m.msg = false
  since : ∀ w ∈ s.waiters, w.since ≤ s.arrived
  inbox : ∀ m ∈ s.inbox, m.number < s.arrived
  resolved : ∀ r ∈ s.resolved, r.number < s.arrived

-- ---------------------------------------------------------------------------
-- What connections leave alone
-- ---------------------------------------------------------------------------

/-- Messages are left alone, and nobody begins to wait. -/
structure Still (s s' : Client) : Prop where
  inbox : s'.inbox = s.inbox
  resolved : s'.resolved = s.resolved
  arrived : s'.arrived = s.arrived
  waiters : ∀ w ∈ s'.waiters, w ∈ s.waiters

section
variable {s s' s'' : Client} {c x : Nat} {e : Event}

theorem Still.refl : Still s s := ⟨rfl, rfl, rfl, fun _ => id⟩

theorem Still.trans (h : Still s s') (h' : Still s' s'') : Still s s'' where
  inbox := h'.inbox.trans h.inbox
  resolved := h'.resolved.trans h.resolved
  arrived := h'.arrived.trans h.arrived
  waiters := fun w hw => h.waiters w (h'.waiters w hw)

theorem Still.paired (h : Still s s') : Paired s' ↔ Paired s := by
  constructor
  · rintro ⟨honce, hremoved, hproper⟩
    rw [h.resolved] at honce hremoved hproper
    rw [h.inbox] at hremoved
    exact ⟨honce, hremoved, hproper⟩
  · rintro ⟨honce, hremoved, hproper⟩
    rw [← h.resolved] at honce hremoved hproper
    rw [← h.inbox] at hremoved
    exact ⟨honce, hremoved, hproper⟩

theorem Still.settled (h : Still s s') (hs : Settled s) : Settled s' where
  unwanted := fun m hm w hw => hs.unwanted m (h.inbox ▸ hm) w (h.waiters w hw)
  since := fun w hw => h.arrived ▸ hs.since w (h.waiters w hw)
  inbox := fun m hm => h.arrived ▸ hs.inbox m (h.inbox ▸ hm)
  resolved := fun r hr => h.arrived ▸ hs.resolved r (h.resolved ▸ hr)

theorem still_setPhase : Still s (s.setPhase c phase) := ⟨rfl, rfl, rfl, fun _ => id⟩

theorem still_connectAndRegister : Still s (s.connectAndRegister initial) := by
  unfold Client.connectAndRegister
  split
  · exact .refl
  · exact ⟨rfl, rfl, rfl, fun _ => id⟩

theorem still_destroy : Still s (s.destroy x) := by
  unfold Client.destroy
  split
  · exact ⟨rfl, rfl, rfl, fun _ => id⟩
  · exact .refl

theorem still_giveUp : Still s (s.giveUp c) := by
  unfold Client.giveUp
  split <;> exact ⟨rfl, rfl, rfl, fun _ => id⟩

theorem still_fail : Still s (s.fail c) := by
  unfold Client.fail
  split
  · exact still_giveUp
  · have hsocket : Still s { s with socket := none } := ⟨rfl, rfl, rfl, fun _ => id⟩
    exact hsocket.trans (still_destroy.trans still_setPhase)

theorem still_stop : Still s s.stop := by
  unfold Client.stop
  split
  · exact ⟨rfl, rfl, rfl, fun _ => id⟩
  · rename_i x _
    have hstopping : Still s { s with
        running := false, state := .stopping, socket := none, stops := x :: s.stops } :=
      ⟨rfl, rfl, rfl, fun _ => id⟩
    exact hstopping.trans still_destroy

theorem still_foldl_giveUp (waiting : List (Nat × Phase)) (s : Client) :
    Still s (waiting.foldl (fun s a => s.giveUp a.1) s) := by
  induction waiting generalizing s with
  | nil => exact .refl
  | cons a waiting ih => exact still_giveUp.trans (ih _)

theorem still_handleClose : Still s s.handleClose := by
  unfold Client.handleClose
  split
  · exact ⟨rfl, rfl, rfl, fun _ => id⟩
  · exact .refl

theorem still_stopsResolve : Still s (s.stopsResolve x) := by
  unfold Client.stopsResolve
  split
  · exact ⟨rfl, rfl, rfl, fun _ => id⟩
  · exact .refl

theorem still_closed : Still s (s.closed x) := by
  have hshut : Still s
      { s with live := without x s.live, destroyed := without x s.destroyed } :=
    ⟨rfl, rfl, rfl, fun _ => id⟩
  exact hshut.trans (still_handleClose.trans ((still_foldl_giveUp _ _).trans still_stopsResolve))

theorem still_errored : Still s (s.errored x) := by
  unfold Client.errored
  split
  · exact still_destroy.trans ⟨rfl, rfl, rfl, fun _ => id⟩
  · exact still_destroy

theorem still_proceed : Still s (s.proceed c body) := by
  cases body with
  | accepted => exact ⟨rfl, rfl, rfl, fun _ => id⟩
  | refused =>
    have hrefused : Still s { s with authFailed := true } := ⟨rfl, rfl, rfl, fun _ => id⟩
    exact hrefused.trans still_fail
  | unreadable => exact still_fail

theorem still_ackTimeout : Still s (s.ackTimeout c) := by
  have hleft : Still s { s with waiters := s.waiters.filter fun w => w.owner ≠ .attempt c } :=
    ⟨rfl, rfl, rfl, fun w hw => (List.mem_filter.mp hw).1⟩
  exact hleft.trans still_fail

theorem still_start : Still s s.start := by
  unfold Client.start
  split
  · exact .refl
  · have hrunning : Still s { s with running := true, authFailed := false, stopped := false } :=
      ⟨rfl, rfl, rfl, fun _ => id⟩
    exact hrunning.trans still_connectAndRegister

-- ---------------------------------------------------------------------------
-- Waits and frames
-- ---------------------------------------------------------------------------

theorem resolve_messages (w : Waiter) (m : Received) (s : Client) :
    (s.resolve w m).inbox = s.inbox ∧ (s.resolve w m).waiters = s.waiters ∧
      (s.resolve w m).arrived = s.arrived ∧
      (s.resolve w m).resolved = ⟨w, m.number, m.socket⟩ :: s.resolved := by
  unfold Client.resolve
  split <;> exact ⟨rfl, rfl, rfl, rfl⟩

theorem settled_resolve (hs : Settled s) (hm : m.number < s.arrived) :
    Settled (s.resolve w m) := by
  obtain ⟨hinbox, hwaiters, harrived, hresolved⟩ := resolve_messages w m s
  refine ⟨?_, ?_, ?_, fun r hr => ?_⟩
  · rw [hinbox, hwaiters]
    exact hs.unwanted
  · rw [hwaiters, harrived]
    exact hs.since
  · rw [hinbox, harrived]
    exact hs.inbox
  · rw [hresolved] at hr
    rw [harrived]
    rcases List.mem_cons.mp hr with rfl | hr
    · exact hm
    · exact hs.resolved r hr

theorem settled_waitVariant (hs : Settled s) (hw : w.since ≤ s.arrived) :
    Settled (s.waitVariant w) := by
  unfold Client.waitVariant
  split
  · rename_i m hfind
    exact settled_resolve hs (hs.inbox m (List.mem_of_find?_eq_some hfind))
  · rename_i hfind
    exact { hs with
      unwanted := fun m hm v hv => by
        rcases List.mem_append.mp hv with hold | hnew
        · exact hs.unwanted m hm v hold
        · rw [List.mem_singleton.mp hnew]
          exact Bool.eq_false_iff.mpr (List.find?_eq_none.mp hfind m hm)
      since := fun v hv => by
        rcases List.mem_append.mp hv with hold | hnew
        · exact hs.since v hold
        · rwa [List.mem_singleton.mp hnew] }

/-- A message that is found at once is not removed. -/
theorem paired_waitVariant (hp : Paired s) :
    Paired (s.waitVariant w) ↔ ∀ m ∈ s.inbox, w.owner.wants m.msg = false := by
  unfold Client.waitVariant
  split
  · rename_i m hfind
    have hm := List.mem_of_find?_eq_some hfind
    have hwants := List.find?_some hfind
    refine iff_of_false (fun h => ?_) fun h => ?_
    · obtain ⟨hinbox, -, -, hresolved⟩ := resolve_messages w m s
      refine h.removed ⟨w, m.number, m.socket⟩ ?_ m (hinbox ▸ hm) rfl
      rw [hresolved]
      exact List.mem_cons_self
    · rw [h m hm] at hwants
      cases hwants
  · rename_i hfind
    exact iff_of_true ⟨hp.once, hp.removed, hp.proper⟩
      fun m hm => Bool.eq_false_iff.mpr (List.find?_eq_none.mp hfind m hm)

theorem drainOne_unwanted (h : ∀ w ∈ s.waiters, w.owner.wants m.msg = false) :
    s.drainOne m = { s with inbox := s.inbox ++ [m] } := by
  have hfind : (s.waiters.find? fun w => w.owner.wants m.msg) = none :=
    List.find?_eq_none.mpr fun w hw => by simp [h w hw]
  simp only [Client.drainOne, hfind]

theorem foldl_drainOne_unwanted (inbox : List Received) (s : Client)
    (h : ∀ m ∈ inbox, ∀ w ∈ s.waiters, w.owner.wants m.msg = false) :
    inbox.foldl drainOne s = { s with inbox := s.inbox ++ inbox } := by
  induction inbox generalizing s with
  | nil => simp
  | cons m inbox ih =>
    rw [List.foldl_cons, drainOne_unwanted (h m List.mem_cons_self),
      ih { s with inbox := s.inbox ++ [m] } fun m' hm' => h m' (List.mem_cons_of_mem m hm')]
    simp

theorem drainWaiters_settled (hs : Settled s) : s.drainWaiters = s := by
  rw [Client.drainWaiters,
    foldl_drainOne_unwanted s.inbox { s with inbox := [] } hs.unwanted]
  rfl

theorem handleFrame_object (hs : Settled s) :
    s.handleFrame c (.object msg) =
      drainOne { s with arrived := s.arrived + 1 } ⟨s.arrived, c, msg⟩ := by
  simp only [Client.handleFrame, Client.drainWaiters, List.foldl_append]
  rw [foldl_drainOne_unwanted s.inbox { s with inbox := [], arrived := s.arrived + 1 }
    hs.unwanted]
  rfl

theorem settled_handleFrame (hs : Settled s) : Settled (s.handleFrame c frame) := by
  cases frame with
  | ping | pong => exact hs
  | scalar =>
    simp only [Client.handleFrame, drainWaiters_settled hs]
    exact hs
  | object msg =>
    have hcounted : Settled { s with arrived := s.arrived + 1 } := { hs with
      since := fun w hw => Nat.le_succ_of_le (hs.since w hw)
      inbox := fun m hm => Nat.lt_succ_of_lt (hs.inbox m hm)
      resolved := fun r hr => Nat.lt_succ_of_lt (hs.resolved r hr) }
    rw [handleFrame_object hs]
    unfold Client.drainOne
    split
    · rename_i w _
      have hfewer : Settled
          { s with arrived := s.arrived + 1, waiters := s.waiters.filter (· ≠ w) } :=
        { hcounted with
          unwanted := fun m hm v hv => hs.unwanted m hm v (List.mem_filter.mp hv).1
          since := fun v hv => hcounted.since v (List.mem_filter.mp hv).1 }
      exact settled_resolve hfewer (Nat.lt_succ_self s.arrived)
    · rename_i hfind
      exact { hcounted with
        unwanted := fun m hm w hw => by
          rcases List.mem_append.mp hm with hold | hnew
          · exact hs.unwanted m hold w hw
          · rw [List.mem_singleton.mp hnew]
            exact Bool.eq_false_iff.mpr (List.find?_eq_none.mp hfind w hw)
        inbox := fun m hm => by
          rcases List.mem_append.mp hm with hold | hnew
          · exact hcounted.inbox m hold
          · rw [List.mem_singleton.mp hnew]
            exact Nat.lt_succ_self s.arrived }

/-- The first who wants the message is given it. -/
theorem paired_handleFrame (hs : Settled s) (hp : Paired s) :
    Paired (s.handleFrame c (.object msg)) ↔ Fresh s (.frame c (.object msg)) := by
  rw [handleFrame_object hs]
  unfold Client.drainOne
  split
  · rename_i w hfind
    have hw := hs.since w (List.mem_of_find?_eq_some hfind)
    obtain ⟨hinbox, -, -, hresolved⟩ := resolve_messages w ⟨s.arrived, c, msg⟩
      { s with arrived := s.arrived + 1, waiters := s.waiters.filter (· ≠ w) }
    constructor
    · intro h v hv
      obtain rfl := Option.some.inj (hv.symm.trans hfind)
      have hproper := h.proper ⟨v, s.arrived, c⟩ (hresolved ▸ List.mem_cons_self)
      exact ⟨hproper.1, hproper.2.2⟩
    · intro hfresh
      have hproper := hfresh w hfind
      refine ⟨?_, fun r hr m hm => ?_, fun r hr => ?_⟩
      · rw [hresolved, List.map_cons, List.nodup_cons]
        refine ⟨fun hmem => ?_, hp.once⟩
        obtain ⟨r, hr, hnumber⟩ := List.mem_map.mp hmem
        exact absurd hnumber (Nat.ne_of_lt (hs.resolved r hr))
      · rw [hinbox] at hm
        rw [hresolved] at hr
        rcases List.mem_cons.mp hr with rfl | hr
        · exact Nat.ne_of_lt (hs.inbox m hm)
        · exact hp.removed r hr m hm
      · rw [hresolved] at hr
        rcases List.mem_cons.mp hr with rfl | hr
        · exact ⟨hproper.1, hw, hproper.2⟩
        · exact hp.proper r hr
  · rename_i hfind
    refine iff_of_true ⟨hp.once, fun r hr m hm => ?_, hp.proper⟩ fun v hv => ?_
    · rcases List.mem_append.mp hm with hold | hnew
      · exact hp.removed r hr m hold
      · rw [List.mem_singleton.mp hnew]
        exact Nat.ne_of_gt (hs.resolved r hr)
    · rw [hfind] at hv
      cases hv

theorem Settled.after (hs : Settled s) : Settled (after s e) := by
  cases e with
  | start => exact still_start.settled hs
  | stop => exact still_stop.settled hs
  | stopped => exact { hs with }
  | listNodes =>
    exact settled_waitVariant (s := { s with calls := s.calls + 1 }) { hs with } (Nat.le_refl _)
  | reconnectTimer =>
    exact still_connectAndRegister.settled (s := { s with timers := s.timers - 1 }) { hs with }
  | connect c => exact settled_waitVariant { hs with } (Nat.le_refl _)
  | error c => exact still_errored.settled hs
  | close c => exact still_closed.settled hs
  | frame c frame => exact settled_handleFrame (s := { s with chunk := some c }) { hs with }
  | proceed c body => exact still_proceed.settled hs
  | ackTimeout c => exact still_ackTimeout.settled hs
  | nodesTimeout k =>
    exact { hs with
      unwanted := fun m hm w hw => hs.unwanted m hm w (List.mem_filter.mp hw).1
      since := fun w hw => hs.since w (List.mem_filter.mp hw).1 }

theorem Paired.after_iff (hs : Settled s) (hp : Paired s) : Paired (after s e) ↔ Fresh s e := by
  cases e with
  | start => exact iff_of_true (still_start.paired.mpr hp) trivial
  | stop => exact iff_of_true (still_stop.paired.mpr hp) trivial
  | stopped => exact iff_of_true { hp with } trivial
  | listNodes => exact paired_waitVariant (s := { s with calls := s.calls + 1 }) { hp with }
  | reconnectTimer =>
    refine iff_of_true (still_connectAndRegister.paired.mpr ?_) trivial
    exact { hp with }
  | connect c =>
    refine (paired_waitVariant ?_).trans ?_
    · exact { hp with }
    · exact forall₂_congr fun m _ => by simp [Owner.wants]
  | error c => exact iff_of_true (still_errored.paired.mpr hp) trivial
  | close c => exact iff_of_true (still_closed.paired.mpr hp) trivial
  | frame c frame =>
    have hs' : Settled { s with chunk := some c } := { hs with }
    cases frame with
    | ping | pong => exact iff_of_true { hp with } trivial
    | scalar =>
      refine iff_of_true ?_ trivial
      simp only [Ts.after, Client.handleFrame, drainWaiters_settled hs']
      exact { hp with }
    | object msg => exact paired_handleFrame hs' { hp with }
  | proceed c body => exact iff_of_true (still_proceed.paired.mpr hp) trivial
  | ackTimeout c => exact iff_of_true (still_ackTimeout.paired.mpr hp) trivial
  | nodesTimeout k => exact iff_of_true { hp with } trivial

end

/-- In every run the responses are paired with their requests exactly as long as
every step is fresh. -/
theorem paired_iff_fresh (es : List Event) :
    Always step Paired Client.init es ↔ Guarded step Fresh Client.init es := by
  have hsettled : Settled Client.init := ⟨nofun, nofun, nofun, nofun⟩
  have hpaired : Paired Client.init := ⟨List.nodup_nil, nofun, nofun⟩
  refine always_iff_guarded hsettled hpaired ?_ ?_
  · intro s e s' hs _ hstep _
    obtain ⟨-, rfl⟩ := actions_eq_some.mp hstep
    exact hs.after
  · intro s e s' hs hp hstep
    obtain ⟨-, rfl⟩ := actions_eq_some.mp hstep
    exact hp.after_iff hs

/-- A call of `listNodes` times out, its answer comes in, and the next call is
given it at once, and so is the one after. -/
theorem late_answer_taken_twice :
    let ack : Frame := .object ⟨some .accepted, false⟩
    let events := [.start, .connect 0, .frame 0 ack, .proceed 0 .accepted, .listNodes,
      .nodesTimeout 0, .frame 0 (.object ⟨none, true⟩), .listNodes, .listNodes]
    (run step Client.init events).isSome ∧ ¬ Always step Paired Client.init events := by
  decide +kernel

end Rinfra.Sdk.Ts
