import Rinfra.Sdk.PyClient

/-!
# Requests and responses in Python

The queue outlives connections and calls. It holds an answer to nobody else as
long as nothing that is waited for was there before, and as long as a reader
task finds its own stream whenever it looks up the stored reader.
-/

namespace Rinfra.Sdk.Py

open Rinfra.Lib Client

/-- The acks were received on the connections of their attempts, the results
after their requests were sent, and each stream is read by one task. -/
structure Paired (s : Client) : Prop where
  acks : ∀ a ∈ s.acks, a.1 = a.2
  results : ∀ r ∈ s.results, r.call.sent ∧ r.call.since ≤ r.number
  reads : ∀ a ∈ s.reads, ∀ b ∈ s.reads, a.2 = b.2 → a.1 = b.1

instance : DecidablePred Paired := fun s =>
  decidable_of_iff
    ((∀ a ∈ s.acks, a.1 = a.2) ∧ (∀ r ∈ s.results, r.call.sent ∧ r.call.since ≤ r.number) ∧
      ∀ a ∈ s.reads, ∀ b ∈ s.reads, a.2 = b.2 → a.1 = b.1)
    ⟨fun h => ⟨h.1, h.2.1, h.2.2⟩, fun h => ⟨h.acks, h.results, h.reads⟩⟩

/-- The message that a payload of the stream is. -/
def putBy (loads : Loads) (s : Client) (c frameLen : Nat) : Option Message :=
  match loads ((s.buffer c).take frameLen) with
  | some (.message msg) => some msg
  | _ => none

/-- No ack is in the queue when an attempt sends its `Register`, and none is put
by another connection while it waits; no node list is there when a call sends its
request; and a reader task does not go on with the stream of another, neither for a
header nor for a payload. -/
def Fresh (loads : Loads) (s : Client) : Event → Prop
  | .connected _ => ∀ e ∈ s.incoming, e.msg.registerAck = none
  | .payload _ c frameLen =>
    ∀ msg ∈ putBy loads s c frameLen, msg.registerAck.isSome →
      ∀ l ∈ s.loops, l.2.awaits.all (· = c)
  | .listNodes => s.writer.isSome ∧ ∀ e ∈ s.incoming, e.msg.nodeList = false
  | .look t => s.running → s.reader.all (· = t)
  | .header t _ => s.reader.all (· = t)
  | _ => True

/-- Whoever waits for what is in the queue may take it. -/
structure Settled (s : Client) : Prop where
  acks : ∀ e ∈ s.incoming, e.msg.registerAck.isSome → ∀ l ∈ s.loops, ∀ c, l.2.awaits = some c →
    e.stream = c
  nodes : ∀ e ∈ s.incoming, e.msg.nodeList → ∀ call ∈ s.calls, call.since ≤ e.number
  calls : ∀ call ∈ s.calls, call.sent ∧ call.since ≤ s.arrived
  taken : ∀ a ∈ s.acks, a.1 = a.2
  results : ∀ r ∈ s.results, r.call.sent ∧ r.call.since ≤ r.number
  reads : ∀ a ∈ s.reads, a.1 = a.2

-- ---------------------------------------------------------------------------
-- What the other steps leave alone
-- ---------------------------------------------------------------------------

/-- Nothing is put into the queue, nobody begins to wait, and nothing is taken
for an answer. -/
structure Calm (s s' : Client) : Prop where
  incoming : ∀ e ∈ s'.incoming, e ∈ s.incoming
  calls : ∀ call ∈ s'.calls, call ∈ s.calls
  loops : ∀ l ∈ s'.loops, ∀ c, l.2.awaits = some c → l ∈ s.loops
  arrived : s'.arrived = s.arrived
  taken : s'.acks = s.acks
  results : s'.results = s.results
  reads : s'.reads = s.reads

section
variable {s s' s'' : Client} {m t c : Nat} {e : Event}

theorem Settled.paired (h : Settled s) : Paired s where
  acks := h.taken
  results := h.results
  reads := fun a ha b hb heq => by rw [h.reads a ha, h.reads b hb, heq]

theorem Calm.refl : Calm s s :=
  ⟨fun _ => id, fun _ => id, fun _ hl _ _ => hl, rfl, rfl, rfl, rfl⟩

theorem Calm.trans (h : Calm s s') (h' : Calm s' s'') : Calm s s'' where
  incoming := fun e he => h.incoming e (h'.incoming e he)
  calls := fun call hcall => h.calls call (h'.calls call hcall)
  loops := fun l hl c hc => h.loops l (h'.loops l hl c hc) c hc
  arrived := h'.arrived.trans h.arrived
  taken := h'.taken.trans h.taken
  results := h'.results.trans h.results
  reads := h'.reads.trans h.reads

theorem Calm.settled (h : Calm s s') (hs : Settled s) : Settled s' where
  acks := fun e he hack l hl c hc =>
    hs.acks e (h.incoming e he) hack l (h.loops l hl c hc) c hc
  nodes := fun e he hnodes call hcall =>
    hs.nodes e (h.incoming e he) hnodes call (h.calls call hcall)
  calls := fun call hcall => h.arrived ▸ hs.calls call (h.calls call hcall)
  taken := h.taken ▸ hs.taken
  results := h.results ▸ hs.results
  reads := h.reads ▸ hs.reads

theorem calm_setPhase (hphase : phase.awaits = none) : Calm s (s.setPhase m phase) := by
  refine ⟨fun _ => id, fun _ => id, fun l hl c hc => ?_, rfl, rfl, rfl, rfl⟩
  obtain ⟨k, hk, rfl⟩ := List.mem_map.mp hl
  split at hc
  · rw [hphase] at hc
    cases hc
  · rename_i hne
    rwa [if_neg hne]

theorem calm_leave : Calm s (s.leave m) :=
  ⟨fun _ => id, fun _ => id, fun _ hl _ _ => (List.mem_filter.mp hl).1, rfl, rfl, rfl, rfl⟩

theorem calm_closeStream : Calm s s.closeStream :=
  ⟨fun _ => id, fun _ => id, fun _ hl _ _ => hl, rfl, rfl, rfl, rfl⟩

theorem calm_failed : Calm s (s.failed m) := by
  unfold Client.failed
  split
  · exact calm_closeStream.trans (calm_setPhase rfl)
  · have hstate : Calm s { s with state := .reconnecting } := { Calm.refl with }
    exact hstate.trans (calm_setPhase rfl)

theorem calm_finish : Calm s (s.finish m) := calm_closeStream.trans (calm_setPhase rfl)

theorem calm_start : Calm s s.start := by
  unfold Client.start
  split
  · exact .refl
  · refine { Calm.refl with loops := fun l hl c hc => ?_ }
    rcases List.mem_cons.mp hl with rfl | hl
    · cases hc
    · exact hl

theorem calm_loopTop : Calm s (s.loopTop m) := by
  unfold Client.loopTop
  split
  · have hstate : Calm s { s with state := .connecting } := { Calm.refl with }
    exact hstate.trans (calm_setPhase rfl)
  · exact (calm_leave (m := m)).trans { Calm.refl with }

theorem calm_closed : Calm s (s.closed m next) := by
  cases next with
  | again => exact calm_setPhase rfl
  | leave => exact (calm_leave (m := m)).trans { Calm.refl with }
  | cancelled => exact calm_leave

theorem calm_cancel : Calm s (s.cancel m) := by
  have hcancelled : Calm s { s with cancels := s.cancels.filter (· ≠ m) } := { Calm.refl with }
  unfold Client.cancel
  split
  · exact hcancelled.trans calm_leave
  · exact hcancelled.trans (calm_closeStream.trans (calm_setPhase rfl))

-- ---------------------------------------------------------------------------
-- Waits and reads
-- ---------------------------------------------------------------------------

theorem Settled.takeAck (hs : Settled s) (hwaiting : (m, Phase.waiting c) ∈ s.loops) :
    Settled (s.takeAck m c) := by
  unfold Client.takeAck
  split
  · exact hs
  · rename_i e rest hincoming
    have hrest : Calm s { s with incoming := rest } := { Calm.refl with
      incoming := fun e' he' => hincoming ▸ List.mem_cons_of_mem e he' }
    have he : e ∈ s.incoming := hincoming ▸ List.mem_cons_self
    split
    · exact hrest.settled hs
    · rename_i hack
      have hsource := hs.acks e he (by rw [hack]; rfl) _ hwaiting c rfl
      have hacked : Settled { s with
          incoming := rest
          state := .connected
          acks := (c, e.stream) :: s.acks } := { hrest.settled hs with
        taken := fun a ha => by
          rcases List.mem_cons.mp ha with rfl | ha
          · exact hsource.symm
          · exact hs.taken a ha }
      split
      · exact calm_failed.settled hacked
      · exact (calm_setPhase rfl).settled hacked
    · have hrefused : Calm s { s with incoming := rest, authFailed := true } := { hrest with }
      exact (hrefused.trans calm_failed).settled hs
    · exact (hrest.trans calm_failed).settled hs

theorem Settled.connected (hs : Settled s)
    (hfresh : ∀ e ∈ s.incoming, e.msg.registerAck = none) : Settled (s.connected m) :=
  { hs with
    acks := fun e he hack => by
      rw [hfresh e he] at hack
      cases hack }

theorem Settled.readStored (hs : Settled s) (hfresh : s.reader.all (· = t)) :
    Settled (s.readStored t reading) := by
  unfold Client.readStored
  split
  · exact { hs with }
  · rename_i c hc
    rw [hc] at hfresh
    exact { hs with
      reads := fun a ha => by
        rcases List.mem_cons.mp ha with rfl | ha
        · exact (of_decide_eq_true hfresh).symm
        · exact hs.reads a ha }

theorem Settled.look (hs : Settled s) (hfresh : s.running → s.reader.all (· = t)) :
    Settled (s.look t) := by
  unfold Client.look
  split
  · exact { hs with }
  · rename_i hrunning
    exact hs.readStored (hfresh (by simpa using hrunning))

theorem Settled.header (hs : Settled s) (hfresh : s.reader.all (· = t)) :
    Settled (s.header t c) := by
  have htaken : Settled (s.take c 4) := { hs with }
  exact htaken.readStored hfresh

theorem Settled.payload (hs : Settled s) (hfresh : Fresh loads s (.payload t c frameLen)) :
    Settled (s.payload loads t c frameLen) := by
  simp only [Fresh, putBy] at hfresh
  unfold Client.payload
  split
  · exact { hs with }
  · exact { hs with }
  · exact { hs with }
  · rename_i msg hmsg
    rw [hmsg] at hfresh
    refine { hs with
      acks := fun e he hack l hl d hd => ?_
      nodes := fun e he hnodes call hcall => ?_
      calls := fun call hcall => ?_ }
    · rcases List.mem_append.mp he with hold | hnew
      · exact hs.acks e hold hack l hl d hd
      · rw [List.mem_singleton.mp hnew] at hack ⊢
        have hall := hfresh msg rfl hack l hl
        rw [hd] at hall
        exact (of_decide_eq_true hall).symm
    · rcases List.mem_append.mp he with hold | hnew
      · exact hs.nodes e hold hnodes call hcall
      · rw [List.mem_singleton.mp hnew]
        exact (hs.calls call hcall).2
    · exact ⟨(hs.calls call hcall).1, Nat.le_succ_of_le (hs.calls call hcall).2⟩

theorem Settled.listNodes (hs : Settled s) (hsent : s.writer.isSome)
    (hfresh : ∀ e ∈ s.incoming, e.msg.nodeList = false) : Settled s.listNodes :=
  { hs with
    nodes := fun e he hnodes => by
      rw [hfresh e he] at hnodes
      cases hnodes
    calls := fun call hcall => by
      rcases List.mem_cons.mp hcall with rfl | hcall
      · exact ⟨hsent, Nat.le_refl _⟩
      · exact hs.calls call hcall }

theorem Settled.takeNodes (hs : Settled s) (hcall : call ∈ s.calls) :
    Settled (s.takeNodes call) := by
  unfold Client.takeNodes
  split
  · exact hs
  · rename_i e rest hincoming
    have hrest : Calm s { s with incoming := rest, calls := s.calls.filter (· ≠ call) } :=
      { Calm.refl with
        incoming := fun e' he' => hincoming ▸ List.mem_cons_of_mem e he'
        calls := fun _ h => (List.mem_filter.mp h).1 }
    split
    · rename_i hnodes
      have hsince := hs.nodes e (hincoming ▸ List.mem_cons_self) hnodes call hcall
      exact { hrest.settled hs with
        results := fun r hr => by
          rcases List.mem_cons.mp hr with rfl | hr
          · exact ⟨(hs.calls call hcall).1, hsince⟩
          · exact hs.results r hr }
    · exact Calm.settled { hrest with calls := fun _ => id } hs

theorem Settled.after (hs : Settled s) (hen : Enabled s e) (hfresh : Fresh loads s e) :
    Settled (after loads s e) := by
  cases e with
  | start => exact calm_start.settled hs
  | stop => exact { hs with }
  | stopClosing => exact { hs with }
  | stopped => exact { hs with }
  | loopTop m => exact calm_loopTop.settled hs
  | connected m => exact hs.connected hfresh
  | connectFailed m => exact calm_failed.settled hs
  | takeAck m c => exact hs.takeAck hen
  | ackTimeout m c => exact calm_failed.settled hs
  | readerEnded m t raised =>
    cases raised with
    | true => exact calm_failed.settled hs
    | false => exact calm_finish.settled hs
  | wake m => exact calm_finish.settled hs
  | closed m next => exact calm_closed.settled hs
  | cancel m => exact calm_cancel.settled hs
  | arrive c bytes => exact { hs with }
  | look t => exact hs.look hfresh
  | header t c => exact hs.header hfresh
  | payload t c frameLen => exact hs.payload hfresh
  | readError t => exact { hs with }
  | listNodes => exact hs.listNodes hfresh.1 hfresh.2
  | takeNodes call => exact hs.takeNodes hen
  | nodesTimeout call =>
    exact { hs with
      nodes := fun e he hnodes c hc => hs.nodes e he hnodes c (List.mem_filter.mp hc).1
      calls := fun c hc => hs.calls c (List.mem_filter.mp hc).1 }

end

instance (loads : Loads) (s : Client) (e : Event) : Decidable (Fresh loads s e) :=
  match e with
  | .connected _ => inferInstanceAs (Decidable (∀ e ∈ s.incoming, e.msg.registerAck = none))
  | .payload _ c frameLen =>
    inferInstanceAs (Decidable (∀ msg ∈ putBy loads s c frameLen, msg.registerAck.isSome →
      ∀ l ∈ s.loops, l.2.awaits.all (· = c)))
  | .listNodes =>
    inferInstanceAs (Decidable (s.writer.isSome ∧ ∀ e ∈ s.incoming, e.msg.nodeList = false))
  | .look t => inferInstanceAs (Decidable (s.running → s.reader.all (· = t)))
  | .header t _ => inferInstanceAs (Decidable (s.reader.all (· = t)))
  | .start | .stop | .stopClosing | .stopped | .loopTop _ | .connectFailed _ | .takeAck ..
  | .ackTimeout .. | .readerEnded .. | .wake _ | .closed .. | .cancel _ | .arrive ..
  | .readError _ | .takeNodes _ | .nodesTimeout _ => .isTrue trivial

/-- In a run whose steps are all fresh, acks and node lists go to whom they were
sent, and each stream is read by one task, in every state. -/
theorem paired_of_fresh (loads : Loads) (es : List Event)
    (h : Guarded (step loads) (Fresh loads) Client.init es) :
    Always (step loads) Paired Client.init es := by
  have hinit : Settled Client.init := ⟨nofun, nofun, nofun, nofun, nofun, nofun⟩
  refine (h.invariant hinit fun s e s' hs he hstep => ?_).mono fun s hs => hs.paired
  obtain ⟨hen, rfl⟩ := actions_eq_some.mp hstep
  exact hs.after hen he

def ackBytes : List UInt8 := [0, 0, 0, 1, 1]

def nodeListBytes : List UInt8 := [0, 0, 0, 1, 2]

def loadsByte : Loads
  | [1] => some (.message ⟨some .accepted, false⟩)
  | [2] => some (.message ⟨none, true⟩)
  | _ => none

def listed : List Event :=
  [.start, .loopTop 0, .connected 0, .look 0, .arrive 0 ackBytes, .header 0 0, .payload 0 0 1,
    .takeAck 0 0, .listNodes, .look 0, .arrive 0 nodeListBytes, .header 0 0, .payload 0 0 1,
    .takeNodes ⟨0, true, 1⟩]

theorem paired_of_fresh_listed :
    (run (step loadsByte) Client.init listed).isSome ∧
      Always (step loadsByte) Paired Client.init listed :=
  ⟨by decide +kernel, paired_of_fresh loadsByte listed (by decide +kernel)⟩

/-- The ack comes after the attempt has timed out, and the next attempt takes it. -/
theorem late_ack_taken :
    let events := [.start, .loopTop 0, .connected 0, .look 0, .ackTimeout 0 0,
      .arrive 0 ackBytes, .header 0 0, .payload 0 0 1, .wake 0, .closed 0 .again, .loopTop 0,
      .connected 0, .takeAck 0 1]
    (run (step loadsByte) Client.init events).isSome ∧
      ¬ Always (step loadsByte) Paired Client.init events := by
  decide +kernel

end Rinfra.Sdk.Py
