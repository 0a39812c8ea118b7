import Mathlib.Data.List.Nodup
import Rinfra.Trpc.Pending
import Rinfra.Trpc.Servers

/-!
# A client and a server on one connection

`TrpcClient` and `TrpcServer` at the two ends of a stream of bytes in each
direction. Frames come out at the far end in the order they went in, until one
end gives up. An ask that ends with a result has the result of the handler of
its service, which was called once for it; and while both ends hold, an ask that
waits is not left waiting.
-/

namespace Rinfra.Trpc

open Rinfra.Lib

structure Session where
  client : Client
  /-- What has been written and not been read. -/
  toServer : Bytes
  toClient : Bytes
  /-- The frames the server has read. -/
  taken : List Frame
  serving : Bool

inductive Act
  /-- A step of the client that does not touch the socket. -/
  | client (e : Event)
  | wrote
  /-- The server reads a frame and handles it; whether its reply, if it makes
  one, could be written. -/
  | serve (sent : Bool)
  /-- The server's end of the connection is lost. -/
  | close
  | read
  /-- The client's is. -/
  | lose

/-- The events that are the outcome of an action on the socket. -/
def Event.onSocket : Event → Bool
  | .wrote | .frame _ | .hangUp => true
  | _ => false

namespace Session

def init : Session := ⟨.init, [], [], [], true⟩

section
variable (serde : Serde) (services : Services)

/-- The loop of `handle_connection` at a frame. -/
def take (s : Session) (frame : Frame) (rest : Bytes) (sent : Bool) : Session :=
  let s' := { s with toServer := rest, taken := s.taken ++ [frame] }
  match frame.kind with
  | .request =>
    match writeFrame serde (respond services (s.taken.length + 1) frame), sent with
    | .ok bytes, true => { s' with toClient := s.toClient ++ bytes }
    | _, _ => { s' with serving := false }
  | .tell | .response | .error => s'

def step (s : Session) : Act → Option Session
  | .client e =>
    if e.onSocket then none else (s.client.step e).map fun client => { s with client }
  | .wrote => do
    let .writing frame := s.client.writer | none
    let .ok bytes := writeFrame serde frame | none
    let client ← s.client.step .wrote
    pure { s with client, toServer := s.toServer ++ bytes }
  | .serve sent =>
    if s.serving then
      match readFrame serde s.toServer with
      | .error _ => some { s with serving := false }
      | .ok none => none
      | .ok (some (frame, rest)) => some (s.take serde services frame rest sent)
    else none
  | .close => some { s with serving := false }
  | .read =>
    match readFrame serde s.toClient with
    | .ok (some (frame, rest)) =>
      (s.client.step (.frame frame)).map fun client => { s with client, toClient := rest }
    -- more may come
    | .ok none =>
      if s.serving then none else (s.client.step .hangUp).map fun client => { s with client }
    | .error _ => (s.client.step .hangUp).map fun client => { s with client }
  | .lose => (s.client.step .hangUp).map fun client => { s with client }

-- ---------------------------------------------------------------------------
-- What each step can do
-- ---------------------------------------------------------------------------

inductive Moves (s : Session) : Act → Session → Prop
  | client (he : e.onSocket = false) (hc : s.client.step e = some c) :
      Moves s (.client e) { s with client := c }
  | wrote (hw : s.client.writer = .writing frame) (hbytes : writeFrame serde frame = .ok bytes)
      (hc : s.client.step .wrote = some c) :
      Moves s .wrote { s with client := c, toServer := s.toServer ++ bytes }
  | garbled (hserving : s.serving = true) (hread : readFrame serde s.toServer = .error e) :
      Moves s (.serve sent) { s with serving := false }
  | serve (hserving : s.serving = true)
      (hread : readFrame serde s.toServer = .ok (some (frame, rest))) :
      Moves s (.serve sent) (s.take serde services frame rest sent)
  | close : Moves s .close { s with serving := false }
  | read (hread : readFrame serde s.toClient = .ok (some (frame, rest)))
      (hc : s.client.step (.frame frame) = some c) :
      Moves s .read { s with client := c, toClient := rest }
  | hangUp (hc : s.client.step .hangUp = some c) : Moves s .read { s with client := c }
  | lose (hc : s.client.step .hangUp = some c) : Moves s .lose { s with client := c }

end

theorem moves {serde : Serde} {services : Services} {s s' : Session} {act : Act}
    (hstep : s.step serde services act = some s') : Moves serde services s act s' := by
  cases act with
  | client e =>
    simp only [step] at hstep
    split at hstep
    · cases hstep
    · rename_i he
      obtain ⟨c, hc, rfl⟩ := Option.map_eq_some_iff.mp hstep
      exact .client (by simpa using he) hc
  | wrote =>
    cases hw : s.client.writer with
    | writing frame =>
      cases hbytes : writeFrame serde frame with
      | ok bytes =>
        simp only [step, hw, hbytes] at hstep
        obtain ⟨c, hc, hs⟩ := Option.bind_eq_some_iff.mp hstep
        cases hs
        exact .wrote hw hbytes hc
      | error e => simp [step, hw, hbytes] at hstep
    | receiving | stopped => simp [step, hw] at hstep
  | serve sent =>
    simp only [step] at hstep
    split at hstep
    · rename_i hserving
      split at hstep <;> cases hstep
      · exact .garbled hserving ‹_›
      · exact .serve hserving ‹_›
    · cases hstep
  | close =>
    cases hstep
    exact .close
  | read =>
    simp only [step] at hstep
    split at hstep
    · rename_i frame rest hread
      obtain ⟨c, hc, rfl⟩ := Option.map_eq_some_iff.mp hstep
      exact .read hread hc
    · split at hstep
      · cases hstep
      · obtain ⟨c, hc, rfl⟩ := Option.map_eq_some_iff.mp hstep
        exact .hangUp hc
    · obtain ⟨c, hc, rfl⟩ := Option.map_eq_some_iff.mp hstep
      exact .hangUp hc
  | lose =>
    obtain ⟨c, hc, rfl⟩ := Option.map_eq_some_iff.mp hstep
    exact .lose hc

-- ---------------------------------------------------------------------------
-- The frames on their way
-- ---------------------------------------------------------------------------

end Session

namespace Client

def writing (c : Client) : List Frame :=
  match c.writer with
  | .writing frame => [frame]
  | .receiving | .stopped => []

def handling (c : Client) : List Frame :=
  match c.reader with
  | .handling frame => [frame]
  | .reading | .closing | .done => []

/-- The frames the client has given to its channel, as far as they were not
lost with it. -/
def traffic (c : Client) : List Frame := c.written ++ c.writing ++ c.queue

end Client

def Ask.request (ask : Ask) : Frame := ⟨.request, ask.id, ask.service, ask.payload⟩

def Ask.unsent (ask : Ask) : Bool :=
  match ask.stage with
  | .parking | .sending => true
  | .unparking | .waiting | .done _ | .dropped => false

/-- The reply frames to the frames a server reads from the `seq`-th on. -/
def repliesTo (services : Services) : Nat → List Frame → List Frame
  | _, [] => []
  | seq, frame :: frames =>
    if frame.kind = .request then
      respond services (seq + 1) frame :: repliesTo services (seq + 1) frames
    else repliesTo services (seq + 1) frames

-- ---------------------------------------------------------------------------
-- What a step of the client does to asks and traffic
-- ---------------------------------------------------------------------------

/-- What an ask keeps from one state to a later one. -/
structure Ask.Becomes (ask ask' : Ask) : Prop where
  request : ask'.request = ask.request
  unsent : ask'.unsent = true → ask.unsent = true
  slot : ask.slot ≠ .empty → ask'.slot ≠ .empty
  dropped : ask.stage = .dropped → ask'.stage = .dropped

theorem Ask.Becomes.refl (ask : Ask) : ask.Becomes ask :=
  ⟨rfl, fun h => h, fun h => h, fun h => h⟩

theorem Ask.Becomes.trans {ask ask' ask'' : Ask} (h : ask.Becomes ask')
    (h' : ask'.Becomes ask'') : ask.Becomes ask'' :=
  ⟨h'.request.trans h.request, fun hu => h.unsent (h'.unsent hu), fun hs => h'.slot (h.slot hs),
    fun hd => h'.dropped (h.dropped hd)⟩

namespace Client

section
variable {s s' : Client}

def Evolves (s s' : Client) : Prop :=
  ∀ b, (s.asks b = none → s'.asks b = none) ∧
    ∀ ask, s.asks b = some ask → ∃ ask', s'.asks b = some ask' ∧ ask.Becomes ask'

theorem Evolves.of_eq (h : s'.asks = s.asks) : Evolves s s' := fun b =>
  ⟨fun hn => by rw [h, hn], fun ask hask => ⟨ask, by rw [h, hask], .refl ask⟩⟩

theorem Evolves.trans {t : Client} (h : Evolves s s') (h' : Evolves s' t) : Evolves s t := by
  refine fun b => ⟨fun hn => (h' b).1 ((h b).1 hn), fun ask hask => ?_⟩
  obtain ⟨ask', hask', hb⟩ := (h b).2 ask hask
  obtain ⟨ask'', hask'', hb'⟩ := (h' b).2 ask' hask'
  exact ⟨ask'', hask'', hb.trans hb'⟩

theorem Evolves.setAsk {t : Client} (h : Evolves s t) (hask : s.asks a = some ask)
    (hb : ask.Becomes ask') : Evolves s (t.setAsk a ask') := by
  intro b
  by_cases hba : b = a
  · subst hba
    refine ⟨fun hn => by simp [hask] at hn, fun old hold => ?_⟩
    obtain rfl := Option.some.inj (hask.symm.trans hold)
    exact ⟨ask', setAsk_same, hb⟩
  · rw [setAsk_of_ne hba]
    exact h b

theorem Evolves.refl (s : Client) : Evolves s s := .of_eq rfl

theorem Evolves.setSlot (s : Client) (a : Nat) {slot : Slot} (hslot : slot ≠ .empty) :
    Evolves s (s.setSlot a slot) := by
  intro b
  by_cases hba : b = a
  · subst hba
    exact ⟨fun hn => by simp [hn], fun old hold =>
      ⟨{ old with slot }, by simp [hold], ⟨rfl, fun h => h, fun _ => hslot, fun h => h⟩⟩⟩
  · rw [setSlot_of_ne hba]
    exact Evolves.refl s b

theorem Evolves.removePending (s : Client) (id : Nat) : Evolves s (s.removePending id) := by
  unfold Client.removePending
  split
  · exact (Evolves.setSlot s _ (by simp)).trans (.of_eq rfl)
  · exact .of_eq rfl

theorem Evolves.handleFrame (s : Client) (frame : Frame) : Evolves s (s.handleFrame frame) := by
  unfold Client.handleFrame
  split
  · exact (Evolves.setSlot s _ (by simp)).trans (.of_eq rfl)
  · exact .of_eq rfl

theorem Evolves.drainPending (s : Client) : Evolves s s.drainPending := by
  intro b
  refine ⟨fun hn => by simp [Client.drainPending, hn], fun ask hask => ?_⟩
  refine ⟨if s.pending[ask.id]? = some b then
    { ask with slot := .sent (.error connectionClosed) } else ask, ?_, ?_⟩
  · simp [Client.drainPending, hask]
  · split
    · exact ⟨rfl, fun h => h, by simp, fun h => h⟩
    · exact .refl ask

theorem Ask.becomes_stage {ask : Ask} {stage : Stage} (hst : ask.stage ≠ .dropped)
    (hun : Ask.unsent { ask with stage } = true → ask.unsent = true) :
    ask.Becomes { ask with stage } :=
  ⟨rfl, hun, fun h => h, fun h => absurd h hst⟩

theorem evolves_of_step (h : s.step e = some s') :
    Evolves s s' ∨ ∃ service payload,
      s' = { s.setAsk s.issued ⟨s.nextId, service, payload, .empty, .parking⟩ with
        nextId := (s.nextId + 1) % 2 ^ 64, issued := s.issued + 1 } := by
  cases moves h with
  | ask => exact .inr ⟨_, _, rfl⟩
  | @park a ask hask hst =>
    have hins : Evolves s (s.insertPending ask.id a) :=
      (Evolves.removePending s ask.id).trans (.of_eq rfl)
    exact .inl (hins.setAsk hask (Ask.becomes_stage (by simp [hst]) (by simp [Ask.unsent, hst])))
  | refused hask hst hw =>
    exact .inl ((Evolves.refl s).setAsk hask
      (Ask.becomes_stage (by simp [hst]) (by simp [Ask.unsent])))
  | @accepted a ask hask hst hw hroom =>
    have hset : Evolves s (s.setAsk a { ask with stage := .waiting }) :=
      (Evolves.refl s).setAsk hask (Ask.becomes_stage (by simp [hst]) (by simp [Ask.unsent]))
    exact .inl (hset.trans (.of_eq rfl))
  | @unpark a ask ask' hask hst hask' =>
    refine .inl ((Evolves.removePending s ask.id).trans ((Evolves.refl _).setAsk hask' ?_))
    obtain rfl := Option.some.inj ((removePending_asks hask ask.id).symm.trans hask')
    exact Ask.becomes_stage (by simp [hst]) (by simp [Ask.unsent])
  | complete hask hst hreply =>
    exact .inl ((Evolves.refl s).setAsk hask
      (Ask.becomes_stage (by simp [hst]) (by simp [Ask.unsent])))
  | drop hask hst =>
    exact .inl ((Evolves.refl s).setAsk hask ⟨rfl, by simp [Ask.unsent], fun h => h, fun _ => rfl⟩)
  | tellRefused => exact .inl (.of_eq rfl)
  | tell | recv | wrote | writeError | frame | hangUp => exact .inl (.of_eq rfl)
  | @handle frame hr => exact .inl ((Evolves.handleFrame s frame).trans (.of_eq rfl))
  | drain => exact .inl ((Evolves.drainPending s).trans (.of_eq rfl))

/-- The traffic is as it was, or has one frame more, or was lost with the
channel. -/
inductive TrafficMove (s s' : Client) : Prop
  | same (h : s'.traffic = s.traffic)
  | request (a : Nat) (ask : Ask) (hask : s.asks a = some ask) (hst : ask.stage = .sending)
      (hask' : s'.asks a = some { ask with stage := .waiting })
      (h : s'.traffic = s.traffic ++ [ask.request])
  | tell (frame : Frame) (hkind : frame.kind = .tell) (h : s'.traffic = s.traffic ++ [frame])
  | lost (h : s'.traffic.Sublist s.traffic) (hw : s'.writer = .stopped)

theorem traffic_congr (hwritten : s'.written = s.written) (hwriter : s'.writer = s.writer)
    (hqueue : s'.queue = s.queue) : s'.traffic = s.traffic := by
  simp [traffic, writing, hwritten, hwriter, hqueue]

theorem removePending_channel (s : Client) (id : Nat) :
    (s.removePending id).written = s.written ∧ (s.removePending id).writer = s.writer ∧
      (s.removePending id).queue = s.queue := by
  unfold Client.removePending
  split <;> exact ⟨rfl, rfl, rfl⟩

theorem removePending_reading (s : Client) (id : Nat) :
    (s.removePending id).received = s.received ∧ (s.removePending id).reader = s.reader := by
  unfold Client.removePending
  split <;> exact ⟨rfl, rfl⟩

theorem handleFrame_channel (s : Client) (frame : Frame) :
    (s.handleFrame frame).written = s.written ∧ (s.handleFrame frame).writer = s.writer ∧
      (s.handleFrame frame).queue = s.queue := by
  unfold Client.handleFrame
  split <;> exact ⟨rfl, rfl, rfl⟩

theorem traffic_of_step (h : s.step e = some s') : TrafficMove s s' := by
  cases moves h with
  | @park a ask hask hst =>
    obtain ⟨hwritten, hwriter, hqueue⟩ := removePending_channel s ask.id
    exact .same (traffic_congr hwritten hwriter hqueue)
  | @unpark a ask ask' hask hst hask' =>
    obtain ⟨hwritten, hwriter, hqueue⟩ := removePending_channel s ask.id
    exact .same (traffic_congr hwritten hwriter hqueue)
  | @handle frame hr =>
    obtain ⟨hwritten, hwriter, hqueue⟩ := handleFrame_channel s frame
    exact .same (traffic_congr hwritten hwriter hqueue)
  | @accepted a ask hask hst hw hroom =>
    exact .request a ask hask hst setAsk_same (by simp [traffic, writing, setAsk, Ask.request])
  | @tell service payload hw hroom =>
    exact .tell ⟨.tell, 0, service, payload⟩ rfl (by simp [traffic, writing])
  | recv hw hq => exact .same (by simp [traffic, writing, hw, hq])
  | wrote hw => exact .same (by simp [traffic, writing, hw])
  | writeError hw => exact .lost (by simp [traffic, writing]) rfl
  | ask | refused | complete | drop | tellRefused | frame | hangUp | drain =>
    exact .same rfl

theorem stopped_of_step (h : s.step e = some s') (hw : s.writer = .stopped) :
    s'.writer = .stopped := by
  cases moves h with
  | park hask hst => exact (removePending_channel s _).2.1.trans hw
  | unpark hask hst hask' => exact (removePending_channel s _).2.1.trans hw
  | handle hr => exact (handleFrame_channel s _).2.1.trans hw
  | recv hrecv | wrote hrecv | writeError hrecv => simp [hw] at hrecv
  | ask | refused | accepted | complete | drop | tellRefused | tell | frame | hangUp | drain =>
    exact hw

theorem waiting_of_step (h : s.step e = some s') (hask' : s'.asks b = some ask')
    (hw : ask'.stage = .waiting) :
    (∃ ask, s.asks b = some ask ∧ ask.stage = .waiting) ∨
      ∃ ask, s.asks b = some ask ∧ s'.traffic = s.traffic ++ [ask.request] ∧
        ask' = { ask with stage := .waiting } := by
  have hset : ∀ {t : Client} {a : Nat} {ask : Ask}, (t.setAsk a ask).asks b = some ask' →
      ask.stage ≠ .waiting → t.asks b = some ask' := by
    intro t a ask hb hst
    by_cases hba : b = a
    · subst hba
      obtain rfl := Option.some.inj (setAsk_same.symm.trans hb)
      exact absurd hw hst
    · exact (setAsk_of_ne hba).symm.trans hb
  have hremoved : ∀ {id : Nat}, (s.removePending id).asks b = some ask' →
      ∃ ask, s.asks b = some ask ∧ ask.stage = .waiting := by
    intro id hb
    obtain ⟨ask, hask, hst⟩ := removePending_stage hb
    exact ⟨ask, hask, hst.trans hw⟩
  cases moves h with
  | @accepted a ask hask hst hwriter hroom =>
    by_cases hba : b = a
    · subst hba
      obtain rfl := Option.some.inj (setAsk_same.symm.trans hask')
      exact .inr ⟨ask, hask, by simp [traffic, writing, setAsk, Ask.request], rfl⟩
    · exact .inl ⟨ask', (setAsk_of_ne hba).symm.trans hask', hw⟩
  | park hask hst => exact .inl (hremoved (hset hask' (by simp)))
  | unpark hask hst ha => exact .inl (hremoved (hset hask' (by simp)))
  | ask => exact .inl ⟨ask', hset hask' (by simp), hw⟩
  | refused | complete | drop => exact .inl ⟨ask', hset hask' (by simp), hw⟩
  | tellRefused | tell | recv | wrote | writeError | frame | hangUp => exact .inl ⟨ask', hask', hw⟩
  | @handle frame hr =>
    unfold Client.handleFrame at hask'
    split at hask'
    · obtain ⟨ask, hask, hst⟩ := setSlot_stage hask'
      exact .inl ⟨ask, hask, hst.trans hw⟩
    · exact .inl ⟨ask', hask', hw⟩
  | drain hr =>
    obtain ⟨ask, hask, heq⟩ := Option.map_eq_some_iff.mp hask'
    refine .inl ⟨ask, hask, ?_⟩
    rw [← hw, ← heq]
    split <;> rfl

-- ---------------------------------------------------------------------------
-- Every request frame is that of one ask
-- ---------------------------------------------------------------------------

structure Sends (c : Client) : Prop where
  requests : ∀ f ∈ c.traffic, f.kind = .request →
    ∃ a ask, c.asks a = some ask ∧ f = ask.request ∧ ask.unsent = false
  once : ((c.traffic.filter (·.kind = .request)).map Frame.requestId).Nodup
  waiting : ∀ a ask, c.asks a = some ask → ask.stage = .waiting → c.writer ≠ .stopped →
    ask.request ∈ c.traffic

theorem Numbered.id_inj (hn : Numbered s) (hids : s.issued < 2 ^ 64) (hask : s.asks a = some ask)
    (hask' : s.asks b = some ask') (h : ask.id = ask'.id) : a = b := by
  obtain ⟨ha, hida⟩ := hn.asks a ask hask
  obtain ⟨hb, hidb⟩ := hn.asks b ask' hask'
  omega

theorem sends_init : Sends init := by
  constructor <;> simp [init, traffic, writing]

theorem Evolves.back (h : Evolves s s') (hask' : s'.asks b = some ask') :
    ∃ ask, s.asks b = some ask ∧ ask.Becomes ask' := by
  cases hask : s.asks b with
  | none => simp [(h b).1 hask] at hask'
  | some ask =>
    obtain ⟨ask'', hask'', hb⟩ := (h b).2 ask hask
    obtain rfl := Option.some.inj (hask''.symm.trans hask')
    exact ⟨ask, rfl, hb⟩

theorem sent_of_step (hn : Numbered s) (h : s.step e = some s') (hask : s.asks a = some ask)
    (hun : ask.unsent = false) :
    ∃ ask', s'.asks a = some ask' ∧ ask'.request = ask.request ∧ ask'.unsent = false := by
  rcases evolves_of_step h with hev | ⟨service, payload, rfl⟩
  · obtain ⟨ask', hask', hb⟩ := (hev a).2 ask hask
    refine ⟨ask', hask', hb.request, ?_⟩
    cases hun' : ask'.unsent with
    | false => rfl
    | true => rw [hb.unsent hun'] at hun; cases hun
  · have hne : a ≠ s.issued := Nat.ne_of_lt (hn.asks a ask hask).1
    exact ⟨ask, (setAsk_of_ne hne).trans hask, rfl, hun⟩

theorem Sends.step (hs : Sends s) (hn : Numbered s) (hids : s.issued < 2 ^ 64)
    (h : s.step e = some s') : Sends s' := by
  have hkeep : ∀ f ∈ s.traffic, f.kind = .request →
      ∃ a ask, s'.asks a = some ask ∧ f = ask.request ∧ ask.unsent = false := by
    intro f hf hkind
    obtain ⟨a, ask, hask, rfl, hun⟩ := hs.requests f hf hkind
    obtain ⟨ask', hask', hreq, hun'⟩ := sent_of_step hn h hask hun
    exact ⟨a, ask', hask', hreq.symm, hun'⟩
  have hwaiting : s.traffic.Sublist s'.traffic → ∀ a ask', s'.asks a = some ask' →
      ask'.stage = .waiting → s'.writer ≠ .stopped → ask'.request ∈ s'.traffic := by
    intro hsub a ask' hask' hw hwriter
    rcases waiting_of_step h hask' hw with ⟨ask, hask, hst⟩ | ⟨ask, hask, htraffic, rfl⟩
    · obtain ⟨ask'', hask'', hreq, -⟩ := sent_of_step hn h hask (by simp [Ask.unsent, hst])
      obtain rfl := Option.some.inj (hask''.symm.trans hask')
      rw [hreq]
      exact hsub.subset (hs.waiting a ask hask hst fun hstop => hwriter (stopped_of_step h hstop))
    · rw [htraffic]
      exact List.mem_append_right _ (List.mem_singleton.mpr rfl)
  cases traffic_of_step h with
  | same ht => exact ⟨ht ▸ hkeep, ht ▸ hs.once, hwaiting (ht ▸ .refl _)⟩
  | request a ask hask hst hask' ht =>
    have hnew : ask.id ∉ (s.traffic.filter (·.kind = .request)).map Frame.requestId := by
      intro hmem
      obtain ⟨f, hf, hid⟩ := List.mem_map.mp hmem
      obtain ⟨hf, hkind⟩ := List.mem_filter.mp hf
      obtain ⟨b, askb, haskb, rfl, hun⟩ := hs.requests f hf (by simpa using hkind)
      obtain rfl := hn.id_inj hids haskb hask hid
      obtain rfl := Option.some.inj (hask.symm.trans haskb)
      simp [Ask.unsent, hst] at hun
    refine ⟨?_, ?_, hwaiting (ht ▸ List.sublist_append_left _ _)⟩
    · rw [ht]
      intro f hf hkind
      rcases List.mem_append.mp hf with hf | hf
      · exact hkeep f hf hkind
      · obtain rfl := List.mem_singleton.mp hf
        exact ⟨a, _, hask', rfl, rfl⟩
    · have hrequest : [ask.request].filter (·.kind = .request) = [ask.request] := rfl
      rw [ht, List.filter_append, hrequest, List.map_append]
      exact List.concat_eq_append ▸ hs.once.concat hnew
  | tell frame hkind ht =>
    have htell : [frame].filter (·.kind = .request) = [] := by simp [hkind]
    refine ⟨?_, ?_, hwaiting (ht ▸ List.sublist_append_left _ _)⟩
    · rw [ht]
      intro f hf hreq
      rcases List.mem_append.mp hf with hf | hf
      · exact hkeep f hf hreq
      · obtain rfl := List.mem_singleton.mp hf
        rw [hkind] at hreq
        cases hreq
    · rw [ht, List.filter_append, htell, List.append_nil]
      exact hs.once
  | lost ht hw =>
    exact ⟨fun f hf => hkeep f (ht.subset hf), ((ht.filter _).map _).nodup hs.once,
      fun _ _ _ _ hwriter => absurd hw hwriter⟩

theorem local_of_step (h : s.step e = some s') (he : e.onSocket = false) :
    s'.written = s.written ∧ s'.received ++ s'.handling = s.received ++ s.handling := by
  cases moves h with
  | @park a ask hask hst =>
    obtain ⟨hreceived, hreader⟩ := removePending_reading s ask.id
    exact ⟨(removePending_channel s ask.id).1,
      by simp [handling, setAsk, insertPending, hreceived, hreader]⟩
  | @unpark a ask ask' hask hst hask' =>
    obtain ⟨hreceived, hreader⟩ := removePending_reading s ask.id
    exact ⟨(removePending_channel s ask.id).1, by simp [handling, setAsk, hreceived, hreader]⟩
  | @handle frame hr =>
    have hreceived : (s.handleFrame frame).received = s.received ++ [frame] := by
      unfold Client.handleFrame
      split <;> rfl
    exact ⟨(handleFrame_channel s frame).1, by simp [handling, hr, hreceived]⟩
  | ask | refused | accepted | complete | drop | tellRefused | tell | recv | writeError =>
    exact ⟨rfl, rfl⟩
  | drain hr => exact ⟨rfl, by simp [handling, drainPending, hr]⟩
  | wrote | frame | hangUp => simp [Event.onSocket] at he

/-- No ask that is waited for is under the id of a frame that has been handled. -/
def Heard (c : Client) : Prop :=
  ∀ f ∈ c.received, ∀ a ask, c.asks a = some ask → ask.id = f.requestId →
    ask.slot ≠ .empty ∨ ask.stage = .dropped

theorem mem_received_of_step (h : s.step e = some s') (hf : f ∈ s'.received) :
    f ∈ s.received ∨ s.reader = .handling f ∧ s' = { s.handleFrame f with reader := .reading } := by
  have hremove : ∀ id, (s.removePending id).received = s.received := by
    intro id
    unfold Client.removePending
    split <;> rfl
  cases moves h with
  | park hask hst => exact .inl (hremove _ ▸ hf)
  | unpark hask hst hask' => exact .inl (hremove _ ▸ hf)
  | @handle frame hr =>
    have hreceived : (s.handleFrame frame).received = s.received ++ [frame] := by
      unfold Client.handleFrame
      split <;> rfl
    rw [hreceived] at hf
    rcases List.mem_append.mp hf with hf | hf
    · exact .inl hf
    · obtain rfl := List.mem_singleton.mp hf
      exact .inr ⟨hr, rfl⟩
  | ask | refused | accepted | complete | drop | tellRefused | tell | recv | wrote | writeError
  | frame | hangUp | drain => exact .inl hf

theorem handleFrame_slot (hi : Inv s) (hask : s.asks a = some ask) (hun : ask.unsent = false)
    (hid : ask.id = f.requestId) (hreply : f.reply.isSome)
    (hask' : (s.handleFrame f).asks a = some ask') :
    ask'.slot ≠ .empty ∨ ask.stage = .dropped := by
  obtain ⟨reply, hreply⟩ := Option.isSome_iff_exists.mp hreply
  by_cases hslot : ask.slot = .empty
  · rcases (hi.asks a ask hask).empty hslot with hst | hst | hpending
    · simp [Ask.unsent, hst] at hun
    · exact .inr hst
    · rw [hid] at hpending
      simp only [Client.handleFrame, hreply, hpending, setSlot_same, hask, Option.map_some,
        Option.some.injEq] at hask'
      exact .inl (by simp [← hask'])
  · obtain ⟨ask'', hask'', hb⟩ := (Evolves.handleFrame s f a).2 ask hask
    obtain rfl := Option.some.inj (hask''.symm.trans hask')
    exact .inl (hb.slot hslot)

/-- `Heard` lasts where every frame the client has is the reply to an ask it
sent. -/
theorem Heard.step (hh : Heard s) (hi : Inv s) (hn : Numbered s) (hids : s'.issued < 2 ^ 64)
    (hreplies : ∀ f ∈ s.received ++ s.handling, ∃ a ask, s.asks a = some ask ∧
      ask.unsent = false ∧ ask.id = f.requestId ∧ f.reply.isSome)
    (h : s.step e = some s') : Heard s' := by
  intro f hf a ask' hask' hid
  have hmem : f ∈ s.received ++ s.handling := by
    rcases mem_received_of_step h hf with hf | ⟨hr, -⟩
    · exact List.mem_append_left _ hf
    · exact List.mem_append_right _ (by simp [handling, hr])
  obtain ⟨b, ask, hask, hun, hidb, hreply⟩ := hreplies f hmem
  obtain ⟨ask'', hask'', hreq, -⟩ := sent_of_step hn h hask hun
  have hid'' : ask''.id = ask.id := congrArg Frame.requestId hreq
  obtain rfl := (hn.step h).id_inj hids hask'' hask' (by rw [hid'', hidb, hid])
  obtain rfl := Option.some.inj (hask''.symm.trans hask')
  have hb : ask.Becomes ask'' := by
    rcases evolves_of_step h with hev | ⟨service, payload, rfl⟩
    · obtain ⟨old, hold, hb⟩ := hev.back hask'
      obtain rfl := Option.some.inj (hask.symm.trans hold)
      exact hb
    · have hne : b ≠ s.issued := Nat.ne_of_lt (hn.asks b ask hask).1
      obtain rfl := Option.some.inj (hask.symm.trans ((setAsk_of_ne hne).symm.trans hask'))
      exact .refl ask
  rcases mem_received_of_step h hf with hf | ⟨hr, rfl⟩
  · exact (hh f hf b ask hask hidb).imp hb.slot hb.dropped
  · exact (handleFrame_slot hi hask hun hidb hreply hask').imp_right hb.dropped

theorem issued_le_of_step (h : s.step e = some s') : s.issued ≤ s'.issued := by
  rcases asks_step h with ⟨-, hissued, -⟩ | ⟨service, payload, rfl⟩
  · exact hissued.ge
  · exact Nat.le_succ _

end

end Client

-- ---------------------------------------------------------------------------
-- The two streams
-- ---------------------------------------------------------------------------

section
variable {serde : Serde} {services : Services} {frame : Frame} {frames : List Frame}
  {stream bytes : Bytes}

theorem writeFrames_concat (h : writeFrames serde frames = .ok stream)
    (hframe : writeFrame serde frame = .ok bytes) :
    writeFrames serde (frames ++ [frame]) = .ok (stream ++ bytes) := by
  induction frames generalizing stream with
  | nil =>
    cases h
    simp [writeFrames, hframe, Except.map]
  | cons f fs ih =>
    rw [writeFrames] at h
    rw [List.cons_append, writeFrames]
    cases hf : writeFrame serde f with
    | error e => simp [hf] at h
    | ok data =>
      simp only [hf] at h ⊢
      cases hfs : writeFrames serde fs with
      | error e => simp [hfs, Except.map] at h
      | ok rest =>
        simp only [hfs, Except.map, Except.ok.injEq] at h
        rw [ih hfs]
        simp [Except.map, ← h]

/-- What the far end reads: nothing, the first frame, or an error. -/
theorem read_of_written (hserde : ∀ frame, serde.Exact frame)
    (h : writeFrames serde frames = .ok stream) :
    frames = [] ∧ readFrame serde stream = .ok none ∨
    ∃ f fs rest, frames = f :: fs ∧ writeFrames serde fs = .ok rest ∧
      (readFrame serde stream = .ok (some (f, rest)) ∨ ∃ e, readFrame serde stream = .error e) := by
  cases frames with
  | nil =>
    cases h
    exact .inl ⟨rfl, rfl⟩
  | cons f fs =>
    obtain ⟨data, rest, htext, hrest, rfl⟩ := writeFrames_cons_eq_ok.mp h
    refine .inr ⟨f, fs, rest, rfl, hrest, ?_⟩
    by_cases hfits : data.length ≤ maxFrameSize
    · exact .inl (readFrame_fits (hserde f) htext hfits)
    · exact .inr (readFrame_over (hserde f) htext (Nat.not_le.mp hfits) rest)

theorem repliesTo_append (services : Services) (seq : Nat) (frames more : List Frame) :
    repliesTo services seq (frames ++ more) =
      repliesTo services seq frames ++ repliesTo services (seq + frames.length) more := by
  induction frames generalizing seq with
  | nil => rfl
  | cons f fs ih =>
    rw [List.cons_append, repliesTo, repliesTo, ih, List.length_cons,
      show seq + 1 + fs.length = seq + (fs.length + 1) by omega]
    split <;> rfl

theorem mem_repliesTo {seq : Nat} (h : frame ∈ repliesTo services seq frames) :
    ∃ k g, frames[k]? = some g ∧ g.kind = .request ∧ frame = respond services (seq + k + 1) g := by
  induction frames generalizing seq with
  | nil => cases h
  | cons f fs ih =>
    have hlater : frame ∈ repliesTo services (seq + 1) fs →
        ∃ k g, (f :: fs)[k]? = some g ∧ g.kind = .request ∧
          frame = respond services (seq + k + 1) g := by
      intro hmem
      obtain ⟨k, g, hk, hkind, rfl⟩ := ih hmem
      exact ⟨k + 1, g, hk, hkind, by rw [show seq + 1 + k + 1 = seq + (k + 1) + 1 by omega]⟩
    rw [repliesTo] at h
    split at h
    · rename_i hkind
      rcases List.mem_cons.mp h with rfl | h
      · exact ⟨0, f, rfl, hkind, rfl⟩
      · exact hlater h
    · exact hlater h

@[simp] theorem respond_requestId (services : Services) (seq : Nat) (frame : Frame) :
    (respond services seq frame).requestId = frame.requestId := by
  unfold respond
  split
  · split <;> rfl
  · rfl

theorem respond_reply (services : Services) (seq : Nat) (frame : Frame) :
    (respond services seq frame).reply.isSome := by
  unfold respond
  split
  · split <;> rfl
  · rfl

namespace Session

/-- What the server has read is what the client wrote first, and what the client
has read is what the server answered first. -/
structure Linked (serde : Serde) (services : Services) (s : Session) : Prop where
  upstream : ∃ flying, writeFrames serde flying = .ok s.toServer ∧
    s.client.written = s.taken ++ flying
  downstream : ∃ flying, writeFrames serde flying = .ok s.toClient ∧
    s.client.received ++ s.client.handling ++ flying <+: repliesTo services 0 s.taken ∧
    (s.serving = true →
      s.client.received ++ s.client.handling ++ flying = repliesTo services 0 s.taken)

structure Inv (serde : Serde) (services : Services) (s : Session) : Prop where
  client : s.client.Inv
  numbered : s.client.Numbered
  linked : Linked serde services s
  sends : s.client.issued < 2 ^ 64 → s.client.Sends
  heard : s.client.issued < 2 ^ 64 → s.client.Heard

variable {s s' : Session}

theorem linked_init : Linked serde services init :=
  ⟨⟨[], rfl, rfl⟩, [], rfl, List.prefix_rfl, fun _ => rfl⟩

theorem inv_init : Inv serde services init where
  client := Client.inv_init
  numbered := ⟨by simp [init, Client.init], by simp [init, Client.init]⟩
  linked := linked_init
  sends _ := Client.sends_init
  heard _ := by simp [init, Client.init, Client.Heard]

/-- A frame the client has is the reply to a request the server has read. -/
theorem Linked.origin (h : Linked serde services s)
    (hf : frame ∈ s.client.received ++ s.client.handling) :
    ∃ k g, s.taken[k]? = some g ∧ g.kind = .request ∧ frame = respond services (k + 1) g := by
  obtain ⟨flying, -, hpre, -⟩ := h.downstream
  obtain ⟨k, g, hk, hkind, hg⟩ := mem_repliesTo (hpre.subset (List.mem_append_left _ hf))
  exact ⟨k, g, hk, hkind, by rw [hg, Nat.zero_add]⟩

theorem Linked.taken_sent {k : Nat} (h : Linked serde services s) (hg : s.taken[k]? = some g) :
    g ∈ s.client.traffic := by
  obtain ⟨flying, -, hwritten⟩ := h.upstream
  refine List.mem_append_left _ (List.mem_append_left _ ?_)
  rw [hwritten]
  exact List.mem_append_left _ (List.mem_of_getElem? hg)

theorem Inv.asker (h : Inv serde services s) (hids : s.client.issued < 2 ^ 64)
    (hf : frame ∈ s.client.received ++ s.client.handling) :
    ∃ k a ask, s.client.asks a = some ask ∧ ask.unsent = false ∧
      s.taken[k]? = some ask.request ∧ frame = respond services (k + 1) ask.request := by
  obtain ⟨k, g, hk, hkind, rfl⟩ := h.linked.origin hf
  obtain ⟨a, ask, hask, rfl, hun⟩ := (h.sends hids).requests g (h.linked.taken_sent hk) hkind
  exact ⟨k, a, ask, hask, hun, hk, rfl⟩

theorem Inv.of_client {c : Client} {e : Event} (h : Inv serde services s)
    (hstep : s.client.step e = some c) (hs : s'.client = c) (hlinked : Linked serde services s') :
    Inv serde services s' := by
  subst hs
  have hle : s'.client.issued < 2 ^ 64 → s.client.issued < 2 ^ 64 :=
    Nat.lt_of_le_of_lt (Client.issued_le_of_step hstep)
  refine ⟨h.client.step hstep, h.numbered.step hstep, hlinked, fun hids => ?_, fun hids => ?_⟩
  · exact (h.sends (hle hids)).step h.numbered (hle hids) hstep
  · refine (h.heard (hle hids)).step h.client h.numbered hids (fun f hf => ?_) hstep
    obtain ⟨k, a, ask, hask, hun, -, rfl⟩ := h.asker (hle hids) hf
    exact ⟨a, ask, hask, hun, by rw [respond_requestId]; rfl, respond_reply services _ _⟩

theorem Linked.of_client {c : Client} (h : Linked serde services s)
    (hwritten : c.written = s.client.written)
    (hread : c.received ++ c.handling = s.client.received ++ s.client.handling) :
    Linked serde services { s with client := c } := by
  obtain ⟨up, hup, hw⟩ := h.upstream
  obtain ⟨down, hdown, hpre, heq⟩ := h.downstream
  exact ⟨⟨up, hup, hwritten.trans hw⟩, down, hdown, by rw [hread]; exact hpre,
    fun hs => by rw [hread]; exact heq hs⟩

theorem Linked.close (h : Linked serde services s) :
    Linked serde services { s with serving := false } := by
  obtain ⟨down, hdown, hpre, -⟩ := h.downstream
  exact ⟨h.upstream, down, hdown, hpre, by simp⟩

theorem Linked.hangUp {c : Client} (h : Linked serde services s)
    (hstep : s.client.step .hangUp = some c) : Linked serde services { s with client := c } := by
  cases Client.moves hstep with
  | hangUp hr => exact h.of_client rfl (by simp [Client.handling, hr])

theorem Linked.wrote {c : Client} (h : Linked serde services s)
    (hw : s.client.writer = .writing frame) (hbytes : writeFrame serde frame = .ok bytes)
    (hstep : s.client.step .wrote = some c) :
    Linked serde services { s with client := c, toServer := s.toServer ++ bytes } := by
  cases Client.moves hstep with
  | wrote hw' =>
    obtain rfl := Writer.writing.inj (hw.symm.trans hw')
    obtain ⟨up, hup, hwritten⟩ := h.upstream
    refine ⟨⟨up ++ [frame], writeFrames_concat hup hbytes, ?_⟩, h.downstream⟩
    simp [hwritten]

theorem Linked.read {c : Client} {rest : Bytes} (hserde : ∀ frame, serde.Exact frame)
    (h : Linked serde services s)
    (hread : readFrame serde s.toClient = .ok (some (frame, rest)))
    (hstep : s.client.step (.frame frame) = some c) :
    Linked serde services { s with client := c, toClient := rest } := by
  cases Client.moves hstep with
  | frame hr =>
    obtain ⟨down, hdown, hpre, heq⟩ := h.downstream
    rcases read_of_written hserde hdown with ⟨-, hnone⟩ | ⟨f, fs, rest', rfl, hfs, hf⟩
    · simp [hnone] at hread
    · rcases hf with hf | ⟨e, he⟩
      · simp only [hf, Except.ok.injEq, Option.some.injEq, Prod.mk.injEq] at hread
        obtain ⟨rfl, rfl⟩ := hread
        refine ⟨h.upstream, fs, hfs, ?_, fun hs => ?_⟩
        · simpa [Client.handling, hr] using hpre
        · simpa [Client.handling, hr] using heq hs
      · simp [he] at hread

theorem Linked.take {rest : Bytes} (hserde : ∀ frame, serde.Exact frame)
    (h : Linked serde services s) (hserving : s.serving = true)
    (hread : readFrame serde s.toServer = .ok (some (frame, rest))) (sent : Bool) :
    Linked serde services (s.take serde services frame rest sent) := by
  obtain ⟨up, hup, hwritten⟩ := h.upstream
  obtain ⟨down, hdown, -, heq⟩ := h.downstream
  have heq := heq hserving
  rcases read_of_written hserde hup with ⟨-, hnone⟩ | ⟨f, fs, rest', rfl, hfs, hf⟩
  · simp [hnone] at hread
  · rcases hf with hf | ⟨e, he⟩
    · simp only [hf, Except.ok.injEq, Option.some.injEq, Prod.mk.injEq] at hread
      obtain ⟨rfl, rfl⟩ := hread
      have hup' : s.client.written = s.taken ++ [f] ++ fs := by simpa using hwritten
      have hreplies := repliesTo_append services 0 s.taken [f]
      rw [Nat.zero_add] at hreplies
      unfold Session.take
      cases hkind : f.kind with
      | request =>
        have hone : repliesTo services s.taken.length [f] =
            [respond services (s.taken.length + 1) f] := by simp [repliesTo, hkind]
        rw [hone] at hreplies
        simp only
        split
        · rename_i bytes hbytes
          refine ⟨⟨fs, hfs, hup'⟩, down ++ [_], writeFrames_concat hdown hbytes, ?_, fun _ => ?_⟩
          · rw [hreplies, ← heq, ← List.append_assoc]
          · rw [hreplies, ← heq, ← List.append_assoc]
        · refine ⟨⟨fs, hfs, hup'⟩, down, hdown, ?_, by simp⟩
          rw [hreplies, ← heq]
          exact List.prefix_append _ _
      | tell | response | error =>
        have hnone : repliesTo services s.taken.length [f] = [] := by simp [repliesTo, hkind]
        rw [hnone, List.append_nil] at hreplies
        refine ⟨⟨fs, hfs, hup'⟩, down, hdown, ?_, fun _ => ?_⟩
        · rw [hreplies, ← heq]
        · rw [hreplies, ← heq]
    · simp [he] at hread

theorem Inv.of_session (h : Inv serde services s) (hs : s'.client = s.client)
    (hlinked : Linked serde services s') : Inv serde services s' :=
  ⟨hs ▸ h.client, hs ▸ h.numbered, hlinked, hs ▸ h.sends, hs ▸ h.heard⟩

@[simp] theorem take_client (serde : Serde) (services : Services) (s : Session) (frame : Frame)
    (rest : Bytes) (sent : Bool) : (s.take serde services frame rest sent).client = s.client := by
  unfold Session.take
  cases frame.kind with
  | request =>
    simp only
    split <;> rfl
  | tell | response | error => rfl

theorem Inv.step {act : Act} (hserde : ∀ frame, serde.Exact frame) (h : Inv serde services s)
    (hstep : s.step serde services act = some s') : Inv serde services s' := by
  cases moves hstep with
  | client he hc =>
    obtain ⟨hwritten, hread⟩ := Client.local_of_step hc he
    exact h.of_client hc rfl (h.linked.of_client hwritten hread)
  | wrote hw hbytes hc => exact h.of_client hc rfl (h.linked.wrote hw hbytes hc)
  | garbled | close => exact h.of_session rfl h.linked.close
  | serve hserving hread =>
    exact h.of_session (take_client ..) (h.linked.take hserde hserving hread _)
  | read hread hc => exact h.of_client hc rfl (h.linked.read hserde hread hc)
  | hangUp hc | lose hc => exact h.of_client hc rfl (h.linked.hangUp hc)

theorem inv_run {acts : List Act} (hserde : ∀ frame, serde.Exact frame)
    (hr : run (step serde services) init acts = some s) : Inv serde services s :=
  run_invariant inv_init (fun _ _ _ h hs => h.step hserde hs) hr

-- ---------------------------------------------------------------------------
-- Where a result comes from
-- ---------------------------------------------------------------------------

end Session

/-- What a caller sees of a service's handler. -/
def outcome (services : Services) (seq : Nat) (service : String) (payload : Bytes) : Reply :=
  match services service with
  | some h =>
    match h seq payload with
    | .ok result => .ok result
    | .error e => .error ⟨.rpcServiceError, e.display⟩
  | none => .error ⟨.rpcServiceError, s!"service '{service}' not found"⟩

theorem reply_respond (services : Services) (seq : Nat) (frame : Frame) :
    (respond services seq frame).reply =
      some (outcome services seq frame.service frame.payload) := by
  unfold respond outcome
  cases services frame.service with
  | none => simp only [Frame.reply, fromUtf8Lossy_utf8Bytes]
  | some h =>
    simp only
    cases h seq frame.payload with
    | ok result => rfl
    | error e => simp only [Frame.reply, fromUtf8Lossy_utf8Bytes]

namespace Session

/-- A frame that the client was given for an ask answers the ask's own request. -/
theorem Inv.reply_of_ask (h : Inv serde services s) (hids : s.client.issued < 2 ^ 64)
    (hask : s.client.asks a = some ask) (hf : frame ∈ s.client.received)
    (hid : frame.requestId = ask.id) :
    ∃ k, s.taken[k]? = some ask.request ∧
      frame.reply = some (outcome services (k + 1) ask.service ask.payload) := by
  obtain ⟨k, b, askb, haskb, -, hk, rfl⟩ := h.asker hids (List.mem_append_left _ hf)
  rw [respond_requestId] at hid
  obtain rfl := h.numbered.id_inj hids haskb hask hid
  obtain rfl := Option.some.inj (hask.symm.trans haskb)
  exact ⟨k, hk, reply_respond services _ _⟩

/-- The server takes no ask's request twice. -/
theorem Inv.taken_once {k l : Nat} (h : Inv serde services s) (hids : s.client.issued < 2 ^ 64)
    (hk : s.taken[k]? = some frame) (hl : s.taken[l]? = some frame)
    (hkind : frame.kind = .request) : k = l := by
  obtain ⟨flying, -, hwritten⟩ := h.linked.upstream
  have hsub : s.taken.Sublist s.client.traffic := by
    have hpre : s.taken <+: s.client.traffic := by
      simp only [Client.traffic, hwritten, List.append_assoc]
      exact List.prefix_append _ _
    exact hpre.sublist
  have honce := ((hsub.filter (·.kind = .request)).map Frame.requestId).nodup (h.sends hids).once
  rw [List.Nodup, List.pairwise_map, List.pairwise_filter] at honce
  have hne : ∀ i j : Nat, i < j → s.taken[i]? = some frame → s.taken[j]? = some frame → False := by
    intro i j hij hi hj
    obtain ⟨hi', hi⟩ := List.getElem?_eq_some_iff.mp hi
    obtain ⟨hj', hj⟩ := List.getElem?_eq_some_iff.mp hj
    refine List.pairwise_iff_getElem.mp honce i j hi' hj' hij ?_ ?_ ?_
    · simp [hi, hkind]
    · simp [hj, hkind]
    · rw [hi, hj]
  rcases Nat.lt_trichotomy k l with hlt | heq | hlt
  · exact (hne k l hlt hk hl).elim
  · exact heq
  · exact (hne l k hlt hl hk).elim

end Session

end

/-- In every run of a client and a server on one connection, whatever is lost of
it: the server reads the request of an ask at most once, and an ask that ends
has ended with an error of its own client or with what the handler of its
service, called once with its payload, returned. -/
theorem answers_from_handlers (serde : Serde) (hserde : ∀ frame, serde.Exact frame)
    (services : Services) (acts : List Act) (s : Session)
    (hr : run (Session.step serde services) Session.init acts = some s)
    (hids : s.client.issued < 2 ^ 64) (a : Nat) (ask : Ask) (hask : s.client.asks a = some ask) :
    (∀ k l : Nat, s.taken[k]? = some ask.request → s.taken[l]? = some ask.request → k = l) ∧
    ∀ reply, ask.stage = .done reply →
      reply = .error connectionClosed ∨ reply = .error connectionLost ∨
      ∃ k, s.taken[k]? = some ask.request ∧
        reply = outcome services (k + 1) ask.service ask.payload := by
  have hi := Session.inv_run hserde hr
  have hc : s.client.Correlated := hi.client.correlated hi.numbered
  refine ⟨fun k l hk hl => hi.taken_once hids hk hl rfl, fun reply hdone => ?_⟩
  have hgiven : ∀ (k : Nat) (frame : Frame), s.client.received[k]? = some frame →
      frame.requestId = ask.id → frame.reply = some reply → ∃ k, s.taken[k]? = some ask.request ∧
        reply = outcome services (k + 1) ask.service ask.payload := by
    intro k frame hrec hid hreply
    obtain ⟨k, hk, hout⟩ := hi.reply_of_ask hids hask (List.mem_of_getElem? hrec) hid
    exact ⟨k, hk, Option.some.inj (hreply.symm.trans hout)⟩
  cases reply with
  | ok payload =>
    obtain ⟨k, frame, -, hrec, hkind, hid, hpay⟩ := hc.response a ask payload hask hdone
    exact .inr (.inr (hgiven k frame hrec hid (by simp [Frame.reply, hkind, hpay])))
  | error e =>
    rcases hc.error a ask e hask hdone with rfl | rfl | ⟨k, frame, -, hrec, hkind, hid, he⟩
    · exact .inl rfl
    · exact .inr (.inl rfl)
    · exact .inr (.inr (hgiven k frame hrec hid (by simp [Frame.reply, hkind, he])))

-- ---------------------------------------------------------------------------
-- An ask and its answer
-- ---------------------------------------------------------------------------

/-- `serde_json` on the texts of a few frames. -/
def fewFrames (frames : List Frame) : Serde where
  toVec frame := if frame ∈ frames then .ok (frameText frame) else .error "recursion limit exceeded"
  fromSlice data :=
    match frames.find? (frameText · = data) with
    | some frame => .ok frame
    | none => .error "EOF while parsing a value"

theorem fewFrames_exact {frames : List Frame}
    (h : ∀ f ∈ frames, ∀ g ∈ frames, frameText g <+: frameText f → g = f) (frame : Frame) :
    (fewFrames frames).Exact frame where
  inverts := by
    intro data hdata
    simp only [fewFrames] at hdata ⊢
    split at hdata
    · rename_i hmem
      cases hdata
      cases hfind : frames.find? (frameText · = frameText frame) with
      | none => simpa using List.find?_eq_none.mp hfind frame hmem
      | some g =>
        have htext : frameText g = frameText frame := by simpa using List.find?_some hfind
        obtain rfl := h frame hmem g (List.mem_of_find?_eq_some hfind) (htext ▸ List.prefix_rfl)
        rfl
    · cases hdata
  start := by
    intro data n hdata hn
    simp only [fewFrames] at hdata ⊢
    split at hdata
    · rename_i hmem
      cases hdata
      cases hfind : frames.find? (frameText · = (frameText frame).take n) with
      | none => exact ⟨_, rfl⟩
      | some g =>
        have htext : frameText g = (frameText frame).take n := by simpa using List.find?_some hfind
        obtain rfl := h frame hmem g (List.mem_of_find?_eq_some hfind)
          (htext ▸ List.take_prefix n _)
        have hlen := congrArg List.length htext
        rw [List.length_take_of_le hn.le] at hlen
        omega
    · cases hdata

def echoFrames : List Frame :=
  [⟨.request, 1, "echo", [104, 105]⟩, ⟨.response, 1, "echo", [104, 105]⟩]

def echoServices : Services := fun service =>
  if service = "echo" then some fun _ payload => .ok payload else none

def echoRun : List Act :=
  [.client (.ask "echo" [104, 105]), .client (.park 0), .client (.send 0), .client .recv, .wrote,
    .serve true, .read, .client .handle, .client (.complete 0)]

theorem answers_from_handlers_echo :
    ∃ s, run (Session.step (fewFrames echoFrames) echoServices) Session.init echoRun = some s ∧
      ∃ ask, s.client.asks 0 = some ask ∧ ask.stage = .done (.ok [104, 105]) ∧
      ((∀ k l : Nat, s.taken[k]? = some ask.request → s.taken[l]? = some ask.request → k = l) ∧
      ∀ reply, ask.stage = .done reply →
        reply = .error connectionClosed ∨ reply = .error connectionLost ∨
        ∃ k, s.taken[k]? = some ask.request ∧
          reply = outcome echoServices (k + 1) ask.service ask.payload) := by
  have hserde : ∀ frame, (fewFrames echoFrames).Exact frame := fewFrames_exact (by decide)
  exact ⟨_, rfl, _, rfl, rfl, answers_from_handlers _ hserde echoServices echoRun _ rfl
    (by decide) 0 _ rfl⟩

end Rinfra.Trpc
