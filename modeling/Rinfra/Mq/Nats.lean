import Mathlib.Logic.Function.Basic
import Rinfra.Core.Error
import Rinfra.Mq.Message

/-!
# The NATS bus

The server is not part of the repository, so it is a parameter.
`NatsServer.Lawful` says what the bus relies on, in terms of the messages the
server ever stored and of the filters of its durable consumers. A consumer that
exists keeps its filter.

A message is known by its number in the stream. The bus gives it an id of its
own when it arrives.
-/

namespace Rinfra.Mq

structure NatsConfig where
  streamName : String
  consumerGroup : String

abbrev NatsHeaders := Std.ExtTreeMap String (List String) compare

structure NatsMessage where
  subject : String
  headers : Option NatsHeaders
  payload : List UInt8

/-- What comes of a publish. It is sent, and then its acknowledgement is waited
for. -/
inductive PublishReply
  | acked
  | failed (e : String)
  | ackFailed (e : String)

/-- The requests the bus makes. An error is given by its text. -/
structure NatsServer (Js : Type) where
  publish : Js → (subject : String) → (headers : Option NatsHeaders) → (payload : List UInt8) →
    PublishReply × Js
  getStream : Js → (stream : String) → Except String Unit
  getOrCreateConsumer : Js → (stream durable filter : String) → Except String Unit × Js
  /-- `consumer.messages()` -/
  messages : Js → (stream durable : String) → Except String Unit
  /-- The next item of `messages`, if they are not at an end. -/
  next : Js → (stream durable : String) → Option (Except String (Nat × NatsMessage)) × Js
  ack : Js → (seq : Nat) → Except String Unit × Js

structure JetStream where
  /-- Every message ever stored. -/
  stored : List NatsMessage
  /-- The filters of the durable consumers, by stream and name. -/
  consumers : String × String → Option String

namespace JetStream

def store (js : JetStream) (msg : NatsMessage) : JetStream :=
  { js with stored := js.stored ++ [msg] }

def addConsumer (js : JetStream) (stream durable filter : String) : JetStream :=
  { js with consumers := Function.update js.consumers (stream, durable) (some filter) }

/-- What becomes of the server in one step, which may ask for a consumer. -/
inductive Next (asked : Option ((String × String) × String)) (js : JetStream) : JetStream → Prop
  | same : Next asked js js
  | stored {msg : NatsMessage} : Next asked js (js.store msg)
  | consumer {stream durable filter : String} (hasked : asked = some ((stream, durable), filter))
      (hnone : js.consumers (stream, durable) = none) :
      Next asked js (js.addConsumer stream durable filter)

section
variable {asked : Option ((String × String) × String)} {js js' : JetStream}

theorem Next.stored_initial (h : js.Next asked js') : js.stored <+: js'.stored := by
  cases h with
  | same | consumer => exact List.prefix_rfl
  | stored => exact List.prefix_append _ _

theorem Next.consumers (h : js.Next asked js') (hf : js.consumers key = some filter) :
    js'.consumers key = some filter := by
  cases h with
  | same | stored => exact hf
  | consumer hasked hnone =>
    simp only [addConsumer]
    grind [Function.update_apply]

theorem Next.known_or_asked (h : js.Next asked js') (hf : js'.consumers key = some filter) :
    js.consumers key = some filter ∨ asked = some (key, filter) := by
  cases h with
  | same | stored => exact .inl hf
  | consumer hasked hnone =>
    simp only [addConsumer] at hf
    grind [Function.update_apply]

end

end JetStream

/-- `filter` takes in more subjects than one. -/
def Wild (filter : String) : Prop :=
  ['*'] ∈ filter.toList.splitOn '.' ∨ (filter.toList.splitOn '.').getLast? = some ['>']
  deriving Decidable

structure NatsServer.Lawful (server : NatsServer Js) (accepts : String → String → Prop)
    (view : Js → JetStream) : Prop where
  acked : ∀ js subject headers payload js',
    server.publish js subject headers payload = (.acked, js') →
    view js' = (view js).store ⟨subject, headers, payload⟩
  /-- A message may be stored though its acknowledgement is not seen. -/
  published : ∀ js subject headers payload,
    view (server.publish js subject headers payload).2 = view js ∨
      view (server.publish js subject headers payload).2 =
        (view js).store ⟨subject, headers, payload⟩
  known : ∀ js stream durable filter, (view js).consumers (stream, durable) ≠ none →
    view (server.getOrCreateConsumer js stream durable filter).2 = view js
  created : ∀ js stream durable filter js', (view js).consumers (stream, durable) = none →
    server.getOrCreateConsumer js stream durable filter = (.ok (), js') →
    view js' = (view js).addConsumer stream durable filter
  not_created : ∀ js stream durable filter, (view js).consumers (stream, durable) = none →
    view (server.getOrCreateConsumer js stream durable filter).2 = view js ∨
      view (server.getOrCreateConsumer js stream durable filter).2 =
        (view js).addConsumer stream durable filter
  next : ∀ js stream durable, view (server.next js stream durable).2 = view js
  /-- A consumer hands out what is stored and its filter accepts. -/
  delivered : ∀ js stream durable seq msg,
    (server.next js stream durable).1 = some (.ok (seq, msg)) →
    (view js).stored[seq]? = some msg ∧
      ∃ filter, (view js).consumers (stream, durable) = some filter ∧ accepts filter msg.subject
  ack : ∀ js seq, view (server.ack js seq).2 = view js
  literal : ∀ filter subject, ¬ Wild filter → accepts filter subject → subject = filter
  wild : ∀ filter, Wild filter → ∃ subject, subject ≠ filter ∧ accepts filter subject

-- ---------------------------------------------------------------------------
-- Subjects, names and headers
-- ---------------------------------------------------------------------------

def subject (topic : String) : String := "rinfra." ++ topic

/-- `topic.replace('.', "-")` -/
def dashed (topic : String) : String := topic.map fun c => if c = '.' then '-' else c

def durableName (group topic : String) : String := group ++ "-" ++ dashed topic

/-- The headers whose names the client takes. -/
def natsHeaders (isHeaderName : String → Bool) (headers : Headers) : NatsHeaders :=
  headers.filterMap fun name value => if isHeaderName name then some [value] else none

/-- The first value of each name. -/
def messageHeaders (headers : Option NatsHeaders) : Headers :=
  match headers with
  | none => ∅
  | some headers => headers.filterMap fun _ values => values.head?

def NatsMessage.toMessage (draw : Draw) (msg : NatsMessage) : Message :=
  .withHeaders draw msg.subject msg.payload (messageHeaders msg.headers)

theorem subject_injective (h : subject topic = subject topic') : topic = topic' :=
  (String.append_right_inj _).mp h

theorem subject_ne (topic : String) : subject topic ≠ topic := by
  intro h
  have hlen := congrArg String.length h
  rw [subject, String.length_append] at hlen
  have hinitial : "rinfra.".length = 7 := rfl
  omega

/-- The topics of one group that have one consumer: those that are the same but
for dots and dashes. -/
theorem durableName_eq_iff : durableName group topic = durableName group topic' ↔
    dashed topic = dashed topic' := by
  rw [durableName, durableName, String.append_right_inj]

theorem messageHeaders_natsHeaders (isHeaderName : String → Bool) (headers : Headers) :
    messageHeaders (some (natsHeaders isHeaderName headers)) =
      headers.filter fun name _ => isHeaderName name := by
  apply Std.ExtTreeMap.ext_getElem?
  intro name
  simp only [messageHeaders, natsHeaders, Std.ExtTreeMap.getElem?_filterMap',
    Std.ExtTreeMap.getElem?_filter']
  cases headers[name]? with
  | none => rfl
  | some value => cases isHeaderName name <;> simp [Option.filter]

-- ---------------------------------------------------------------------------
-- Buses and subscriptions
-- ---------------------------------------------------------------------------

inductive NatsTask
  | opening
  | pulling
  | sending (seq : Nat) (msg : Message)
  | stopped

structure NatsSubscription where
  bus : Nat
  topic : String
  task : NatsTask
  /-- The channel, with the numbers of the messages. -/
  queue : List (Nat × Message)
  /-- The receiver is there. -/
  live : Bool

def NatsSubscription.arrived (sub : NatsSubscription) : List (Nat × Message) :=
  match sub.task with
  | .sending seq msg => sub.queue ++ [(seq, msg)]
  | _ => sub.queue

structure NatsBuses (Js : Type) where
  js : Js
  ackMap : Nat → String → Option Nat
  subscriptions : Nat → Option NatsSubscription
  /-- The number of the next subscription. -/
  next : Nat

inductive NatsEvent
  | publish (b : Nat) (topic : String) (payload : List UInt8)
  | publishWithHeaders (b : Nat) (topic : String) (payload : List UInt8) (headers : Headers)
  | subscribe (b : Nat) (topic : String)
  | listen (n : Nat)
  | pull (n : Nat) (draw : Draw)
  | send (n : Nat)
  | receive (n : Nat)
  | drop (n : Nat)
  /-- The process of a bus dies. -/
  | crash (b : Nat)
  | ack (b : Nat) (id : String)

def natsCapacity : Nat := 256

namespace NatsBuses

section
variable {Js : Type} (server : NatsServer Js) (isHeaderName : String → Bool)
  (config : Nat → NatsConfig)

def start (js : Js) : NatsBuses Js := ⟨js, fun _ _ => none, fun _ => none, 0⟩

def setSubscription (s : NatsBuses Js) (n : Nat) (sub : NatsSubscription) : NatsBuses Js :=
  { s with subscriptions := Function.update s.subscriptions n (some sub) }

def send (s : NatsBuses Js) (topic : String) (headers : Option NatsHeaders)
    (payload : List UInt8) : Except AppError Unit × NatsBuses Js :=
  match server.publish s.js (subject topic) headers payload with
  | (.acked, js) => (.ok (), { s with js })
  | (.failed e, js) => (.error ⟨.mqPublishFailed, s!"nats publish failed: {e}"⟩, { s with js })
  | (.ackFailed e, js) =>
    (.error ⟨.mqPublishFailed, s!"nats publish ack failed: {e}"⟩, { s with js })

def publish (s : NatsBuses Js) (topic : String) (payload : List UInt8) :
    Except AppError Unit × NatsBuses Js := s.send server topic none payload

def publishWithHeaders (s : NatsBuses Js) (topic : String) (payload : List UInt8)
    (headers : Headers) : Except AppError Unit × NatsBuses Js :=
  s.send server topic (some (natsHeaders isHeaderName headers)) payload

def durable (b : Nat) (topic : String) : String := durableName (config b).consumerGroup topic

def spawn (s : NatsBuses Js) (b : Nat) (topic : String) : NatsBuses Js :=
  { s.setSubscription s.next ⟨b, topic, .opening, [], true⟩ with next := s.next + 1 }

def subscribe (s : NatsBuses Js) (b : Nat) (topic : String) :
    Except AppError Unit × NatsBuses Js :=
  match server.getStream s.js (config b).streamName with
  | .error e => (.error ⟨.mqSubscribeFailed, s!"nats get stream failed: {e}"⟩, s)
  | .ok _ =>
    match server.getOrCreateConsumer s.js (config b).streamName (durable config b topic)
        (subject topic) with
    | (.ok _, js) => (.ok (), { s with js }.spawn b topic)
    | (.error e, js) =>
      (.error ⟨.mqSubscribeFailed, s!"nats consumer create failed: {e}"⟩, { s with js })

def ack (s : NatsBuses Js) (b : Nat) (id : String) : Except AppError Unit × NatsBuses Js :=
  match s.ackMap b id with
  | none => (.ok (), s)
  | some seq =>
    let ackMap := Function.update s.ackMap b (Function.update (s.ackMap b) id none)
    match server.ack s.js seq with
    | (.ok _, js) => (.ok (), { s with js, ackMap })
    | (.error e, js) => (.error ⟨.internal, s!"nats ack failed: {e}"⟩, { s with js, ackMap })

def step (s : NatsBuses Js) : NatsEvent → Option (NatsBuses Js)
  | .publish _ topic payload => pure (s.publish server topic payload).2
  | .publishWithHeaders _ topic payload headers =>
    pure (s.publishWithHeaders server isHeaderName topic payload headers).2
  | .subscribe b topic => pure (s.subscribe server config b topic).2
  | .listen n => do
    let sub ← s.subscriptions n
    let .opening := sub.task | none
    match server.messages s.js (config sub.bus).streamName (durable config sub.bus sub.topic) with
    | .ok _ => pure (s.setSubscription n { sub with task := .pulling })
    | .error _ => pure (s.setSubscription n { sub with task := .stopped })
  | .pull n draw => do
    let sub ← s.subscriptions n
    let .pulling := sub.task | none
    match server.next s.js (config sub.bus).streamName (durable config sub.bus sub.topic) with
    | (none, js) => pure ({ s with js }.setSubscription n { sub with task := .stopped })
    | (some item, js) =>
      if sub.live then
        match item with
        | .ok (seq, natsMsg) =>
          let msg := natsMsg.toMessage draw
          let acks := Function.update (s.ackMap sub.bus) msg.id (some seq)
          pure ({ s with js, ackMap := Function.update s.ackMap sub.bus acks }.setSubscription n
            { sub with task := .sending seq msg })
        | .error _ => pure ({ s with js }.setSubscription n sub)
      else pure ({ s with js }.setSubscription n { sub with task := .stopped })
  | .send n => do
    let sub ← s.subscriptions n
    let .sending seq msg := sub.task | none
    if sub.live then
      if sub.queue.length < natsCapacity then
        pure (s.setSubscription n { sub with queue := sub.queue ++ [(seq, msg)], task := .pulling })
      else none
    else pure (s.setSubscription n { sub with task := .stopped })
  | .receive n => do
    let sub ← s.subscriptions n
    let _ :: queue := sub.queue | none
    if sub.live then pure (s.setSubscription n { sub with queue }) else none
  | .drop n => do
    let sub ← s.subscriptions n
    if sub.live then pure (s.setSubscription n { sub with live := false }) else none
  | .crash b => pure { s with
      ackMap := Function.update s.ackMap b fun _ => none
      subscriptions := fun n => (s.subscriptions n).filter fun sub => sub.bus ≠ b }
  | .ack b id => pure (s.ack server b id).2

end

-- ---------------------------------------------------------------------------
-- What a step does
-- ---------------------------------------------------------------------------

section
variable {Js : Type} {server : NatsServer Js} {accepts : String → String → Prop}
  {isHeaderName : String → Bool} {config : Nat → NatsConfig} {view : Js → JetStream}
  {s s' : NatsBuses Js}

/-- The consumer that a call asks for: its stream and name, and its filter. -/
def asks (config : Nat → NatsConfig) : NatsEvent → Option ((String × String) × String)
  | .subscribe b topic =>
    some (((config b).streamName, durable config b topic), subject topic)
  | _ => none

theorem step_listen (h : s.step server isHeaderName config (.listen n) = some s') :
    ∃ sub task, s.subscriptions n = some sub ∧ sub.task = .opening ∧
      (task = .pulling ∨ task = .stopped) ∧ s' = s.setSubscription n { sub with task } := by
  simp only [step, Option.bind_eq_bind, Option.bind_eq_some_iff] at h
  obtain ⟨sub, hsub, h⟩ := h
  split at h
  · rename_i htask
    split at h <;> cases h
    · exact ⟨sub, .pulling, hsub, htask, .inl rfl, rfl⟩
    · exact ⟨sub, .stopped, hsub, htask, .inr rfl, rfl⟩
  · cases h

/-- What a pull makes of the next item: the end of the items, or a receiver that is gone,
stops the task; an error is passed over; a message is entered and is to be sent. -/
inductive Pulled (s : NatsBuses Js) (n : Nat) (sub : NatsSubscription) (draw : Draw) (js : Js) :
    Option (Except String (Nat × NatsMessage)) → NatsBuses Js → Prop
  | stopped (hstop : item = none ∨ sub.live = false) :
      Pulled s n sub draw js item ({ s with js }.setSubscription n { sub with task := .stopped })
  | failed (hlive : sub.live = true) (e : String) :
      Pulled s n sub draw js (some (.error e)) ({ s with js }.setSubscription n sub)
  | delivered (hlive : sub.live = true) (seq : Nat) (natsMsg : NatsMessage) :
      Pulled s n sub draw js (some (.ok (seq, natsMsg)))
        ({ s with
            js
            ackMap := Function.update s.ackMap sub.bus
              (Function.update (s.ackMap sub.bus) draw.id (some seq)) }.setSubscription n
          { sub with task := .sending seq (natsMsg.toMessage draw) })

theorem step_pull (h : s.step server isHeaderName config (.pull n draw) = some s') :
    ∃ sub item js, s.subscriptions n = some sub ∧ sub.task = .pulling ∧
      server.next s.js (config sub.bus).streamName (durable config sub.bus sub.topic) =
        (item, js) ∧ Pulled s n sub draw js item s' := by
  simp only [step, Option.bind_eq_bind, Option.bind_eq_some_iff] at h
  obtain ⟨sub, hsub, h⟩ := h
  split at h
  · rename_i htask
    split at h
    · rename_i js hreply
      cases h
      exact ⟨sub, none, js, hsub, htask, hreply, .stopped (.inl rfl)⟩
    · rename_i item js hreply
      refine ⟨sub, some item, js, hsub, htask, hreply, ?_⟩
      split at h
      · rename_i hlive
        split at h <;> cases h
        · exact .delivered hlive _ _
        · exact .failed hlive _
      · rename_i hgone
        cases h
        exact .stopped (.inr (by simpa using hgone))
  · cases h

theorem step_send (h : s.step server isHeaderName config (.send n) = some s') :
    ∃ sub seq msg, s.subscriptions n = some sub ∧ sub.task = .sending seq msg ∧
      (sub.live = true ∧ sub.queue.length < natsCapacity ∧ s' = s.setSubscription n
          { sub with queue := sub.queue ++ [(seq, msg)], task := .pulling } ∨
        sub.live = false ∧ s' = s.setSubscription n { sub with task := .stopped }) := by
  simp only [step, Option.bind_eq_bind, Option.bind_eq_some_iff] at h
  obtain ⟨sub, hsub, h⟩ := h
  split at h
  · rename_i seq msg htask
    refine ⟨sub, seq, msg, hsub, htask, ?_⟩
    split at h
    · rename_i hlive
      split at h <;> cases h
      exact .inl ⟨hlive, ‹_›, rfl⟩
    · rename_i hgone
      cases h
      exact .inr ⟨by simpa using hgone, rfl⟩
  · cases h

theorem step_receive (h : s.step server isHeaderName config (.receive n) = some s') :
    ∃ sub first queue, s.subscriptions n = some sub ∧ sub.queue = first :: queue ∧
      sub.live = true ∧ s' = s.setSubscription n { sub with queue } := by
  simp only [step, Option.bind_eq_bind, Option.bind_eq_some_iff] at h
  obtain ⟨sub, hsub, h⟩ := h
  split at h
  · rename_i first queue hqueue
    split at h <;> cases h
    exact ⟨sub, first, queue, hsub, hqueue, ‹_›, rfl⟩
  · cases h

theorem step_drop (h : s.step server isHeaderName config (.drop n) = some s') :
    ∃ sub, s.subscriptions n = some sub ∧ sub.live = true ∧
      s' = s.setSubscription n { sub with live := false } := by
  simp only [step, Option.bind_eq_bind, Option.bind_eq_some_iff] at h
  obtain ⟨sub, hsub, h⟩ := h
  split at h <;> cases h
  exact ⟨sub, hsub, ‹_›, rfl⟩

theorem send_js (laws : server.Lawful accepts view) (s : NatsBuses Js) (topic : String)
    (headers : Option NatsHeaders) (payload : List UInt8) :
    (view s.js).Next none (view (s.send server topic headers payload).2.js) := by
  have hjs : (s.send server topic headers payload).2.js =
      (server.publish s.js (subject topic) headers payload).2 := by
    unfold send
    split <;> simp [*]
  rw [hjs]
  rcases laws.published s.js (subject topic) headers payload with h | h <;> rw [h]
  · exact .same
  · exact .stored

theorem create_js (laws : server.Lawful accepts view) (js : Js) (stream durable filter : String) :
    (view js).Next (some ((stream, durable), filter))
      (view (server.getOrCreateConsumer js stream durable filter).2) := by
  by_cases hnone : (view js).consumers (stream, durable) = none
  · rcases laws.not_created js stream durable filter hnone with h | h <;> rw [h]
    · exact .same
    · exact .consumer rfl hnone
  · rw [laws.known js stream durable filter hnone]
    exact .same

theorem subscribe_js (laws : server.Lawful accepts view) (s : NatsBuses Js) (b : Nat)
    (topic : String) :
    (view s.js).Next (asks config (.subscribe b topic))
      (view (s.subscribe server config b topic).2.js) := by
  unfold subscribe
  split
  · exact .same
  · have h := create_js laws s.js (config b).streamName (durable config b topic) (subject topic)
    split <;> simp_all [spawn, setSubscription, asks]

theorem step_js (laws : server.Lawful accepts view)
    (h : s.step server isHeaderName config e = some s') :
    (view s.js).Next (asks config e) (view s'.js) := by
  cases e with
  | publish b topic payload =>
    cases h
    exact send_js laws _ _ _ _
  | publishWithHeaders b topic payload headers =>
    cases h
    exact send_js laws _ _ _ _
  | subscribe b topic =>
    cases h
    exact subscribe_js laws _ _ _
  | pull n draw =>
    obtain ⟨sub, item, js, -, -, hreply, hpulled⟩ := step_pull h
    have hnext := laws.next s.js (config sub.bus).streamName (durable config sub.bus sub.topic)
    have hjs : view s'.js = view s.js := by
      rw [← hnext, hreply]
      cases hpulled <;> rfl
    rw [hjs]
    exact .same
  | ack b id =>
    cases h
    unfold ack
    split
    · exact .same
    · rename_i seq hseq
      have hack := laws.ack s.js seq
      simp only
      split <;> rename_i hreply <;> rw [hreply] at hack <;> simp only [hack] <;> exact .same
  | listen n =>
    obtain ⟨sub, task, -, -, -, rfl⟩ := step_listen h
    exact .same
  | send n =>
    obtain ⟨sub, seq, msg, -, -, ⟨-, -, rfl⟩ | ⟨-, rfl⟩⟩ := step_send h <;> exact .same
  | receive n =>
    obtain ⟨sub, first, queue, -, -, -, rfl⟩ := step_receive h
    exact .same
  | drop n =>
    obtain ⟨sub, -, -, rfl⟩ := step_drop h
    exact .same
  | crash b =>
    cases h
    exact .same

theorem subscribe_consumer (laws : server.Lawful accepts view)
    (h : (s.subscribe server config b topic).1 = .ok ()) :
    (view (s.subscribe server config b topic).2.js).consumers
        ((config b).streamName, durable config b topic) =
      some (((view s.js).consumers ((config b).streamName, durable config b topic)).getD
        (subject topic)) := by
  unfold subscribe at h ⊢
  split at h
  · cases h
  · split at h
    · rename_i js hreply
      simp only [spawn, setSubscription]
      cases hold : (view s.js).consumers ((config b).streamName, durable config b topic) with
      | none =>
        rw [laws.created _ _ _ _ _ hold hreply]
        simp [JetStream.addConsumer]
      | some filter =>
        have hknown := laws.known s.js (config b).streamName (durable config b topic)
          (subject topic) (by simp [hold])
        rw [hreply] at hknown
        rw [hknown, hold]
        rfl
    · cases h

theorem subscribe_spawns (h : (s.subscribe server config b topic).1 = .ok ()) :
    (s.subscribe server config b topic).2.subscriptions s.next =
      some ⟨b, topic, .opening, [], true⟩ := by
  unfold subscribe at h ⊢
  split at h
  · cases h
  · split at h
    · rename_i hreply
      simp [spawn, setSubscription]
    · cases h

/-- The server hands the message out for the subscription. -/
def Delivered (accepts : String → String → Prop) (config : Nat → NatsConfig) (js : JetStream)
    (sub : NatsSubscription) (arrival : Nat × Message) : Prop :=
  ∃ natsMsg draw filter, js.stored[arrival.1]? = some natsMsg ∧
    arrival.2 = natsMsg.toMessage draw ∧
    js.consumers ((config sub.bus).streamName, durable config sub.bus sub.topic) = some filter ∧
    accepts filter natsMsg.subject

/-- The subscription goes on, and what it has taken meanwhile was handed out to it. -/
def Continues (accepts : String → String → Prop) (config : Nat → NatsConfig) (js : JetStream)
    (sub sub' : NatsSubscription) : Prop :=
  sub'.bus = sub.bus ∧ sub'.topic = sub.topic ∧ ∀ arrival ∈ sub'.arrived,
    arrival ∈ sub.arrived ∨ Delivered accepts config js sub arrival

/-- One subscription goes on, and the others stay as they are. -/
def Advances (accepts : String → String → Prop) (config : Nat → NatsConfig) (js : JetStream)
    (s s' : NatsBuses Js) (n : Nat) : Prop :=
  ∃ sub sub', s.subscriptions n = some sub ∧
    s'.subscriptions = Function.update s.subscriptions n (some sub') ∧
    Continues accepts config js sub sub'

theorem Continues.of_arrived {js : JetStream} {sub sub' : NatsSubscription}
    (hbus : sub'.bus = sub.bus) (htopic : sub'.topic = sub.topic)
    (harrived : ∀ arrival ∈ sub'.arrived, arrival ∈ sub.arrived) :
    Continues accepts config js sub sub' :=
  ⟨hbus, htopic, fun arrival h => .inl (harrived arrival h)⟩

theorem Advances.subscription {js : JetStream} {n m : Nat} {sub' : NatsSubscription}
    (h : Advances accepts config js s s' m) (hsub' : s'.subscriptions n = some sub') :
    ∃ sub, s.subscriptions n = some sub ∧ Continues accepts config js sub sub' := by
  obtain ⟨sub, sub'', hsub, hupdate, hcontinues⟩ := h
  rw [hupdate] at hsub'
  by_cases hn : n = m
  · subst hn
    rw [Function.update_self, Option.some.injEq] at hsub'
    subst hsub'
    exact ⟨sub, hsub, hcontinues⟩
  · rw [Function.update_of_ne hn] at hsub'
    exact ⟨sub', hsub', .of_arrived rfl rfl fun _ => id⟩

theorem advances_listen {js : JetStream} {n : Nat}
    (h : s.step server isHeaderName config (.listen n) = some s') :
    Advances accepts config js s s' n := by
  obtain ⟨sub, task, hsub, htask, rfl | rfl, rfl⟩ := step_listen h <;>
    refine ⟨sub, _, hsub, rfl, .of_arrived rfl rfl fun arrival ha => ?_⟩ <;>
    simpa [NatsSubscription.arrived, htask] using ha

theorem advances_pull (laws : server.Lawful accepts view) {n : Nat} {draw : Draw}
    (h : s.step server isHeaderName config (.pull n draw) = some s') :
    Advances accepts config (view s.js) s s' n := by
  obtain ⟨sub, item, js, hsub, htask, hreply, hpulled⟩ := step_pull h
  cases hpulled with
  | stopped =>
    refine ⟨sub, _, hsub, rfl, .of_arrived rfl rfl fun arrival ha => ?_⟩
    simpa [NatsSubscription.arrived, htask] using ha
  | failed hlive e => exact ⟨sub, _, hsub, rfl, .of_arrived rfl rfl fun _ => id⟩
  | delivered hlive seq natsMsg =>
    refine ⟨sub, _, hsub, rfl, rfl, rfl, fun arrival ha => ?_⟩
    obtain ⟨hstored, filter, hfilter, haccepts⟩ :=
      laws.delivered s.js (config sub.bus).streamName
        (durable config sub.bus sub.topic) seq natsMsg (by rw [hreply])
    simp only [NatsSubscription.arrived, htask, List.mem_append, List.mem_singleton] at ha ⊢
    rcases ha with ha | rfl
    · exact .inl ha
    · exact .inr ⟨natsMsg, draw, filter, hstored, rfl, hfilter, haccepts⟩

theorem advances_send {js : JetStream} {n : Nat}
    (h : s.step server isHeaderName config (.send n) = some s') :
    Advances accepts config js s s' n := by
  obtain ⟨sub, seq, msg, hsub, htask, ⟨-, -, rfl⟩ | ⟨-, rfl⟩⟩ := step_send h
  · refine ⟨sub, _, hsub, rfl, .of_arrived rfl rfl fun arrival ha => ?_⟩
    simpa [NatsSubscription.arrived, htask] using ha
  · refine ⟨sub, _, hsub, rfl, .of_arrived rfl rfl fun arrival ha => ?_⟩
    simp only [NatsSubscription.arrived, htask] at ha ⊢
    exact List.mem_append_left _ ha

theorem advances_receive {js : JetStream} {n : Nat}
    (h : s.step server isHeaderName config (.receive n) = some s') :
    Advances accepts config js s s' n := by
  obtain ⟨sub, first, queue, hsub, hqueue, -, rfl⟩ := step_receive h
  refine ⟨sub, _, hsub, rfl, .of_arrived rfl rfl fun arrival ha => ?_⟩
  simp only [NatsSubscription.arrived, hqueue] at ha ⊢
  split <;> simp_all

theorem advances_drop {js : JetStream} {n : Nat}
    (h : s.step server isHeaderName config (.drop n) = some s') :
    Advances accepts config js s s' n := by
  obtain ⟨sub, hsub, -, rfl⟩ := step_drop h
  exact ⟨sub, _, hsub, rfl, .of_arrived rfl rfl fun _ => id⟩

theorem subscribe_subscription {n b : Nat} {topic : String} {sub' : NatsSubscription}
    (hsub' : (s.subscribe server config b topic).2.subscriptions n = some sub') :
    s.subscriptions n = some sub' ∨ (s.subscribe server config b topic).1 = .ok () ∧
      sub'.bus = b ∧ sub'.topic = topic ∧ sub'.arrived = [] := by
  unfold subscribe at hsub' ⊢
  split at hsub'
  · exact .inl hsub'
  · split at hsub'
    · simp only [spawn, setSubscription] at hsub'
      by_cases hn : n = s.next
      · subst hn
        simp only [Function.update_self, Option.some.injEq] at hsub'
        subst hsub'
        exact .inr ⟨by simp, rfl, rfl, rfl⟩
      · rw [Function.update_of_ne hn] at hsub'
        exact .inl hsub'
    · exact .inl hsub'

theorem subscriptions_send (topic : String) (headers : Option NatsHeaders) (payload : List UInt8) :
    (s.send server topic headers payload).2.subscriptions = s.subscriptions := by
  unfold send
  split <;> rfl

theorem subscriptions_ack (b : Nat) (id : String) :
    (s.ack server b id).2.subscriptions = s.subscriptions := by
  unfold ack
  split
  · rfl
  · split <;> rfl

/-- A subscription that is there afterwards was there before or is new, and what
it has taken meanwhile was handed out to it. -/
theorem step_subscription (laws : server.Lawful accepts view)
    (h : s.step server isHeaderName config e = some s') (hsub' : s'.subscriptions n = some sub') :
    (∃ sub, s.subscriptions n = some sub ∧ Continues accepts config (view s.js) sub sub') ∨
    ∃ b topic, e = .subscribe b topic ∧ (s.subscribe server config b topic).1 = .ok () ∧
      sub'.bus = b ∧ sub'.topic = topic ∧ sub'.arrived = [] := by
  have hkept : s.subscriptions n = some sub' →
      ∃ sub, s.subscriptions n = some sub ∧ Continues accepts config (view s.js) sub sub' :=
    fun hsub => ⟨sub', hsub, .of_arrived rfl rfl fun _ => id⟩
  cases e with
  | publish b topic payload | publishWithHeaders b topic payload headers =>
    cases h
    exact .inl (hkept (subscriptions_send .. ▸ hsub'))
  | subscribe b topic =>
    cases h
    rcases subscribe_subscription hsub' with hsub | hnew
    · exact .inl (hkept hsub)
    · exact .inr ⟨b, topic, rfl, hnew⟩
  | listen m => exact .inl ((advances_listen h).subscription hsub')
  | pull m draw => exact .inl ((advances_pull laws h).subscription hsub')
  | send m => exact .inl ((advances_send h).subscription hsub')
  | receive m => exact .inl ((advances_receive h).subscription hsub')
  | drop m => exact .inl ((advances_drop h).subscription hsub')
  | crash b =>
    cases h
    exact .inl (hkept (Option.filter_eq_some_iff.mp hsub').1)
  | ack b id =>
    cases h
    exact .inl (hkept (subscriptions_ack b id ▸ hsub'))

end

end NatsBuses

-- ---------------------------------------------------------------------------
-- A lawful server
-- ---------------------------------------------------------------------------

structure StoredJs where
  js : JetStream
  /-- The messages that were handed out. -/
  handed : List Nat

def StoredJs.empty : StoredJs := ⟨⟨[], fun _ => none⟩, []⟩

/-- A filter with wildcards is taken to accept everything. -/
def plainAccepts (filter subject : String) : Prop := Wild filter ∨ subject = filter
  deriving Decidable

/-- A server that answers at once and hands out what was not handed out. -/
def storedNats : NatsServer StoredJs where
  publish s subject headers payload :=
    (.acked, { s with js := s.js.store ⟨subject, headers, payload⟩ })
  getStream _ _ := .ok ()
  getOrCreateConsumer s stream durable filter :=
    if s.js.consumers (stream, durable) = none then
      (.ok (), { s with js := s.js.addConsumer stream durable filter })
    else (.ok (), s)
  messages _ _ _ := .ok ()
  next s stream durable :=
    match s.js.consumers (stream, durable) with
    | none => (some (.error "consumer not found"), s)
    | some filter =>
      match s.js.stored.zipIdx.find? fun (msg, seq) =>
          seq ∉ s.handed ∧ plainAccepts filter msg.subject with
      | none => (some (.error "timed out"), s)
      | some (msg, seq) => (some (.ok (seq, msg)), { s with handed := seq :: s.handed })
  ack s _ := (.ok (), s)

theorem storedNats_lawful : storedNats.Lawful plainAccepts StoredJs.js where
  acked s subject headers payload s' h := by
    cases h
    rfl
  published s subject headers payload := .inr rfl
  known s stream durable filter hsome := by
    simp [storedNats, hsome]
  created s stream durable filter s' hnone h := by
    simp only [storedNats, if_pos hnone] at h
    cases h
    rfl
  not_created s stream durable filter hnone := by
    simp [storedNats, hnone]
  next s stream durable := by
    simp only [storedNats]
    split
    · rfl
    · split <;> rfl
  delivered s stream durable seq msg h := by
    simp only [storedNats] at h
    split at h
    · cases h
    · rename_i filter hfilter
      split at h
      · cases h
      · rename_i hfind
        cases h
        have hmem := List.mem_of_find?_eq_some hfind
        have hprop := List.find?_some hfind
        simp only [decide_eq_true_eq] at hprop
        exact ⟨List.mem_zipIdx_iff_getElem?.mp hmem, filter, hfilter, hprop.2⟩
  ack _ _ := rfl
  literal filter subject hplain haccepts := haccepts.resolve_left hplain
  wild filter hwild := ⟨filter ++ "x", by simp, .inl hwild⟩

end Rinfra.Mq
