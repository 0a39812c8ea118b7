import Mathlib.Algebra.Group.Nat.Defs
import Mathlib.Logic.Function.Basic
import Rinfra.Core.Error
import Rinfra.Mq.Message

/-!
# The in-memory bus

Calls are numbered by their callers and take the lock of `senders` in the order
in which they ask for it, as tokio's mutex has it. `round_robin` is only locked
by a publish that has the other lock already, so nobody waits for it. A publish
keeps both locks until its `send` is through.

The channel of a subscription has the number of the call. It holds the messages
it was ever given, each with the number of its publish, and how many of them the
subscriber has received.
-/

namespace Rinfra.Mq

structure Channel where
  given : List (Nat × Message)
  taken : Nat
  /-- The receiver is there. -/
  live : Bool

def Channel.empty : Channel := ⟨[], 0, true⟩

def Channel.queue (ch : Channel) : List (Nat × Message) := ch.given.drop ch.taken

def Channel.received (ch : Channel) : List (Nat × Message) := ch.given.take ch.taken

inductive Request
  | publish (topic : String) (payload : List UInt8)
  | publishWithHeaders (topic : String) (payload : List UInt8) (headers : Headers)
  | subscribe (topic : String)

inductive Job
  | publish (msg : Message)
  | subscribe (topic : String)

inductive Progress
  | idle
  | waiting
  | sending
  | published (result : Except AppError Unit)
  | subscribed (topic : String)
  | panicked

/-- A publish in `send`: it has both locks. -/
structure Sending where
  call : Nat
  msg : Message
  idx : Nat
  target : Nat

/-- A topic that is in neither map has no senders and the index 0. -/
structure InMemoryBus where
  senders : String → List Nat
  capacity : Nat
  roundRobin : String → Nat
  channels : Nat → Channel
  waiting : List (Nat × Job)
  holder : Option Sending
  calls : Nat → Progress

inductive Event
  | call (n : Nat) (request : Request) (draw : Draw)
  /-- The lock goes to the next call. -/
  | turn
  /-- The publish that has the locks comes out of `send`. -/
  | send
  | receive (c : Nat)
  | drop (c : Nat)

def Request.job (draw : Draw) : Request → Job
  | .publish topic payload => .publish (.new draw topic payload)
  | .publishWithHeaders topic payload headers => .publish (.withHeaders draw topic payload headers)
  | .subscribe topic => .subscribe topic

def maxPermits : Nat := 2 ^ 61 - 1

/-- `mpsc::channel` takes no other capacities. -/
def ChannelCapacity (capacity : Nat) : Prop := 0 < capacity ∧ capacity ≤ maxPermits
  deriving Decidable

def sendFailed : AppError := ⟨.mqPublishFailed, "failed to send message: channel closed"⟩

namespace InMemoryBus

def new (capacity : Nat) : InMemoryBus where
  senders _ := []
  capacity := capacity
  roundRobin _ := 0
  channels _ := .empty
  waiting := []
  holder := none
  calls _ := .idle

def setCall (bus : InMemoryBus) (n : Nat) (progress : Progress) : InMemoryBus :=
  { bus with calls := Function.update bus.calls n progress }

def setChannel (bus : InMemoryBus) (c : Nat) (ch : Channel) : InMemoryBus :=
  { bus with channels := Function.update bus.channels c ch }

/-- The senders of a topic that are not closed. -/
def openSenders (bus : InMemoryBus) (topic : String) : List Nat :=
  (bus.senders topic).filter fun c => (bus.channels c).live

def retain (bus : InMemoryBus) (topic : String) : InMemoryBus :=
  { bus with senders := Function.update bus.senders topic (bus.openSenders topic) }

/-- `do_publish` from the lock up to `send`. -/
def doPublish (bus : InMemoryBus) (n : Nat) (msg : Message) : InMemoryBus :=
  if h : bus.openSenders msg.topic = [] then
    (bus.retain msg.topic).setCall n (.published (.ok ()))
  else
    let topicSenders := bus.openSenders msg.topic
    let idx := bus.roundRobin msg.topic % topicSenders.length
    have hlt : idx < topicSenders.length := Nat.mod_lt _ (List.length_pos_iff.mpr h)
    { (bus.retain msg.topic).setCall n .sending with
      roundRobin := Function.update bus.roundRobin msg.topic idx
      holder := some ⟨n, msg, idx, topicSenders.get ⟨idx, hlt⟩⟩ }

/-- `do_publish` once `send` has put the message in the channel. -/
def sent (bus : InMemoryBus) (s : Sending) : InMemoryBus :=
  let ch := bus.channels s.target
  let topicSenders := bus.senders s.msg.topic
  { (bus.setChannel s.target { ch with given := ch.given ++ [(s.call, s.msg)] }).setCall s.call
      (.published (.ok ())) with
    roundRobin :=
      Function.update bus.roundRobin s.msg.topic ((s.idx + 1) % topicSenders.length)
    holder := none }

/-- `subscribe` from the lock on. -/
def addSender (bus : InMemoryBus) (n : Nat) (topic : String) : InMemoryBus :=
  { bus.setCall n (.subscribed topic) with
    senders := Function.update bus.senders topic (bus.senders topic ++ [n]) }

def step (bus : InMemoryBus) : Event → Option InMemoryBus
  | .call n request draw => do
    let .idle := bus.calls n | none
    match request.job draw with
    | .publish msg =>
      pure { bus.setCall n .waiting with waiting := bus.waiting ++ [(n, .publish msg)] }
    | .subscribe topic =>
      if ChannelCapacity bus.capacity then
        pure { bus.setCall n .waiting with waiting := bus.waiting ++ [(n, .subscribe topic)] }
      else pure (bus.setCall n .panicked)
  | .turn => do
    let none := bus.holder | none
    match bus.waiting with
    | [] => none
    | (n, .publish msg) :: waiting => pure ({ bus with waiting }.doPublish n msg)
    | (n, .subscribe topic) :: waiting => pure ({ bus with waiting }.addSender n topic)
  | .send => do
    let some s := bus.holder | none
    let ch := bus.channels s.target
    if ch.live then
      if ch.queue.length < bus.capacity then pure (bus.sent s) else none
    else pure { bus.setCall s.call (.published (.error sendFailed)) with holder := none }
  | .receive c => do
    let .subscribed _ := bus.calls c | none
    let ch := bus.channels c
    if ch.live ∧ ch.queue ≠ [] then pure (bus.setChannel c { ch with taken := ch.taken + 1 })
    else none
  | .drop c => do
    let .subscribed _ := bus.calls c | none
    let ch := bus.channels c
    if ch.live then pure (bus.setChannel c { ch with live := false }) else none

-- ---------------------------------------------------------------------------
-- What a step does
-- ---------------------------------------------------------------------------

inductive Moves (bus : InMemoryBus) : Event → InMemoryBus → Prop
  | publish (hidle : bus.calls n = .idle) (hjob : request.job draw = .publish msg) :
      Moves bus (.call n request draw)
        { bus.setCall n .waiting with waiting := bus.waiting ++ [(n, .publish msg)] }
  | subscribe (hidle : bus.calls n = .idle) (hjob : request.job draw = .subscribe topic)
      (hcap : ChannelCapacity bus.capacity) :
      Moves bus (.call n request draw)
        { bus.setCall n .waiting with waiting := bus.waiting ++ [(n, .subscribe topic)] }
  | panicked (hidle : bus.calls n = .idle) (hjob : request.job draw = .subscribe topic)
      (hcap : ¬ ChannelCapacity bus.capacity) :
      Moves bus (.call n request draw) (bus.setCall n .panicked)
  | unheard {n : Nat} {msg : Message} {rest : List (Nat × Job)} (hfree : bus.holder = none)
      (hw : bus.waiting = (n, .publish msg) :: rest)
      (hnone : bus.openSenders msg.topic = []) :
      Moves bus .turn
        (({ bus with waiting := rest }.retain msg.topic).setCall n (.published (.ok ())))
  | aimed {n : Nat} {msg : Message} {rest : List (Nat × Job)} {idx target : Nat}
      (hfree : bus.holder = none) (hw : bus.waiting = (n, .publish msg) :: rest)
      (hidx : idx = bus.roundRobin msg.topic % (bus.openSenders msg.topic).length)
      (htarget : (bus.openSenders msg.topic)[idx]? = some target) :
      Moves bus .turn
        { ({ bus with waiting := rest }.retain msg.topic).setCall n .sending with
          roundRobin := Function.update bus.roundRobin msg.topic idx
          holder := some ⟨n, msg, idx, target⟩ }
  | added {n : Nat} {topic : String} {rest : List (Nat × Job)} (hfree : bus.holder = none)
      (hw : bus.waiting = (n, .subscribe topic) :: rest) :
      Moves bus .turn ({ bus with waiting := rest }.addSender n topic)
  | sent {s : Sending} (hh : bus.holder = some s) (hlive : (bus.channels s.target).live = true)
      (hroom : (bus.channels s.target).queue.length < bus.capacity) :
      Moves bus .send (bus.sent s)
  | failed {s : Sending} (hh : bus.holder = some s)
      (hclosed : (bus.channels s.target).live = false) :
      Moves bus .send
        { bus.setCall s.call (.published (.error sendFailed)) with holder := none }
  | received {c : Nat} {topic : String} (hc : bus.calls c = .subscribed topic)
      (hlive : (bus.channels c).live = true) (hq : (bus.channels c).queue ≠ []) :
      Moves bus (.receive c)
        (bus.setChannel c { bus.channels c with taken := (bus.channels c).taken + 1 })
  | dropped {c : Nat} {topic : String} (hc : bus.calls c = .subscribed topic)
      (hlive : (bus.channels c).live = true) :
      Moves bus (.drop c) (bus.setChannel c { bus.channels c with live := false })

theorem doPublish_moves {bus : InMemoryBus} (hfree : bus.holder = none)
    (hw : bus.waiting = (n, .publish msg) :: rest) :
    Moves bus .turn ({ bus with waiting := rest }.doPublish n msg) := by
  unfold doPublish
  split
  · exact .unheard hfree hw ‹_›
  · exact .aimed hfree hw rfl (List.getElem?_eq_getElem _)

theorem step_moves {bus bus' : InMemoryBus} (h : bus.step e = some bus') : Moves bus e bus' := by
  cases e with
  | call n request draw =>
    simp only [step] at h
    split at h
    · rename_i hidle
      split at h
      · rename_i msg hjob
        cases h
        exact .publish hidle hjob
      · rename_i topic hjob
        split at h <;> cases h
        · exact .subscribe hidle hjob ‹_›
        · exact .panicked hidle hjob ‹_›
    · cases h
  | turn =>
    simp only [step] at h
    split at h
    · rename_i hfree
      split at h
      · cases h
      · rename_i hw
        cases h
        exact doPublish_moves hfree hw
      · rename_i hw
        cases h
        exact .added hfree hw
    · cases h
  | send =>
    simp only [step] at h
    split at h
    · rename_i s hh
      split at h
      · split at h <;> cases h
        exact .sent hh ‹_› ‹_›
      · rename_i hclosed
        cases h
        exact .failed hh (by simpa using hclosed)
    · cases h
  | receive c =>
    simp only [step] at h
    split at h
    · rename_i hc
      split at h <;> cases h
      rename_i hq
      exact .received hc hq.1 hq.2
    · cases h
  | drop c =>
    simp only [step] at h
    split at h
    · rename_i hc
      split at h <;> cases h
      exact .dropped hc ‹_›
    · cases h

end InMemoryBus

end Rinfra.Mq
