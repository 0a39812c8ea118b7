import Rinfra.Lib.Transition

/-!
# The TypeScript registry client

One thread runs the callbacks of sockets and timers. The messages that arrive go
to one inbox, from which `waitVariant` takes the first with the key it wants:
at once when there is one, which stays in the inbox, and otherwise as the first
waiter to match in `drainWaiters`.

An attempt, that is a call of `connectAndRegister`, is named by the socket it
creates. What it does when its ack is there is an event of its own, before the
next callback, and so is the end of a `stop` that has no socket to close. Frames
are whole; pings and the delays are left out.
-/

namespace Rinfra.Sdk.Ts

open Rinfra.Lib

inductive ConnectionState
  | disconnected | connecting | registering | connected | reconnecting | stopping
  deriving DecidableEq, Repr

/-- `ack.success` is true, or it is not, or there is no reading it. -/
inductive AckBody
  | accepted | refused | unreadable
  deriving DecidableEq, Repr

/-- An object, by the keys that are waited for. -/
structure Message where
  registerAck : Option AckBody
  nodeList : Bool
  deriving DecidableEq, Repr

inductive Frame
  | ping | pong
  | object (msg : Message)
  | scalar
  deriving DecidableEq, Repr

/-- A message with its place among all that have arrived. -/
structure Received where
  number : Nat
  socket : Nat
  msg : Message
  deriving DecidableEq, Repr

inductive Owner
  | attempt (socket : Nat)
  | call (number : Nat)
  deriving DecidableEq, Repr

/-- A call of `waitVariant`, for `RegisterAck` or for `NodeList`. `since` is how
many messages had arrived when the request was sent, if it was. -/
structure Waiter where
  owner : Owner
  sent : Bool
  since : Nat
  deriving DecidableEq, Repr

structure Resolution where
  waiter : Waiter
  number : Nat
  socket : Nat
  deriving DecidableEq, Repr

inductive Phase
  | connecting
  | awaiting
  | acked (body : AckBody)
  /-- In `closeSocket`, until that socket emits `close`. -/
  | closing (socket : Nat)
  deriving DecidableEq, Repr

def Phase.isAcked : Phase → Bool
  | .acked _ => true
  | _ => false

structure Client where
  socket : Option Nat
  state : ConnectionState
  running : Bool
  authFailed : Bool
  inbox : List Received
  waiters : List Waiter
  /-- Reconnect timers. -/
  timers : Nat
  created : Nat
  /-- Sockets that are not destroyed. -/
  live : List Nat
  /-- Destroyed, with `close` still to come. -/
  destroyed : List Nat
  attempts : List (Nat × Phase)
  /-- The sockets that calls of `stop` wait for. -/
  stops : List Nat
  /-- Calls of `stop` that have no socket to wait for and resolve before the next
  callback. -/
  halting : Nat
  calls : Nat
  arrived : Nat
  /-- The socket of the last chunk of data. -/
  chunk : Option Nat
  resolved : List Resolution
  /-- `stop` has resolved, and the client has not been started since. -/
  stopped : Bool
  /-- A socket was created or has connected although the client was stopped. -/
  reopened : Bool

def Client.init : Client where
  socket := none
  state := .disconnected
  running := false
  authFailed := false
  inbox := []
  waiters := []
  timers := 0
  created := 0
  live := []
  destroyed := []
  attempts := []
  stops := []
  halting := 0
  calls := 0
  arrived := 0
  chunk := none
  resolved := []
  stopped := false
  reopened := false

/-- `msg[variant] !== undefined` -/
def Owner.wants : Owner → Message → Bool
  | .attempt _, msg => msg.registerAck.isSome
  | .call _, msg => msg.nodeList

def without (c : Nat) (l : List Nat) : List Nat := l.filter (· ≠ c)

namespace Client

def setPhase (c : Nat) (phase : Phase) (s : Client) : Client :=
  { s with attempts := s.attempts.map fun a => if a.1 = c then (c, phase) else a }

def leave (c : Nat) (s : Client) : Client :=
  { s with attempts := s.attempts.filter fun a => a.1 ≠ c }

/-- `send`: whether there is a socket to write to. -/
def canSend (s : Client) : Bool := s.socket.any (· ∈ s.live)

-- ---------------------------------------------------------------------------
-- Messages
-- ---------------------------------------------------------------------------

def resolve (w : Waiter) (m : Received) (s : Client) : Client :=
  let resolved := { s with resolved := ⟨w, m.number, m.socket⟩ :: s.resolved }
  match w.owner, m.msg.registerAck with
  | .attempt c, some body => resolved.setPhase c (.acked body)
  | _, _ => resolved

def waitVariant (w : Waiter) (s : Client) : Client :=
  match s.inbox.find? fun m => w.owner.wants m.msg with
  | some m => s.resolve w m
  | none => { s with waiters := s.waiters ++ [w] }

def drainOne (s : Client) (m : Received) : Client :=
  match s.waiters.find? fun w => w.owner.wants m.msg with
  | some w => resolve w m { s with waiters := s.waiters.filter (· ≠ w) }
  | none => { s with inbox := s.inbox ++ [m] }

def drainWaiters (s : Client) : Client := s.inbox.foldl drainOne { s with inbox := [] }

/-- The body of the loop in `handleData`. -/
def handleFrame (c : Nat) (frame : Frame) (s : Client) : Client :=
  match frame with
  | .ping | .pong => s
  | .scalar => s.drainWaiters
  | .object msg =>
    drainWaiters
      { s with inbox := s.inbox ++ [⟨s.arrived, c, msg⟩], arrived := s.arrived + 1 }

-- ---------------------------------------------------------------------------
-- Connections
-- ---------------------------------------------------------------------------

def scheduleReconnect (s : Client) : Client :=
  { s with state := .reconnecting, timers := s.timers + 1 }

def connectAndRegister (initial : Bool) (s : Client) : Client :=
  if ¬ s.running ∨ s.authFailed then s
  else
    { s with
      state := if initial then .connecting else .reconnecting
      socket := some s.created
      live := s.created :: s.live
      attempts := (s.created, .connecting) :: s.attempts
      created := s.created + 1
      reopened := s.reopened || s.stopped }

def start (s : Client) : Client :=
  if s.running then s
  else connectAndRegister true { s with running := true, authFailed := false, stopped := false }

/-- What an attempt does once its socket has connected, up to its wait. -/
def register (c : Nat) (s : Client) : Client :=
  let registering :=
    { s with state := .registering, chunk := none, reopened := s.reopened || s.stopped }
  waitVariant ⟨.attempt c, s.canSend, s.arrived⟩ (registering.setPhase c .awaiting)

def destroy (x : Nat) (s : Client) : Client :=
  if x ∈ s.live then { s with live := without x s.live, destroyed := x :: s.destroyed } else s

/-- The end of the handler of an attempt's error. -/
def giveUp (c : Nat) (s : Client) : Client :=
  if s.authFailed then s.leave c else (s.leave c).scheduleReconnect

/-- The handler of an attempt's error: `closeSocket` closes the stored socket,
and waits for a `close` that does not come where it has come before. -/
def fail (c : Nat) (s : Client) : Client :=
  match s.socket with
  | none => s.giveUp c
  | some x => setPhase c (.closing x) (destroy x { s with socket := none })

def proceed (c : Nat) (body : AckBody) (s : Client) : Client :=
  match body with
  | .accepted => { s.leave c with state := .connected }
  | .refused => fail c { s with authFailed := true }
  | .unreadable => s.fail c

def ackTimeout (c : Nat) (s : Client) : Client :=
  fail c { s with waiters := s.waiters.filter fun w => w.owner ≠ .attempt c }

def stop (s : Client) : Client :=
  match s.socket with
  | none => { s with running := false, state := .stopping, halting := s.halting + 1 }
  | some x =>
    destroy x
      { s with running := false, state := .stopping, socket := none, stops := x :: s.stops }

def handleClose (s : Client) : Client :=
  if s.running ∧ ¬ s.authFailed ∧ s.state ≠ .stopping then s.scheduleReconnect else s

/-- The calls of `stop` that wait for the socket resolve. -/
def stopsResolve (x : Nat) (s : Client) : Client :=
  if x ∈ s.stops then
    { s with stops := without x s.stops, state := .disconnected, stopped := true }
  else s

/-- `close` is emitted: `handleClose` first, then whoever is in `closeSocket`. -/
def closed (x : Nat) (s : Client) : Client :=
  let handled :=
    handleClose { s with live := without x s.live, destroyed := without x s.destroyed }
  let attempts := s.attempts.filter fun a => a.2 = .closing x
  stopsResolve x (attempts.foldl (fun s a => s.giveUp a.1) handled)

/-- `error` is emitted; an attempt that is connecting is rejected, outside the
handler of its errors. -/
def errored (x : Nat) (s : Client) : Client :=
  if (x, Phase.connecting) ∈ s.attempts then (s.destroy x).leave x else s.destroy x

def listNodes (s : Client) : Client :=
  waitVariant ⟨.call s.calls, s.canSend, s.arrived⟩ { s with calls := s.calls + 1 }

/-- No attempt has still to take up its ack, and no `stop` is about to resolve. -/
def Quiet (s : Client) : Prop := (∀ a ∈ s.attempts, a.2.isAcked = false) ∧ s.halting = 0

end Client

inductive Event
  | start
  | stop
  | stopped
  | listNodes
  | reconnectTimer
  | connect (socket : Nat)
  | error (socket : Nat)
  | close (socket : Nat)
  | frame (socket : Nat) (frame : Frame)
  | proceed (socket : Nat) (body : AckBody)
  | ackTimeout (socket : Nat)
  | nodesTimeout (call : Nat)
  deriving DecidableEq

open Client

def Enabled (s : Client) : Event → Prop
  | .start | .stop => True
  | .stopped => 0 < s.halting
  | .listNodes => s.state = .connected
  | .reconnectTimer => 0 < s.timers ∧ s.Quiet
  | .connect c => c ∈ s.live ∧ (c, Phase.connecting) ∈ s.attempts ∧ s.Quiet
  | .error c => c ∈ s.live ∧ s.Quiet
  | .close c => (c ∈ s.live ∨ c ∈ s.destroyed) ∧ s.Quiet
  | .frame c _ => c ∈ s.live ∧ (s.Quiet ∨ s.chunk = some c)
  | .proceed c body => (c, Phase.acked body) ∈ s.attempts
  | .ackTimeout c => (c, Phase.awaiting) ∈ s.attempts ∧ s.Quiet
  | .nodesTimeout k => (∃ w ∈ s.waiters, w.owner = .call k) ∧ s.Quiet

def after (s : Client) : Event → Client
  | .start => s.start
  | .stop => s.stop
  | .stopped => { s with halting := s.halting - 1, state := .disconnected, stopped := true }
  | .listNodes => s.listNodes
  | .reconnectTimer => connectAndRegister false { s with timers := s.timers - 1 }
  | .connect c => s.register c
  | .error c => s.errored c
  | .close c => s.closed c
  | .frame c frame => handleFrame c frame { s with chunk := some c }
  | .proceed c body => s.proceed c body
  | .ackTimeout c => s.ackTimeout c
  | .nodesTimeout k => { s with waiters := s.waiters.filter fun w => w.owner ≠ .call k }

instance (s : Client) : Decidable s.Quiet :=
  inferInstanceAs (Decidable ((∀ a ∈ s.attempts, a.2.isAcked = false) ∧ s.halting = 0))

instance (s : Client) : DecidablePred (Enabled s) := fun e =>
  match e with
  | .start | .stop => .isTrue trivial
  | .stopped => inferInstanceAs (Decidable (0 < s.halting))
  | .listNodes => inferInstanceAs (Decidable (s.state = .connected))
  | .reconnectTimer => inferInstanceAs (Decidable (0 < s.timers ∧ s.Quiet))
  | .connect c =>
    inferInstanceAs (Decidable (c ∈ s.live ∧ (c, Phase.connecting) ∈ s.attempts ∧ s.Quiet))
  | .error c => inferInstanceAs (Decidable (c ∈ s.live ∧ s.Quiet))
  | .close c => inferInstanceAs (Decidable ((c ∈ s.live ∨ c ∈ s.destroyed) ∧ s.Quiet))
  | .frame c _ => inferInstanceAs (Decidable (c ∈ s.live ∧ (s.Quiet ∨ s.chunk = some c)))
  | .proceed c body => inferInstanceAs (Decidable ((c, Phase.acked body) ∈ s.attempts))
  | .ackTimeout c => inferInstanceAs (Decidable ((c, Phase.awaiting) ∈ s.attempts ∧ s.Quiet))
  | .nodesTimeout k =>
    inferInstanceAs (Decidable ((∃ w ∈ s.waiters, w.owner = .call k) ∧ s.Quiet))

def step : Client → Event → Option Client := actions Enabled after

end Rinfra.Sdk.Ts
