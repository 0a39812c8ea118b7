import Mathlib.Logic.Function.Basic
import Rinfra.Lib.BigEndian
import Rinfra.Lib.Transition

/-!
# The Python registry client

The run loop, the reader task of each connection and the calls of `list_nodes`
are tasks of one event loop. All connections put what they read into one queue,
from which whoever waits takes the next message and drops it if it is another.
A reader task looks up the stored reader for the header of every frame and again for
its payload, and nobody cancels it when its attempt fails; only the `stop` of the client
does, for the last one.

An event is what a task does between two waits. What `json.loads` makes of a payload is a
parameter; pings, the delays and what is sent apart from the requests are left out.
-/

namespace Rinfra.Sdk.Py

open Rinfra.Lib

inductive ConnectionState
  | disconnected | connecting | registering | connected | reconnecting | stopping
  deriving DecidableEq, Repr

/-- `ack.get("success", False)` is true, or it is not, or there is no reading it. -/
inductive AckBody
  | accepted | refused | unreadable
  deriving DecidableEq, Repr

/-- What is put into the queue, by the keys that are waited for. -/
structure Message where
  registerAck : Option AckBody
  nodeList : Bool
  deriving DecidableEq, Repr

inductive Frame
  | ping | pong
  | message (msg : Message)
  deriving DecidableEq, Repr

/-- `json.loads` of the payload's text, `none` if it raises. -/
abbrev Loads := List UInt8 → Option Frame

/-- A message with its place among all that were put, and its stream. -/
structure Received where
  number : Nat
  stream : Nat
  msg : Message
  deriving DecidableEq, Repr

/-- Where a reader task stands: at the head of its loop, or in `readexactly` of a stream. -/
inductive Reading
  | head
  | header (stream : Nat)
  | payload (stream frameLen : Nat)
  deriving DecidableEq, Repr

/-- The reader task of a connection, named by its stream. -/
structure ReaderTask where
  own : Nat
  reading : Reading
  deriving DecidableEq, Repr

/-- What comes after `_close_stream`. -/
inductive Next
  | again | leave | cancelled
  deriving DecidableEq, Repr

/-- Where a run loop stands; `waiting` is for the ack of the stream it has opened,
and `attached` for the end of a reader task. -/
inductive Phase
  | top
  | opening
  | waiting (stream : Nat)
  | attached (task : Nat)
  | sleeping
  | closing (next : Next)
  deriving DecidableEq, Repr

def Phase.isClosing : Phase → Bool
  | .closing _ => true
  | _ => false

def Phase.awaits : Phase → Option Nat
  | .waiting stream => some stream
  | _ => none

/-- A call of `list_nodes` that waits. `since` is how many messages had been put
when the request was sent, if there was a writer. -/
structure Call where
  number : Nat
  sent : Bool
  since : Nat
  deriving DecidableEq, Repr

structure Result where
  call : Call
  number : Nat
  deriving DecidableEq, Repr

structure Client where
  state : ConnectionState
  running : Bool
  authFailed : Bool
  reader : Option Nat
  writer : Option Nat
  incoming : List Received
  readerTask : Option Nat
  mainTask : Option Nat
  /-- Streams opened so far. -/
  opened : Nat
  /-- Streams whose writer is not closed. -/
  live : List Nat
  /-- The bytes of each stream that nobody has taken. -/
  buffer : Nat → List UInt8
  readers : List ReaderTask
  /-- Run loops started so far, and where each of them stands. -/
  started : Nat
  loops : List (Nat × Phase)
  /-- Run loops that `stop` has cancelled. -/
  cancels : List Nat
  /-- Calls of `stop` that have still to close the stream, and those that have. -/
  stopping : Nat
  halting : Nat
  called : Nat
  calls : List Call
  arrived : Nat
  /-- For each ack that led to `CONNECTED`, the stream of the attempt and its own. -/
  acks : List (Nat × Nat)
  results : List Result
  /-- Which reader task has called `readexactly` of which stream. -/
  reads : List (Nat × Nat)

def Client.init : Client where
  state := .disconnected
  running := false
  authFailed := false
  reader := none
  writer := none
  incoming := []
  readerTask := none
  mainTask := none
  opened := 0
  live := []
  buffer := fun _ => []
  readers := []
  started := 0
  loops := []
  cancels := []
  stopping := 0
  halting := 0
  called := 0
  calls := []
  arrived := 0
  acks := []
  results := []
  reads := []

namespace Client

def setPhase (m : Nat) (phase : Phase) (s : Client) : Client :=
  { s with loops := s.loops.map fun l => if l.1 = m then (m, phase) else l }

def leave (m : Nat) (s : Client) : Client :=
  { s with loops := s.loops.filter fun l => l.1 ≠ m }

def setReading (t : Nat) (reading : Reading) (s : Client) : Client :=
  { s with readers := s.readers.map fun r => if r.own = t then ⟨t, reading⟩ else r }

def endReader (t : Nat) (s : Client) : Client :=
  { s with readers := s.readers.filter fun r => r.own ≠ t }

def closeStream (s : Client) : Client :=
  { s with
    reader := none
    writer := none
    live := s.live.filter fun c => s.writer ≠ some c }

-- ---------------------------------------------------------------------------
-- The run loop
-- ---------------------------------------------------------------------------

def start (s : Client) : Client :=
  if s.running then s
  else
    { s with
      running := true
      authFailed := false
      mainTask := some s.started
      loops := (s.started, .top) :: s.loops
      started := s.started + 1 }

/-- `stop`, until `Deregister` is sent. -/
def stop (s : Client) : Client :=
  { s with running := false, state := .stopping, stopping := s.stopping + 1 }

def stopClosing (s : Client) : Client :=
  closeStream { s with stopping := s.stopping - 1, halting := s.halting + 1 }

/-- `stop`, once the stream is closed. -/
def stopped (s : Client) : Client :=
  { s with
    readers := s.readers.filter fun r => s.readerTask ≠ some r.own
    cancels := s.mainTask.toList ++ s.cancels
    state := .disconnected
    halting := s.halting - 1 }

def loopTop (m : Nat) (s : Client) : Client :=
  if s.running ∧ ¬ s.authFailed then setPhase m .opening { s with state := .connecting }
  else { s.leave m with state := .disconnected }

/-- The connection is there: `_connect_and_register` up to its wait. -/
def connected (m : Nat) (s : Client) : Client :=
  setPhase m (.waiting s.opened)
    { s with
      reader := some s.opened
      writer := some s.opened
      live := s.opened :: s.live
      readers := ⟨s.opened, .head⟩ :: s.readers
      readerTask := some s.opened
      state := .registering
      opened := s.opened + 1 }

/-- `except Exception`, up to the end of the sleep. -/
def failed (m : Nat) (s : Client) : Client :=
  if s.authFailed ∨ ¬ s.running then setPhase m (.closing .leave) s.closeStream
  else setPhase m .sleeping { s with state := .reconnecting }

/-- `_wait_variant` in an attempt takes the next message. -/
def takeAck (m c : Nat) (s : Client) : Client :=
  match s.incoming with
  | [] => s
  | e :: rest =>
    match e.msg.registerAck with
    | none => { s with incoming := rest }
    | some .accepted =>
      let acked :=
        { s with
          incoming := rest
          state := .connected
          acks := (c, e.stream) :: s.acks }
      match s.readerTask with
      | none => failed m acked
      | some t => setPhase m (.attached t) acked
    | some .refused => failed m { s with incoming := rest, authFailed := true }
    | some .unreadable => failed m { s with incoming := rest }

def finish (m : Nat) (s : Client) : Client := setPhase m (.closing .again) s.closeStream

def closed (m : Nat) (next : Next) (s : Client) : Client :=
  match next with
  | .again => s.setPhase m .top
  | .leave => { s.leave m with state := .disconnected }
  | .cancelled => s.leave m

/-- `CancelledError` is no `Exception`: only `finally` is run, if it is not running
already. -/
def cancel (m : Nat) (s : Client) : Client :=
  let cancelled := { s with cancels := s.cancels.filter (· ≠ m) }
  if s.loops.any fun l => l.1 = m && l.2.isClosing then cancelled.leave m
  else setPhase m (.closing .cancelled) cancelled.closeStream

-- ---------------------------------------------------------------------------
-- Readers and calls
-- ---------------------------------------------------------------------------

def take (c n : Nat) (s : Client) : Client :=
  { s with buffer := Function.update s.buffer c ((s.buffer c).drop n) }

/-- A reader task calls `readexactly` of the stored reader; without one it raises. -/
def readStored (t : Nat) (reading : Nat → Reading) (s : Client) : Client :=
  match s.reader with
  | none => s.endReader t
  | some c => setReading t (reading c) { s with reads := (t, c) :: s.reads }

/-- The head of the loop of a reader task. -/
def look (t : Nat) (s : Client) : Client :=
  if ¬ s.running then s.endReader t else s.readStored t .header

/-- The header is there. The payload is read from the reader that is stored now. -/
def header (t c : Nat) (s : Client) : Client :=
  let frameLen := fromBeBytes ((s.buffer c).take 4)
  (s.take c 4).readStored t fun d => .payload d frameLen

def payload (loads : Loads) (t c frameLen : Nat) (s : Client) : Client :=
  let taken := s.take c frameLen
  match loads ((s.buffer c).take frameLen) with
  | none => taken.endReader t
  | some .ping | some .pong => taken.setReading t .head
  | some (.message msg) =>
    { taken.setReading t .head with
      incoming := s.incoming ++ [⟨s.arrived, c, msg⟩]
      arrived := s.arrived + 1 }

def listNodes (s : Client) : Client :=
  { s with
    calls := ⟨s.called, s.writer.isSome, s.arrived⟩ :: s.calls
    called := s.called + 1 }

/-- `_wait_variant` in a call takes the next message. -/
def takeNodes (call : Call) (s : Client) : Client :=
  match s.incoming with
  | [] => s
  | e :: rest =>
    if e.msg.nodeList then
      { s with
        incoming := rest
        calls := s.calls.filter (· ≠ call)
        results := ⟨call, e.number⟩ :: s.results }
    else { s with incoming := rest }

end Client

inductive Event
  | start
  | stop
  | stopClosing
  | stopped
  | loopTop (loop : Nat)
  | connected (loop : Nat)
  | connectFailed (loop : Nat)
  | takeAck (loop stream : Nat)
  | ackTimeout (loop stream : Nat)
  | readerEnded (loop task : Nat) (raised : Bool)
  | wake (loop : Nat)
  | closed (loop : Nat) (next : Next)
  | cancel (loop : Nat)
  | arrive (stream : Nat) (bytes : List UInt8)
  | look (task : Nat)
  | header (task stream : Nat)
  | payload (task stream frameLen : Nat)
  | readError (task : Nat)
  | listNodes
  | takeNodes (call : Call)
  | nodesTimeout (call : Call)
  deriving DecidableEq

open Client

def Enabled (s : Client) : Event → Prop
  | .start | .stop => True
  | .stopClosing => 0 < s.stopping
  | .stopped => 0 < s.halting
  | .loopTop m => (m, Phase.top) ∈ s.loops
  | .connected m | .connectFailed m => (m, Phase.opening) ∈ s.loops
  | .takeAck m c | .ackTimeout m c => (m, Phase.waiting c) ∈ s.loops
  | .readerEnded m t _ => (m, Phase.attached t) ∈ s.loops ∧ ∀ r ∈ s.readers, r.own ≠ t
  | .wake m => (m, Phase.sleeping) ∈ s.loops
  | .closed m next => (m, Phase.closing next) ∈ s.loops
  | .cancel m => m ∈ s.cancels ∧ ∃ l ∈ s.loops, l.1 = m
  | .arrive c _ => c ∈ s.live
  | .look t => (⟨t, .head⟩ : ReaderTask) ∈ s.readers
  | .header t c => (⟨t, .header c⟩ : ReaderTask) ∈ s.readers ∧ 4 ≤ (s.buffer c).length
  | .payload t c frameLen =>
    (⟨t, .payload c frameLen⟩ : ReaderTask) ∈ s.readers ∧ frameLen ≤ (s.buffer c).length
  | .readError t => ∃ r ∈ s.readers, r.own = t
  | .listNodes => s.state = .connected
  | .takeNodes call | .nodesTimeout call => call ∈ s.calls

def after (loads : Loads) (s : Client) : Event → Client
  | .start => s.start
  | .stop => s.stop
  | .stopClosing => s.stopClosing
  | .stopped => s.stopped
  | .loopTop m => s.loopTop m
  | .connected m => s.connected m
  | .connectFailed m => s.failed m
  | .takeAck m c => s.takeAck m c
  | .ackTimeout m _ => s.failed m
  | .readerEnded m _ raised => if raised then s.failed m else s.finish m
  | .wake m => s.finish m
  | .closed m next => s.closed m next
  | .cancel m => s.cancel m
  | .arrive c bytes => { s with buffer := Function.update s.buffer c (s.buffer c ++ bytes) }
  | .look t => s.look t
  | .header t c => s.header t c
  | .payload t c frameLen => s.payload loads t c frameLen
  | .readError t => s.endReader t
  | .listNodes => s.listNodes
  | .takeNodes call => s.takeNodes call
  | .nodesTimeout call => { s with calls := s.calls.filter (· ≠ call) }

instance (s : Client) : DecidablePred (Enabled s) := fun e =>
  match e with
  | .start | .stop => .isTrue trivial
  | .stopClosing => inferInstanceAs (Decidable (0 < s.stopping))
  | .stopped => inferInstanceAs (Decidable (0 < s.halting))
  | .loopTop m => inferInstanceAs (Decidable ((m, Phase.top) ∈ s.loops))
  | .connected m | .connectFailed m => inferInstanceAs (Decidable ((m, Phase.opening) ∈ s.loops))
  | .takeAck m c | .ackTimeout m c =>
    inferInstanceAs (Decidable ((m, Phase.waiting c) ∈ s.loops))
  | .readerEnded m t _ =>
    inferInstanceAs (Decidable ((m, Phase.attached t) ∈ s.loops ∧ ∀ r ∈ s.readers, r.own ≠ t))
  | .wake m => inferInstanceAs (Decidable ((m, Phase.sleeping) ∈ s.loops))
  | .closed m next => inferInstanceAs (Decidable ((m, Phase.closing next) ∈ s.loops))
  | .cancel m => inferInstanceAs (Decidable (m ∈ s.cancels ∧ ∃ l ∈ s.loops, l.1 = m))
  | .arrive c _ => inferInstanceAs (Decidable (c ∈ s.live))
  | .look t => inferInstanceAs (Decidable ((⟨t, .head⟩ : ReaderTask) ∈ s.readers))
  | .header t c =>
    inferInstanceAs (Decidable ((⟨t, .header c⟩ : ReaderTask) ∈ s.readers ∧
      4 ≤ (s.buffer c).length))
  | .payload t c frameLen =>
    inferInstanceAs (Decidable ((⟨t, .payload c frameLen⟩ : ReaderTask) ∈ s.readers ∧
      frameLen ≤ (s.buffer c).length))
  | .readError t => inferInstanceAs (Decidable (∃ r ∈ s.readers, r.own = t))
  | .listNodes => inferInstanceAs (Decidable (s.state = .connected))
  | .takeNodes call | .nodesTimeout call => inferInstanceAs (Decidable (call ∈ s.calls))

def step (loads : Loads) : Client → Event → Option Client := actions Enabled (after loads)

end Rinfra.Sdk.Py
