import Mathlib.Algebra.Group.Nat.Defs
import Mathlib.Logic.Function.Basic
import Std.Data.ExtTreeMap.Lemmas
import Rinfra.Core.Error
import Rinfra.Core.Utf8

/-!
# The tRPC client

All clones of a `TrpcClient` share the channel to `write_loop`, the pending map
and the id counter, so one state stands for all of them. A step is what an ask,
`write_loop` or `read_loop` does up to its next await; frames from the server
are free.

Asks are numbered in the order in which they take their id. Each keeps its end
of a oneshot channel; the other end is parked in the pending map, which holds
the number of the ask. `ask_timeout` gives up by dropping the ask's future.

`write_loop` also ends once every clone is gone. Nobody is left to notice, so
that exit is not modelled.
-/

namespace Rinfra.Trpc

inductive FrameKind
  | tell | request | response | error
  deriving DecidableEq, Repr

structure Frame where
  kind : FrameKind
  requestId : Nat
  service : String
  payload : List UInt8
  deriving DecidableEq, Repr

abbrev Reply := Except AppError (List UInt8)

/-- The oneshot channel of an ask: its sender is held, has sent, or is gone. -/
inductive Slot
  | empty
  | sent (reply : Reply)
  | closed

inductive Stage
  /-- Waits for the lock to park its sender. -/
  | parking
  /-- Waits for room in the channel. -/
  | sending
  /-- Its frame was refused; waits for the lock to take its sender back. -/
  | unparking
  | waiting
  | done (reply : Reply)
  | dropped

structure Ask where
  id : Nat
  service : String
  payload : List UInt8
  slot : Slot
  stage : Stage

inductive Writer
  | receiving
  | writing (frame : Frame)
  | stopped

inductive Reader
  | reading
  | handling (frame : Frame)
  | closing
  | done

structure Client where
  nextId : Nat
  /-- How many asks have taken an id. -/
  issued : Nat
  asks : Nat → Option Ask
  pending : Std.ExtTreeMap Nat Nat compare
  queue : List Frame
  writer : Writer
  reader : Reader
  /-- The frames written to the socket. -/
  written : List Frame
  /-- The frames `read_loop` has handled. -/
  received : List Frame
  /-- Which ask was sent which of these. -/
  answers : List (Nat × Nat)

inductive Event
  | ask (service : String) (payload : List UInt8)
  | park (a : Nat)
  | send (a : Nat)
  | unpark (a : Nat)
  | complete (a : Nat)
  | drop (a : Nat)
  | tell (service : String) (payload : List UInt8)
  | recv
  | wrote
  | writeError
  | frame (frame : Frame)
  | handle
  | hangUp
  | drain

def channelCapacity : Nat := 256

def connectionClosed : AppError := ⟨.rpcServiceError, "trpc: connection closed"⟩

def connectionLost : AppError :=
  ⟨.rpcServiceError, "trpc: connection lost while waiting for response"⟩

/-- What `read_loop` sends the ask that a frame belongs to. -/
def Frame.reply (frame : Frame) : Option Reply :=
  match frame.kind with
  | .response => some (.ok frame.payload)
  | .error => some (.error ⟨.rpcServiceError, fromUtf8Lossy frame.payload⟩)
  | .tell | .request => none

/-- What awaiting the receiver gives, once it gives anything. -/
def Slot.awaited : Slot → Option Reply
  | .empty => none
  | .sent reply => some reply
  | .closed => some (.error connectionLost)

namespace Client

def init : Client where
  nextId := 1
  issued := 0
  asks _ := none
  pending := ∅
  queue := []
  writer := .receiving
  reader := .reading
  written := []
  received := []
  answers := []

def setAsk (s : Client) (a : Nat) (ask : Ask) : Client :=
  { s with asks := Function.update s.asks a (some ask) }

def setSlot (s : Client) (a : Nat) (slot : Slot) : Client :=
  { s with asks := Function.update s.asks a ((s.asks a).map fun ask => { ask with slot }) }

def removePending (s : Client) (id : Nat) : Client :=
  match s.pending[id]? with
  | some a => { s.setSlot a .closed with pending := s.pending.erase id }
  | none => s

/-- `pending.insert`: a sender already parked under the id is dropped. -/
def insertPending (s : Client) (id a : Nat) : Client :=
  let s := s.removePending id
  { s with pending := s.pending.insert id a }

/-- `read_loop` at a frame: the sender parked under its id, if the frame is an
answer at all, gets the reply. -/
def handleFrame (s : Client) (frame : Frame) : Client :=
  let received := s.received ++ [frame]
  match frame.reply, s.pending[frame.requestId]? with
  | some reply, some a =>
    { s.setSlot a (.sent reply) with
      pending := s.pending.erase frame.requestId
      received
      answers := (a, s.received.length) :: s.answers }
  | _, _ => { s with received }

/-- Every sender still parked gets the error, and the map is empty. -/
def drainPending (s : Client) : Client :=
  { s with
    asks := fun a => (s.asks a).map fun ask =>
      if s.pending[ask.id]? = some a then { ask with slot := .sent (.error connectionClosed) }
      else ask
    pending := ∅ }

def step (s : Client) : Event → Option Client
  | .ask service payload =>
    some { s.setAsk s.issued ⟨s.nextId, service, payload, .empty, .parking⟩ with
      nextId := (s.nextId + 1) % 2 ^ 64
      issued := s.issued + 1 }
  | .park a => do
    let some ask := s.asks a | none
    let .parking := ask.stage | none
    pure ((s.insertPending ask.id a).setAsk a { ask with stage := .sending })
  | .send a => do
    let some ask := s.asks a | none
    let .sending := ask.stage | none
    match s.writer with
    | .stopped => pure (s.setAsk a { ask with stage := .unparking })
    | _ =>
      if s.queue.length < channelCapacity then
        pure { s.setAsk a { ask with stage := .waiting } with
          queue := s.queue ++ [⟨.request, ask.id, ask.service, ask.payload⟩] }
      else none
  | .unpark a => do
    let some ask := s.asks a | none
    let .unparking := ask.stage | none
    let s := s.removePending ask.id
    let some ask := s.asks a | none
    pure (s.setAsk a { ask with stage := .done (.error connectionClosed) })
  | .complete a => do
    let some ask := s.asks a | none
    let .waiting := ask.stage | none
    let some reply := ask.slot.awaited | none
    pure (s.setAsk a { ask with stage := .done reply })
  | .drop a => do
    let some ask := s.asks a | none
    match ask.stage with
    | .done _ | .dropped => none
    | _ => pure (s.setAsk a { ask with stage := .dropped })
  | .tell service payload =>
    match s.writer with
    | .stopped => some s
    | _ =>
      if s.queue.length < channelCapacity then
        some { s with queue := s.queue ++ [⟨.tell, 0, service, payload⟩] }
      else none
  | .recv => do
    let .receiving := s.writer | none
    let frame :: queue := s.queue | none
    pure { s with queue, writer := .writing frame }
  | .wrote => do
    let .writing frame := s.writer | none
    pure { s with writer := .receiving, written := s.written ++ [frame] }
  | .writeError => do
    let .writing _ := s.writer | none
    pure { s with writer := .stopped, queue := [] }
  | .frame frame => do
    let .reading := s.reader | none
    pure { s with reader := .handling frame }
  | .handle => do
    let .handling frame := s.reader | none
    pure { s.handleFrame frame with reader := .reading }
  | .hangUp => do
    let .reading := s.reader | none
    pure { s with reader := .closing }
  | .drain => do
    let .closing := s.reader | none
    pure { s.drainPending with reader := .done }

-- ---------------------------------------------------------------------------
-- What each event can do
-- ---------------------------------------------------------------------------

inductive Moves (s : Client) : Event → Client → Prop
  | ask : Moves s (.ask service payload)
      { s.setAsk s.issued ⟨s.nextId, service, payload, .empty, .parking⟩ with
        nextId := (s.nextId + 1) % 2 ^ 64, issued := s.issued + 1 }
  | park (hask : s.asks a = some ask) (hst : ask.stage = .parking) :
      Moves s (.park a) ((s.insertPending ask.id a).setAsk a { ask with stage := .sending })
  | refused (hask : s.asks a = some ask) (hst : ask.stage = .sending) (hw : s.writer = .stopped) :
      Moves s (.send a) (s.setAsk a { ask with stage := .unparking })
  | accepted (hask : s.asks a = some ask) (hst : ask.stage = .sending) (hw : s.writer ≠ .stopped)
      (hroom : s.queue.length < channelCapacity) :
      Moves s (.send a) { s.setAsk a { ask with stage := .waiting } with
        queue := s.queue ++ [⟨.request, ask.id, ask.service, ask.payload⟩] }
  | unpark (hask : s.asks a = some ask) (hst : ask.stage = .unparking)
      (hask' : (s.removePending ask.id).asks a = some ask') :
      Moves s (.unpark a) ((s.removePending ask.id).setAsk a
        { ask' with stage := .done (.error connectionClosed) })
  | complete (hask : s.asks a = some ask) (hst : ask.stage = .waiting)
      (hreply : ask.slot.awaited = some reply) :
      Moves s (.complete a) (s.setAsk a { ask with stage := .done reply })
  | drop (hask : s.asks a = some ask) (hst : ∀ reply, ask.stage ≠ .done reply) :
      Moves s (.drop a) (s.setAsk a { ask with stage := .dropped })
  | tellRefused (hw : s.writer = .stopped) : Moves s (.tell service payload) s
  | tell (hw : s.writer ≠ .stopped) (hroom : s.queue.length < channelCapacity) :
      Moves s (.tell service payload) { s with queue := s.queue ++ [⟨.tell, 0, service, payload⟩] }
  | recv (hw : s.writer = .receiving) (hq : s.queue = next :: rest) :
      Moves s .recv { s with queue := rest, writer := .writing next }
  | wrote (hw : s.writer = .writing next) :
      Moves s .wrote { s with writer := .receiving, written := s.written ++ [next] }
  | writeError (hw : s.writer = .writing next) :
      Moves s .writeError { s with writer := .stopped, queue := [] }
  | frame (hr : s.reader = .reading) : Moves s (.frame frame) { s with reader := .handling frame }
  | handle (hr : s.reader = .handling frame) :
      Moves s .handle { s.handleFrame frame with reader := .reading }
  | hangUp (hr : s.reader = .reading) : Moves s .hangUp { s with reader := .closing }
  | drain (hr : s.reader = .closing) : Moves s .drain { s.drainPending with reader := .done }

theorem moves {s s' : Client} (h : s.step e = some s') : Moves s e s' := by
  cases e with
  | ask service payload => cases h; exact .ask
  | park a =>
    simp only [step] at h
    split at h
    · rename_i ask hask
      split at h <;> cases h
      exact .park hask ‹_›
    · cases h
  | send a =>
    simp only [step] at h
    split at h
    · rename_i ask hask
      split at h
      · rename_i hst
        split at h
        · cases h; exact .refused hask hst ‹_›
        · split at h <;> cases h
          exact .accepted hask hst ‹_› ‹_›
      · cases h
    · cases h
  | unpark a =>
    simp only [step] at h
    split at h
    · rename_i ask hask
      split at h
      · rename_i hst
        split at h <;> cases h
        exact .unpark hask hst ‹_›
      · cases h
    · cases h
  | complete a =>
    simp only [step] at h
    split at h
    · rename_i ask hask
      split at h
      · rename_i hst
        split at h <;> cases h
        exact .complete hask hst ‹_›
      · cases h
    · cases h
  | drop a =>
    simp only [step] at h
    split at h
    · rename_i ask hask
      split at h <;> cases h
      exact .drop hask (by assumption)
    · cases h
  | tell service payload =>
    simp only [step] at h
    split at h
    · cases h; exact .tellRefused ‹_›
    · split at h <;> cases h
      exact .tell ‹_› ‹_›
  | recv =>
    simp only [step] at h
    split at h
    · split at h <;> cases h
      exact .recv ‹_› ‹_›
    · cases h
  | wrote =>
    simp only [step] at h
    split at h <;> cases h
    exact .wrote ‹_›
  | writeError =>
    simp only [step] at h
    split at h <;> cases h
    exact .writeError ‹_›
  | frame frame =>
    simp only [step] at h
    split at h <;> cases h
    exact .frame ‹_›
  | handle =>
    simp only [step] at h
    split at h <;> cases h
    exact .handle ‹_›
  | hangUp =>
    simp only [step] at h
    split at h <;> cases h
    exact .hangUp ‹_›
  | drain =>
    simp only [step] at h
    split at h <;> cases h
    exact .drain ‹_›

end Client

end Rinfra.Trpc
