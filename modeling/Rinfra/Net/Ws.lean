import Rinfra.Core.Error
import Rinfra.Core.Time

/-!
# WebSocket connections

`handle_socket` as the task of one connection. It waits in `select!` for the
shutdown signal, a tick of its timer or a frame, and calls the handler in
between. An input is what the task goes on with at such a point; the instants
are those at which it reads the clock. Which frames the socket takes is given
with the input, and so is what the handler returns.
-/

namespace Rinfra.Net.Ws

inductive WsMessage
  | text (s : String)
  | binary (bs : List UInt8)
  | ping (bs : List UInt8)
  | pong (bs : List UInt8)
  | close
  deriving DecidableEq, Repr

/-- A frame; that of a close may have a code and a reason. -/
inductive Message
  | text (s : String)
  | binary (bs : List UInt8)
  | ping (bs : List UInt8)
  | pong (bs : List UInt8)
  | close (frame : Option (Nat × String))
  deriving DecidableEq, Repr

def axumToWsMessage : Message → WsMessage
  | .text s => .text s
  | .binary bs => .binary bs
  | .ping bs => .ping bs
  | .pong bs => .pong bs
  | .close _ => .close

def wsMessageToAxum : WsMessage → Message
  | .text s => .text s
  | .binary bs => .binary bs
  | .ping bs => .ping bs
  | .pong bs => .pong bs
  | .close => .close none

structure WsOptions where
  pingIntervalSecs : Nat := 30
  pingTimeoutSecs : Nat := 10
  deriving DecidableEq, Repr

def WsOptions.pingInterval (o : WsOptions) : Nat := fromSecs o.pingIntervalSecs

def WsOptions.pingTimeout (o : WsOptions) : Nat := fromSecs o.pingTimeoutSecs

-- ---------------------------------------------------------------------------
-- The task of a connection
-- ---------------------------------------------------------------------------

inductive Ending
  | shutdown
  | pongTimeout
  | pingFailed
  | peerClosed
  | replyFailed
  | handlerFailed
  | receiveFailed
  | streamEnded
  deriving DecidableEq, Repr

/-- Where the task stands: in a call of the handler, in `select!`, or before its
`on_disconnect`. -/
inductive Stage
  | fresh
  | opening
  | selecting
  | handling
  | closing (ending : Ending)
  | leaving
  | ended
  | panicked
  deriving DecidableEq, Repr

/-- `due` is the next deadline of `ping_timer`. -/
structure Socket where
  stage : Stage
  lastPong : Nat
  waitingPong : Bool
  due : Nat
  deriving DecidableEq, Repr

abbrev Received := Option (Except String Message)

inductive Input
  | start
  /-- `on_open` returns; the timer is created, and then `last_pong` set. -/
  | opened (created now : Nat) (result : Except AppError Unit)
  | shutdown
  | tick (now : Nat) (sends : Message → Bool)
  | recv (now : Nat) (item : Received)
  | handled (result : Except AppError (Option WsMessage)) (sends : Message → Bool)
  | closed (result : Except AppError Unit)
  | left
  /-- The handler panics. -/
  | panic

namespace Socket

def new : Socket := ⟨.fresh, 0, false, 0⟩

def pongOverdue (options : WsOptions) (s : Socket) (now : Nat) : Bool :=
  s.waitingPong && decide (options.pingTimeout < elapsed now s.lastPong)

def onTick (options : WsOptions) (s : Socket) (now : Nat) (sends : Message → Bool) : Socket :=
  -- a tick that comes late does not move the next one
  let next := { s with due := s.due + options.pingInterval }
  if s.pongOverdue options now then { next with stage := .closing .pongTimeout }
  else if !sends (.ping []) then { next with stage := .closing .pingFailed }
  else { next with waitingPong := true }

def onRecv (s : Socket) (now : Nat) : Received → Socket
  | some (.ok (.pong _)) => { s with lastPong := now, waitingPong := false }
  | some (.ok msg) =>
    if axumToWsMessage msg = .close then { s with stage := .closing .peerClosed }
    else { s with stage := .handling }
  | some (.error _) => { s with stage := .closing .receiveFailed }
  | none => { s with stage := .closing .streamEnded }

def onHandled (s : Socket) (result : Except AppError (Option WsMessage))
    (sends : Message → Bool) : Socket :=
  match result with
  | .ok (some response) =>
    if sends (wsMessageToAxum response) then { s with stage := .selecting }
    else { s with stage := .closing .replyFailed }
  | .ok none => { s with stage := .selecting }
  | .error _ => { s with stage := .closing .handlerFailed }

def step (options : WsOptions) (s : Socket) : Input → Option Socket
  | .start => if s.stage = .fresh then some { s with stage := .opening } else none
  | .opened created now result =>
    if s.stage = .opening then
      match result with
      | .ok () =>
        -- `interval` panics at a period of zero
        if options.pingIntervalSecs = 0 then some { s with stage := .panicked }
        else some ⟨.selecting, now, false, created + options.pingInterval⟩
      | .error _ => some { s with stage := .leaving }
    else none
  | .shutdown =>
    if s.stage = .selecting then some { s with stage := .closing .shutdown } else none
  | .tick now sends =>
    if s.stage = .selecting ∧ s.due ≤ now then some (s.onTick options now sends) else none
  | .recv now item => if s.stage = .selecting then some (s.onRecv now item) else none
  | .handled result sends =>
    if s.stage = .handling then some (s.onHandled result sends) else none
  | .closed _ =>
    match s.stage with
    | .closing _ => some { s with stage := .leaving }
    | _ => none
  | .left => if s.stage = .leaving then some { s with stage := .ended } else none
  | .panic =>
    match s.stage with
    | .opening | .handling | .closing _ => some { s with stage := .panicked }
    | _ => none

end Socket

end Rinfra.Net.Ws
