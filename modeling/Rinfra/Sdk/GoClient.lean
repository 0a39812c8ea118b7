import Mathlib.Logic.Function.Basic
import Rinfra.Lib.Transition

/-!
# The lifecycle of the Go registry client

A line is one effective call of `Start` with the reconnect loop it starts. Each
registered connection has a `readLoop` and a `pingLoop`, both of which report to
`handleDisconnect`. All of them and the calls of `Stop` are threads that share
the fields of the client; a step is what a thread does up to the next access to
them, so that a check and what it leads to are two steps. A section under the
mutex is one step.

A connection is healthy until it is closed or breaks, and that a pong is late
counts as breaking. Delays, frames and the end of the waits in `Stop` are left
to chance.
-/

namespace Rinfra.Sdk.Go

open Rinfra.Lib

inductive ConnectionState
  | disconnected | connecting | registering | connected | reconnecting | stopping
  deriving DecidableEq, Repr

/-- Where a line stands; `initial` is the attempt made by `Start` itself. -/
inductive Line
  | setConnecting (initial : Bool)
  | dialing (initial : Bool)
  | dialed (conn : Nat) (initial : Bool)
  | setRegistering (conn : Nat) (initial : Bool)
  | registering (conn : Nat) (initial : Bool)
  | setConnected (conn : Nat)
  | spawnReader (conn : Nat)
  | spawnPing (conn : Nat)
  | failed (initial : Bool)
  | loopTop
  | loopLook
  | setReconnecting
  deriving DecidableEq, Repr

/-- Where a call of `Stop` stands, with the channel and the connection it took. -/
inductive Stop
  | locking
  | notRunning
  | checking (pingDone : Nat) (conn : Option Nat)
  | closing (pingDone : Nat) (conn : Option Nat)
  | closeConn (conn : Option Nat)
  | waiting
  deriving DecidableEq, Repr

/-- Where a loop of a connection stands: from `locking` to `setting` it is in
`handleDisconnect`; `armed` is what it read of `running`. -/
inductive LoopPhase
  | looping
  | locking
  | checking (armed : Bool)
  | closing (armed : Bool)
  | closeConn (armed : Bool)
  | looking (armed : Bool)
  | setting
  | leaving
  deriving DecidableEq, Repr

/-- A `readLoop`, which closes `done` when it ends, or a `pingLoop`. -/
structure Loop where
  conn : Nat
  pingDone : Nat
  done : Option Nat
  phase : LoopPhase
  deriving DecidableEq, Repr

inductive Thread
  | absent
  | line (phase : Line)
  | stop (phase : Stop)
  | loop (l : Loop)
  deriving DecidableEq, Repr

structure Client where
  state : ConnectionState
  conn : Option Nat
  running : Bool
  authFailed : Bool
  readerDone : Nat
  pingDone : Nat
  threads : Nat → Thread
  /-- Threads, connections and channels made so far. -/
  spawned : Nat
  dialed : Nat
  readers : Nat
  pings : Nat
  closed : List Nat
  broken : List Nat
  /-- The closes of the channels, the last one first. -/
  pingCloses : List Nat
  readerCloses : List Nat
  /-- A `handleDisconnect` of another connection changed the state of the current
  one. -/
  strayed : Bool
  /-- `RECONNECTING` was set while connected by a healthy connection. -/
  switched : Bool
  /-- A second connection was opened next to a healthy one. -/
  second : Bool

def Client.new : Client where
  state := .disconnected
  conn := none
  running := false
  authFailed := false
  readerDone := 0
  pingDone := 0
  threads := fun _ => .absent
  spawned := 0
  dialed := 0
  readers := 1
  pings := 1
  closed := []
  broken := []
  pingCloses := []
  readerCloses := []
  strayed := false
  switched := false
  second := false

namespace Client

/-- The current connection is neither closed nor broken. -/
def Healthy (s : Client) : Prop := ∃ d ∈ s.conn, d ∉ s.closed ∧ d ∉ s.broken

instance (s : Client) : Decidable s.Healthy :=
  inferInstanceAs (Decidable (∃ d ∈ s.conn, d ∉ s.closed ∧ d ∉ s.broken))

def setThread (i : Nat) (t : Thread) (s : Client) : Client :=
  { s with threads := Function.update s.threads i t }

def spawn (t : Thread) (s : Client) : Client :=
  { s.setThread s.spawned t with spawned := s.spawned + 1 }

def setReconnecting (s : Client) : Client :=
  { s with
    state := .reconnecting
    switched := s.switched || (s.state = .connected && s.Healthy) }

-- ---------------------------------------------------------------------------
-- Lines
-- ---------------------------------------------------------------------------

def start (s : Client) : Client :=
  if s.running then s
  else
    spawn (.line (.setConnecting true))
      { s with
        running := true
        authFailed := false
        readerDone := s.readers
        pingDone := s.pings
        readers := s.readers + 1
        pings := s.pings + 1 }

/-- The connection becomes the current one, unless the client was stopped. -/
def install (i conn : Nat) (initial : Bool) (s : Client) : Client :=
  if s.running then
    setThread i (.line (.setRegistering conn initial))
      { s with
        conn := some conn
        readerDone := s.readers
        pingDone := s.pings
        readers := s.readers + 1
        pings := s.pings + 1 }
  else
    setThread i (.line (.failed initial)) { s with closed := conn :: s.closed }

/-- What a line does next by itself. -/
def stepLine (i : Nat) (phase : Line) (s : Client) : Client :=
  match phase with
  | .setConnecting initial =>
    setThread i (.line (.dialing initial))
      (if initial then { s with state := .connecting } else s.setReconnecting)
  | .dialed conn initial => s.install i conn initial
  | .setRegistering conn initial =>
    setThread i (.line (.registering conn initial)) { s with state := .registering }
  | .setConnected conn => setThread i (.line (.spawnReader conn)) { s with state := .connected }
  | .spawnReader conn =>
    spawn (.loop ⟨conn, s.pingDone, some s.readerDone, .looping⟩)
      (s.setThread i (.line (.spawnPing conn)))
  | .spawnPing conn =>
    spawn (.loop ⟨conn, s.pingDone, none, .looping⟩) (s.setThread i (.line .loopTop))
  | .failed initial =>
    if initial then setThread i .absent { s with running := false }
    else s.setThread i (.line .loopTop)
  | .loopTop =>
    if ¬ s.running ∨ s.authFailed then s.setThread i .absent else s.setThread i (.line .loopLook)
  | .loopLook =>
    s.setThread i (.line (if s.state = .connected then .loopTop else .setReconnecting))
  | .setReconnecting => setThread i (.line (.setConnecting false)) s.setReconnecting
  -- the network has to answer first
  | .dialing _ | .registering .. => s

def dial (i : Nat) (initial ok : Bool) (s : Client) : Client :=
  if ok then
    setThread i (.line (.dialed s.dialed initial))
      { s with dialed := s.dialed + 1, second := s.second || s.Healthy }
  else s.setThread i (.line (.failed initial))

/-- What came of `writeRegister` and `readRegisterAck`. -/
inductive Ack
  | accepted | refused | error
  deriving DecidableEq

def ack (i conn : Nat) (initial : Bool) (answer : Ack) (s : Client) : Client :=
  match answer with
  | .accepted => s.setThread i (.line (.setConnected conn))
  | .refused =>
    setThread i (.line (.failed initial))
      { s with authFailed := true, closed := conn :: s.closed }
  | .error => setThread i (.line (.failed initial)) { s with closed := conn :: s.closed }

-- ---------------------------------------------------------------------------
-- `Stop`
-- ---------------------------------------------------------------------------

def stop (s : Client) : Client := spawn (.stop .locking) { s with state := .stopping }

def stepStop (i : Nat) (phase : Stop) (s : Client) : Client :=
  match phase with
  | .locking =>
    if s.running then
      setThread i (.stop (.checking s.pingDone s.conn)) { s with running := false, conn := none }
    else s.setThread i (.stop .notRunning)
  | .checking pingDone conn =>
    s.setThread i
      (.stop (if pingDone ∈ s.pingCloses then .closeConn conn else .closing pingDone conn))
  | .closing pingDone conn =>
    setThread i (.stop (.closeConn conn)) { s with pingCloses := pingDone :: s.pingCloses }
  | .closeConn conn =>
    setThread i (.stop .waiting) { s with closed := conn.toList ++ s.closed }
  | .notRunning | .waiting => setThread i .absent { s with state := .disconnected }

-- ---------------------------------------------------------------------------
-- Loops
-- ---------------------------------------------------------------------------

def setPhase (i : Nat) (l : Loop) (phase : LoopPhase) (s : Client) : Client :=
  s.setThread i (.loop { l with phase })

/-- `handleDisconnect`, and the end of the loop. -/
def stepLoop (i : Nat) (l : Loop) (s : Client) : Client :=
  match l.phase with
  | .looping => s
  | .locking =>
    setPhase i l (.checking s.running)
      { s with conn := if s.conn = some l.conn then none else s.conn }
  | .checking armed =>
    s.setPhase i l (if l.pingDone ∈ s.pingCloses then .closeConn armed else .closing armed)
  | .closing armed =>
    setPhase i l (.closeConn armed) { s with pingCloses := l.pingDone :: s.pingCloses }
  | .closeConn armed => setPhase i l (.looking armed) { s with closed := l.conn :: s.closed }
  | .looking armed =>
    s.setPhase i l (if armed && s.state ≠ .stopping then .setting else .leaving)
  | .setting =>
    setPhase i l .leaving
      { s.setReconnecting with
        strayed := s.strayed || (s.conn.any (· ≠ l.conn) && s.state ≠ .reconnecting) }
  | .leaving =>
    setThread i .absent { s with readerCloses := l.done.toList ++ s.readerCloses }

end Client

inductive Event
  | start
  | stop
  | step (thread : Nat)
  | dial (thread : Nat) (ok : Bool)
  | ack (thread : Nat) (answer : Client.Ack)
  | fail (thread : Nat)
  | quit (thread : Nat)
  | lose (conn : Nat)
  deriving DecidableEq

open Client

def Thread.steps : Thread → Bool
  | .absent | .line (.dialing _) | .line (.registering ..) => false
  | .line _ | .stop _ => true
  | .loop l => l.phase ≠ .looping

def Thread.dials : Thread → Bool
  | .line (.dialing _) => true
  | _ => false

def Thread.registers : Thread → Bool
  | .line (.registering ..) => true
  | _ => false

/-- A loop fails on a connection that is closed or broken. -/
def Client.Fails (s : Client) : Thread → Prop
  | .loop l => l.phase = .looping ∧ (l.conn ∈ s.closed ∨ l.conn ∈ s.broken)
  | _ => False

/-- A `pingLoop` quits when its channel is closed. -/
def Client.Quits (s : Client) : Thread → Prop
  | .loop l => l.phase = .looping ∧ l.done = none ∧ l.pingDone ∈ s.pingCloses
  | _ => False

def Enabled (s : Client) : Event → Prop
  | .start | .stop => True
  | .step i => (s.threads i).steps
  | .dial i _ => (s.threads i).dials
  | .ack i _ => (s.threads i).registers
  | .fail i => s.Fails (s.threads i)
  | .quit i => s.Quits (s.threads i)
  | .lose conn => conn < s.dialed

def after (s : Client) : Event → Client
  | .start => s.start
  | .stop => s.stop
  | .step i =>
    match s.threads i with
    | .absent => s
    | .line phase => s.stepLine i phase
    | .stop phase => s.stepStop i phase
    | .loop l => s.stepLoop i l
  | .dial i ok =>
    match s.threads i with
    | .line (.dialing initial) => s.dial i initial ok
    | _ => s
  | .ack i answer =>
    match s.threads i with
    | .line (.registering conn initial) => s.ack i conn initial answer
    | _ => s
  | .fail i =>
    match s.threads i with
    | .loop l => s.setPhase i l .locking
    | _ => s
  | .quit i => s.setThread i .absent
  | .lose conn => { s with broken := conn :: s.broken }

instance (s : Client) : DecidablePred s.Fails := fun t =>
  match t with
  | .loop l =>
    inferInstanceAs (Decidable (l.phase = .looping ∧ (l.conn ∈ s.closed ∨ l.conn ∈ s.broken)))
  | .absent | .line _ | .stop _ => .isFalse id

instance (s : Client) : DecidablePred s.Quits := fun t =>
  match t with
  | .loop l =>
    inferInstanceAs (Decidable (l.phase = .looping ∧ l.done = none ∧ l.pingDone ∈ s.pingCloses))
  | .absent | .line _ | .stop _ => .isFalse id

instance (s : Client) : DecidablePred (Enabled s) := fun e =>
  match e with
  | .start | .stop => .isTrue trivial
  | .step i => inferInstanceAs (Decidable ((s.threads i).steps = true))
  | .dial i _ => inferInstanceAs (Decidable ((s.threads i).dials = true))
  | .ack i _ => inferInstanceAs (Decidable ((s.threads i).registers = true))
  | .fail i => inferInstanceAs (Decidable (s.Fails (s.threads i)))
  | .quit i => inferInstanceAs (Decidable (s.Quits (s.threads i)))
  | .lose conn => inferInstanceAs (Decidable (conn < s.dialed))

def step : Client → Event → Option Client := actions Enabled after

end Rinfra.Sdk.Go
