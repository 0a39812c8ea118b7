import Rinfra.Core.Error

/-!
# TCP connections

`handle_tcp_connection` serves one connection: the `on_connect` hooks, the
message loop, the `on_disconnect` hooks. A hook is called once for the
connection or once for each frame of it, so a component is given by what its
hooks return here, for a frame under the frame's number in the connection.

`TcpContext` is only handed through and left out, as are logs and metrics.
-/

namespace Rinfra.Net

abbrev Bytes := List UInt8

structure ByteTransform where
  name : String
  decode : Nat → Bytes → Except AppError Bytes
  encode : Nat → Bytes → Except AppError Bytes

structure TcpMiddleware where
  name : String
  order : Int
  onConnect : Except AppError Unit
  onInbound : Nat → Bytes → Except AppError (Option Bytes)
  onOutbound : Nat → Bytes → Except AppError (Option Bytes)

structure TcpHandler where
  onConnect : Except AppError Unit
  onMessage : Nat → Bytes → Except AppError (Option Bytes)

/-- What the `select!` of the message loop gives. -/
inductive Arrival
  | cancelled
  | frame (raw : Bytes)
  | frameError
  | eof

/-- What one connection is served with. `writes` tells whether the socket takes
the reply to a frame. -/
structure Connection where
  handler : TcpHandler
  maxFrameSize : Nat
  pipeline : List ByteTransform
  middlewares : List TcpMiddleware
  writes : Nat → Bool

/-- A middleware goes by its place in the list. -/
inductive Component
  | middleware (i : Nat)
  | handler
  deriving DecidableEq, Repr

inductive Call
  | onConnect (c : Component) (result : Except AppError Unit)
  | onInbound (i : Nat) (data : Bytes) (result : Except AppError (Option Bytes))
  | onMessage (data : Bytes) (result : Except AppError (Option Bytes))
  | onOutbound (i : Nat) (data : Bytes) (result : Except AppError (Option Bytes))
  | send (out : Bytes) (sent : Bool)
  | onDisconnect (c : Component)

/-- What a connection's task has done, and what it has left in
`TCP_CONNECTIONS_ACTIVE`. -/
structure Task where
  calls : List Call
  active : Int
  ended : Bool

/-- A pipeline of transforms, up to the first that fails. -/
def transformAll (transform : ByteTransform → Bytes → Except AppError Bytes) :
    List ByteTransform → Bytes → Except Unit Bytes
  | [], data => .ok data
  | t :: ts, data =>
    match transform t data with
    | .ok data => transformAll transform ts data
    | .error _ => .error ()

def decodePipeline (pipeline : List ByteTransform) (seq : Nat) : Bytes → Except Unit Bytes :=
  transformAll (·.decode seq) pipeline

def encodePipeline (pipeline : List ByteTransform) (seq : Nat) : Bytes → Except Unit Bytes :=
  transformAll (·.encode seq) pipeline.reverse

/-- A chain of message hooks: each gets what the one before returned, until one
drops the message or fails. -/
def hookChain (hook : TcpMiddleware → Bytes → Except AppError (Option Bytes))
    (call : Nat → Bytes → Except AppError (Option Bytes) → Call) :
    List (TcpMiddleware × Nat) → Option Bytes → List Call × Option Bytes
  | (mw, i) :: mws, some data =>
    match hook mw data with
    | .ok next =>
      let (calls, result) := hookChain hook call mws next
      (call i data (.ok next) :: calls, result)
    | .error e => ([call i data (.error e)], none)
  | _, data => ([], data)

namespace Connection

def inboundChain (conn : Connection) (seq : Nat) (data : Bytes) : List Call × Option Bytes :=
  hookChain (·.onInbound seq) .onInbound conn.middlewares.zipIdx (some data)

def outboundChain (conn : Connection) (seq : Nat) (data : Bytes) : List Call × Option Bytes :=
  hookChain (·.onOutbound seq) .onOutbound conn.middlewares.zipIdx.reverse (some data)

/-- The reply on its way out. The flag is whether the loop goes on. -/
def handleReply (conn : Connection) (seq : Nat) (reply : Bytes) : List Call × Bool :=
  match conn.outboundChain seq reply with
  | (calls, none) => (calls, true)
  | (calls, some data) =>
    match encodePipeline conn.pipeline seq data with
    | .error () => (calls, false)
    | .ok out =>
      -- the codec takes no frame over its limit
      let sent := decide (out.length ≤ conn.maxFrameSize) && conn.writes seq
      (calls ++ [.send out sent], sent)

def handleFrame (conn : Connection) (seq : Nat) (raw : Bytes) : List Call × Bool :=
  match decodePipeline conn.pipeline seq raw with
  | .error () => ([], false)
  | .ok data =>
    match conn.inboundChain seq data with
    | (calls, none) => (calls, true)
    | (calls, some data) =>
      let result := conn.handler.onMessage seq data
      let calls := calls ++ [.onMessage data result]
      match result with
      | .ok (some reply) =>
        let (outbound, goesOn) := conn.handleReply seq reply
        (calls ++ outbound, goesOn)
      | .ok none => (calls, true)
      | .error _ => (calls, false)

/-- The message loop from the `seq`-th frame on. It waits when nothing more
arrives, else the flag is whether it has ended. -/
def messageLoop (conn : Connection) : Nat → List Arrival → List Call × Bool
  | _, [] => ([], false)
  | seq, .frame raw :: arrivals =>
    if raw.length ≤ conn.maxFrameSize then
      match conn.handleFrame (seq + 1) raw with
      | (calls, true) =>
        let (later, ended) := conn.messageLoop (seq + 1) arrivals
        (calls ++ later, ended)
      | (calls, false) => (calls, true)
    else ([], true)
  | _, _ :: _ => ([], true)

def connectAll : List (TcpMiddleware × Nat) → List Call × Bool
  | [] => ([], true)
  | (mw, i) :: mws =>
    match mw.onConnect with
    | .error e => ([.onConnect (.middleware i) (.error e)], false)
    | .ok () =>
      let (calls, accepted) := connectAll mws
      (.onConnect (.middleware i) (.ok ()) :: calls, accepted)

def handleTcpConnection (conn : Connection) (arrivals : List Arrival) : Task :=
  let active : Int := 1
  match connectAll conn.middlewares.zipIdx with
  | (calls, false) => ⟨calls, active - 1, true⟩
  | (calls, true) =>
    let calls := calls ++ [.onConnect .handler conn.handler.onConnect]
    match conn.handler.onConnect with
    | .error _ => ⟨calls, active - 1, true⟩
    | .ok () =>
      match conn.messageLoop 0 arrivals with
      | (loop, false) => ⟨calls ++ loop, active, false⟩
      | (loop, true) =>
        let disconnects := conn.middlewares.zipIdx.reverse.map fun (_, i) =>
          Call.onDisconnect (.middleware i)
        ⟨calls ++ loop ++ disconnects ++ [.onDisconnect .handler], active - 1, true⟩

end Connection

end Rinfra.Net
