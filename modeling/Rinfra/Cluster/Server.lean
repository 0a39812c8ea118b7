import Mathlib.Logic.Function.Basic
import Rinfra.Cluster.Registry
import Rinfra.Core.Time

/-!
# The cluster server

`ClusterServer.run` accepts connections and spawns `handle_connection` for each
of them. A step is what a task does up to its next await, so a run is any
interleaving of the connections, and what a peer sends is free. Trace contexts
feed telemetry only and are left out.

The registry is shared: `register`, `unregister` and `set_status` are one step
each, taken once the write lock is there.
-/

namespace Rinfra.Cluster

inductive ClusterMessage
  | register (nodeId : String) (role : NodeRole) (endpoints : List Endpoint) (metadata : Metadata)
      (token : String)
  | registerAck (success : Bool) (error : Option String)
  | deregister (nodeId : String)
  | listNodes
  | nodeList (nodes : List NodeInfo)
  | ping
  | pong

structure RegisterInfo where
  nodeId : String
  role : NodeRole
  endpoints : List Endpoint
  metadata : Metadata

/-- What `framed.next()` gives: a message, a decoding or read error, or the end
of the stream. -/
inductive Frame
  | message (msg : ClusterMessage)
  | error
  | eof

/-- Where a connection's task stands. From `select` on, the node is in its
message loop, until it is `deregistering` or `leaving`. -/
inductive Phase
  | absent
  | awaitRegister
  | acking (ack : ClusterMessage) (info : Option RegisterInfo)
  | registering (info : RegisterInfo)
  | select (nodeId : String) (missedPongs : Nat)
  | pinging (nodeId : String) (missedPongs : Nat)
  | listing (nodeId : String) (missedPongs : Nat)
  | replying (nodeId : String) (missedPongs : Nat) (reply : ClusterMessage)
  | deregistering (nodeId : String)
  | leaving (nodeId : String)
  | closed
  | panicked

structure ClusterServer where
  token : String
  pingInterval : Nat

structure Main where
  registry : ConnectedRegistry
  shutdown : Bool
  conns : Nat → Phase
  /-- The frames written to each connection, the latest first. -/
  sent : Nat → List ClusterMessage

inductive Event
  | shutdown
  | accept (c : Nat)
  | registerFrame (c : Nat) (frame : Option Frame)
  | ack (c : Nat) (sent : Bool)
  | register (c : Nat)
  | cancelled (c : Nat)
  | tick (c : Nat)
  | pinged (c : Nat) (sent : Bool)
  | frame (c : Nat) (frame : Frame)
  | list (c : Nat)
  | replied (c : Nat) (sent : Bool)
  | unregister (c : Nat)
  | setOffline (c : Nat)

def Main.init : Main where
  registry := .new
  shutdown := false
  conns _ := .absent
  sent _ := []

def Main.goto (m : Main) (c : Nat) (p : Phase) : Main :=
  { m with conns := Function.update m.conns c p }

def Main.send (m : Main) (c : Nat) (msg : ClusterMessage) (sent : Bool) : Main :=
  if sent then { m with sent := Function.update m.sent c (msg :: m.sent c) } else m

/-- `handle_register` up to its acknowledgement; `none` is the timeout. -/
def ClusterServer.handleRegister (server : ClusterServer) : Option Frame → Phase
  | some (.message (.register nodeId role endpoints metadata token)) =>
    if server.token ≠ "" ∧ token ≠ server.token then
      .acking (.registerAck false (some "invalid token")) none
    else .acking (.registerAck true none) (some ⟨nodeId, role, endpoints, metadata⟩)
  | _ => .closed

def handleFrame (nodeId : String) (missedPongs : Nat) : Frame → Phase
  | .message .pong => .select nodeId 0
  | .message (.deregister _) => .deregistering nodeId
  | .message .ping => .replying nodeId missedPongs .pong
  | .message .listNodes => .listing nodeId missedPongs
  | .message _ => .select nodeId missedPongs
  | .error | .eof => .leaving nodeId

def step (server : ClusterServer) (m : Main) : Event → Option Main
  | .shutdown => some { m with shutdown := true }
  | .accept c => do
    let .absent := m.conns c | none
    if m.shutdown then none else pure (m.goto c .awaitRegister)
  | .registerFrame c frame => do
    let .awaitRegister := m.conns c | none
    pure (m.goto c (server.handleRegister frame))
  | .ack c sent => do
    let .acking ack info := m.conns c | none
    match info with
    | some info => pure ((m.send c ack sent).goto c (.registering info))
    | none => pure ((m.send c ack sent).goto c .closed)
  | .register c => do
    let .registering info := m.conns c | none
    let m := { m with
      registry := m.registry.register info.nodeId info.role info.endpoints info.metadata }
    -- a tokio interval must not be zero
    if server.pingInterval = 0 then pure (m.goto c .panicked)
    else pure (m.goto c (.select info.nodeId 0))
  | .cancelled c => do
    let .select nodeId _ := m.conns c | none
    if m.shutdown then pure (m.goto c (.leaving nodeId)) else none
  -- the select is biased: with shutdown requested, no other branch is taken
  | .tick c => do
    let .select nodeId missedPongs := m.conns c | none
    if m.shutdown then none
    else if 3 ≤ missedPongs then pure (m.goto c (.leaving nodeId))
    else pure (m.goto c (.pinging nodeId missedPongs))
  | .pinged c sent => do
    let .pinging nodeId missedPongs := m.conns c | none
    if sent then pure ((m.send c .ping true).goto c (.select nodeId (missedPongs + 1)))
    else pure (m.goto c (.leaving nodeId))
  | .frame c frame => do
    let .select nodeId missedPongs := m.conns c | none
    if m.shutdown then none else pure (m.goto c (handleFrame nodeId missedPongs frame))
  | .list c => do
    let .listing nodeId missedPongs := m.conns c | none
    pure (m.goto c (.replying nodeId missedPongs (.nodeList m.registry.listNodes)))
  | .replied c sent => do
    let .replying nodeId missedPongs reply := m.conns c | none
    pure ((m.send c reply sent).goto c (.select nodeId missedPongs))
  | .unregister c => do
    let .deregistering nodeId := m.conns c | none
    pure ({ m with registry := m.registry.unregister nodeId }.goto c .closed)
  | .setOffline c => do
    let .leaving nodeId := m.conns c | none
    pure ({ m with registry := m.registry.setStatus nodeId .offline }.goto c .closed)

inductive Moves (server : ClusterServer) (m : Main) : Event → Main → Prop
  | shutdown : Moves server m .shutdown { m with shutdown := true }
  | accept (hc : m.conns c = .absent) (hrun : m.shutdown = false) :
      Moves server m (.accept c) (m.goto c .awaitRegister)
  | registerFrame (hc : m.conns c = .awaitRegister) :
      Moves server m (.registerFrame c frame) (m.goto c (server.handleRegister frame))
  | accepted {ack : ClusterMessage} (hc : m.conns c = .acking ack (some info)) :
      Moves server m (.ack c sent) ((m.send c ack sent).goto c (.registering info))
  | refused {ack : ClusterMessage} (hc : m.conns c = .acking ack none) :
      Moves server m (.ack c sent) ((m.send c ack sent).goto c .closed)
  | register (hc : m.conns c = .registering info)
      (hp : p = if server.pingInterval = 0 then .panicked else .select info.nodeId 0) :
      Moves server m (.register c)
        ({ m with
            registry := m.registry.register info.nodeId info.role info.endpoints info.metadata
          }.goto c p)
  | cancelled (hc : m.conns c = .select n k) (hrun : m.shutdown = true) :
      Moves server m (.cancelled c) (m.goto c (.leaving n))
  | timedOut (hc : m.conns c = .select n k) (hrun : m.shutdown = false) (hk : 3 ≤ k) :
      Moves server m (.tick c) (m.goto c (.leaving n))
  | ticked (hc : m.conns c = .select n k) (hrun : m.shutdown = false) (hk : k < 3) :
      Moves server m (.tick c) (m.goto c (.pinging n k))
  | pinged (hc : m.conns c = .pinging n k) :
      Moves server m (.pinged c true) ((m.send c .ping true).goto c (.select n (k + 1)))
  | unpinged (hc : m.conns c = .pinging n k) :
      Moves server m (.pinged c false) (m.goto c (.leaving n))
  | frame (hc : m.conns c = .select n k) (hrun : m.shutdown = false) :
      Moves server m (.frame c f) (m.goto c (handleFrame n k f))
  | list (hc : m.conns c = .listing n k) :
      Moves server m (.list c) (m.goto c (.replying n k (.nodeList m.registry.listNodes)))
  | replied (hc : m.conns c = .replying n k reply) :
      Moves server m (.replied c sent) ((m.send c reply sent).goto c (.select n k))
  | unregister (hc : m.conns c = .deregistering n) :
      Moves server m (.unregister c)
        ({ m with registry := m.registry.unregister n }.goto c .closed)
  | setOffline (hc : m.conns c = .leaving n) :
      Moves server m (.setOffline c)
        ({ m with registry := m.registry.setStatus n .offline }.goto c .closed)

theorem step_moves {server : ClusterServer} {m m' : Main} (h : step server m e = some m') :
    Moves server m e m' := by
  cases e with
  | shutdown =>
    cases h
    exact .shutdown
  | accept c =>
    simp only [step] at h
    split at h
    · rename_i hc
      split at h <;> cases h
      rename_i hrun
      exact .accept hc (by simpa using hrun)
    · cases h
  | registerFrame c frame =>
    simp only [step] at h
    split at h
    · rename_i hc
      cases h
      exact .registerFrame hc
    · cases h
  | ack c sent =>
    simp only [step] at h
    split at h
    · rename_i ack info hc
      split at h <;> cases h
      · exact .accepted hc
      · exact .refused hc
    · cases h
  | register c =>
    simp only [step] at h
    split at h
    · rename_i info hc
      split at h <;> cases h <;> rename_i hzero
      · exact .register hc (by simp [hzero])
      · exact .register hc (by simp [hzero])
    · cases h
  | cancelled c =>
    simp only [step] at h
    split at h
    · rename_i n k hc
      split at h <;> cases h
      rename_i hrun
      exact .cancelled hc hrun
    · cases h
  | tick c =>
    simp only [step] at h
    split at h
    · rename_i n k hc
      split at h
      · cases h
      · rename_i hrun
        split at h <;> cases h <;> rename_i hk
        · exact .timedOut hc (by simpa using hrun) hk
        · exact .ticked hc (by simpa using hrun) (Nat.lt_of_not_le hk)
    · cases h
  | pinged c sent =>
    simp only [step] at h
    split at h
    · rename_i n k hc
      cases sent <;> cases h
      · exact .unpinged hc
      · exact .pinged hc
    · cases h
  | frame c f =>
    simp only [step] at h
    split at h
    · rename_i n k hc
      split at h <;> cases h
      rename_i hrun
      exact .frame hc (by simpa using hrun)
    · cases h
  | list c =>
    simp only [step] at h
    split at h
    · rename_i n k hc
      cases h
      exact .list hc
    · cases h
  | replied c sent =>
    simp only [step] at h
    split at h
    · rename_i n k reply hc
      cases h
      exact .replied hc
    · cases h
  | unregister c =>
    simp only [step] at h
    split at h
    · rename_i n hc
      cases h
      exact .unregister hc
    · cases h
  | setOffline c =>
    simp only [step] at h
    split at h
    · rename_i n hc
      cases h
      exact .setOffline hc
    · cases h

end Rinfra.Cluster
