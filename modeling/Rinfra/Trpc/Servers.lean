import Rinfra.Net.Tcp
import Rinfra.Trpc.Protocol

/-!
# Two tRPC servers

`TrpcServer` has its own frame loop; `TrpcHandler` answers behind a `TcpServer`,
which cuts and limits the frames. Both take frames by their texts, in the order
of the connection, and a service is given by what its handler returns for a
frame under the frame's number. What a `Tell` starts returns nothing and is left
out, as are logs.
-/

namespace Rinfra.Trpc

open Rinfra.Net (Connection Task)

abbrev Services := String → Option (Nat → Bytes → Except AppError Bytes)

def respond (services : Services) (seq : Nat) (frame : Frame) : Frame :=
  match services frame.service with
  | some h =>
    match h seq frame.payload with
    | .ok result => ⟨.response, frame.requestId, frame.service, result⟩
    | .error e => ⟨.error, frame.requestId, frame.service, utf8Bytes e.display⟩
  | none =>
    ⟨.error, frame.requestId, frame.service, utf8Bytes s!"service '{frame.service}' not found"⟩

/-- The texts of the reply frames, and whether the server has closed. -/
structure Served where
  replies : List Bytes
  closed : Bool
  deriving DecidableEq

def Served.reply (data : Bytes) (later : Served) : Served :=
  ⟨data :: later.replies, later.closed⟩

def readText (serde : Serde) (raw : Bytes) : Except AppError Frame :=
  if raw.length > maxFrameSize then
    .error ⟨.rpcServerFailed, s!"frame too large: {raw.length} bytes"⟩
  else readBody serde raw

theorem readFrame_text (serde : Serde) (raw rest : Bytes) (h : raw.length < 256 ^ 4) :
    readFrame serde (Lib.toBeBytes 4 raw.length ++ (raw ++ rest)) =
      (readText serde raw).map fun frame => some (frame, rest) := by
  rw [readFrame_delimited h, readText]
  split
  · rfl
  · rw [if_neg (by simp), List.take_left, List.drop_left]

/-- `TrpcServer`'s loop from the `seq`-th frame on. -/
def handleConnection (serde : Serde) (services : Services) : Nat → List Bytes → Served
  | _, [] => ⟨[], false⟩
  | seq, raw :: raws =>
    match readText serde raw with
    | .error _ => ⟨[], true⟩
    | .ok frame =>
      match frame.kind with
      | .request =>
        match serde.toVec (respond services (seq + 1) frame) with
        | .error _ => ⟨[], true⟩
        | .ok data => .reply data (handleConnection serde services (seq + 1) raws)
      | .tell | .response | .error => handleConnection serde services (seq + 1) raws

def onMessage (serde : Serde) (services : Services) (seq : Nat) (data : Bytes) :
    Except AppError (Option Bytes) :=
  match serde.fromSlice data with
  | .error _ => .ok none
  | .ok frame =>
    match frame.kind with
    | .request =>
      match serde.toVec (respond services seq frame) with
      | .error e => .error ⟨.internal, s!"serialize frame: {e}"⟩
      | .ok reply => .ok (some reply)
    | .tell | .response | .error => .ok none

def defaultMaxFrameSize : Nat := 65536

/-- A connection of `start_trpc_listener` with the default options. The peer
takes what it is sent. -/
def trpcConnection (serde : Serde) (services : Services) : Connection where
  handler := ⟨.ok (), onMessage serde services⟩
  maxFrameSize := defaultMaxFrameSize
  pipeline := []
  middlewares := []
  writes _ := true

def replyOf : Net.Call → Option Bytes
  | .send out true => some out
  | _ => none

/-- What the peer of a connection's task sees. -/
def served (task : Task) : Served := ⟨task.calls.filterMap replyOf, task.ended⟩

def serveTcp (serde : Serde) (services : Services) (raws : List Bytes) : Served :=
  served ((trpcConnection serde services).handleTcpConnection (raws.map .frame))

/-- The two servers cannot be told apart: after each frame they have sent the
same replies, and both or none has closed. -/
def Alike (serde : Serde) (services : Services) (raws : List Bytes) : Prop :=
  ∀ k, serveTcp serde services (raws.take k) = handleConnection serde services 0 (raws.take k)

/-- Texts, from the `seq`-th on, that fit the listener and whose replies do. A
malformed one closes both servers if it is too long for the listener, and so
does a reply that has no text. -/
def Fits (serde : Serde) (services : Services) : Nat → List Bytes → Prop
  | _, [] => True
  | seq, raw :: raws =>
    match serde.fromSlice raw with
    | .error _ => defaultMaxFrameSize < raw.length
    | .ok frame =>
      if frame.kind = .request then
        match serde.toVec (respond services (seq + 1) frame) with
        | .error _ => True
        | .ok reply => raw.length ≤ defaultMaxFrameSize ∧ reply.length ≤ defaultMaxFrameSize ∧
            Fits serde services (seq + 1) raws
      else raw.length ≤ defaultMaxFrameSize ∧ Fits serde services (seq + 1) raws

-- ---------------------------------------------------------------------------
-- The listener's loop
-- ---------------------------------------------------------------------------

/-- What the peer sees of the message loop from the `seq`-th frame on. -/
def loopServed (serde : Serde) (services : Services) (seq : Nat) (raws : List Bytes) : Served :=
  let (calls, ended) := (trpcConnection serde services).messageLoop seq (raws.map .frame)
  ⟨calls.filterMap replyOf, ended⟩

section
variable {serde : Serde} {services : Services} {seq : Nat} {raw : Bytes} {raws : List Bytes}
  {frame : Frame}

theorem serveTcp_eq_loop : serveTcp serde services raws = loopServed serde services 0 raws := by
  rcases hloop : (trpcConnection serde services).messageLoop 0 (raws.map .frame) with ⟨calls, ended⟩
  have htask : (trpcConnection serde services).handleTcpConnection (raws.map .frame) =
      if ended then ⟨[.onConnect .handler (.ok ())] ++ calls ++ [.onDisconnect .handler], 0, true⟩
      else ⟨[.onConnect .handler (.ok ())] ++ calls, 1, false⟩ := by
    simp only [Connection.handleTcpConnection, trpcConnection, List.zipIdx_nil,
      Connection.connectAll] at hloop ⊢
    rw [hloop]
    cases ended <;> simp
  rw [serveTcp, htask, loopServed, hloop]
  cases ended <;> simp [served, replyOf, List.filterMap_cons]

theorem handleFrame_eq :
    (trpcConnection serde services).handleFrame seq raw =
      match onMessage serde services seq raw with
      | .error e => ([.onMessage raw (.error e)], false)
      | .ok none => ([.onMessage raw (.ok none)], true)
      | .ok (some reply) =>
        ([.onMessage raw (.ok (some reply)),
          .send reply (decide (reply.length ≤ defaultMaxFrameSize))],
          decide (reply.length ≤ defaultMaxFrameSize)) := by
  simp only [Connection.handleFrame, Connection.inboundChain, Connection.handleReply,
    Connection.outboundChain, Net.decodePipeline, Net.encodePipeline, trpcConnection,
    Net.transformAll, List.reverse_nil, List.zipIdx_nil, Net.hookChain]
  rcases onMessage serde services seq raw with e | _ | reply
  · rfl
  · rfl
  · simp only [Bool.and_true]
    rfl

theorem loopServed_cons : loopServed serde services seq (raw :: raws) =
    if raw.length ≤ defaultMaxFrameSize then
      match onMessage serde services (seq + 1) raw with
      | .error _ => ⟨[], true⟩
      | .ok none => loopServed serde services (seq + 1) raws
      | .ok (some reply) =>
        if reply.length ≤ defaultMaxFrameSize then
          .reply reply (loopServed serde services (seq + 1) raws)
        else ⟨[], true⟩
    else ⟨[], true⟩ := by
  by_cases hraw : raw.length ≤ defaultMaxFrameSize
  · rw [if_pos hraw]
    simp only [loopServed, List.map_cons, Connection.messageLoop, handleFrame_eq,
      show (trpcConnection serde services).maxFrameSize = defaultMaxFrameSize from rfl, if_pos hraw]
    rcases onMessage serde services (seq + 1) raw with e | _ | reply
    · simp [replyOf, List.filterMap_cons]
    · simp [replyOf, List.filterMap_cons]
    · by_cases hreply : reply.length ≤ defaultMaxFrameSize
      · simp [hreply, replyOf, List.filterMap_cons, Served.reply]
      · simp [hreply, replyOf, List.filterMap_cons]
  · rw [if_neg hraw]
    simp [loopServed, Connection.messageLoop, trpcConnection, hraw]

theorem handleConnection_request (htext : serde.fromSlice raw = .ok frame)
    (hsize : raw.length ≤ maxFrameSize) (hkind : frame.kind = .request) :
    handleConnection serde services seq (raw :: raws) =
      match serde.toVec (respond services (seq + 1) frame) with
      | .error _ => ⟨[], true⟩
      | .ok data => .reply data (handleConnection serde services (seq + 1) raws) := by
  simp only [handleConnection, readText, if_neg (Nat.not_lt.mpr hsize), readBody, htext, hkind]

theorem handleConnection_other (htext : serde.fromSlice raw = .ok frame)
    (hsize : raw.length ≤ maxFrameSize) (hkind : frame.kind ≠ .request) :
    handleConnection serde services seq (raw :: raws) =
      handleConnection serde services (seq + 1) raws := by
  cases hk : frame.kind with
  | request => exact absurd hk hkind
  | tell | response | error =>
    simp only [handleConnection, readText, if_neg (Nat.not_lt.mpr hsize), readBody, htext, hk]

theorem handleConnection_malformed (htext : serde.fromSlice raw = .error e)
    (hsize : raw.length ≤ maxFrameSize) :
    handleConnection serde services seq (raw :: raws) = ⟨[], true⟩ := by
  simp only [handleConnection, readText, if_neg (Nat.not_lt.mpr hsize), readBody, htext]

theorem alike_cons_of_step {f : Served → Served} (hinj : Function.Injective f)
    (htcp : ∀ later, loopServed serde services seq (raw :: later) =
      f (loopServed serde services (seq + 1) later))
    (hserver : ∀ later, handleConnection serde services seq (raw :: later) =
      f (handleConnection serde services (seq + 1) later)) :
    (∀ k, loopServed serde services seq ((raw :: raws).take k) =
      handleConnection serde services seq ((raw :: raws).take k)) ↔
    ∀ k, loopServed serde services (seq + 1) (raws.take k) =
      handleConnection serde services (seq + 1) (raws.take k) := by
  constructor
  · intro h k
    have := h (k + 1)
    rw [List.take_succ_cons, htcp, hserver] at this
    exact hinj this
  · intro h k
    cases k with
    | zero => rfl
    | succ k => rw [List.take_succ_cons, htcp, hserver, h k]

theorem alike_cons_of_closed
    (htcp : ∀ later, loopServed serde services seq (raw :: later) = ⟨[], true⟩)
    (hserver : ∀ later, handleConnection serde services seq (raw :: later) = ⟨[], true⟩) (k : Nat) :
    loopServed serde services seq ((raw :: raws).take k) =
      handleConnection serde services seq ((raw :: raws).take k) := by
  cases k with
  | zero => rfl
  | succ k => rw [List.take_succ_cons, htcp, hserver]

theorem not_alike_cons (h : loopServed serde services seq [raw] ≠
    handleConnection serde services seq [raw]) :
    ¬ ∀ k, loopServed serde services seq ((raw :: raws).take k) =
      handleConnection serde services seq ((raw :: raws).take k) :=
  fun hall => h (hall 1)

theorem Served.reply_injective (data : Bytes) : Function.Injective (Served.reply data) := by
  rintro ⟨replies, closed⟩ ⟨replies', closed'⟩ h
  simpa [Served.reply] using h

/-- The loops, from any frame on. -/
theorem alike_iff_fits (hsize : ∀ raw ∈ raws, raw.length ≤ maxFrameSize) :
    (∀ k, loopServed serde services seq (raws.take k) =
      handleConnection serde services seq (raws.take k)) ↔ Fits serde services seq raws := by
  induction raws generalizing seq with
  | nil => exact iff_of_true (fun k => by rw [List.take_nil]; rfl) trivial
  | cons raw raws ih =>
    have hraw : raw.length ≤ maxFrameSize := hsize raw List.mem_cons_self
    have ih : (∀ k, loopServed serde services (seq + 1) (raws.take k) =
        handleConnection serde services (seq + 1) (raws.take k)) ↔
        Fits serde services (seq + 1) raws :=
      ih fun r hr => hsize r (List.mem_cons_of_mem _ hr)
    rw [Fits]
    cases htext : serde.fromSlice raw with
    | error e =>
      have hserver : ∀ later, handleConnection serde services seq (raw :: later) = ⟨[], true⟩ :=
        fun later => handleConnection_malformed htext hraw
      by_cases hlimit : raw.length ≤ defaultMaxFrameSize
      · refine iff_of_false (not_alike_cons ?_) (Nat.not_lt.mpr hlimit)
        rw [hserver, loopServed_cons, if_pos hlimit, onMessage, htext]
        exact fun h => Bool.noConfusion (congrArg Served.closed h)
      · refine iff_of_true (alike_cons_of_closed (fun later => ?_) hserver) (Nat.not_le.mp hlimit)
        rw [loopServed_cons, if_neg hlimit]
    | ok frame =>
      by_cases hkind : frame.kind = .request
      · simp only [if_pos hkind]
        cases hreply : serde.toVec (respond services (seq + 1) frame) with
        | error e =>
          have hserver : ∀ later, handleConnection serde services seq (raw :: later) =
              ⟨[], true⟩ := fun later => by
            rw [handleConnection_request htext hraw hkind, hreply]
          refine iff_of_true (alike_cons_of_closed (fun later => ?_) hserver) trivial
          rw [loopServed_cons]
          simp [onMessage, htext, hkind, hreply]
        | ok reply =>
          have hserver : ∀ later, handleConnection serde services seq (raw :: later) =
              .reply reply (handleConnection serde services (seq + 1) later) := fun later => by
            rw [handleConnection_request htext hraw hkind, hreply]
          by_cases hfits : raw.length ≤ defaultMaxFrameSize ∧ reply.length ≤ defaultMaxFrameSize
          · rw [alike_cons_of_step (Served.reply_injective reply) (fun later => ?_) hserver, ih]
            · exact ⟨fun h => ⟨hfits.1, hfits.2, h⟩, fun h => h.2.2⟩
            · rw [loopServed_cons]
              simp [onMessage, htext, hkind, hreply, hfits]
          · refine iff_of_false (not_alike_cons ?_) fun h => hfits ⟨h.1, h.2.1⟩
            rw [hserver, loopServed_cons]
            simp only [onMessage, htext, hkind, hreply]
            split
            · rw [if_neg fun h => hfits ⟨‹_›, h⟩]
              exact fun h => Bool.noConfusion (congrArg Served.closed h)
            · exact fun h => Bool.noConfusion (congrArg Served.closed h)
      · have hserver : ∀ later, handleConnection serde services seq (raw :: later) =
            handleConnection serde services (seq + 1) later :=
          fun later => handleConnection_other htext hraw hkind
        simp only [if_neg hkind]
        have hnone : onMessage serde services (seq + 1) raw = .ok none := by
          cases hk : frame.kind with
          | request => exact absurd hk hkind
          | tell | response | error => simp only [onMessage, htext, hk]
        by_cases hlimit : raw.length ≤ defaultMaxFrameSize
        · rw [alike_cons_of_step Function.injective_id (fun later => ?_) hserver, ih]
          · exact ⟨fun h => ⟨hlimit, h⟩, And.right⟩
          · rw [loopServed_cons, if_pos hlimit, hnone]
            rfl
        · refine iff_of_false (not_alike_cons ?_) fun h => hlimit h.1
          rw [hserver, loopServed_cons, if_neg hlimit]
          exact fun h => Bool.noConfusion (congrArg Served.closed h)

end

/-- The two servers are alike exactly on the frames that fit the listener. -/
theorem servers_alike_iff (serde : Serde) (services : Services) (raws : List Bytes)
    (hsize : ∀ raw ∈ raws, raw.length ≤ maxFrameSize) :
    Alike serde services raws ↔ Fits serde services 0 raws := by
  rw [← alike_iff_fits hsize]
  exact forall_congr' fun k => by rw [serveTcp_eq_loop]

def oneService : Services := fun name =>
  if name = "test-svc" then some fun _ payload => .ok payload else none

theorem servers_alike_iff_hello :
    Alike (onlyFrame helloFrame) oneService [frameText helloFrame] ↔
      Fits (onlyFrame helloFrame) oneService 0 [frameText helloFrame] :=
  servers_alike_iff _ _ _ (by decide)

/-- A text that is no frame: `TrpcServer` hangs up, `TrpcHandler` goes on. -/
theorem malformed_not_alike :
    serveTcp (onlyFrame helloFrame) oneService [utf8Bytes "\x7b\x7d"] = ⟨[], false⟩ ∧
      handleConnection (onlyFrame helloFrame) oneService 0 [utf8Bytes "\x7b\x7d"] = ⟨[], true⟩ ∧
      ¬ Alike (onlyFrame helloFrame) oneService [utf8Bytes "\x7b\x7d"] := by
  refine ⟨by decide, by decide, fun h => ?_⟩
  exact absurd (h 1) (by decide)

end Rinfra.Trpc
