import Mathlib.Data.List.Nodup
import Mathlib.Data.List.TakeWhile
import Rinfra.Net.Tcp

/-!
# Connect and disconnect

What a component takes in `on_connect` it gives back in `on_disconnect`. The
task of a connection that was served calls the one for each of the other, in
reverse order. A rejection ends the task at once, and what the middlewares
before it have taken stays taken.
-/

namespace Rinfra.Net

def Call.accepted : Call → Option Component
  | .onConnect c (.ok ()) => some c
  | _ => none

def Call.disconnected : Call → Option Component
  | .onDisconnect c => some c
  | _ => none

@[simp] theorem accepted_onConnect : (Call.onConnect c (.ok ())).accepted = some c := rfl
@[simp] theorem accepted_onDisconnect : (Call.onDisconnect c).accepted = none := rfl
@[simp] theorem disconnected_onConnect : (Call.onConnect c result).disconnected = none := rfl
@[simp] theorem disconnected_onDisconnect : (Call.onDisconnect c).disconnected = some c := rfl

def Component.isMiddleware : Component → Bool
  | .middleware _ => true
  | .handler => false

def Task.accepted (t : Task) : List Component := t.calls.filterMap Call.accepted

def Task.disconnected (t : Task) : List Component := t.calls.filterMap Call.disconnected

/-- The middlewares that accepted the connection get `on_disconnect` once each,
in reverse order, and nothing else gets it that has not accepted. -/
structure Task.Paired (t : Task) : Prop where
  reversed : t.disconnected.filter Component.isMiddleware =
    (t.accepted.filter Component.isMiddleware).reverse
  once : t.disconnected.Nodup
  accepted : ∀ c ∈ t.disconnected, c ∈ t.accepted

namespace Connection

def places (conn : Connection) : List Component :=
  (List.range conn.middlewares.length).map .middleware

def connects (conn : Connection) : List (Except AppError Unit) :=
  conn.middlewares.map TcpMiddleware.onConnect ++ [conn.handler.onConnect]

/-- No component rejects the connection, or the first one does. -/
def NoLateRejection (conn : Connection) : Prop :=
  (∀ result ∈ conn.connects, result = .ok ()) ∨ ∃ e, conn.connects.head? = some (.error e)

end Connection

-- ---------------------------------------------------------------------------
-- The message loop
-- ---------------------------------------------------------------------------

def Call.Passing (call : Call) : Prop := call.accepted = none ∧ call.disconnected = none

section
variable {conn : Connection}

theorem hookChain_passing (hcall : ∀ i data result, (call i data result).Passing) :
    ∀ c ∈ (hookChain hook call mws data).1, c.Passing := by
  induction mws generalizing data with
  | nil => simp [hookChain]
  | cons next mws ih =>
    obtain ⟨mw, i⟩ := next
    cases data with
    | none => simp [hookChain]
    | some data =>
      cases h : hook mw data with
      | ok next => simpa [hookChain, h] using ⟨hcall .., fun c => ih c⟩
      | error e => simpa [hookChain, h] using hcall ..

theorem handleReply_passing : ∀ c ∈ (conn.handleReply seq reply).1, c.Passing := by
  have hchain : ∀ c ∈ (conn.outboundChain seq reply).1, c.Passing :=
    hookChain_passing fun _ _ _ => ⟨rfl, rfl⟩
  unfold Connection.handleReply
  split
  · rename_i calls h
    simpa [h] using hchain
  · rename_i calls data h
    rw [h] at hchain
    split
    · exact hchain
    · simpa [or_imp, forall_and] using ⟨hchain, rfl, rfl⟩

theorem handleFrame_passing (conn : Connection) (seq : Nat) (raw : Bytes) :
    ∀ c ∈ (conn.handleFrame seq raw).1, c.Passing := by
  unfold Connection.handleFrame
  split
  · simp
  · rename_i data _
    have hchain : ∀ c ∈ (conn.inboundChain seq data).1, c.Passing :=
      hookChain_passing fun _ _ _ => ⟨rfl, rfl⟩
    split
    · rename_i calls h
      simpa [h] using hchain
    · rename_i calls data h
      rw [h] at hchain
      have hmessage : ∀ c ∈ calls ++ [.onMessage data (conn.handler.onMessage seq data)],
          c.Passing := by
        simpa [or_imp, forall_and] using ⟨hchain, rfl, rfl⟩
      dsimp only
      split
      · intro c hc
        rcases List.mem_append.mp hc with hc | hc
        · exact hmessage c hc
        · exact handleReply_passing c hc
      · exact hmessage
      · exact hmessage

theorem messageLoop_passing (conn : Connection) (seq : Nat) (arrivals : List Arrival) :
    ∀ c ∈ (conn.messageLoop seq arrivals).1, c.Passing := by
  induction arrivals generalizing seq with
  | nil => simp [Connection.messageLoop]
  | cons arrival arrivals ih =>
    cases arrival with
    | frame raw =>
      unfold Connection.messageLoop
      have hframe := handleFrame_passing conn (seq + 1) raw
      split
      · split
        · rename_i calls h
          rw [h] at hframe
          intro c hc
          rcases List.mem_append.mp hc with hc | hc
          · exact hframe c hc
          · exact ih (seq + 1) c hc
        · rename_i calls h
          rwa [h] at hframe
      · simp
    | _ => simp [Connection.messageLoop]

end

-- ---------------------------------------------------------------------------
-- The connect hooks
-- ---------------------------------------------------------------------------

def TcpMiddleware.accepts (mw : TcpMiddleware) : Bool :=
  match mw.onConnect with
  | .ok () => true
  | .error _ => false

section
variable {mws : List (TcpMiddleware × Nat)}

theorem connectAll_snd (mws : List (TcpMiddleware × Nat)) :
    (Connection.connectAll mws).2 = mws.all fun (mw, _) => mw.accepts := by
  induction mws with
  | nil => rfl
  | cons next mws ih =>
    obtain ⟨mw, i⟩ := next
    cases h : mw.onConnect <;> simp [Connection.connectAll, TcpMiddleware.accepts, h, ih]

theorem connectAll_accepted :
    (Connection.connectAll mws).1.filterMap Call.accepted =
      (mws.takeWhile fun (mw, _) => mw.accepts).map fun (_, i) => .middleware i := by
  induction mws with
  | nil => rfl
  | cons next mws ih =>
    obtain ⟨mw, i⟩ := next
    cases h : mw.onConnect <;>
      simp [Connection.connectAll, TcpMiddleware.accepts, Call.accepted, h, ih]

theorem connectAll_disconnected (mws : List (TcpMiddleware × Nat)) :
    ∀ c ∈ (Connection.connectAll mws).1, c.disconnected = none := by
  induction mws with
  | nil => simp [Connection.connectAll]
  | cons next mws ih =>
    obtain ⟨mw, i⟩ := next
    cases h : mw.onConnect with
    | ok => simpa [Connection.connectAll, h, Call.disconnected] using ih
    | error e => simp [Connection.connectAll, h, Call.disconnected]

end

-- ---------------------------------------------------------------------------
-- The task
-- ---------------------------------------------------------------------------

section
variable {conn : Connection} {t : Task}

theorem accepts_iff {mw : TcpMiddleware} : mw.accepts = true ↔ mw.onConnect = .ok () := by
  unfold TcpMiddleware.accepts
  split
  · rename_i h
    simp [h]
  · rename_i e h
    simp [h]

theorem all_zipIdx_accepts :
    (conn.middlewares.zipIdx.all fun (mw, _) => mw.accepts) = conn.middlewares.all (·.accepts) := by
  rw [← List.zipIdx_map_fst 0 conn.middlewares, List.all_map]
  simp [Function.comp_def]

theorem noLateRejection_of_accepting (h : conn.middlewares.all (·.accepts) = true)
    (hh : conn.handler.onConnect = .ok ()) : conn.NoLateRejection := by
  left
  intro result hr
  rcases List.mem_append.mp hr with hr | hr
  · obtain ⟨mw, hmw, rfl⟩ := List.mem_map.mp hr
    exact accepts_iff.mp (List.all_eq_true.mp h mw hmw)
  · rw [List.mem_singleton.mp hr, hh]

theorem paired_iff_of_rejected (h : t.disconnected = []) :
    t.Paired ↔ t.accepted.filter Component.isMiddleware = [] := by
  constructor
  · intro hp
    simpa [h] using hp.reversed.symm
  · intro ha
    exact ⟨by simp [h, ha], by simp [h], by simp [h]⟩

theorem places_eq : conn.middlewares.zipIdx.map (fun (_, i) => .middleware i) = conn.places := by
  unfold Connection.places
  rw [List.range_eq_range', ← List.zipIdx_map_snd 0 conn.middlewares, List.map_map]
  rfl

theorem places_filter : conn.places.filter Component.isMiddleware = conn.places :=
  List.filter_eq_self.mpr (by simp [Connection.places, Component.isMiddleware])

theorem places_nodup : conn.places.Nodup :=
  List.Pairwise.map _ (fun _ _ h => by simpa using h) List.nodup_range

theorem connectAll_all (h : conn.middlewares.all (·.accepts) = true) :
    (Connection.connectAll conn.middlewares.zipIdx).1.filterMap Call.accepted = conn.places := by
  have htake : conn.middlewares.zipIdx.takeWhile (fun (mw, _) => mw.accepts) =
      conn.middlewares.zipIdx :=
    List.takeWhile_eq_self_iff.mpr (List.all_eq_true.mp (all_zipIdx_accepts.trans h))
  rw [connectAll_accepted, htake, places_eq]

/-- What a connection that was served to its end leaves. -/
theorem paired_of_served (arrivals : List Arrival) (hall : conn.middlewares.all (·.accepts) = true)
    (hcalls : t.calls = (Connection.connectAll conn.middlewares.zipIdx).1 ++
      [.onConnect .handler (.ok ())] ++ (conn.messageLoop 0 arrivals).1 ++
      (conn.middlewares.zipIdx.reverse.map fun (_, i) => Call.onDisconnect (.middleware i)) ++
      [.onDisconnect .handler]) : t.Paired := by
  have hloop := messageLoop_passing conn 0 arrivals
  have hloopAcc : (conn.messageLoop 0 arrivals).1.filterMap Call.accepted = [] :=
    List.filterMap_eq_nil_iff.mpr fun c hc => (hloop c hc).1
  have hloopDis : (conn.messageLoop 0 arrivals).1.filterMap Call.disconnected = [] :=
    List.filterMap_eq_nil_iff.mpr fun c hc => (hloop c hc).2
  have hconnect := List.filterMap_eq_nil_iff.mpr
    (connectAll_disconnected conn.middlewares.zipIdx)
  have hback : (conn.middlewares.zipIdx.reverse.map fun (_, i) =>
      Call.onDisconnect (.middleware i)) = conn.places.reverse.map .onDisconnect := by
    rw [← places_eq, ← List.map_reverse, List.map_map]
    rfl
  have hacc : t.accepted = conn.places ++ [.handler] := by
    simp [Task.accepted, hcalls, hback, hloopAcc, connectAll_all hall, List.filterMap_cons,
      List.filterMap_map, Function.comp_def]
  have hdis : t.disconnected = conn.places.reverse ++ [.handler] := by
    simp [Task.disconnected, hcalls, hback, hloopDis, hconnect, List.filterMap_cons,
      List.filterMap_map, Function.comp_def]
  constructor
  · simp [hacc, hdis, places_filter, Component.isMiddleware]
  · rw [hdis, List.nodup_append]
    refine ⟨List.nodup_reverse.mpr places_nodup, List.nodup_singleton _, ?_⟩
    simp [Connection.places]
  · intro c
    simp [hacc, hdis]

/-- A middleware rejects: no disconnects, and the first one has accepted unless
it is the one that rejects. -/
theorem paired_iff_of_middleware (hall : conn.middlewares.all (·.accepts) = false)
    (hcalls : t.calls = (Connection.connectAll conn.middlewares.zipIdx).1) :
    t.Paired ↔ conn.NoLateRejection := by
  have hdis : t.disconnected = [] := by
    rw [Task.disconnected, hcalls]
    exact List.filterMap_eq_nil_iff.mpr (connectAll_disconnected _)
  have hnot : ¬ ∀ result ∈ conn.connects, result = .ok () := by
    intro h
    have : conn.middlewares.all (·.accepts) = true := List.all_eq_true.mpr fun mw hmw =>
      accepts_iff.mpr (h _ (List.mem_append_left _ (List.mem_map_of_mem hmw)))
    simp [hall] at this
  rw [paired_iff_of_rejected hdis, Task.accepted, hcalls, connectAll_accepted,
    Connection.NoLateRejection, or_iff_right hnot, Connection.connects]
  cases hm : conn.middlewares with
  | nil => simp [hm] at hall
  | cons mw mws =>
    cases hc : mw.onConnect <;>
      simp [TcpMiddleware.accepts, hc, Component.isMiddleware]

theorem paired_iff_of_handler (hall : conn.middlewares.all (·.accepts) = true)
    (hh : conn.handler.onConnect = .error e)
    (hcalls : t.calls = (Connection.connectAll conn.middlewares.zipIdx).1 ++
      [.onConnect .handler (.error e)]) : t.Paired ↔ conn.NoLateRejection := by
  have hdis : t.disconnected = [] := by
    rw [Task.disconnected, hcalls]
    simpa [List.filterMap_cons] using connectAll_disconnected conn.middlewares.zipIdx
  have hacc : t.accepted = conn.places := by
    simp [Task.accepted, hcalls, connectAll_all hall, List.filterMap_cons, Call.accepted]
  have hnot : ¬ ∀ result ∈ conn.connects, result = .ok () := by
    simp [Connection.connects, hh]
  rw [paired_iff_of_rejected hdis, hacc, places_filter, Connection.NoLateRejection,
    or_iff_right hnot, Connection.connects, Connection.places]
  cases hm : conn.middlewares with
  | nil => simp [hh]
  | cons mw mws =>
    have hmw : mw.onConnect = .ok () :=
      accepts_iff.mp (List.all_eq_true.mp hall mw (hm ▸ List.mem_cons_self))
    simp [hmw]

end

/-- When the task of a connection has ended, the middlewares that accepted the
connection have got `on_disconnect` once each, in reverse order, and nothing
else has, exactly when no component rejected the connection or the first one
did. -/
theorem paired_iff_no_late_rejection (conn : Connection) (arrivals : List Arrival)
    (h : (conn.handleTcpConnection arrivals).ended = true) :
    (conn.handleTcpConnection arrivals).Paired ↔ conn.NoLateRejection := by
  have hsnd := (connectAll_snd conn.middlewares.zipIdx).trans all_zipIdx_accepts
  revert h
  unfold Connection.handleTcpConnection
  split
  · rename_i calls hc
    rw [hc] at hsnd
    exact fun _ => paired_iff_of_middleware hsnd.symm (by rw [hc])
  · rename_i calls hc
    rw [hc] at hsnd
    dsimp only
    split
    · rename_i e hh
      exact fun _ => paired_iff_of_handler hsnd.symm hh (by rw [hc, hh])
    · rename_i hh
      split
      · exact fun h => absurd h Bool.false_ne_true
      · rename_i loop hl
        refine fun _ => iff_of_true ?_ (noLateRejection_of_accepting hsnd.symm hh)
        exact paired_of_served arrivals hsnd.symm (by simp only [hc, hh, hl])

/-- Every exit of the task gives back what it took in the count of active
connections, a rejection included. -/
theorem active_eq (conn : Connection) (arrivals : List Arrival) :
    (conn.handleTcpConnection arrivals).active =
      if (conn.handleTcpConnection arrivals).ended then 0 else 1 := by
  unfold Connection.handleTcpConnection
  split
  · rfl
  · dsimp only
    split
    · rfl
    · split <;> rfl

def passing (name : String) (order : Int) (onConnect : Except AppError Unit) : TcpMiddleware where
  name
  order
  onConnect
  onInbound _ data := .ok (some data)
  onOutbound _ data := .ok (some data)

def echo : TcpHandler := ⟨.ok (), fun _ data => .ok (some data)⟩

/-- A connection counter and, behind it, a limiter that turns the peer away. -/
def turnedAway : Connection where
  handler := echo
  maxFrameSize := 65536
  pipeline := []
  middlewares := [passing "counter" 10 (.ok ()),
    passing "limiter" 20 (.error ⟨.rateLimitExceeded, "too many connections"⟩)]
  writes _ := true

theorem turnedAway_not_paired :
    (turnedAway.handleTcpConnection []).ended = true ∧
      (turnedAway.handleTcpConnection []).accepted = [.middleware 0] ∧
      (turnedAway.handleTcpConnection []).disconnected = [] ∧
      ¬ (turnedAway.handleTcpConnection []).Paired := by
  refine ⟨rfl, rfl, rfl, fun h => ?_⟩
  exact absurd h.reversed (by decide)

/-- One frame is echoed through two middlewares before the peer hangs up. -/
def served : Connection :=
  { turnedAway with middlewares := [passing "counter" 10 (.ok ()), passing "audit" 50 (.ok ())] }

theorem served_paired :
    (served.handleTcpConnection [.frame [1, 2], .eof]).Paired ↔ served.NoLateRejection :=
  paired_iff_no_late_rejection served [.frame [1, 2], .eof] rfl

end Rinfra.Net
