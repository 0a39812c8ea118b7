import Rinfra.Cluster.Server
import Rinfra.Core.Error
import Rinfra.Lib.Transition

/-!
# The connection of a worker

`spawn_background` starts a task that connects, registers and serves the
connection, over and over, and hands out a handle on the state that the task
stores. A step is what the task does up to its next await or its next store, so
the handle can be read between any two of them. What errors say is only logged
and left out, and so are the trace contexts.
-/

namespace Rinfra.Cluster.Worker

open Rinfra.Lib

inductive ConnectionState
  | connected
  | disconnected
  | reconnecting
  deriving DecidableEq, Repr

def ConnectionState.asU8 : ConnectionState → UInt8
  | connected => 0
  | disconnected => 1
  | reconnecting => 2

def ConnectionState.ofU8 (v : UInt8) : ConnectionState :=
  if v = 0 then connected else if v = 1 then disconnected else reconnecting

@[simp] theorem ConnectionState.ofU8_asU8 (s : ConnectionState) : ofU8 s.asU8 = s := by
  cases s <;> rfl

structure Config where
  nodeId : String
  token : String
  endpoints : List Endpoint
  metadata : Metadata
  pingInterval : Nat

inductive Phase
  | connecting
  | connectFailed
  | registering
  | registerFailed
  /-- It sleeps, unless the shutdown comes first. -/
  | backingOff
  /-- The ack is there, and the state is not stored. -/
  | registered
  /-- In the message loop, until it is `deregistering` or `disconnected`. -/
  | select
  | sending (msg : ClusterMessage)
  | updating (nodes : List NodeInfo)
  | deregistering
  | disconnected
  /-- It has returned, from its sleep or from the message loop. -/
  | cancelled
  | finished
  | panicked

structure Task where
  phase : Phase
  /-- The `AtomicU8`. -/
  state : UInt8
  /-- In seconds. -/
  backoff : Nat
  shutdown : Bool
  nodeList : List NodeInfo
  /-- The frames written to the current connection, the latest first. -/
  sent : List ClusterMessage
  /-- The task has stored a state. -/
  stored : Bool

inductive Event
  | shutdown
  | connect (ok : Bool)
  /-- Whether the `Register` was sent, and what came within five seconds. -/
  | register (sent : Bool) (reply : Option Frame)
  | store
  | slept
  | cancelled
  | pingTick
  | syncTick
  | frame (frame : Frame)
  | sent (ok : Bool)
  | updated
  | deregistered (sent : Bool)
  | isConnected

def Task.init : Task where
  phase := .connecting
  state := ConnectionState.connected.asU8
  backoff := 3
  shutdown := false
  nodeList := []
  sent := []
  stored := false

def Task.isConnected (t : Task) : Bool := ConnectionState.ofU8 t.state = .connected

def Config.registerMessage (cfg : Config) : ClusterMessage :=
  .register cfg.nodeId .worker cfg.endpoints cfg.metadata cfg.token

def doRegister (sent : Bool) (reply : Option Frame) : Except ErrorCode Unit :=
  if ¬ sent then .error .clusterRegisterFailed
  else match reply with
    | some (.message (.registerAck true _)) => .ok ()
    | some (.message (.registerAck false _)) => .error .clusterAuthFailed
    | _ => .error .clusterRegisterFailed

def handleFrame : Frame → Phase
  | .message .ping => .sending .pong
  | .message .pong => .select
  | .message (.nodeList nodes) => .updating nodes
  | .message _ => .select
  | .error | .eof => .disconnected

def Task.storeState (cfg : Config) (t : Task) : Option Task :=
  match t.phase with
  | .connectFailed | .registerFailed =>
    some { t with state := ConnectionState.reconnecting.asU8, stored := true, phase := .backingOff }
  | .registered =>
    some { t with
      state := ConnectionState.connected.asU8
      stored := true
      backoff := 3
      -- a tokio interval must not be zero
      phase := if cfg.pingInterval = 0 then .panicked else .select }
  | .disconnected =>
    some { t with state := ConnectionState.reconnecting.asU8, stored := true, phase := .connecting }
  | _ => none

def step (cfg : Config) (t : Task) : Event → Option Task
  | .shutdown => some { t with shutdown := true }
  | .connect ok => do
    let .connecting := t.phase | none
    if ok then pure { t with phase := .registering, sent := [] }
    else pure { t with phase := .connectFailed }
  | .register sent reply => do
    let .registering := t.phase | none
    let t := if sent then { t with sent := cfg.registerMessage :: t.sent } else t
    match doRegister sent reply with
    | .ok () => pure { t with phase := .registered }
    | .error _ => pure { t with phase := .registerFailed }
  | .store => t.storeState cfg
  | .slept => do
    let .backingOff := t.phase | none
    pure { t with backoff := min (t.backoff * 2) 30, phase := .connecting }
  | .cancelled =>
    if t.shutdown then
      match t.phase with
      | .backingOff => some { t with phase := .cancelled }
      | .select => some { t with phase := .deregistering }
      | _ => none
    else none
  -- the select is biased: with shutdown requested, no other branch is taken
  | .pingTick => do
    let .select := t.phase | none
    if t.shutdown then none else pure { t with phase := .sending .ping }
  | .syncTick => do
    let .select := t.phase | none
    if t.shutdown then none else pure { t with phase := .sending .listNodes }
  | .frame frame => do
    let .select := t.phase | none
    if t.shutdown then none else pure { t with phase := handleFrame frame }
  | .sent ok => do
    let .sending msg := t.phase | none
    if ok then pure { t with phase := .select, sent := msg :: t.sent }
    else pure { t with phase := .disconnected }
  | .updated => do
    let .updating nodes := t.phase | none
    pure { t with phase := .select, nodeList := nodes }
  | .deregistered sent => do
    let .deregistering := t.phase | none
    pure { t with
      phase := .finished
      sent := if sent then .deregister cfg.nodeId :: t.sent else t.sent }
  | .isConnected => some t

/-- The current connection has got a successful `RegisterAck`, has not been seen
to end, and the task has not finished. A panic is neither. -/
def Phase.Live : Phase → Prop
  | .registered | .select | .sending _ | .updating _ | .deregistering | .panicked => True
  | _ => False

/-- Whenever the handle is asked, it says that it is connected only where the
task has a live connection. -/
def Truthful (t : Task) : Event → Prop
  | .isConnected => t.isConnected → t.phase.Live
  | _ => True

/-- The first attempt has no outcome yet: no ack, and no failure stored. -/
def Task.Untried (t : Task) : Prop := t.stored = false ∧ ¬ t.phase.Live

/-- The message loop has ended, and the state is not stored; or never will be. -/
def Phase.Left : Phase → Prop
  | .disconnected | .finished => True
  | _ => False

/-- The handle is not asked in between. -/
def Settled (t : Task) : Event → Prop
  | .isConnected => ¬ t.Untried ∧ ¬ t.phase.Left
  | _ => True

-- ---------------------------------------------------------------------------
-- What the state says
-- ---------------------------------------------------------------------------

def Phase.Looped : Phase → Prop
  | .select | .sending _ | .updating _ | .deregistering | .disconnected | .finished
  | .panicked => True
  | _ => False

def Phase.Attempting : Phase → Prop
  | .connecting | .connectFailed | .registering | .registerFailed | .registered => True
  | _ => False

/-- The state is that of the last store: `Connected` before the first, and from
the one that begins the message loop on. -/
structure Inv (t : Task) : Prop where
  connected : t.isConnected = true ↔ t.stored = false ∨ t.phase.Looped
  first : t.stored = false → t.phase.Attempting

section
variable {cfg : Config} {t t' : Task}

theorem inv_init : Inv .init := ⟨by simp [Task.isConnected, Task.init], fun _ => trivial⟩

theorem Inv.goto (hi : Inv t) (hstate : t'.state = t.state) (hstored : t'.stored = t.stored)
    (hloop : t'.phase.Looped ↔ t.phase.Looped)
    (hattempt : t.phase.Attempting → t'.phase.Attempting) : Inv t' where
  connected := by
    have h := hi.connected
    simp only [Task.isConnected, hstate, hstored, hloop] at h ⊢
    exact h
  first h := hattempt (hi.first (hstored ▸ h))

theorem handleFrame_looped (frame : Frame) : (handleFrame frame).Looped := by
  cases frame with
  | message msg => cases msg <;> trivial
  | _ => trivial

theorem Inv.storeState (h : t.storeState cfg = some t') : Inv t' := by
  unfold Task.storeState at h
  split at h
  · obtain rfl := Option.some.inj h
    exact ⟨by simp [Task.isConnected, Phase.Looped], nofun⟩
  · obtain rfl := Option.some.inj h
    exact ⟨by simp [Task.isConnected, Phase.Looped], nofun⟩
  · obtain rfl := Option.some.inj h
    refine ⟨?_, nofun⟩
    by_cases hzero : cfg.pingInterval = 0 <;> simp [Task.isConnected, Phase.Looped, hzero]
  · obtain rfl := Option.some.inj h
    exact ⟨by simp [Task.isConnected, Phase.Looped], nofun⟩
  · cases h

theorem Inv.step (hi : Inv t) (h : step cfg t e = some t') : Inv t' := by
  cases e with
  | shutdown =>
    cases h
    exact hi.goto rfl rfl Iff.rfl id
  | isConnected =>
    cases h
    exact hi
  | store => exact .storeState h
  | connect ok | sent ok =>
    simp only [Worker.step] at h
    split at h
    · rename_i hp
      cases ok <;> cases h <;>
        exact hi.goto rfl rfl (by simp [hp, Phase.Looped]) (by simp [hp, Phase.Attempting])
    · cases h
  | register sent reply =>
    simp only [Worker.step] at h
    split at h
    · rename_i hp
      split at h <;> cases h <;>
        exact hi.goto (by split <;> rfl) (by split <;> rfl) (by simp [hp, Phase.Looped])
          fun _ => trivial
    · cases h
  | slept | updated | deregistered =>
    simp only [Worker.step] at h
    split at h
    · rename_i hp
      cases h
      exact hi.goto rfl rfl (by simp [hp, Phase.Looped]) (by simp [hp, Phase.Attempting])
    · cases h
  | cancelled =>
    simp only [Worker.step] at h
    split at h
    · split at h
      -- the sleep between two attempts, or the message loop
      · rename_i hp
        cases h
        exact hi.goto rfl rfl (by simp [hp, Phase.Looped]) (by simp [hp, Phase.Attempting])
      · rename_i hp
        cases h
        exact hi.goto rfl rfl (by simp [hp, Phase.Looped]) (by simp [hp, Phase.Attempting])
      · cases h
    · cases h
  | pingTick | syncTick =>
    simp only [Worker.step] at h
    split at h
    · rename_i hp
      split at h <;> cases h
      exact hi.goto rfl rfl (by simp [hp, Phase.Looped]) (by simp [hp, Phase.Attempting])
    · cases h
  | frame frame =>
    simp only [Worker.step] at h
    split at h
    · rename_i hp
      split at h <;> cases h
      refine hi.goto rfl rfl (iff_of_true (handleFrame_looped frame) ?_) (by
        simp [hp, Phase.Attempting])
      simp [hp, Phase.Looped]
    · cases h

theorem Phase.live_of_looped {p : Phase} (h : p.Looped) (hleft : ¬ p.Left) : p.Live := by
  cases p <;> trivial

theorem Phase.not_live_of_left {p : Phase} (h : p.Left) : ¬ p.Live := by
  cases p <;> simp_all [Phase.Left, Phase.Live]

theorem truthful_iff_settled_here (hi : Inv t) (e : Event) : Truthful t e ↔ Settled t e := by
  cases e with
  | isConnected =>
    constructor
    · intro h
      refine ⟨fun huntried => ?_, fun hleft => ?_⟩
      · exact huntried.2 (h (hi.connected.mpr (.inl huntried.1)))
      · have hlooped : t.phase.Looped := by
          cases hp : t.phase <;> simp_all [Phase.Left, Phase.Looped]
        exact Phase.not_live_of_left hleft (h (hi.connected.mpr (.inr hlooped)))
    · rintro ⟨htried, hleft⟩ hconnected
      rcases hi.connected.mp hconnected with hstored | hlooped
      · by_contra hlive
        exact htried ⟨hstored, hlive⟩
      · exact Phase.live_of_looped hlooped hleft
  | _ => exact Iff.rfl

end

/-- In every run, the answers of the handle are true exactly if it is asked
neither before the first attempt has an outcome, nor between the end of the
message loop and the store that follows, which after a shutdown never comes. -/
theorem truthful_iff_settled (cfg : Config) (es : List Event) :
    Guarded (step cfg) Truthful .init es ↔ Guarded (step cfg) Settled .init es := by
  constructor
  · intro h
    exact h.imp inv_init (fun t e t' hi _ hs => hi.step hs) fun t e _ hi ht _ =>
      (truthful_iff_settled_here hi e).mp ht
  · intro h
    exact h.imp inv_init (fun t e t' hi _ hs => hi.step hs) fun t e _ hi ht _ =>
      (truthful_iff_settled_here hi e).mpr ht

def worker : Config := ⟨"w", "secret", [], ∅, 10⟩

/-- The handle says that it is connected before anything has been tried, and
after the shutdown of a connection. -/
theorem connected_too_early_and_too_late :
    ¬ Guarded (step worker) Truthful .init [.isConnected] ∧
      ¬ Guarded (step worker) Truthful .init
        [.connect true, .register true (some (.message (.registerAck true none))), .store,
          .isConnected, .shutdown, .cancelled, .deregistered true, .isConnected] := by
  refine ⟨fun h => ?_, fun h => ?_⟩
  · exact (h _ rfl).1 rfl
  · obtain ⟨-, h⟩ := h _ rfl
    obtain ⟨-, h⟩ := h _ rfl
    obtain ⟨-, h⟩ := h _ rfl
    obtain ⟨-, h⟩ := h _ rfl
    obtain ⟨-, h⟩ := h _ rfl
    obtain ⟨-, h⟩ := h _ rfl
    obtain ⟨-, h⟩ := h _ rfl
    exact (h _ rfl).1 rfl

end Rinfra.Cluster.Worker
