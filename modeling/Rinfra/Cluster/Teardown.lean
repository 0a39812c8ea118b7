import Rinfra.Cluster.Server
import Rinfra.Lib.Transition

/-!
# Stale teardowns

A connection that ends updates the entry of its node by the node's id. If the
node has registered again in between, that entry is the newer connection's.

The entry of every node in a message loop is online exactly as long as no
teardown finds another connection of the same node in its loop.
-/

namespace Rinfra.Cluster

open Rinfra.Lib ConnectedRegistry

def Phase.loopsFor : Phase → Option String
  | .select nodeId _ | .pinging nodeId _ | .listing nodeId _ | .replying nodeId _ _ => some nodeId
  | _ => none

def teardown (m : Main) : Event → Option String
  | .unregister c => match m.conns c with
    | .deregistering nodeId => some nodeId
    | _ => none
  | .setOffline c => match m.conns c with
    | .leaving nodeId => some nodeId
    | _ => none
  | _ => none

def Main.Registered (m : Main) : Prop :=
  ∀ c n, (m.conns c).loopsFor = some n → m.registry.Online n

/-- A teardown finds no connection of its node in its message loop. -/
def NotStale (m : Main) (e : Event) : Prop :=
  ∀ n, teardown m e = some n → ∀ c, (m.conns c).loopsFor ≠ some n

-- ---------------------------------------------------------------------------
-- What a step does to the registry and the loops
-- ---------------------------------------------------------------------------

section
variable {m m' : Main} {server : ClusterServer}

@[simp] theorem goto_registry : (m.goto c p).registry = m.registry := rfl

@[simp] theorem send_registry : (m.send c msg sent).registry = m.registry := by
  unfold Main.send
  split <;> rfl

@[simp] theorem send_conns : (m.send c msg sent).conns = m.conns := by
  unfold Main.send
  split <;> rfl

@[simp] theorem goto_same : (m.goto c p).conns c = p := Function.update_self ..

theorem goto_of_ne (h : c' ≠ c) : (m.goto c p).conns c' = m.conns c' := Function.update_of_ne h ..

theorem loopsFor_goto (hp : p.loopsFor = none ∨ p.loopsFor = (m.conns c).loopsFor)
    (h : ((m.goto c p).conns c').loopsFor = some n) : (m.conns c').loopsFor = some n := by
  by_cases hc : c' = c
  · subst hc
    rw [goto_same] at h
    rcases hp with hp | hp <;> simp_all
  · rwa [goto_of_ne hc] at h

/-- The registry stays and no connection enters a loop. -/
def Quiet (m m' : Main) : Prop :=
  m'.registry = m.registry ∧
    ∀ c n, (m'.conns c).loopsFor = some n → (m.conns c).loopsFor = some n

theorem Quiet.goto (hp : p.loopsFor = none ∨ p.loopsFor = (m.conns c).loopsFor) :
    Quiet m (m.goto c p) := ⟨rfl, fun _ _ => loopsFor_goto hp⟩

theorem Quiet.send_goto (hp : p.loopsFor = none ∨ p.loopsFor = (m.conns c).loopsFor) :
    Quiet m ((m.send c msg sent).goto c p) := by
  refine ⟨by simp, fun c' n h => ?_⟩
  have := loopsFor_goto (m := m.send c msg sent) (by simpa using hp) h
  simpa using this

theorem handleFrame_loopsFor (n : String) (k : Nat) (frame : Frame) :
    (handleFrame n k frame).loopsFor = none ∨ (handleFrame n k frame).loopsFor = some n := by
  unfold handleFrame
  split <;> simp [Phase.loopsFor]

theorem handleRegister_loopsFor (server : ClusterServer) (frame : Option Frame) :
    (server.handleRegister frame).loopsFor = none := by
  unfold ClusterServer.handleRegister
  split
  · split <;> rfl
  · rfl

theorem loopsFor_closed {reg : ConnectedRegistry} (hc : (m.conns c).loopsFor = none) (c' : Nat)
    (n : String) : (({ m with registry := reg }.goto c .closed).conns c').loopsFor = some n ↔
      (m.conns c').loopsFor = some n := by
  by_cases hcc : c' = c
  · subst hcc
    rw [goto_same, hc]
    simp [Phase.loopsFor]
  · rw [goto_of_ne hcc]

/-- One step leaves the registry alone, registers a node and lets the
connection into its loop, or takes one node down. -/
theorem step_cases (h : step server m e = some m') :
    teardown m e = none ∧ Quiet m m' ∨
    (∃ node, teardown m e = none ∧
      (∀ k, m'.registry.Online k ↔ k = node ∨ m.registry.Online k) ∧
      ∀ c n, (m'.conns c).loopsFor = some n → n = node ∨ (m.conns c).loopsFor = some n) ∨
    ∃ node, teardown m e = some node ∧
      (∀ k, m'.registry.Online k ↔ k ≠ node ∧ m.registry.Online k) ∧
      ∀ c n, (m'.conns c).loopsFor = some n ↔ (m.conns c).loopsFor = some n := by
  cases step_moves h with
  | shutdown => exact .inl ⟨rfl, rfl, fun _ _ h => h⟩
  | accept hc hrun => exact .inl ⟨rfl, .goto (.inl rfl)⟩
  | registerFrame hc => exact .inl ⟨rfl, .goto (.inl (handleRegister_loopsFor server _))⟩
  | accepted hc | refused hc => exact .inl ⟨rfl, .send_goto (.inl rfl)⟩
  | @register c info p hc hp =>
    refine .inr (.inl ⟨info.nodeId, rfl, fun _ => online_register, ?_⟩)
    intro c' n hn
    by_cases hcc : c' = c
    · subst hcc
      rw [goto_same, hp] at hn
      split at hn
      · cases hn
      · exact .inl (Option.some.inj hn).symm
    · exact .inr (by simpa [goto_of_ne hcc] using hn)
  | cancelled hc hrun | timedOut hc hrun hk | unpinged hc => exact .inl ⟨rfl, .goto (.inl rfl)⟩
  | ticked hc hrun hk | list hc => exact .inl ⟨rfl, .goto (.inr (by rw [hc]; rfl))⟩
  | pinged hc | replied hc => exact .inl ⟨rfl, .send_goto (.inr (by rw [hc]; rfl))⟩
  | frame hc hrun =>
    refine .inl ⟨rfl, .goto ?_⟩
    rw [hc]
    exact handleFrame_loopsFor ..
  | unregister hc =>
    exact .inr (.inr ⟨_, by simp [teardown, hc], fun _ => online_unregister,
      loopsFor_closed (by rw [hc]; rfl)⟩)
  | setOffline hc =>
    exact .inr (.inr ⟨_, by simp [teardown, hc], fun _ => online_setStatus_offline,
      loopsFor_closed (by rw [hc]; rfl)⟩)

/-- Where every node in a loop is online, a step keeps it so exactly when it is
not the teardown of a node that still has a connection in its loop. -/
theorem Main.Registered.step_iff (hp : m.Registered) (h : step server m e = some m') :
    m'.Registered ↔ NotStale m e := by
  rcases step_cases h with ⟨hnone, hreg, hloops⟩ | ⟨node, hnone, hon, hloops⟩ |
    ⟨node, hsome, hon, hloops⟩
  · refine ⟨fun _ n hn => by simp [hnone] at hn, fun _ c n hn => ?_⟩
    rw [hreg]
    exact hp c n (hloops c n hn)
  · refine ⟨fun _ n hn => by simp [hnone] at hn, fun _ c n hn => (hon n).mpr ?_⟩
    exact (hloops c n hn).imp_right (hp c n)
  · constructor
    · intro hp' n hn c hc
      obtain rfl : node = n := Option.some.inj (hsome.symm.trans hn)
      exact ((hon node).mp (hp' c node ((hloops c node).mpr hc))).1 rfl
    · intro hns c n hn
      have hc := (hloops c n).mp hn
      refine (hon n).mpr ⟨?_, hp c n hc⟩
      rintro rfl
      exact hns n hsome c hc

end

/-- In a run of any number of connections, the entry of every node that has a
connection in its message loop is present and online throughout, exactly when
no teardown finds another connection of its node in its loop. -/
theorem registered_iff_not_stale (server : ClusterServer) (es : List Event) :
    Always (step server) Main.Registered .init es ↔ Guarded (step server) NotStale .init es := by
  refine always_iff_guarded (I := fun _ => True) trivial ?_ (fun _ _ _ _ _ _ _ => trivial)
    fun m e m' _ hp h => hp.step_iff h
  intro c n hn
  simp [Main.init, Phase.loopsFor] at hn

/-- A worker's `connect_once` registers and hangs up, its `run_loop` registers
again, and only then does the first connection's task see the end of its
stream. -/
def reconnect : List Event :=
  let hello : Option Frame := some (.message (.register "w" .worker [] ∅ "secret"))
  [.accept 0, .registerFrame 0 hello, .ack 0 true, .register 0,
    .accept 1, .registerFrame 1 hello, .ack 1 true, .register 1,
    .frame 0 .eof, .setOffline 0]

theorem reconnect_offline :
    ∃ m, run (step ⟨"secret", fromSecs 10⟩) .init reconnect = some m ∧
      (m.conns 1).loopsFor = some "w" ∧ ¬ m.registry.Online "w" := by
  refine ⟨_, rfl, rfl, ?_⟩
  rintro ⟨node, hnode, hstatus⟩
  cases hnode
  cases hstatus

end Rinfra.Cluster
