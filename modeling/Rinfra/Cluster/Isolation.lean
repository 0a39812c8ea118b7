import Rinfra.Cluster.Teardown

/-!
# Connections and their entries

A connection's events write to the registry only under the node id that its
own first message registered. What that message was is read off the events of
the run.
-/

namespace Rinfra.Cluster

open Rinfra.Lib ConnectedRegistry

def Event.conn : Event → Option Nat
  | .shutdown => none
  | .accept c | .registerFrame c _ | .ack c _ | .register c | .cancelled c | .tick c | .pinged c _
  | .frame c _ | .list c | .replied c _ | .unregister c | .setOffline c => some c

/-- The node the connection stands for once its registration is accepted. -/
def Phase.node : Phase → Option String
  | .acking _ (some info) | .registering info => some info.nodeId
  | .select nodeId _ | .pinging nodeId _ | .listing nodeId _ | .replying nodeId _ _
  | .deregistering nodeId | .leaving nodeId => some nodeId
  | _ => none

def Phase.Waits : Phase → Prop
  | .absent | .awaitRegister => True
  | _ => False

/-- What `handle_register` got on the connection, if it got that far: its first
message, an error, the end of the stream, or nothing before the timeout. -/
def firstFrame (es : List Event) (c : Nat) : Option (Option Frame) :=
  es.findSome? fun
    | .registerFrame c' frame => if c' = c then some frame else none
    | _ => none

/-- The connection's first message was a `Register` of the node with the
server's token. -/
def RegisteredAs (server : ClusterServer) (es : List Event) (c : Nat) (n : String) : Prop :=
  ∃ role endpoints metadata,
    firstFrame es c = some (some (.message (.register n role endpoints metadata server.token)))

-- ---------------------------------------------------------------------------
-- What a step does
-- ---------------------------------------------------------------------------

/-- A step of a connection whose first message has been handled: it writes to
its own node's entry, moves on without taking up another node, and sends its
acknowledgement or what its message loop has to say. -/
structure Served (m m' : Main) (c : Nat) : Prop where
  others : ∀ c', c' ≠ c → m'.conns c' = m.conns c' ∧ m'.sent c' = m.sent c'
  registry : ∀ k, (m.conns c).node ≠ some k → m'.registry.getNode k = m.registry.getNode k
  keyed : m.registry.Keyed → m'.registry.Keyed
  waits : ¬ (m.conns c).Waits ∧ ¬ (m'.conns c).Waits
  acking : ∀ ack info, m'.conns c ≠ .acking ack info
  node : ∀ n, (m'.conns c).node = some n → (m.conns c).node = some n
  sent : ∀ msg ∈ m'.sent c, msg ∈ m.sent c ∨ (∃ info, m.conns c = .acking msg info) ∨
    (m.conns c).node.isSome

section
variable {m m' : Main} {server : ClusterServer}

theorem send_of_ne (h : c' ≠ c) : (m.send c msg sent).sent c' = m.sent c' := by
  unfold Main.send
  split
  · exact Function.update_of_ne h ..
  · rfl

theorem mem_send_same (h : msg' ∈ (m.send c msg sent).sent c) : msg' = msg ∨ msg' ∈ m.sent c := by
  unfold Main.send at h
  split at h
  · simpa [Function.update_self] using h
  · exact .inr h

theorem Served.send_goto (hp : ∀ n, p.node = some n → (m.conns c).node = some n)
    (hwaits : ¬ (m.conns c).Waits ∧ ¬ p.Waits) (hack : ∀ ack info, p ≠ .acking ack info)
    (hmsg : (∃ info, m.conns c = .acking msg info) ∨ (m.conns c).node.isSome) :
    Served m ((m.send c msg up).goto c p) c where
  others c' hne := ⟨by rw [goto_of_ne hne, send_conns], send_of_ne hne⟩
  registry k _ := by rw [goto_registry, send_registry]
  keyed := by rw [goto_registry, send_registry]; exact id
  waits := by rwa [goto_same]
  acking := by rwa [goto_same]
  node := by rwa [goto_same]
  sent msg' h := by
    rcases mem_send_same h with rfl | h
    · exact .inr hmsg
    · exact .inl h

theorem Served.write_goto (reg : ConnectedRegistry) (hc : (m.conns c).node = some n)
    (hp : p.node = none ∨ p.node = some n) (hwaits : ¬ (m.conns c).Waits ∧ ¬ p.Waits)
    (hack : ∀ ack info, p ≠ .acking ack info)
    (hreg : ∀ k, k ≠ n → reg.getNode k = m.registry.getNode k)
    (hkeyed : m.registry.Keyed → reg.Keyed) :
    Served m ({ m with registry := reg }.goto c p) c where
  others c' hne := ⟨goto_of_ne hne, rfl⟩
  registry k hk := hreg k fun h => hk (h ▸ hc)
  keyed := hkeyed
  waits := by rwa [goto_same]
  acking := by rwa [goto_same]
  node k hk := by
    rw [goto_same] at hk
    rcases hp with hp | hp
    · simp [hp] at hk
    · rw [hc, ← hp, hk]
  sent msg h := .inl h

theorem Served.goto (hc : (m.conns c).node = some n) (hp : p.node = none ∨ p.node = some n)
    (hwaits : ¬ (m.conns c).Waits ∧ ¬ p.Waits) (hack : ∀ ack info, p ≠ .acking ack info) :
    Served m (m.goto c p) c :=
  .write_goto m.registry hc hp hwaits hack (fun _ _ => rfl) id

theorem handleFrame_node (n : String) (k : Nat) (frame : Frame) :
    (handleFrame n k frame).node = some n := by
  unfold handleFrame
  split <;> rfl

theorem handleFrame_served (n : String) (k : Nat) (frame : Frame) :
    ¬ (handleFrame n k frame).Waits ∧ ∀ ack info, handleFrame n k frame ≠ .acking ack info := by
  unfold handleFrame
  split <;> simp [Phase.Waits]

/-- A step requests the shutdown, accepts a connection, handles the first
message of one, or is a served connection's. -/
theorem step_kinds (h : step server m e = some m') :
    (e = .shutdown ∧ m' = { m with shutdown := true }) ∨
    (∃ c, e = .accept c ∧ m.conns c = .absent ∧ m' = m.goto c .awaitRegister) ∨
    (∃ c frame, e = .registerFrame c frame ∧ m.conns c = .awaitRegister ∧
      m' = m.goto c (server.handleRegister frame)) ∨
    ∃ c, e.conn = some c ∧ Served m m' c := by
  cases step_moves h with
  | shutdown => exact .inl ⟨rfl, rfl⟩
  | accept hc hrun => exact .inr (.inl ⟨_, rfl, hc, rfl⟩)
  | registerFrame hc => exact .inr (.inr (.inl ⟨_, _, rfl, hc, rfl⟩))
  | accepted hc | refused hc | pinged hc | replied hc =>
    refine .inr (.inr (.inr ⟨_, rfl, .send_goto ?_ ?_ ?_ ?_⟩))
    all_goals simp [hc, Phase.node, Phase.Waits]
  | @register c info p hc hp =>
    have hreg : ∀ k, k ≠ info.nodeId →
        (m.registry.register info.nodeId info.role info.endpoints info.metadata).getNode k =
          m.registry.getNode k := fun k hk => by rw [getNode_register, if_neg hk]
    split at hp <;> subst hp <;>
      refine .inr (.inr (.inr ⟨c, rfl, .write_goto (n := info.nodeId) _ ?_ ?_ ?_ ?_ hreg
        keyed_register⟩))
    all_goals simp [hc, Phase.node, Phase.Waits]
  | cancelled hc hrun | timedOut hc hrun hk | ticked hc hrun hk | unpinged hc | list hc =>
    refine .inr (.inr (.inr ⟨_, rfl, .goto (by rw [hc]; rfl) ?_ ?_ ?_⟩))
    all_goals simp [hc, Phase.node, Phase.Waits]
  | @frame c n k f hc hrun =>
    obtain ⟨hwaits, hack⟩ := handleFrame_served n k f
    refine .inr (.inr (.inr ⟨c, rfl, .goto (n := n) ?_ (.inr (handleFrame_node n k f))
      ⟨?_, hwaits⟩ hack⟩))
    all_goals simp [hc, Phase.node, Phase.Waits]
  | unregister hc =>
    refine .inr (.inr (.inr ⟨_, rfl, .write_goto _ (by rw [hc]; rfl) ?_ ?_ ?_
      (fun k hk => by rw [getNode_unregister, if_neg hk]) keyed_unregister⟩))
    all_goals simp [hc, Phase.node, Phase.Waits]
  | setOffline hc =>
    refine .inr (.inr (.inr ⟨_, rfl, .write_goto _ (by rw [hc]; rfl) ?_ ?_ ?_
      (fun k hk => by rw [getNode_setStatus, if_neg hk]) keyed_setStatus⟩))
    all_goals simp [hc, Phase.node, Phase.Waits]

theorem conns_of_ne (h : step server m e = some m') (hc : e.conn ≠ some c) :
    m'.conns c = m.conns c := by
  rcases step_kinds h with ⟨rfl, rfl⟩ | ⟨c', rfl, -, rfl⟩ | ⟨c', frame, rfl, -, rfl⟩ | ⟨c', hc', hs⟩
  · rfl
  · exact goto_of_ne fun hcc => hc (hcc ▸ rfl)
  · exact goto_of_ne fun hcc => hc (hcc ▸ rfl)
  · exact (hs.others c fun hcc => hc (hcc ▸ hc')).1

-- ---------------------------------------------------------------------------
-- What a run has come from
-- ---------------------------------------------------------------------------

theorem firstFrame_concat : firstFrame (es ++ [e]) c = (firstFrame es c).or (firstFrame [e] c) :=
  List.findSome?_append

theorem firstFrame_single_ne (h : ∀ frame, e ≠ .registerFrame c frame) :
    firstFrame [e] c = none := by
  cases e with
  | registerFrame c' frame =>
    have hne : c' ≠ c := fun hc => h frame (by rw [hc])
    simp [firstFrame, hne]
  | _ => rfl

theorem RegisteredAs.concat (h : RegisteredAs server es c n) (e : Event) :
    RegisteredAs server (es ++ [e]) c n := by
  obtain ⟨role, endpoints, metadata, hf⟩ := h
  exact ⟨role, endpoints, metadata, by rw [firstFrame_concat, hf, Option.some_or]⟩

theorem handleRegister_node (htoken : server.token ≠ "")
    (h : (server.handleRegister frame).node = some n) :
    ∃ role endpoints metadata,
      frame = some (.message (.register n role endpoints metadata server.token)) := by
  unfold ClusterServer.handleRegister at h
  split at h
  · rename_i nodeId role endpoints metadata token
    split at h
    · cases h
    · rename_i hok
      have htok : token = server.token := not_not.mp fun hne => hok ⟨htoken, hne⟩
      cases h
      exact ⟨role, endpoints, metadata, by rw [htok]⟩
  · cases h

theorem handleRegister_ack {ack : ClusterMessage}
    (h : server.handleRegister frame = .acking ack info) :
    ∃ success error, ack = .registerAck success error := by
  unfold ClusterServer.handleRegister at h
  split at h
  · split at h <;> cases h
    · exact ⟨_, _, rfl⟩
    · exact ⟨_, _, rfl⟩
  · cases h

theorem handleRegister_waits : ¬ (server.handleRegister frame).Waits := by
  unfold ClusterServer.handleRegister
  split
  · split <;> exact id
  · exact id

/-- Every connection that stands for a node, or has been sent a list, has
registered with the token. -/
structure Attributed (server : ClusterServer) (es : List Event) (m : Main) : Prop where
  waiting : ∀ c, (m.conns c).Waits → firstFrame es c = none
  node : ∀ c n, (m.conns c).node = some n → RegisteredAs server es c n
  acks : ∀ c ack info, m.conns c = .acking ack info →
    ∃ success error, ack = .registerAck success error
  lists : ∀ c nodes, .nodeList nodes ∈ m.sent c → ∃ n, RegisteredAs server es c n

theorem Attributed.init : Attributed server [] .init where
  waiting _ _ := rfl
  node c n h := by simp [Main.init, Phase.node] at h
  acks c ack info h := by simp [Main.init] at h
  lists c nodes h := by simp [Main.init] at h

theorem Attributed.served (hi : Attributed server es m) (hc : e.conn = some c)
    (hs : Served m m' c) : Attributed server (es ++ [e]) m' where
  waiting c' hw := by
    by_cases hcc : c' = c
    · subst hcc
      exact absurd hw hs.waits.2
    · have hne : ∀ frame, e ≠ .registerFrame c' frame := by
        rintro frame rfl
        exact hcc (Option.some.inj hc)
      rw [(hs.others c' hcc).1] at hw
      rw [firstFrame_concat, hi.waiting c' hw, firstFrame_single_ne hne, Option.none_or]
  node c' n hn := by
    by_cases hcc : c' = c
    · subst hcc
      exact (hi.node c' n (hs.node n hn)).concat e
    · rw [(hs.others c' hcc).1] at hn
      exact (hi.node c' n hn).concat e
  acks c' ack info ha := by
    by_cases hcc : c' = c
    · subst hcc
      exact absurd ha (hs.acking ack info)
    · rw [(hs.others c' hcc).1] at ha
      exact hi.acks c' ack info ha
  lists c' nodes hl := by
    by_cases hcc : c' = c
    · subst hcc
      rcases hs.sent _ hl with hl | ⟨info, ha⟩ | hn
      · obtain ⟨n, hr⟩ := hi.lists c' nodes hl
        exact ⟨n, hr.concat e⟩
      · obtain ⟨success, error, ha⟩ := hi.acks c' _ info ha
        cases ha
      · obtain ⟨n, hn⟩ := Option.isSome_iff_exists.mp hn
        exact ⟨n, (hi.node c' n hn).concat e⟩
    · rw [(hs.others c' hcc).2] at hl
      obtain ⟨n, hr⟩ := hi.lists c' nodes hl
      exact ⟨n, hr.concat e⟩

theorem Attributed.goto (hi : Attributed server es m)
    (hother : ∀ c', c' ≠ c → ∀ frame, e ≠ .registerFrame c' frame)
    (hwaiting : p.Waits → firstFrame (es ++ [e]) c = none)
    (hnode : ∀ n, p.node = some n → RegisteredAs server (es ++ [e]) c n)
    (hack : ∀ ack info, p = .acking ack info → ∃ success error, ack = .registerAck success error) :
    Attributed server (es ++ [e]) (m.goto c p) where
  waiting c' hw := by
    by_cases hcc : c' = c
    · subst hcc
      rw [goto_same] at hw
      exact hwaiting hw
    · rw [goto_of_ne hcc] at hw
      rw [firstFrame_concat, hi.waiting c' hw, firstFrame_single_ne (hother c' hcc),
        Option.none_or]
  node c' n hn := by
    by_cases hcc : c' = c
    · subst hcc
      rw [goto_same] at hn
      exact hnode n hn
    · rw [goto_of_ne hcc] at hn
      exact (hi.node c' n hn).concat e
  acks c' ack info ha := by
    by_cases hcc : c' = c
    · subst hcc
      rw [goto_same] at ha
      exact hack ack info ha
    · rw [goto_of_ne hcc] at ha
      exact hi.acks c' ack info ha
  lists c' nodes hl := by
    obtain ⟨n, hr⟩ := hi.lists c' nodes hl
    exact ⟨n, hr.concat e⟩

theorem Attributed.step (htoken : server.token ≠ "") (hi : Attributed server es m)
    (h : step server m e = some m') : Attributed server (es ++ [e]) m' := by
  rcases step_kinds h with ⟨rfl, rfl⟩ | ⟨c, rfl, hc, rfl⟩ | ⟨c, frame, rfl, hc, rfl⟩ | ⟨c, hc, hs⟩
  · have hfirst : ∀ c, firstFrame (es ++ [.shutdown]) c = firstFrame es c := fun c => by
      rw [firstFrame_concat]
      exact Option.or_none
    refine ⟨fun c hw => (hfirst c).trans (hi.waiting c hw), ?_, hi.acks, ?_⟩
    · exact fun c n hn => (hi.node c n hn).concat _
    · intro c nodes hl
      obtain ⟨n, hr⟩ := hi.lists c nodes hl
      exact ⟨n, hr.concat _⟩
  · refine hi.goto (fun _ _ _ => by simp) (fun _ => ?_) (by simp [Phase.node]) (by simp)
    rw [firstFrame_concat, hi.waiting c (by rw [hc]; trivial)]
    rfl
  · have hfirst : firstFrame (es ++ [.registerFrame c frame]) c = some frame := by
      rw [firstFrame_concat, hi.waiting c (by rw [hc]; trivial)]
      simp [firstFrame]
    refine hi.goto ?_ (fun hw => absurd hw handleRegister_waits) ?_ fun _ _ => handleRegister_ack
    · rintro c' hne frame' ⟨⟩
      exact hne rfl
    · intro n hn
      obtain ⟨role, endpoints, metadata, rfl⟩ := handleRegister_node htoken hn
      exact ⟨role, endpoints, metadata, hfirst⟩
  · exact hi.served hc hs

end

/-- With a token to be checked, in any run of any number of connections: the
step that changes an entry of the registry is one of a connection whose first
message was a `Register` of that very node with the token, and a connection is
sent a `NodeList` only if its first message was a `Register` with the token.

Premise: the server's token is not empty. -/
theorem entries_change_by_their_connection (server : ClusterServer) (htoken : server.token ≠ "")
    (es : List Event) (m : Main) (hr : run (step server) .init es = some m) :
    (∀ e m' n, step server m e = some m' → m'.registry.getNode n ≠ m.registry.getNode n →
      ∃ c, e.conn = some c ∧ RegisteredAs server es c n) ∧
    ∀ c nodes, .nodeList nodes ∈ m.sent c → ∃ n, RegisteredAs server es c n := by
  have hi : Attributed server es m :=
    run_history_invariant [] Attributed.init (fun _ _ _ _ hi hs => hi.step htoken hs) hr
  refine ⟨fun e m' n hs hn => ?_, hi.lists⟩
  rcases step_kinds hs with ⟨-, rfl⟩ | ⟨c, -, -, rfl⟩ | ⟨c, frame, -, -, rfl⟩ | ⟨c, hc, hserved⟩
  · exact absurd rfl hn
  · exact absurd rfl hn
  · exact absurd rfl hn
  · refine ⟨c, hc, hi.node c n ?_⟩
    by_contra hne
    exact hn (hserved.registry n hne)

/-- The first message of the one connection has the token, that of the other
has not. -/
def twoMessages : List Event :=
  [.accept 0, .registerFrame 0 (some (.message (.register "w" .worker [] ∅ "secret"))),
    .accept 1, .registerFrame 1 (some (.message (.register "w" .worker [] ∅ "guess"))),
    .ack 1 true, .ack 0 true, .register 0, .frame 0 (.message .listNodes), .list 0,
    .replied 0 true]

theorem twoMessages_isolated :
    ∃ m, run (step ⟨"secret", fromSecs 10⟩) .init twoMessages = some m ∧
      (∀ e m' n, step ⟨"secret", fromSecs 10⟩ m e = some m' →
        m'.registry.getNode n ≠ m.registry.getNode n →
        ∃ c, e.conn = some c ∧ RegisteredAs ⟨"secret", fromSecs 10⟩ twoMessages c n) ∧
      ∀ c nodes, .nodeList nodes ∈ m.sent c →
        ∃ n, RegisteredAs ⟨"secret", fromSecs 10⟩ twoMessages c n :=
  ⟨_, rfl, entries_change_by_their_connection ⟨"secret", fromSecs 10⟩ (by decide) twoMessages _ rfl⟩

end Rinfra.Cluster
