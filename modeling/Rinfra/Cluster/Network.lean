import Mathlib.Order.Monotone.Basic
import Rinfra.Cluster.Listing
import Rinfra.Cluster.Worker

/-!
# The main node and its workers

The two ends put together: what one writes to a connection the other reads, in the order
it was written, up to a point. A worker that connects again leaves what the old connection
still holds. Steps of the main node, of any number of workers and of the connections
between them interleave in any way.
-/

namespace Rinfra.Cluster

open Rinfra.Lib

def Event.takes : Event → Option Nat
  | .ack c true | .pinged c true | .replied c true => some c
  | _ => none

def Event.isRead : Event → Bool
  | .registerFrame _ (some (.message _)) | .frame _ (.message _) => true
  | _ => false

def Worker.Event.isRead : Worker.Event → Bool
  | .register true (some (.message _)) | .frame (.message _) => true
  | _ => false

/-- What the task writes in a step. Its `Register` is written before the step that has
the reply. -/
def Worker.Task.writes (cfg : Worker.Config) (t : Worker.Task) :
    Worker.Event → Option ClusterMessage
  | .sent true => match t.phase with
    | .sending msg => some msg
    | _ => none
  | .deregistered true => some (.deregister cfg.nodeId)
  | _ => none

/-- It has a message to be sent, or a list to be stored. -/
def Worker.Phase.Carries : Worker.Phase → Prop
  | .sending _ | .updating _ => True
  | _ => False

/-- A frame on its way to a worker, and the number of steps after which the registry was
last read for its connection. -/
structure Parcel where
  msg : ClusterMessage
  readAt : Nat

structure Network where
  main : Main
  tasks : Nat → Worker.Task
  /-- The connection that a worker opened last. -/
  link : Nat → Option Nat
  opened : Nat
  /-- The `Register` has been written. -/
  greeted : Nat → Bool
  /-- What the main node has not read, and what the worker has not, the oldest first. -/
  up : Nat → List ClusterMessage
  down : Nat → List Parcel
  /-- The steps so far, and where in them a connection last read the registry. -/
  clock : Nat
  readAt : Nat → Nat
  /-- When the list was read that a worker received last, and the one it holds. -/
  seenAt : Nat → Nat
  asOf : Nat → Nat

inductive Move
  | main (e : Event)
  /-- A connection of the main node reads the next message. -/
  | receive (c : Nat)
  | work (w : Nat) (e : Worker.Event)
  /-- A worker writes its `Register`. -/
  | greet (w : Nat)
  /-- A worker reads the next message. -/
  | deliver (w : Nat)

namespace Network

def init : Network where
  main := .init
  tasks _ := .init
  link _ := none
  opened := 0
  greeted _ := false
  up _ := []
  down _ := []
  clock := 0
  readAt _ := 0
  seenAt _ := 0
  asOf _ := 0

def reading (m : Main) (c : Nat) (msg : ClusterMessage) : Event :=
  match m.conns c with
  | .awaitRegister => .registerFrame c (some (.message msg))
  | _ => .frame c (.message msg)

def delivering (t : Worker.Task) (msg : ClusterMessage) : Worker.Event :=
  match t.phase with
  | .registering => .register true (some (.message msg))
  | _ => .frame (.message msg)

def written (n : Network) (e : Event) : Nat → List Parcel :=
  match e.takes with
  | some c => Function.update n.down c
      (n.down c ++ ((n.main.conns c).outgoing.map (⟨·, n.readAt c⟩)).toList)
  | none => n.down

def advance (n : Network) (e : Event) (main : Main) : Network :=
  { n with
    main
    clock := n.clock + 1
    down := n.written e
    readAt := match e with
      | .list c => Function.update n.readAt c n.clock
      | _ => n.readAt }

def act (n : Network) (cfg : Nat → Worker.Config) (w : Nat) (e : Worker.Event)
    (t : Worker.Task) : Network :=
  { n with
    tasks := Function.update n.tasks w t
    clock := n.clock + 1
    up := match n.link w, (n.tasks w).writes (cfg w) e with
      | some c, some msg => Function.update n.up c (n.up c ++ [msg])
      | _, _ => n.up
    link := match e with
      | .connect true => Function.update n.link w (some n.opened)
      | _ => n.link
    opened := match e with
      | .connect true => n.opened + 1
      | _ => n.opened
    asOf := match e with
      | .updated => Function.update n.asOf w (n.seenAt w)
      | _ => n.asOf }

def hand (n : Network) (w c : Nat) (parcel : Parcel) (rest : List Parcel) (t : Worker.Task) :
    Network :=
  { n with
    tasks := Function.update n.tasks w t
    clock := n.clock + 1
    down := Function.update n.down c rest
    seenAt := match parcel.msg with
      | .nodeList _ => Function.update n.seenAt w parcel.readAt
      | _ => n.seenAt }

/-- Only what a worker has opened is accepted. -/
def allows (n : Network) : Event → Bool
  | .accept c => c < n.opened
  | e => !e.isRead

/-- The worker waits for the reply only after it has written its `Register`. -/
def permits (n : Network) (w : Nat) : Worker.Event → Bool
  | .register sent reply => (n.link w).any (fun c => n.greeted c) == sent &&
      !(Worker.Event.register sent reply).isRead
  | e => !e.isRead

def step (server : ClusterServer) (cfg : Nat → Worker.Config) (n : Network) :
    Move → Option Network
  | .main e => do
    if n.allows e then
      let main ← Cluster.step server n.main e
      pure (n.advance e main)
    else none
  | .receive c => do
    let msg :: rest := n.up c | none
    let main ← Cluster.step server n.main (reading n.main c msg)
    pure { n.advance (reading n.main c msg) main with up := Function.update n.up c rest }
  | .work w e => do
    if n.permits w e then
      let t ← Worker.step (cfg w) (n.tasks w) e
      pure (n.act cfg w e t)
    else none
  | .greet w => do
    let .registering := (n.tasks w).phase | none
    let some c := n.link w | none
    if n.greeted c then none
    else pure { n with
      clock := n.clock + 1
      greeted := Function.update n.greeted c true
      up := Function.update n.up c (n.up c ++ [(cfg w).registerMessage]) }
  | .deliver w => do
    let some c := n.link w | none
    let parcel :: rest := n.down c | none
    if n.greeted c then
      let t ← Worker.step (cfg w) (n.tasks w) (delivering (n.tasks w) parcel.msg)
      pure (n.hand w c parcel rest t)
    else none

inductive Moved (server : ClusterServer) (cfg : Nat → Worker.Config) (n : Network) :
    Move → Network → Prop
  | main (hallows : n.allows e) (h : Cluster.step server n.main e = some m) :
      Moved server cfg n (.main e) (n.advance e m)
  | receive (hup : n.up c = msg :: rest)
      (h : Cluster.step server n.main (reading n.main c msg) = some m) :
      Moved server cfg n (.receive c)
        { n.advance (reading n.main c msg) m with up := Function.update n.up c rest }
  | work (hpermits : n.permits w e) (h : Worker.step (cfg w) (n.tasks w) e = some t) :
      Moved server cfg n (.work w e) (n.act cfg w e t)
  | greet (hp : (n.tasks w).phase = .registering) (hl : n.link w = some c)
      (hg : n.greeted c = false) :
      Moved server cfg n (.greet w) { n with
        clock := n.clock + 1
        greeted := Function.update n.greeted c true
        up := Function.update n.up c (n.up c ++ [(cfg w).registerMessage]) }
  | deliver (hl : n.link w = some c) (hdown : n.down c = parcel :: rest)
      (h : Worker.step (cfg w) (n.tasks w) (delivering (n.tasks w) parcel.msg) = some t) :
      Moved server cfg n (.deliver w) (n.hand w c parcel rest t)

theorem step_moved (h : step server cfg n v = some n') : Moved server cfg n v n' := by
  cases v with
  | main e =>
    simp only [step, Option.bind_eq_bind, Option.pure_def] at h
    split at h
    · rename_i hallows
      obtain ⟨m, hm, h⟩ := Option.bind_eq_some_iff.mp h
      cases h
      exact .main hallows hm
    · cases h
  | receive c =>
    simp only [step, Option.bind_eq_bind, Option.pure_def] at h
    split at h
    · rename_i msg rest hup
      obtain ⟨m, hm, h⟩ := Option.bind_eq_some_iff.mp h
      cases h
      exact .receive hup hm
    · cases h
  | work w e =>
    simp only [step, Option.bind_eq_bind, Option.pure_def] at h
    split at h
    · rename_i hpermits
      obtain ⟨t, ht, h⟩ := Option.bind_eq_some_iff.mp h
      cases h
      exact .work hpermits ht
    · cases h
  | greet w =>
    simp only [step, Option.pure_def] at h
    split at h
    · rename_i hp
      split at h
      · rename_i c hl
        split at h
        · cases h
        · rename_i hg
          cases h
          exact .greet hp hl (by simpa using hg)
      · cases h
    · cases h
  | deliver w =>
    simp only [step, Option.bind_eq_bind, Option.pure_def] at h
    split at h
    · rename_i c hl
      split at h
      · rename_i parcel rest hdown
        split at h
        · obtain ⟨t, ht, h⟩ := Option.bind_eq_some_iff.mp h
          cases h
          exact .deliver hl hdown ht
        · cases h
      · cases h
    · cases h

-- ---------------------------------------------------------------------------
-- The lists that are to come
-- ---------------------------------------------------------------------------

/-- The lists that a connection has still to deliver, the next one first, each with the
number of steps it was read after. -/
def upcoming (n : Network) (c : Nat) : List (List NodeInfo × Nat) :=
  (n.down c).filterMap (fun p => p.msg.nodes.map (·, p.readAt)) ++
    (((n.main.conns c).outgoing.bind ClusterMessage.nodes).map (·, n.readAt c)).toList

section
variable {server : ClusterServer} {cfg : Nat → Worker.Config} {n n' : Network} {m : Main}

theorem conn_of_takes {e : Event} (h : e.takes = some c) : e.conn = some c := by
  cases e with
  | ack c' sent | pinged c' sent | replied c' sent => cases sent <;> first | exact h | cases h
  | _ => cases h

theorem written_of_ne {e : Event} (h : e.conn ≠ some c) : n.written e c = n.down c := by
  cases ht : e.takes with
  | none => simp only [written, ht]
  | some c' =>
    have hne : c ≠ c' := by
      rintro rfl
      exact h (conn_of_takes ht)
    simp only [written, ht, Function.update_of_ne hne]

theorem readAt_of_ne {e : Event} (h : e ≠ .list c) : (n.advance e m).readAt c = n.readAt c := by
  unfold advance
  dsimp only
  split
  · rename_i c'
    refine Function.update_of_ne ?_ ..
    rintro rfl
    exact h rfl
  · rfl

/-- A step of the main node adds to the lists to come what it reads in the registry, and
nothing else. -/
theorem upcoming_advance {e : Event} (h : Cluster.step server n.main e = some m) :
    (e = .list c ∧ (n.advance e m).upcoming c =
        n.upcoming c ++ [(n.main.registry.listNodes, n.clock)]) ∨
      ((n.advance e m).upcoming c).Sublist (n.upcoming c) := by
  by_cases hlist : e = .list c
  · left
    subst hlist
    refine ⟨rfl, ?_⟩
    cases step_moves h with
    | list hp =>
      simp [upcoming, advance, written, Event.takes, hp, Phase.outgoing, ClusterMessage.nodes]
  · right
    by_cases hc : e.conn = some c
    · have hnone : (m.conns c).outgoing.bind ClusterMessage.nodes = none := by
        rw [Option.bind_eq_none_iff]
        rintro (_ | _ | _ | _ | nodes | _ | _) ho <;> try rfl
        exact absurd (outgoing_of_step h hc ho).1 hlist
      have hdown : ((n.written e c).filterMap fun p => p.msg.nodes.map (·, p.readAt)).Sublist
          (n.upcoming c) := by
        cases ht : e.takes with
        | none =>
          simp only [written, ht]
          exact List.sublist_append_left ..
        | some c' =>
          obtain rfl : c' = c := Option.some.inj ((conn_of_takes ht).symm.trans hc)
          simp only [written, ht]
          rw [Function.update_self, List.filterMap_append, upcoming]
          refine List.Sublist.append (List.Sublist.refl _) ?_
          cases (n.main.conns c').outgoing with
          | none => exact List.nil_sublist _
          | some msg => cases hmsg : msg.nodes <;> simp [hmsg]
      rw [upcoming, show ((n.advance e m).main.conns c) = m.conns c from rfl, hnone]
      simpa [advance] using hdown
    · rw [upcoming, readAt_of_ne hlist, show (n.advance e m).down c = n.written e c from rfl,
        written_of_ne hc, show (n.advance e m).main.conns c = m.conns c from rfl,
        conns_of_ne h hc]
      exact List.Sublist.refl _

theorem accept_of_absent {e : Event} (h : Cluster.step server n.main e = some m)
    (hp : n.main.conns c = .absent) (hc : e.conn = some c) : e = .accept c := by
  cases step_moves h with
  | shutdown => cases hc
  | accept => exact congrArg _ (Option.some.inj hc)
  | _ =>
    cases hc
    simp_all

end

-- ---------------------------------------------------------------------------
-- What the lists say
-- ---------------------------------------------------------------------------

/-- Every list on its way or held is the registry's after some number of steps, and a
worker receives them in the order they were read. `history` is the registry after each
number of steps. -/
structure Inv (history : Nat → ConnectedRegistry) (n : Network) : Prop where
  now : history n.clock = n.main.registry
  lists : ∀ c, ∀ x ∈ n.upcoming c, x.1 = (history x.2).listNodes ∧ x.2 ≤ n.clock
  ordered : ∀ c, (n.upcoming c).Pairwise fun x y => x.2 ≤ y.2
  seen : ∀ w c, n.link w = some c → ∀ x ∈ n.upcoming c, n.seenAt w ≤ x.2
  bounds : ∀ w, n.asOf w ≤ n.seenAt w ∧ n.seenAt w ≤ n.clock
  held : ∀ w, (n.tasks w).nodeList = (history (n.asOf w)).listNodes
  updating : ∀ w nodes, (n.tasks w).phase = .updating nodes →
    nodes = (history (n.seenAt w)).listNodes
  unopened : ∀ c, n.opened ≤ c → n.main.conns c = .absent ∧ n.down c = []

section
variable {server : ClusterServer} {cfg : Nat → Worker.Config} {n n' : Network} {m : Main}
  {history : Nat → ConnectedRegistry}

theorem upcoming_of_unopened (hp : n.main.conns c = .absent) (hd : n.down c = []) :
    n.upcoming c = [] := by
  simp [upcoming, hp, hd, Phase.outgoing]

theorem inv_init (h : history 0 = .new) : Inv history init where
  now := h
  lists c x hx := by simp [upcoming, init, Main.init, Phase.outgoing] at hx
  ordered c := by simp [upcoming, init, Main.init, Phase.outgoing]
  seen w c hl := by simp [init] at hl
  bounds w := ⟨Nat.le_refl _, Nat.le_refl _⟩
  held w := by
    show [] = (history 0).listNodes
    rw [h]
    rfl
  updating w nodes hp := by simp [init, Worker.Task.init] at hp
  unopened c _ := ⟨rfl, rfl⟩

theorem Inv.advance {e : Event} (hi : Inv history n)
    (h : Cluster.step server n.main e = some m) (hallows : ∀ c, e = .accept c → c < n.opened)
    (hnow : history (n.clock + 1) = m.registry) : Inv history (n.advance e m) where
  now := hnow
  lists c x hx := by
    rcases upcoming_advance h with ⟨-, hup⟩ | hsub
    · rw [hup] at hx
      rcases List.mem_append.mp hx with hx | hx
      · exact ⟨(hi.lists c x hx).1, Nat.le_succ_of_le (hi.lists c x hx).2⟩
      · rw [List.mem_singleton.mp hx]
        exact ⟨congrArg ConnectedRegistry.listNodes hi.now.symm, Nat.le_succ _⟩
    · have hx := hi.lists c x (hsub.subset hx)
      exact ⟨hx.1, Nat.le_succ_of_le hx.2⟩
  ordered c := by
    rcases upcoming_advance h with ⟨-, hup⟩ | hsub
    · rw [hup, List.pairwise_append]
      refine ⟨hi.ordered c, List.pairwise_singleton .., fun x hx y hy => ?_⟩
      rw [List.mem_singleton.mp hy]
      exact (hi.lists c x hx).2
    · exact (hi.ordered c).sublist hsub
  seen w c hl x hx := by
    rcases upcoming_advance h with ⟨-, hup⟩ | hsub
    · rw [hup] at hx
      rcases List.mem_append.mp hx with hx | hx
      · exact hi.seen w c hl x hx
      · rw [List.mem_singleton.mp hx]
        exact (hi.bounds w).2
    · exact hi.seen w c hl x (hsub.subset hx)
  bounds w := ⟨(hi.bounds w).1, Nat.le_succ_of_le (hi.bounds w).2⟩
  held := hi.held
  updating := hi.updating
  unopened c hc := by
    obtain ⟨hp, hd⟩ := hi.unopened c hc
    have hne : e.conn ≠ some c := by
      intro he
      exact absurd (hallows c (accept_of_absent h hp he)) (Nat.not_lt.mpr hc)
    exact ⟨(conns_of_ne h hne).trans hp, (written_of_ne hne).trans hd⟩

theorem Inv.of_up (hi : Inv history n) (up : Nat → List ClusterMessage) :
    Inv history { n with up } :=
  ⟨hi.now, hi.lists, hi.ordered, hi.seen, hi.bounds, hi.held, hi.updating, hi.unopened⟩

theorem step_carries {c : Worker.Config} {t t' : Worker.Task} {e : Worker.Event}
    (h : Worker.step c t e = some t') :
    (∃ nodes, e = .updated ∧ t.phase = .updating nodes ∧
      t' = { t with phase := .select, nodeList := nodes }) ∨
    (∃ frame, e = .frame frame ∧ t' = { t with phase := Worker.handleFrame frame }) ∨
    (∃ msg, (msg = .ping ∨ msg = .listNodes) ∧ e ≠ .updated ∧
      t' = { t with phase := .sending msg }) ∨
    e ≠ .updated ∧ t'.nodeList = t.nodeList ∧ (t'.phase = t.phase ∨ ¬ t'.phase.Carries) := by
  cases e with
  | shutdown | isConnected =>
    cases h
    exact .inr (.inr (.inr ⟨by simp, rfl, .inl rfl⟩))
  | store =>
    simp only [Worker.step, Worker.Task.storeState] at h
    split at h <;> cases h
    · exact .inr (.inr (.inr ⟨by simp, rfl, .inr id⟩))
    · exact .inr (.inr (.inr ⟨by simp, rfl, .inr id⟩))
    · refine .inr (.inr (.inr ⟨by simp, rfl, .inr ?_⟩))
      dsimp only
      split <;> exact id
    · exact .inr (.inr (.inr ⟨by simp, rfl, .inr id⟩))
  | connect ok | sent ok =>
    simp only [Worker.step] at h
    split at h
    · cases ok <;> cases h <;> exact .inr (.inr (.inr ⟨by simp, rfl, .inr id⟩))
    · cases h
  | register sent reply =>
    simp only [Worker.step] at h
    split at h
    · split at h <;> cases h <;>
        exact .inr (.inr (.inr ⟨by simp, by split <;> rfl, .inr id⟩))
    · cases h
  | slept | deregistered =>
    simp only [Worker.step] at h
    split at h <;> cases h
    exact .inr (.inr (.inr ⟨by simp, rfl, .inr id⟩))
  | updated =>
    simp only [Worker.step] at h
    split at h <;> cases h
    rename_i nodes hp
    exact .inl ⟨nodes, rfl, hp, rfl⟩
  | cancelled =>
    simp only [Worker.step] at h
    split at h
    · split at h <;> cases h
      · exact .inr (.inr (.inr ⟨by simp, rfl, .inr id⟩))
      · exact .inr (.inr (.inr ⟨by simp, rfl, .inr id⟩))
    · cases h
  | pingTick | syncTick =>
    simp only [Worker.step] at h
    split at h
    · split at h <;> cases h
      exact .inr (.inr (.inl ⟨_, by simp, by simp, rfl⟩))
    · cases h
  | frame frame =>
    simp only [Worker.step] at h
    split at h
    · split at h <;> cases h
      exact .inr (.inl ⟨frame, rfl, rfl⟩)
    · cases h

theorem handleFrame_updating (h : Worker.handleFrame frame = .updating nodes) :
    frame = .message (.nodeList nodes) := by
  unfold Worker.handleFrame at h
  split at h <;> cases h
  rfl

theorem list_of_step {c : Worker.Config} {t t' : Worker.Task} {e : Worker.Event}
    (h : Worker.step c t e = some t') :
    (e = .updated ∧ t.phase = .updating t'.nodeList ∨ e ≠ .updated ∧ t'.nodeList = t.nodeList) ∧
      ∀ nodes, t'.phase = .updating nodes →
        t.phase = .updating nodes ∨ e = .frame (.message (.nodeList nodes)) := by
  rcases step_carries h with ⟨nodes, rfl, hp, rfl⟩ | ⟨frame, rfl, rfl⟩ | ⟨msg, -, he, rfl⟩ |
    ⟨he, hlist, hp⟩
  · exact ⟨.inl ⟨rfl, hp⟩, by simp⟩
  · refine ⟨.inr ⟨by simp, rfl⟩, fun nodes hn => .inr ?_⟩
    rw [handleFrame_updating hn]
  · exact ⟨.inr ⟨he, rfl⟩, by simp⟩
  · refine ⟨.inr ⟨he, hlist⟩, fun nodes hn => .inl ?_⟩
    rcases hp with hp | hp
    · rw [← hp, hn]
    · rw [hn] at hp
      exact absurd trivial hp

theorem permits_frame : n.permits w (.frame (.message msg)) = false := rfl

theorem phase_of_delivering {c : Worker.Config} {t t' : Worker.Task}
    (h : Worker.step c t (delivering t msg) = some t') :
    t.phase = .registering ∨ t.phase = .select ∧ delivering t msg = .frame (.message msg) := by
  cases hp : t.phase with
  | registering => exact .inl rfl
  | select => exact .inr ⟨rfl, by simp only [delivering, hp]⟩
  | _ => simp [delivering, hp, Worker.step] at h

theorem act_asOf (n : Network) (cfg : Nat → Worker.Config) (w : Nat) (e : Worker.Event)
    (t : Worker.Task) (w' : Nat) : (n.act cfg w e t).asOf w' = n.asOf w' ∨
    w' = w ∧ e = .updated ∧ (n.act cfg w e t).asOf w' = n.seenAt w := by
  cases e with
  | updated =>
    by_cases hw : w' = w
    · subst hw
      exact .inr ⟨rfl, rfl, Function.update_self ..⟩
    · exact .inl (Function.update_of_ne hw ..)
  | _ => exact .inl rfl

theorem act_link {e : Worker.Event} (h : (n.act cfg w e t).link w' = some c) :
    n.link w' = some c ∨ c = n.opened := by
  unfold act at h
  dsimp only at h
  split at h
  · by_cases hw : w' = w
    · subst hw
      rw [Function.update_self] at h
      exact .inr (Option.some.inj h).symm
    · rw [Function.update_of_ne hw] at h
      exact .inl h
  · exact .inl h

theorem le_act_opened {e : Worker.Event} : n.opened ≤ (n.act cfg w e t).opened := by
  unfold act
  dsimp only
  split
  · exact Nat.le_succ _
  · exact Nat.le_refl _

theorem Inv.act {e : Worker.Event} (hi : Inv history n) (hpermits : n.permits w e)
    (h : Worker.step (cfg w) (n.tasks w) e = some t)
    (hnow : history (n.clock + 1) = n.main.registry) : Inv history (n.act cfg w e t) where
  now := hnow
  lists c x hx := ⟨(hi.lists c x hx).1, Nat.le_succ_of_le (hi.lists c x hx).2⟩
  ordered := hi.ordered
  seen w' c hl x hx := by
    rcases act_link hl with hl | rfl
    · exact hi.seen w' c hl x hx
    · obtain ⟨hp, hd⟩ := hi.unopened n.opened (Nat.le_refl _)
      have hnone : x ∈ n.upcoming n.opened := hx
      rw [upcoming_of_unopened hp hd] at hnone
      cases hnone
  bounds w' := by
    rcases act_asOf n cfg w e t w' with ha | ⟨rfl, -, ha⟩
    · rw [ha]
      exact ⟨(hi.bounds w').1, Nat.le_succ_of_le (hi.bounds w').2⟩
    · rw [ha]
      exact ⟨Nat.le_refl _, Nat.le_succ_of_le (hi.bounds w').2⟩
  held w' := by
    by_cases hw : w' = w
    · subst hw
      have htask : (n.act cfg w' e t).tasks w' = t := Function.update_self ..
      rw [htask]
      rcases (list_of_step h).1 with ⟨rfl, hp⟩ | ⟨he, hlist⟩
      · rw [show (n.act cfg w' .updated t).asOf w' = n.seenAt w' from Function.update_self ..]
        exact hi.updating w' _ hp
      · rcases act_asOf n cfg w' e t w' with ha | ⟨-, he', -⟩
        · rw [ha, hlist]
          exact hi.held w'
        · exact absurd he' he
    · rcases act_asOf n cfg w e t w' with ha | ⟨hw', -, -⟩
      · rw [ha, show (n.act cfg w e t).tasks w' = n.tasks w' from Function.update_of_ne hw ..]
        exact hi.held w'
      · exact absurd hw' hw
  updating w' nodes hp := by
    by_cases hw : w' = w
    · subst hw
      rw [show (n.act cfg w' e t).tasks w' = t from Function.update_self ..] at hp
      rcases (list_of_step h).2 nodes hp with hp | rfl
      · exact hi.updating w' nodes hp
      · rw [permits_frame] at hpermits
        cases hpermits
    · rw [show (n.act cfg w e t).tasks w' = n.tasks w' from Function.update_of_ne hw ..] at hp
      exact hi.updating w' nodes hp
  unopened c hc := hi.unopened c (Nat.le_trans le_act_opened hc)

theorem upcoming_hand {rest : List Parcel} (hdown : n.down c = parcel :: rest) (c' : Nat) :
    ((parcel.msg.nodes.map (·, parcel.readAt)).toList ++ (n.hand w c parcel rest t).upcoming c =
        n.upcoming c) ∧
      (c' ≠ c → (n.hand w c parcel rest t).upcoming c' = n.upcoming c') := by
  constructor
  · simp only [upcoming, hand, Function.update_self, hdown]
    rw [List.filterMap_cons]
    cases parcel.msg.nodes <;> rfl
  · intro hne
    simp only [upcoming, hand, Function.update_of_ne hne]

theorem sublist_hand {rest : List Parcel} (hdown : n.down c = parcel :: rest) (c' : Nat) :
    ((n.hand w c parcel rest t).upcoming c').Sublist (n.upcoming c') := by
  by_cases hc : c' = c
  · subst hc
    rw [← (upcoming_hand (w := w) (t := t) hdown c').1]
    exact List.sublist_append_right ..
  · simp only [(upcoming_hand hdown c').2 hc, List.Sublist.refl]

theorem hand_seenAt (n : Network) (w c : Nat) (parcel : Parcel) (rest : List Parcel)
    (t : Worker.Task) (w' : Nat) :
    (w' = w ∧ ∃ nodes, parcel.msg = .nodeList nodes ∧
      (n.hand w c parcel rest t).seenAt w' = parcel.readAt) ∨
      (w' = w → ∀ nodes, parcel.msg ≠ .nodeList nodes) ∧
        (n.hand w c parcel rest t).seenAt w' = n.seenAt w' := by
  unfold hand
  cases hmsg : parcel.msg with
  | nodeList nodes =>
    by_cases hw : w' = w
    · subst hw
      exact .inl ⟨rfl, nodes, rfl, Function.update_self ..⟩
    · exact .inr ⟨fun h => absurd h hw, Function.update_of_ne hw ..⟩
  | _ => exact .inr ⟨by simp, rfl⟩

/-- The frame's list, if it has one, is the next to come, and what comes after was read
no earlier. -/
theorem Inv.head {rest : List Parcel} (hi : Inv history n) (hl : n.link w = some c)
    (hdown : n.down c = parcel :: rest) (hmsg : parcel.msg = .nodeList nodes) :
    nodes = (history parcel.readAt).listNodes ∧ parcel.readAt ≤ n.clock ∧
      n.seenAt w ≤ parcel.readAt ∧
      ∀ x ∈ (n.hand w c parcel rest t).upcoming c, parcel.readAt ≤ x.2 := by
  have hup := (upcoming_hand (w := w) (t := t) hdown c).1
  rw [hmsg] at hup
  have hmem : (nodes, parcel.readAt) ∈ n.upcoming c := by
    rw [← hup]
    exact List.mem_cons_self
  have hordered := hi.ordered c
  rw [← hup] at hordered
  obtain ⟨hlist, hclock⟩ := hi.lists c _ hmem
  exact ⟨hlist, hclock, hi.seen w c hl _ hmem, fun x hx => List.rel_of_pairwise_cons hordered hx⟩

theorem delivering_ne_updated (t : Worker.Task) (msg : ClusterMessage) :
    delivering t msg ≠ .updated := by
  unfold delivering
  split <;> simp

theorem nodeList_of_delivering {t : Worker.Task}
    (h : delivering t msg = .frame (.message (.nodeList nodes))) : msg = .nodeList nodes := by
  unfold delivering at h
  split at h <;> cases h
  rfl

theorem hand_task_of_ne {rest : List Parcel} (h : w' ≠ w) :
    (n.hand w c parcel rest t).tasks w' = n.tasks w' := Function.update_of_ne h ..

theorem hand_task {rest : List Parcel} : (n.hand w c parcel rest t).tasks w = t :=
  Function.update_self ..

theorem Inv.hand {rest : List Parcel} (hi : Inv history n) (hl : n.link w = some c)
    (hdown : n.down c = parcel :: rest)
    (h : Worker.step (cfg w) (n.tasks w) (delivering (n.tasks w) parcel.msg) = some t)
    (hnow : history (n.clock + 1) = n.main.registry) :
    Inv history (n.hand w c parcel rest t) where
  now := hnow
  lists c' x hx := by
    obtain ⟨hlist, hclock⟩ := hi.lists c' x ((sublist_hand hdown c').subset hx)
    exact ⟨hlist, Nat.le_succ_of_le hclock⟩
  ordered c' := (hi.ordered c').sublist (sublist_hand hdown c')
  seen w' c' hl' x hx := by
    rcases hand_seenAt n w c parcel rest t w' with ⟨rfl, nodes, hmsg, hs⟩ | ⟨-, hs⟩ <;> rw [hs]
    · obtain rfl : c' = c := Option.some.inj (hl'.symm.trans hl)
      exact (hi.head hl hdown hmsg).2.2.2 x hx
    · exact hi.seen w' c' hl' x ((sublist_hand hdown c').subset hx)
  bounds w' := by
    obtain ⟨hasOf, hclock⟩ := hi.bounds w'
    rcases hand_seenAt n w c parcel rest t w' with ⟨rfl, nodes, hmsg, hs⟩ | ⟨-, hs⟩ <;> rw [hs]
    · obtain ⟨-, hread, hle, -⟩ := hi.head (t := t) hl hdown hmsg
      exact ⟨Nat.le_trans hasOf hle, Nat.le_succ_of_le hread⟩
    · exact ⟨hasOf, Nat.le_succ_of_le hclock⟩
  held w' := by
    by_cases hw : w' = w
    · subst hw
      rcases (list_of_step h).1 with ⟨he, -⟩ | ⟨-, hlist⟩
      · exact absurd he (delivering_ne_updated _ _)
      · rw [hand_task, hlist]
        exact hi.held w'
    · rw [hand_task_of_ne hw]
      exact hi.held w'
  updating w' nodes hp := by
    by_cases hw : w' = w
    · subst hw
      rw [hand_task] at hp
      rcases (list_of_step h).2 nodes hp with hp | he
      · rcases phase_of_delivering h with hr | ⟨hr, -⟩ <;> rw [hr] at hp <;> cases hp
      · have hmsg := nodeList_of_delivering he
        rcases hand_seenAt n w' c parcel rest t w' with ⟨-, _, -, hs⟩ | ⟨hnone, -⟩
        · rw [hs]
          exact (hi.head (t := t) hl hdown hmsg).1
        · exact absurd hmsg (hnone rfl nodes)
    · rw [hand_task_of_ne hw] at hp
      rcases hand_seenAt n w c parcel rest t w' with ⟨hw', -⟩ | ⟨-, hs⟩
      · exact absurd hw' hw
      · rw [hs]
        exact hi.updating w' nodes hp
  unopened c' hc := by
    obtain ⟨hp, hd⟩ := hi.unopened c' hc
    refine ⟨hp, ?_⟩
    by_cases hcc : c' = c
    · subst hcc
      rw [hdown] at hd
      cases hd
    · exact (Function.update_of_ne hcc ..).trans hd

theorem reading_conn (c : Nat) (msg : ClusterMessage) :
    (∃ frame, reading m c msg = .registerFrame c frame) ∨
      ∃ frame, reading m c msg = .frame c frame := by
  unfold reading
  split
  · exact .inl ⟨_, rfl⟩
  · exact .inr ⟨_, rfl⟩

theorem clock_step (h : n.step server cfg v = some n') : n'.clock = n.clock + 1 := by
  cases step_moved h <;> rfl

theorem Inv.step (hi : Inv history n) (h : n.step server cfg v = some n')
    (hnow : history n'.clock = n'.main.registry) : Inv history n' := by
  cases step_moved h with
  | main hallows hm =>
    refine hi.advance hm (fun c he => ?_) hnow
    subst he
    simpa [allows] using hallows
  | @receive c msg rest m hup hm =>
    refine (hi.advance hm (fun c' he => ?_) hnow).of_up _
    rcases reading_conn (m := n.main) c msg with ⟨frame, hr⟩ | ⟨frame, hr⟩ <;> rw [hr] at he <;>
      cases he
  | work hpermits ht => exact hi.act hpermits ht hnow
  | greet hp hl hg =>
    exact ⟨hnow, fun c x hx => ⟨(hi.lists c x hx).1, Nat.le_succ_of_le (hi.lists c x hx).2⟩,
      hi.ordered, hi.seen, fun w => ⟨(hi.bounds w).1, Nat.le_succ_of_le (hi.bounds w).2⟩, hi.held,
      hi.updating, hi.unopened⟩
  | deliver hl hdown ht => exact hi.hand hl hdown ht hnow

/-- No worker goes back to an older list. -/
theorem Inv.asOf_le (hi : Inv history n) (h : n.step server cfg v = some n') (w : Nat) :
    n.asOf w ≤ n'.asOf w := by
  cases step_moved h with
  | main | receive | greet | deliver => exact Nat.le_refl _
  | @work w' e t hpermits ht =>
    rcases act_asOf n cfg w' e t w with ha | ⟨rfl, -, ha⟩
    · exact Nat.le_of_eq ha.symm
    · rw [ha]
      exact (hi.bounds w).1

end

-- ---------------------------------------------------------------------------
-- Where the entries come from
-- ---------------------------------------------------------------------------

/-- What a worker whose token the main node accepts says of itself. -/
def Genuine (server : ClusterServer) (cfg : Nat → Worker.Config) (info : RegisterInfo) : Prop :=
  ∃ w, (server.token = "" ∨ (cfg w).token = server.token) ∧
    info = ⟨(cfg w).nodeId, .worker, (cfg w).endpoints, (cfg w).metadata⟩

def infoOf (node : NodeInfo) : RegisterInfo :=
  ⟨node.id, node.role, node.endpoints, node.metadata⟩

def FromWorker (cfg : Nat → Worker.Config) (msg : ClusterMessage) : Prop :=
  ∀ nodeId role endpoints metadata token,
    msg = .register nodeId role endpoints metadata token → ∃ w, msg = (cfg w).registerMessage

def pending : Phase → Option RegisterInfo
  | .acking _ info => info
  | .registering info => some info
  | _ => none

structure Sourced (server : ClusterServer) (cfg : Nat → Worker.Config) (n : Network) : Prop where
  up : ∀ c, ∀ msg ∈ n.up c, FromWorker cfg msg
  sending : ∀ w msg, (n.tasks w).phase = .sending msg → FromWorker cfg msg
  conns : ∀ c info, pending (n.main.conns c) = some info → Genuine server cfg info
  nodes : ∀ k node, n.main.registry.getNode k = some node → Genuine server cfg (infoOf node)

section
variable {server : ClusterServer} {cfg : Nat → Worker.Config} {n n' : Network} {m m' : Main}

theorem pending_handleRegister (h : pending (server.handleRegister frame) = some info) :
    ∃ token, (server.token = "" ∨ token = server.token) ∧ frame =
      some (.message (.register info.nodeId info.role info.endpoints info.metadata token)) := by
  unfold ClusterServer.handleRegister at h
  split at h
  · rename_i token
    split at h
    · cases h
    · rename_i hok
      cases h
      refine ⟨token, ?_, rfl⟩
      rwa [not_and_or, not_not, not_not] at hok
  · cases h

theorem pending_handleFrame : pending (handleFrame nodeId k frame) = none := by
  unfold handleFrame
  split <;> rfl

theorem pending_of_step {e : Event} (h : Cluster.step server m e = some m')
    (hp : pending (m'.conns c) = some info) : pending (m.conns c) = some info ∨
      ∃ token, (server.token = "" ∨ token = server.token) ∧ e = .registerFrame c
        (some (.message (.register info.nodeId info.role info.endpoints info.metadata token))) := by
  by_cases hc : e.conn = some c
  · cases step_moves h with
    | shutdown => cases hc
    | registerFrame hphase =>
      cases hc
      rw [goto_same] at hp
      obtain ⟨token, htoken, rfl⟩ := pending_handleRegister hp
      exact .inr ⟨token, htoken, rfl⟩
    | accepted hphase =>
      cases hc
      rw [goto_same] at hp
      exact .inl (by rwa [hphase])
    | frame hphase hrun =>
      cases hc
      rw [goto_same, pending_handleFrame] at hp
      cases hp
    | register hphase hq =>
      cases hc
      rw [goto_same] at hp
      split at hq <;> subst hq <;> cases hp
    | _ =>
      cases hc
      rw [goto_same] at hp
      cases hp
  · rw [conns_of_ne h hc] at hp
    exact .inl hp

/-- An entry is one that was there, but for its status, or is being registered. -/
theorem nodes_of_step {e : Event} (h : Cluster.step server m e = some m')
    (hn : m'.registry.getNode k = some node) :
    (∃ old, m.registry.getNode k = some old ∧ infoOf old = infoOf node) ∨
      ∃ c info, pending (m.conns c) = some info ∧ infoOf node = info := by
  cases step_moves h with
  | register hphase hq =>
    rw [goto_registry, ConnectedRegistry.getNode_register] at hn
    split at hn
    · cases hn
      exact .inr ⟨_, _, by rw [hphase]; rfl, rfl⟩
    · exact .inl ⟨node, hn, rfl⟩
  | unregister hphase =>
    rw [goto_registry, ConnectedRegistry.getNode_unregister] at hn
    split at hn
    · cases hn
    · exact .inl ⟨node, hn, rfl⟩
  | setOffline hphase =>
    rw [goto_registry, ConnectedRegistry.getNode_setStatus] at hn
    split at hn
    · obtain ⟨old, hold, rfl⟩ := Option.map_eq_some_iff.mp hn
      exact .inl ⟨old, hold, rfl⟩
    · exact .inl ⟨node, hn, rfl⟩
  | _ => exact .inl ⟨node, by simpa using hn, rfl⟩

theorem sourced_init : Sourced server cfg init where
  up c msg h := by cases h
  sending w msg h := by simp [init, Worker.Task.init] at h
  conns c info h := by simp [init, Main.init, pending] at h
  nodes k node h := by
    simp [init, Main.init, ConnectedRegistry.getNode, ConnectedRegistry.new] at h

theorem fromWorker_of_ne (h : ∀ nodeId role endpoints metadata token,
    msg ≠ .register nodeId role endpoints metadata token) : FromWorker cfg msg :=
  fun _ _ _ _ _ heq => absurd heq (h _ _ _ _ _)

theorem Sourced.advance {e : Event} (hi : Sourced server cfg n)
    (h : Cluster.step server n.main e = some m)
    (hread : ∀ c msg, e = .registerFrame c (some (.message msg)) → FromWorker cfg msg) :
    Sourced server cfg (n.advance e m) where
  up := hi.up
  sending := hi.sending
  conns c info hp := by
    rcases pending_of_step h hp with hp | ⟨token, htoken, he⟩
    · exact hi.conns c info hp
    · obtain ⟨w, hw⟩ := hread c _ he _ _ _ _ _ rfl
      rw [Worker.Config.registerMessage, ClusterMessage.register.injEq] at hw
      obtain ⟨hid, hrole, hendpoints, hmetadata, rfl⟩ := hw
      refine ⟨w, htoken, ?_⟩
      rw [← hid, ← hrole, ← hendpoints, ← hmetadata]
  nodes k node hn := by
    rcases nodes_of_step h hn with ⟨old, hold, heq⟩ | ⟨c, info, hp, rfl⟩
    · exact heq ▸ hi.nodes k old hold
    · exact hi.conns c _ hp

theorem fromWorker_sending {c : Worker.Config} {t t' : Worker.Task} {e : Worker.Event}
    (h : Worker.step c t e = some t') (hi : ∀ msg, t.phase = .sending msg → FromWorker cfg msg) :
    ∀ msg, t'.phase = .sending msg → FromWorker cfg msg := by
  intro msg hp
  rcases step_carries h with ⟨nodes, rfl, -, rfl⟩ | ⟨frame, rfl, rfl⟩ | ⟨msg', hmsg, -, rfl⟩ |
    ⟨-, -, hsame⟩
  · cases hp
  · have hpong : msg = .pong := by
      simp only [Worker.handleFrame] at hp
      split at hp <;> cases hp
      rfl
    exact fromWorker_of_ne (by simp [hpong])
  · cases hp
    rcases hmsg with rfl | rfl <;> exact fromWorker_of_ne (by simp)
  · rcases hsame with hsame | hsame
    · exact hi msg (hsame ▸ hp)
    · rw [hp] at hsame
      exact absurd trivial hsame

theorem fromWorker_writes {c : Worker.Config} {t : Worker.Task} {e : Worker.Event}
    (hi : ∀ msg, t.phase = .sending msg → FromWorker cfg msg) (h : t.writes c e = some msg) :
    FromWorker cfg msg := by
  unfold Worker.Task.writes at h
  split at h
  · split at h
    · rename_i hp
      cases h
      exact hi _ hp
    · cases h
  · cases h
    exact fromWorker_of_ne (by simp)
  · cases h

theorem sending_update (hi : Sourced server cfg n)
    (h : ∀ msg, t.phase = .sending msg → FromWorker cfg msg) :
    ∀ w' msg, (Function.update n.tasks w t w').phase = .sending msg → FromWorker cfg msg := by
  intro w' msg hp
  by_cases hw : w' = w
  · subst hw
    rw [Function.update_self] at hp
    exact h msg hp
  · rw [Function.update_of_ne hw] at hp
    exact hi.sending w' msg hp

theorem up_update (hi : Sourced server cfg n) (c : Nat)
    (h : ∀ msg ∈ msgs, msg ∈ n.up c ∨ FromWorker cfg msg) :
    ∀ c', ∀ msg ∈ Function.update n.up c msgs c', FromWorker cfg msg := by
  intro c' msg hmsg
  by_cases hc : c' = c
  · subst hc
    rw [Function.update_self] at hmsg
    exact (h msg hmsg).elim (hi.up c' msg) fun hw => hw
  · rw [Function.update_of_ne hc] at hmsg
    exact hi.up c' msg hmsg

theorem Sourced.step (hi : Sourced server cfg n) (h : n.step server cfg v = some n') :
    Sourced server cfg n' := by
  cases step_moved h with
  | main hallows hm =>
    refine hi.advance hm fun c msg he => ?_
    subst he
    cases hallows
  | @receive c msg rest m hup hm =>
    have hmsg : FromWorker cfg msg := hi.up c msg (by rw [hup]; exact List.mem_cons_self)
    have hadvance := hi.advance hm fun c' msg' he => by
      unfold reading at he
      split at he <;> cases he
      exact hmsg
    refine ⟨up_update hi c fun msg' hmsg' => .inl ?_, hadvance.sending, hadvance.conns,
      hadvance.nodes⟩
    rw [hup]
    exact List.mem_cons_of_mem _ hmsg'
  | @work w e t hpermits ht =>
    refine ⟨?_, sending_update hi (fromWorker_sending ht (hi.sending w)), hi.conns, hi.nodes⟩
    cases hl : n.link w with
    | none =>
      simp only [act, hl]
      exact hi.up
    | some c =>
      cases hw : (n.tasks w).writes (cfg w) e with
      | none =>
        simp only [act, hl, hw]
        exact hi.up
      | some msg =>
        simp only [act, hl, hw]
        refine up_update hi c fun msg' hmsg' => ?_
        rcases List.mem_append.mp hmsg' with hold | hnew
        · exact .inl hold
        · rw [List.mem_singleton.mp hnew]
          exact .inr (fromWorker_writes (hi.sending w) hw)
  | @greet w c hp hl hg =>
    refine ⟨up_update hi c fun msg hmsg => ?_, hi.sending, hi.conns, hi.nodes⟩
    rcases List.mem_append.mp hmsg with hold | hnew
    · exact .inl hold
    · rw [List.mem_singleton.mp hnew]
      exact .inr fun _ _ _ _ _ _ => ⟨w, rfl⟩
  | @deliver w c parcel rest t hl hdown ht =>
    exact ⟨hi.up, sending_update hi (fromWorker_sending ht (hi.sending w)), hi.conns, hi.nodes⟩

end

-- ---------------------------------------------------------------------------
-- Runs
-- ---------------------------------------------------------------------------

section
variable (server : ClusterServer) (cfg : Nat → Worker.Config)

def history (ms : List Move) (k : Nat) : ConnectedRegistry :=
  ((run (step server cfg) init (ms.take k)).map (·.main.registry)).getD .new

end

section
variable {server : ClusterServer} {cfg : Nat → Worker.Config} {n n' : Network} {ms : List Move}

theorem take_succ_run (hr : run (step server cfg) init (ms.take (k + 1)) = some n') :
    ms.take (k + 1) = ms.take k ∨ ∃ v n, run (step server cfg) init (ms.take k) = some n ∧
      n.step server cfg v = some n' ∧ (ms.take (k + 1)).length = (ms.take k).length + 1 := by
  rw [List.take_add_one] at hr ⊢
  cases hv : ms[k]? with
  | none => exact .inl (by simp)
  | some v =>
    rw [hv] at hr
    obtain ⟨n, hn, hs⟩ := run_concat.mp hr
    exact .inr ⟨v, n, hn, hs, List.length_append⟩

theorem history_clock (hr : run (step server cfg) init (ms.take k) = some n)
    (hclock : n.clock = (ms.take k).length) :
    history server cfg ms n.clock = n.main.registry := by
  rw [history, hclock, List.length_take, ← List.take_eq_take_min, hr]
  rfl

theorem inv_of_run (hr : run (step server cfg) init (ms.take k) = some n) :
    Inv (history server cfg ms) n ∧ Sourced server cfg n ∧ n.clock = (ms.take k).length := by
  induction k generalizing n with
  | zero =>
    cases hr
    exact ⟨inv_init rfl, sourced_init, rfl⟩
  | succ k ih =>
    rcases take_succ_run hr with heq | ⟨v, n₁, hr₁, hs, hlen⟩
    · rw [heq] at hr ⊢
      exact ih hr
    · obtain ⟨hi, hsourced, hclock₁⟩ := ih hr₁
      have hclock : n.clock = (ms.take (k + 1)).length := by
        rw [clock_step hs, hclock₁, hlen]
      exact ⟨hi.step hs (history_clock hr hclock), hsourced.step hs, hclock⟩

theorem run_take (hr : run (step server cfg) init ms = some n) (k : Nat) :
    ∃ n', run (step server cfg) init (ms.take k) = some n' := by
  rw [← List.take_append_drop k ms, run_append] at hr
  obtain ⟨n', hn', -⟩ := Option.bind_eq_some_iff.mp hr
  exact ⟨n', hn'⟩

/-- At every moment, the list that a worker holds is the registry as it was at some earlier
moment, never one earlier than before; and whoever is in it is a worker that has registered
with a token the main node accepts, as it describes itself. -/
theorem views_follow_registry (server : ClusterServer) (cfg : Nat → Worker.Config)
    (ms : List Move) (n : Network) (hr : run (step server cfg) init ms = some n) :
    ∃ asOf : Nat → Nat → Nat, (∀ w, Monotone (asOf w)) ∧
      ∀ k, ∃ now, run (step server cfg) init (ms.take k) = some now ∧
        ∀ w, asOf w k ≤ k ∧
          (∃ past, run (step server cfg) init (ms.take (asOf w k)) = some past ∧
            (now.tasks w).nodeList = past.main.registry.listNodes) ∧
          ∀ node ∈ (now.tasks w).nodeList, Genuine server cfg (infoOf node) := by
  refine ⟨fun w k => ((run (step server cfg) init (ms.take k)).map (·.asOf w)).getD 0,
    fun w => monotone_nat_of_le_succ fun k => ?_, fun k => ?_⟩
  · obtain ⟨n', hn'⟩ := run_take hr (k + 1)
    dsimp only
    rcases take_succ_run hn' with heq | ⟨v, n₁, hn₁, hs, -⟩
    · rw [heq]
    · rw [hn', hn₁]
      exact (inv_of_run hn₁).1.asOf_le hs w
  · obtain ⟨now, hnow⟩ := run_take hr k
    obtain ⟨hi, -, hclock⟩ := inv_of_run hnow
    refine ⟨now, hnow, fun w => ?_⟩
    have hle : now.asOf w ≤ k := by
      have hbound := Nat.le_trans (hi.bounds w).1 (hi.bounds w).2
      rw [hclock] at hbound
      exact Nat.le_trans hbound (List.length_take_le ..)
    obtain ⟨past, hpast⟩ := run_take hr (now.asOf w)
    have hheld : (now.tasks w).nodeList = past.main.registry.listNodes := by
      rw [hi.held w, history, hpast]
      rfl
    simp only [hnow, Option.map_some, Option.getD_some]
    refine ⟨hle, ⟨past, hpast, hheld⟩, fun node hnode => ?_⟩
    rw [hheld, ConnectedRegistry.mem_listNodes] at hnode
    obtain ⟨id, hnode⟩ := hnode
    exact (inv_of_run hpast).2.1.nodes id node hnode

end

def twoWorkers (w : Nat) : Worker.Config where
  nodeId := if w = 0 then "a" else "b"
  token := "secret"
  endpoints := []
  metadata := ∅
  pingInterval := 10

/-- One worker asks for the list, and the other one registers before it has it. -/
def lateRegister : List Move :=
  [.work 0 (.connect true), .greet 0, .work 1 (.connect true), .greet 1, .main (.accept 0),
    .main (.accept 1), .receive 0, .main (.ack 0 true), .main (.register 0), .deliver 0,
    .work 0 .store, .work 0 .syncTick, .work 0 (.sent true), .receive 0, .main (.list 0),
    .receive 1, .main (.ack 1 true), .main (.register 1), .main (.replied 0 true), .deliver 0,
    .work 0 .updated]

theorem views_follow_registry_late :
    ∃ n past : Network,
      run (step ⟨"secret", fromSecs 10⟩ twoWorkers) init lateRegister = some n ∧
      n.main.registry.listNodes.map NodeInfo.id = ["a", "b"] ∧
      (n.tasks 0).nodeList.map NodeInfo.id = ["a"] ∧
      (n.tasks 0).nodeList = past.main.registry.listNodes ∧
      ∀ node ∈ (n.tasks 0).nodeList, Genuine ⟨"secret", fromSecs 10⟩ twoWorkers (infoOf node) := by
  obtain ⟨n, hr, hregistry, hview⟩ : ∃ n,
      run (step ⟨"secret", fromSecs 10⟩ twoWorkers) init lateRegister = some n ∧
      n.main.registry.listNodes.map NodeInfo.id = ["a", "b"] ∧
      (n.tasks 0).nodeList.map NodeInfo.id = ["a"] := ⟨_, rfl, by decide +kernel, by decide +kernel⟩
  obtain ⟨asOf, -, hviews⟩ := views_follow_registry _ twoWorkers lateRegister n hr
  obtain ⟨now, hnow, hworkers⟩ := hviews lateRegister.length
  rw [List.take_length, hr] at hnow
  obtain rfl := Option.some.inj hnow
  obtain ⟨-, ⟨past, -, hpast⟩, hgenuine⟩ := hworkers 0
  exact ⟨n, past, hr, hregistry, hview, hpast, hgenuine⟩

end Network
end Rinfra.Cluster
