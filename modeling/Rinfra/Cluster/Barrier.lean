import Rinfra.Cluster.Isolation

/-!
# Acknowledged before registered

A worker's registration is acknowledged first and entered in the registry
after that, in two awaits. Who reads the registry in between does not find the
worker, though it has its acknowledgement.

`Watch` follows the server along with what the workers have received and what
is read of the registry, by a connection's `ListNodes` or by a local caller.
-/

namespace Rinfra.Cluster

open Rinfra.Lib ConnectedRegistry

def RegisterInfo.entry (info : RegisterInfo) : NodeInfo :=
  ⟨info.nodeId, info.role, info.endpoints, info.metadata, .online⟩

structure Watch where
  main : Main
  /-- The registration accepted from each connection. -/
  info : Nat → Option RegisterInfo
  /-- The workers that have received their acknowledgement. -/
  acked : Nat → Bool
  /-- The list that the last event has read. -/
  read : Option (List NodeInfo)

inductive Act
  | main (e : Event)
  | receive (c : Nat)
  | listNodes

def Watch.init : Watch := ⟨.init, fun _ => none, fun _ => false, none⟩

def accepted (server : ClusterServer) : Event → Option (Nat × RegisterInfo)
  | .registerFrame c frame => match server.handleRegister frame with
    | .acking _ (some info) => some (c, info)
    | _ => none
  | _ => none

def Watch.note (w : Watch) (server : ClusterServer) (e : Event) : Nat → Option RegisterInfo :=
  match accepted server e with
  | some (c, info) => Function.update w.info c (some info)
  | none => w.info

def ClusterMessage.isSuccess : ClusterMessage → Bool
  | .registerAck success _ => success
  | _ => false

def Watch.step (server : ClusterServer) (w : Watch) : Act → Option Watch
  | .main e => do
    let main ← Cluster.step server w.main e
    pure ⟨main, w.note server e, w.acked, match e with
      | .list _ => some w.main.registry.listNodes
      | _ => none⟩
  | .receive c =>
    if (w.main.sent c).any ClusterMessage.isSuccess then
      some { w with acked := Function.update w.acked c true, read := none }
    else none
  | .listNodes => some { w with read := some w.main.registry.listNodes }

/-- The connection has been accepted as a worker's and has neither ended nor
deregistered. -/
def Phase.Live : Phase → Prop
  | .registering _ | .select .. | .pinging .. | .listing .. | .replying .. => True
  | _ => False

/-- What has just been read shows every worker that has its acknowledgement
and is still connected, online and as it registered. -/
def Watch.Listed (w : Watch) : Prop :=
  ∀ nodes, w.read = some nodes → ∀ c info, w.acked c = true → w.info c = some info →
    (w.main.conns c).Live → info.entry ∈ nodes

def Act.Reads : Act → Prop
  | .main (.list _) | .listNodes => True
  | _ => False

/-- The registry is not read while a worker that has its acknowledgement is
still to be registered. -/
def NotEarly (w : Watch) (a : Act) : Prop :=
  a.Reads → ∀ c info, w.acked c = true → w.main.conns c ≠ .registering info

/-- No other connection has registered the node that is being registered. -/
def SingleOwner (server : ClusterServer) (w : Watch) (a : Act) : Prop :=
  ∀ e c info, a = .main e → accepted server e = some (c, info) →
    ∀ c' info', w.info c' = some info' → info'.nodeId ≠ info.nodeId

-- ---------------------------------------------------------------------------
-- The entry of a connection
-- ---------------------------------------------------------------------------

/-- What the phase of a connection says of its node's entry. -/
def Phase.Holds (reg : ConnectedRegistry) (info : Option RegisterInfo) : Phase → Prop
  | .absent | .awaitRegister => info = none
  | .acking _ none | .closed | .panicked => True
  | .acking _ (some i) | .registering i => info = some i ∧ reg.getNode i.nodeId = none
  | .select n _ | .pinging n _ | .listing n _ | .replying n _ _ =>
    ∃ i, info = some i ∧ i.nodeId = n ∧ reg.getNode n = some i.entry
  | .deregistering n | .leaving n => ∃ i, info = some i ∧ i.nodeId = n

structure Watch.Inv (w : Watch) : Prop where
  holds : ∀ c, (w.main.conns c).Holds w.main.registry (w.info c)
  single : ∀ c c' info info', w.info c = some info → w.info c' = some info' →
    info.nodeId = info'.nodeId → c = c'
  owned : ∀ n node, w.main.registry.getNode n = some node →
    ∃ c info, w.info c = some info ∧ info.nodeId = n
  keyed : w.main.registry.Keyed

section
variable {server : ClusterServer} {m m' : Main} {w w' : Watch} {known : Option RegisterInfo}

theorem Phase.Holds.info {p : Phase} (h : p.Holds reg known) (hn : p.node = some n) :
    ∃ i, known = some i ∧ i.nodeId = n := by
  cases p with
  | acking ack i =>
    cases i with
    | none => cases hn
    | some i => exact ⟨i, h.1, Option.some.inj hn⟩
  | registering i => exact ⟨i, h.1, Option.some.inj hn⟩
  | select n' k | pinging n' k | listing n' k | replying n' k reply =>
    obtain ⟨i, hi, hin, -⟩ := h
    exact ⟨i, hi, hin.trans (Option.some.inj hn)⟩
  | deregistering n' | leaving n' =>
    obtain ⟨i, hi, hin⟩ := h
    exact ⟨i, hi, hin.trans (Option.some.inj hn)⟩
  | _ => cases hn

theorem Phase.Holds.congr {p : Phase} (h : p.Holds reg known)
    (hreg : ∀ i, known = some i → reg'.getNode i.nodeId = reg.getNode i.nodeId) :
    p.Holds reg' known := by
  cases p with
  | acking ack i =>
    cases i with
    | none => trivial
    | some i => exact ⟨h.1, (hreg i h.1).trans h.2⟩
  | registering i => exact ⟨h.1, (hreg i h.1).trans h.2⟩
  | select n' k | pinging n' k | listing n' k | replying n' k reply =>
    obtain ⟨i, hi, rfl, hn⟩ := h
    exact ⟨i, hi, rfl, (hreg i hi).trans hn⟩
  | _ => exact h

theorem handleFrame_holds (n : String) (k : Nat) (frame : Frame)
    (h : (Phase.select n k).Holds reg known) : (handleFrame n k frame).Holds reg known := by
  obtain ⟨i, hi, hin, hn⟩ := h
  unfold handleFrame
  split
  · exact ⟨i, hi, hin, hn⟩
  · exact ⟨i, hi, hin⟩
  · exact ⟨i, hi, hin, hn⟩
  · exact ⟨i, hi, hin, hn⟩
  · exact ⟨i, hi, hin, hn⟩
  · exact ⟨i, hi, hin⟩
  · exact ⟨i, hi, hin⟩

theorem step_holds (h : step server m e = some m') (hc : e.conn = some c)
    (hserved : ¬ (m.conns c).Waits) (hh : (m.conns c).Holds m.registry known) :
    (m'.conns c).Holds m'.registry known := by
  cases step_moves h with
  | shutdown => cases hc
  | accept hp hrun | registerFrame hp =>
    cases hc
    exact absurd (by rw [hp]; trivial) hserved
  | accepted hp | pinged hp | replied hp | ticked hp hrun hk | list hp =>
    cases hc
    rw [hp] at hh
    simpa [Phase.Holds] using hh
  | refused hp | unregister hp | setOffline hp =>
    cases hc
    simp [Phase.Holds]
  | register hp hq =>
    cases hc
    rw [hp] at hh
    split at hq <;> subst hq
    · simp [Phase.Holds]
    · rw [goto_same]
      exact ⟨_, hh.1, rfl, by simp [getNode_register, RegisterInfo.entry]⟩
  | cancelled hp hrun | timedOut hp hrun hk | unpinged hp =>
    cases hc
    rw [hp] at hh
    obtain ⟨i, hi, hin, -⟩ := hh
    simpa [Phase.Holds] using ⟨i, hi, hin⟩
  | @frame c n k f hp hrun =>
    cases hc
    rw [hp] at hh
    simpa using handleFrame_holds n k f hh

theorem note_of_not_accepted (h : accepted server e = none) : w.note server e = w.info := by
  simp [Watch.note, h]

theorem accepted_of_served (h : Cluster.step server m e = some m') (hc : e.conn = some c)
    (hserved : ¬ (m.conns c).Waits) : accepted server e = none := by
  cases step_moves h with
  | registerFrame hp =>
    cases hc
    exact absurd (by rw [hp]; trivial) hserved
  | _ => rfl

theorem handleRegister_cases (server : ClusterServer) (frame : Option Frame) :
    (∃ ack info, server.handleRegister frame = .acking ack (some info)) ∨
      (∃ ack, server.handleRegister frame = .acking ack none) ∨
      server.handleRegister frame = .closed := by
  unfold ClusterServer.handleRegister
  split
  · split
    · exact .inr (.inl ⟨_, rfl⟩)
    · exact .inl ⟨_, _, rfl⟩
  · exact .inr (.inr rfl)

theorem accepted_registerFrame (server : ClusterServer) (c : Nat) (frame : Option Frame) :
    (∃ ack info, server.handleRegister frame = .acking ack (some info) ∧
      accepted server (.registerFrame c frame) = some (c, info)) ∨
    accepted server (.registerFrame c frame) = none ∧
      ∀ reg known, (server.handleRegister frame).Holds reg known := by
  rcases handleRegister_cases server frame with ⟨ack, info, hp⟩ | ⟨ack, hp⟩ | hp
  · exact .inl ⟨ack, info, hp, by simp [accepted, hp]⟩
  · exact .inr ⟨by simp [accepted, hp], by simp [hp, Phase.Holds]⟩
  · exact .inr ⟨by simp [accepted, hp], by simp [hp, Phase.Holds]⟩

theorem Watch.Inv.served (hi : w.Inv) (h : Cluster.step server w.main e = some m')
    (hc : e.conn = some c) (hs : Served w.main m' c) :
    Watch.Inv ⟨m', w.note server e, w.acked, r⟩ := by
  rw [note_of_not_accepted (accepted_of_served h hc hs.waits.1)]
  have hframe : ∀ c', c' ≠ c → ∀ i, w.info c' = some i →
      m'.registry.getNode i.nodeId = w.main.registry.getNode i.nodeId := by
    intro c' hne i hi'
    apply hs.registry i.nodeId
    intro hn
    apply hne
    obtain ⟨j, hj, hjn⟩ := (hi.holds c).info hn
    exact hi.single c' c i j hi' hj hjn.symm
  constructor
  · intro c'
    by_cases hcc : c' = c
    · subst hcc
      exact step_holds h hc hs.waits.1 (hi.holds c')
    · dsimp only
      rw [(hs.others c' hcc).1]
      exact (hi.holds c').congr (hframe c' hcc)
  · exact hi.single
  · intro n node hn
    by_cases hown : (w.main.conns c).node = some n
    · exact ⟨c, (hi.holds c).info hown⟩
    · exact hi.owned n node ((hs.registry n hown).symm.trans hn)
  · exact hs.keyed hi.keyed

theorem Watch.Inv.goto (hi : w.Inv) (hwaits : (w.main.conns c).Waits)
    (hp : p.Holds w.main.registry (w.note server e c))
    (hnote : ∀ c', c' ≠ c → w.note server e c' = w.info c')
    (hsingle : ∀ c' i i', w.note server e c = some i → w.info c' = some i' →
      i'.nodeId ≠ i.nodeId) :
    Watch.Inv ⟨w.main.goto c p, w.note server e, w.acked, r⟩ := by
  have hnone : w.info c = none := by
    have := hi.holds c
    cases hc : w.main.conns c <;> simp [hc, Phase.Waits, Phase.Holds] at hwaits this
    · exact this
    · exact this
  constructor
  · intro c'
    by_cases hcc : c' = c
    · subst hcc
      simpa using hp
    · dsimp only
      rw [goto_of_ne hcc, hnote c' hcc]
      exact hi.holds c'
  · intro c₁ c₂ i₁ i₂ h₁ h₂ hn
    by_cases hc₁ : c₁ = c <;> by_cases hc₂ : c₂ = c
    · exact hc₁.trans hc₂.symm
    · subst hc₁
      exact absurd hn.symm (hsingle c₂ i₁ i₂ h₁ (hnote c₂ hc₂ ▸ h₂))
    · subst hc₂
      exact absurd hn (hsingle c₁ i₂ i₁ h₂ (hnote c₁ hc₁ ▸ h₁))
    · exact hi.single c₁ c₂ i₁ i₂ (hnote c₁ hc₁ ▸ h₁) (hnote c₂ hc₂ ▸ h₂) hn
  · intro n node hn
    obtain ⟨c', i, hi', hin⟩ := hi.owned n node hn
    refine ⟨c', i, (hnote c' ?_).trans hi', hin⟩
    rintro rfl
    rw [hnone] at hi'
    cases hi'
  · exact hi.keyed

theorem Watch.Inv.main (hi : w.Inv) (hsingle : SingleOwner server w (.main e))
    (h : Cluster.step server w.main e = some m') :
    Watch.Inv ⟨m', w.note server e, w.acked, r⟩ := by
  rcases step_kinds h with ⟨rfl, rfl⟩ | ⟨c, rfl, hc, rfl⟩ | ⟨c, frame, rfl, hc, rfl⟩ | ⟨c, hc, hs⟩
  · exact ⟨hi.holds, hi.single, hi.owned, hi.keyed⟩
  · have hh := hi.holds c
    rw [hc] at hh
    have hnone : w.info c = none := hh
    refine hi.goto (by rw [hc]; trivial) hh (fun _ _ => rfl) fun c' i i' hci => ?_
    exact absurd (hnone.symm.trans hci) (by simp)
  · have hh := hi.holds c
    rw [hc] at hh
    have hnone : w.info c = none := hh
    rcases accepted_registerFrame server c frame with ⟨ack, info, hp, hacc⟩ | ⟨hrej, hp⟩
    · have hnote : w.note server (.registerFrame c frame) =
          Function.update w.info c (some info) := by
        simp [Watch.note, hacc]
      have hfresh : w.main.registry.getNode info.nodeId = none := by
        cases hn : w.main.registry.getNode info.nodeId with
        | none => rfl
        | some node =>
          obtain ⟨c', i, hi', hin⟩ := hi.owned _ node hn
          exact absurd hin (hsingle _ c info rfl hacc c' i hi')
      refine hi.goto (by rw [hc]; trivial) ?_ (fun c' hne => ?_) fun c' i i' hci hi' => ?_
      · rw [hp, hnote, Function.update_self]
        exact ⟨rfl, hfresh⟩
      · rw [hnote, Function.update_of_ne hne]
      · rw [hnote, Function.update_self] at hci
        cases hci
        exact hsingle _ c info rfl hacc c' i' hi'
    · have hnote := note_of_not_accepted (w := w) hrej
      refine hi.goto (by rw [hc]; trivial) (hp ..) (fun _ _ => by rw [hnote])
        fun c' i i' hci => ?_
      rw [hnote, hnone] at hci
      cases hci
  · exact hi.served h hc hs

theorem Watch.Inv.step (hi : w.Inv) (hsingle : SingleOwner server w a)
    (h : w.step server a = some w') : w'.Inv := by
  cases a with
  | main e =>
    simp only [Watch.step, Option.bind_eq_bind, Option.bind_eq_some_iff] at h
    obtain ⟨m', hm, h⟩ := h
    cases h
    exact hi.main hsingle hm
  | receive c =>
    simp only [Watch.step] at h
    split at h
    · cases h
      exact ⟨hi.holds, hi.single, hi.owned, hi.keyed⟩
    · cases h
  | listNodes =>
    cases h
    exact ⟨hi.holds, hi.single, hi.owned, hi.keyed⟩

-- ---------------------------------------------------------------------------
-- What is read
-- ---------------------------------------------------------------------------

theorem not_listed_of_early (hi : w.Inv) (hr : w.main.conns c = .registering info) :
    w.info c = some info ∧ info.entry ∉ w.main.registry.listNodes := by
  have hh := hi.holds c
  rw [hr] at hh
  refine ⟨hh.1, fun hmem => ?_⟩
  have hn := hi.keyed.mem_listNodes.mp hmem
  exact absurd (hh.2.symm.trans hn) (by simp)

theorem listed_of_live (hi : w.Inv) (hinfo : w.info c = some info) (hlive : (w.main.conns c).Live)
    (hreg : w.main.conns c ≠ .registering info) : info.entry ∈ w.main.registry.listNodes := by
  have hh := hi.holds c
  rw [hinfo] at hh
  apply hi.keyed.mem_listNodes.mpr
  cases hp : w.main.conns c with
  | registering i =>
    rw [hp] at hh hreg
    obtain ⟨⟨⟩, -⟩ := hh
    exact absurd rfl hreg
  | select n k | pinging n k | listing n k | replying n k reply =>
    rw [hp] at hh
    obtain ⟨i, ⟨⟩, rfl, hn⟩ := hh
    exact hn
  | _ =>
    rw [hp] at hlive
    exact hlive.elim

/-- The list shows every acknowledged worker exactly when none of them is still
to be registered. -/
theorem listed_iff (hi : w.Inv) :
    (∀ c info, w.acked c = true → w.info c = some info → (w.main.conns c).Live →
      info.entry ∈ w.main.registry.listNodes) ↔
    ∀ c info, w.acked c = true → w.main.conns c ≠ .registering info := by
  constructor
  · intro h c info hack hr
    obtain ⟨hinfo, hnot⟩ := not_listed_of_early hi hr
    exact hnot (h c info hack hinfo (by rw [hr]; trivial))
  · intro h c info hack hinfo hlive
    exact listed_of_live hi hinfo hlive (h c info hack)

theorem Watch.Listed.step_iff (hi : w.Inv) (h : w.step server a = some w') :
    w'.Listed ↔ NotEarly w a := by
  cases a with
  | main e =>
    simp only [Watch.step, Option.bind_eq_bind, Option.bind_eq_some_iff] at h
    obtain ⟨m', hm, h⟩ := h
    cases h
    cases e with
    | list c =>
      have hlive : ∀ c', (m'.conns c').Live ↔ (w.main.conns c').Live := by
        cases step_moves hm with
        | list hp =>
          intro c'
          by_cases hcc : c' = c
          · subst hcc
            rw [goto_same, hp]
            simp [Phase.Live]
          · rw [goto_of_ne hcc]
      simpa [Watch.Listed, NotEarly, Act.Reads, hlive, Watch.note, accepted] using listed_iff hi
    | _ => simp [Watch.Listed, NotEarly, Act.Reads]
  | receive c =>
    simp only [Watch.step] at h
    split at h
    · cases h
      simp [Watch.Listed, NotEarly, Act.Reads]
    · cases h
  | listNodes =>
    cases h
    simpa [Watch.Listed, NotEarly, Act.Reads] using listed_iff hi

end

/-- In a run where each node is registered by one connection, every list read
of the registry, for another connection or a local caller, shows each worker
that has its acknowledgement and is still connected, online and as it
registered, exactly when the registry is not read while such a worker is still
to be registered.

Premise: each node is registered by one connection. -/
theorem listed_iff_not_early (server : ClusterServer) (as : List Act)
    (hsingle : Guarded (Watch.step server) (SingleOwner server) .init as) :
    Always (Watch.step server) Watch.Listed .init as ↔
      Guarded (Watch.step server) NotEarly .init as := by
  have hi : Watch.Inv .init := by
    refine ⟨fun _ => rfl, fun c c' info info' h => ?_, fun n node h => ?_, fun k node h => ?_⟩
    · cases h
    · simp [Watch.init, Main.init, getNode, new] at h
    · simp [Watch.init, Main.init, getNode, new] at h
  refine hsingle.always_iff hi ?_ (fun _ _ _ hi _ hs h _ => hi.step hs h)
    fun _ _ _ hi _ _ h => Watch.Listed.step_iff hi h
  rintro nodes ⟨⟩

def hello (nodeId : String) : Event :=
  .registerFrame 0 (some (.message (.register nodeId .worker [] ∅ "secret")))

/-- The worker has its acknowledgement when a local caller lists the nodes. -/
def earlyList : List Act :=
  [.main (.accept 0), .main (hello "w"), .main (.ack 0 true), .receive 0, .listNodes]

theorem earlyList_misses_worker :
    ∃ w, Lib.run (Watch.step ⟨"secret", fromSecs 10⟩) .init earlyList = some w ∧
      w.acked 0 = true ∧ w.info 0 = some ⟨"w", .worker, [], ∅⟩ ∧ (w.main.conns 0).Live ∧
      w.read = some [] ∧ ¬ w.Listed := by
  refine ⟨_, rfl, rfl, rfl, trivial, rfl, fun h => ?_⟩
  exact absurd (h [] rfl 0 _ rfl rfl trivial) (by simp)

def listed : List Act :=
  [.main (.accept 0), .main (hello "w"), .main (.ack 0 true), .receive 0, .main (.register 0),
    .listNodes]

theorem singleOwner_of_not_accepted (h : ∀ e, a = .main e → accepted server e = none) :
    SingleOwner server w a := by
  intro e c info he hacc
  rw [h e he] at hacc
  cases hacc

theorem singleOwner_of_first (h : ∀ c, w.info c = none) : SingleOwner server w a := by
  intro e c info _ _ c' info' hinfo
  rw [h c'] at hinfo
  cases hinfo

theorem listed_single :
    Guarded (Watch.step ⟨"secret", fromSecs 10⟩) (SingleOwner ⟨"secret", fromSecs 10⟩) .init
      listed :=
  (guarded_cons rfl).mpr ⟨singleOwner_of_first fun _ => rfl,
  (guarded_cons rfl).mpr ⟨singleOwner_of_first fun _ => rfl,
  (guarded_cons rfl).mpr ⟨singleOwner_of_not_accepted (by rintro e ⟨⟩; rfl),
  (guarded_cons rfl).mpr ⟨singleOwner_of_not_accepted (by rintro e ⟨⟩),
  (guarded_cons rfl).mpr ⟨singleOwner_of_not_accepted (by rintro e ⟨⟩; rfl),
  (guarded_cons rfl).mpr ⟨singleOwner_of_not_accepted (by rintro e ⟨⟩), trivial⟩⟩⟩⟩⟩⟩

theorem listed_iff_not_early_listed :
    Always (Watch.step ⟨"secret", fromSecs 10⟩) Watch.Listed .init listed ↔
      Guarded (Watch.step ⟨"secret", fromSecs 10⟩) NotEarly .init listed :=
  listed_iff_not_early ⟨"secret", fromSecs 10⟩ listed listed_single

end Rinfra.Cluster
