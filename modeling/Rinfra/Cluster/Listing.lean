import Rinfra.Cluster.Codec
import Rinfra.Cluster.Isolation

/-!
# Answers that do not fit

The registry keeps an entry for every node that ever registered, and a
`NodeList` carries all of them in one frame. When the frame is too long the
codec refuses it, and `handle_connection` drops the error.

`Link` follows the server along with the frames it writes, and `due` lists what
they should say: the content of the registry at each `ListNodes` whose
connection takes the answer.
-/

namespace Rinfra.Cluster

open Rinfra.Lib ClusterCodec Json

/-- An event of the server with frames as they are on the wire. For a send,
`up` is whether the connection takes a frame. -/
inductive LinkEvent (Data : Type)
  | shutdown
  | accept (c : Nat)
  | registerFrame (c : Nat) (inbound : Option (Inbound Data))
  | ack (c : Nat) (up : Bool)
  | register (c : Nat)
  | cancelled (c : Nat)
  | tick (c : Nat)
  | pinged (c : Nat) (up : Bool)
  | frame (c : Nat) (inbound : Inbound Data)
  | list (c : Nat)
  | replied (c : Nat) (up : Bool)
  | unregister (c : Nat)
  | setOffline (c : Nat)

structure Link (Data : Type) where
  main : Main
  /-- The frames written to each connection, the latest first. -/
  written : Nat → List Data
  /-- What the registry held when the connection last asked for it. -/
  asked : Nat → List NodeInfo
  due : Nat → List (List NodeInfo)

def Link.init : Link Data := ⟨.init, fun _ => [], fun _ => [], fun _ => []⟩

def Phase.outgoing : Phase → Option ClusterMessage
  | .acking ack _ => some ack
  | .pinging .. => some .ping
  | .replying _ _ reply => some reply
  | _ => none

def Main.encoded (m : Main) (json : SerdeJson Data) (c : Nat) : Option Data :=
  (m.conns c).outgoing.bind (encode json)

/-- The event as the server sees it: frames are decoded, and a send fails when
the message cannot be encoded. -/
def LinkEvent.event (json : SerdeJson Data) (m : Main) : LinkEvent Data → Event
  | .shutdown => .shutdown
  | .accept c => .accept c
  | .registerFrame c inbound => .registerFrame c (inbound.map (decode json))
  | .ack c up => .ack c (up && (m.encoded json c).isSome)
  | .register c => .register c
  | .cancelled c => .cancelled c
  | .tick c => .tick c
  | .pinged c up => .pinged c (up && (m.encoded json c).isSome)
  | .frame c inbound => .frame c (decode json inbound)
  | .list c => .list c
  | .replied c up => .replied c (up && (m.encoded json c).isSome)
  | .unregister c => .unregister c
  | .setOffline c => .setOffline c

def LinkEvent.conn : LinkEvent Data → Option Nat
  | .shutdown => none
  | .accept c | .registerFrame c _ | .ack c _ | .register c | .cancelled c | .tick c | .pinged c _
  | .frame c _ | .list c | .replied c _ | .unregister c | .setOffline c => some c

def LinkEvent.takes : LinkEvent Data → Option Nat
  | .ack c true | .pinged c true | .replied c true => some c
  | _ => none

def ClusterMessage.nodes : ClusterMessage → Option (List NodeInfo)
  | .nodeList nodes => some nodes
  | _ => none

def Link.write (w : Link Data) (json : SerdeJson Data) (e : LinkEvent Data) : Nat → List Data :=
  match e.takes with
  | some c => Function.update w.written c ((w.main.encoded json c).toList ++ w.written c)
  | none => w.written

def Link.owe (w : Link Data) (e : LinkEvent Data) : Nat → List (List NodeInfo) :=
  match e.takes with
  | some c =>
    if ((w.main.conns c).outgoing.bind ClusterMessage.nodes).isSome then
      Function.update w.due c (w.asked c :: w.due c)
    else w.due
  | none => w.due

def Link.ask (w : Link Data) : LinkEvent Data → Nat → List NodeInfo
  | .list c => Function.update w.asked c w.main.registry.listNodes
  | _ => w.asked

def Link.step (server : ClusterServer) (json : SerdeJson Data) (w : Link Data)
    (e : LinkEvent Data) : Option (Link Data) := do
  let main ← Cluster.step server w.main (e.event json w.main)
  pure ⟨main, w.write json e, w.ask e, w.owe e⟩

def nodesOf (json : SerdeJson Data) (data : Data) : Option (List NodeInfo) :=
  match decode json (.frame data) with
  | .message msg => msg.nodes
  | _ => none

/-- On every connection, the lists that the worker reads are those due. -/
def Link.Answered (json : SerdeJson Data) (w : Link Data) : Prop :=
  ∀ c, (w.written c).filterMap (nodesOf json) = w.due c

/-- Where a connection takes the answer to its `ListNodes`, what the registry
held at that moment fits in a frame. -/
def Fits (json : SerdeJson Data) (w : Link Data) (e : LinkEvent Data) : Prop :=
  ∀ c n k nodes, e = .replied c true → w.main.conns c = .replying n k (.nodeList nodes) →
    json.len (json.toVec (.nodeList (w.asked c))) ≤ maxFrameLength

-- ---------------------------------------------------------------------------
-- What a connection is about to send
-- ---------------------------------------------------------------------------

/-- A list about to be sent is the one last asked for, and it is a reply. -/
structure Link.Inv (w : Link Data) : Prop where
  asked : ∀ c nodes, (w.main.conns c).outgoing = some (.nodeList nodes) → nodes = w.asked c
  acks : ∀ c ack info, w.main.conns c = .acking ack info → ack.nodes = none

section
variable {Data : Type} {server : ClusterServer} {json : SerdeJson Data} {m m' : Main}
  {w w' : Link Data}

theorem handleRegister_outgoing :
    (server.handleRegister frame).outgoing ≠ some (.nodeList nodes) := by
  unfold ClusterServer.handleRegister
  split
  · split <;> simp [Phase.outgoing]
  · simp [Phase.outgoing]

theorem handleFrame_outgoing : (handleFrame n k frame).outgoing ≠ some (.nodeList nodes) := by
  unfold handleFrame
  split <;> simp [Phase.outgoing]

theorem outgoing_of_step (h : Cluster.step server m e = some m') (hc : e.conn = some c)
    (ho : (m'.conns c).outgoing = some (.nodeList nodes)) :
    e = .list c ∧ nodes = m.registry.listNodes := by
  cases step_moves h with
  | shutdown => cases hc
  | registerFrame hp =>
    cases hc
    rw [goto_same] at ho
    exact absurd ho handleRegister_outgoing
  | frame hp hrun =>
    cases hc
    rw [goto_same] at ho
    exact absurd ho handleFrame_outgoing
  | list hp =>
    cases hc
    simp only [goto_same, Phase.outgoing, Option.some.injEq, ClusterMessage.nodeList.injEq] at ho
    exact ⟨rfl, ho.symm⟩
  | register hp hq =>
    cases hc
    rw [goto_same] at ho
    split at hq <;> subst hq <;> cases ho
  | _ =>
    cases hc
    simp [Phase.outgoing] at ho

theorem acking_of_step {ack : ClusterMessage} (h : Cluster.step server m e = some m')
    (ha : m'.conns c = .acking ack info) : m.conns c = .acking ack info ∨ ack.nodes = none := by
  by_cases hc : e.conn = some c
  · right
    rcases step_kinds h with ⟨rfl, rfl⟩ | ⟨c', rfl, -, rfl⟩ | ⟨c', frame, rfl, -, rfl⟩ |
      ⟨c', hc', hs⟩
    · cases hc
    · cases hc
      simp at ha
    · cases hc
      rw [goto_same] at ha
      obtain ⟨success, error, rfl⟩ := handleRegister_ack ha
      rfl
    · obtain rfl : c' = c := Option.some.inj (hc'.symm.trans hc)
      exact absurd ha (hs.acking ack info)
  · exact .inl ((conns_of_ne h hc).symm.trans ha)

theorem Link.step_main (h : w.step server json e = some w') :
    Cluster.step server w.main (e.event json w.main) = some w'.main ∧
      w'.written = w.write json e ∧ w'.asked = w.ask e ∧ w'.due = w.owe e := by
  simp only [Link.step, Option.bind_eq_bind, Option.bind_eq_some_iff] at h
  obtain ⟨main, hm, h⟩ := h
  cases h
  exact ⟨hm, rfl, rfl, rfl⟩

theorem event_list {e : LinkEvent Data} (h : e.event json m = .list c) : e = .list c := by
  cases e with
  | list c' =>
    cases h
    rfl
  | _ => cases h

theorem Link.Inv.step (hi : w.Inv) (h : w.step server json e = some w') : w'.Inv := by
  obtain ⟨hm, -, hasked, -⟩ := Link.step_main h
  constructor
  · intro c nodes ho
    by_cases hc : (e.event json w.main).conn = some c
    · obtain ⟨he, rfl⟩ := outgoing_of_step hm hc ho
      obtain rfl := event_list he
      rw [hasked, Link.ask, Function.update_self]
    · rw [conns_of_ne hm hc] at ho
      rw [hi.asked c nodes ho, hasked]
      unfold Link.ask
      split
      · rename_i c'
        have hne : c ≠ c' := by
          rintro rfl
          exact hc rfl
        exact (Function.update_of_ne hne ..).symm
      · rfl
  · intro c ack info ha
    rcases acking_of_step hm ha with ha | ha
    · exact hi.acks c ack info ha
    · exact ha

-- ---------------------------------------------------------------------------
-- What is written and what is due
-- ---------------------------------------------------------------------------

theorem takes_list (h : w.step server json e = some w') (hi : w.Inv) (ht : e.takes = some c)
    (ho : (w.main.conns c).outgoing = some (.nodeList nodes)) :
    e = .replied c true ∧ ∃ n k, w.main.conns c = .replying n k (.nodeList nodes) := by
  have hp : ∃ n k, w.main.conns c = .replying n k (.nodeList nodes) := by
    cases hp : w.main.conns c with
    | acking ack info =>
      rw [hp] at ho
      cases ho
      cases hi.acks c _ info hp
    | replying n k reply =>
      rw [hp] at ho
      cases ho
      exact ⟨n, k, rfl⟩
    | _ =>
      rw [hp] at ho
      cases ho
  obtain ⟨n, k, hp⟩ := hp
  refine ⟨?_, n, k, hp⟩
  obtain ⟨hm, -⟩ := Link.step_main h
  cases e with
  | ack c' up | pinged c' up =>
    cases up <;> cases ht
    simp [LinkEvent.event, Cluster.step, hp] at hm
  | replied c' up =>
    cases up <;> cases ht
    rfl
  | _ => cases ht

theorem event_conn (e : LinkEvent Data) : (e.event json m).conn = e.conn := by
  cases e <;> rfl

theorem conns_of_other (hc : decide (e.conn = some c) = false)
    (h : w.step server json e = some w') : w'.main.conns c = w.main.conns c := by
  obtain ⟨hm, -⟩ := Link.step_main h
  apply conns_of_ne hm
  rw [event_conn]
  simpa using hc

theorem frame_listing (h : w.step server json (.frame c inbound) = some w')
    (hask : decode json inbound = .message .listNodes) :
    ∃ n k, w'.main.conns c = .listing n k := by
  obtain ⟨hm, -⟩ := Link.step_main h
  rw [LinkEvent.event, hask] at hm
  generalize w'.main = m' at hm ⊢
  cases step_moves hm with
  | frame hp hrun => exact ⟨_, _, goto_same⟩

theorem listing_next (hp : w.main.conns c = .listing n k) (hc : e.conn = some c)
    (h : w.step server json e = some w') :
    e = .list c ∧ w'.main.conns c = .replying n k (.nodeList w.main.registry.listNodes) := by
  obtain ⟨hm, -⟩ := Link.step_main h
  generalize w'.main = m' at hm ⊢
  cases e with
  | shutdown => cases hc
  | list c =>
    cases hc
    simp only [LinkEvent.event, Cluster.step, hp] at hm
    cases hm
    exact ⟨rfl, goto_same⟩
  | _ =>
    cases hc
    simp [LinkEvent.event, Cluster.step, hp] at hm

theorem replying_next (hp : w.main.conns c = .replying n k reply) (hc : e.conn = some c)
    (h : w.step server json e = some w') : ∃ up, e = .replied c up := by
  obtain ⟨hm, -⟩ := Link.step_main h
  cases e with
  | shutdown => cases hc
  | replied c up =>
    cases hc
    exact ⟨up, rfl⟩
  | _ =>
    cases hc
    simp [LinkEvent.event, Cluster.step, hp] at hm

/-- Once a `ListNodes` has been received, the connection reads the registry and
sends a reply before it does anything else. -/
theorem answer_next (hp : w.main.conns c = .listing n k)
    (hr : run (Link.step server json) w es = some w') :
    ∃ up, (es.filter fun e => e.conn = some c).take 2 <+: [.list c, .replied c up] := by
  have hothers : ∀ w e w', decide (e.conn = some c) = false →
      Link.step server json w e = some w' → w'.main.conns c = w.main.conns c :=
    fun w e w' => conns_of_other
  rcases run_next hothers hr with hnone | ⟨e, fs, w₁, w₂, hfilter, hc, hw₁, hs, hr⟩
  · rw [hnone]
    exact ⟨true, List.nil_prefix⟩
  · obtain ⟨rfl, hp'⟩ := listing_next (hw₁.trans hp) (of_decide_eq_true hc) hs
    rw [hfilter]
    rcases run_next hothers hr with hnone | ⟨e', gs, w₃, w₄, hfilter', hc', hw₃, hs', -⟩
    · rw [hnone]
      exact ⟨true, [.replied c true], rfl⟩
    · obtain ⟨up, rfl⟩ := replying_next (hw₃.trans hp') (of_decide_eq_true hc') hs'
      rw [hfilter']
      exact ⟨up, List.prefix_rfl⟩

theorem encode_eq_some_iff : encode json msg = some data ↔
    json.len (json.toVec msg) ≤ maxFrameLength ∧ json.toVec msg = data := by
  simp [encode]

theorem encode_eq_none_iff :
    encode json msg = none ↔ maxFrameLength < json.len (json.toVec msg) := by
  simp [encode]

theorem answered_of_no_list (laws : json.Lawful) (hp : w.Answered json)
    (hno : ∀ c, e.takes = some c → (w.main.conns c).outgoing.bind ClusterMessage.nodes = none)
    (hw : w'.written = w.write json e) (hd : w'.due = w.owe e) : w'.Answered json := by
  intro c
  rw [hw, hd]
  cases ht : e.takes with
  | none => simpa [Link.write, Link.owe, ht] using hp c
  | some c' =>
    have hnone := hno c' ht
    have hdue : w.owe e = w.due := by simp [Link.owe, ht, hnone]
    rw [hdue]
    by_cases hcc : c = c'
    · subst hcc
      cases he : w.main.encoded json c with
      | none => simpa [Link.write, ht, he] using hp c
      | some data =>
        obtain ⟨msg, ho, hen⟩ := Option.bind_eq_some_iff.mp he
        have hnodes : nodesOf json data = none := by
          rw [ho, Option.bind_some] at hnone
          simp [nodesOf, decode_encode laws hen, hnone]
        simpa [Link.write, ht, he, List.filterMap_cons, hnodes] using hp c
    · simpa [Link.write, ht, Function.update_of_ne hcc] using hp c

theorem Link.Answered.step_iff (laws : json.Lawful) (hi : w.Inv) (hp : w.Answered json)
    (h : w.step server json e = some w') : w'.Answered json ↔ Fits json w e := by
  obtain ⟨-, hw, -, hd⟩ := Link.step_main h
  by_cases hlist : ∃ c nodes, e.takes = some c ∧
      (w.main.conns c).outgoing = some (.nodeList nodes)
  · obtain ⟨c, nodes, ht, ho⟩ := hlist
    obtain ⟨rfl, n, k, hc⟩ := takes_list h hi ht ho
    obtain rfl := hi.asked c nodes ho
    have hdue : w'.due c = w.asked c :: w.due c := by
      rw [hd]
      simp [Link.owe, LinkEvent.takes, ho, ClusterMessage.nodes]
    have hfits : Fits json w (.replied c true) ↔
        json.len (json.toVec (.nodeList (w.asked c))) ≤ maxFrameLength := by
      constructor
      · exact fun hf => hf c n k _ rfl hc
      · rintro hf _ n' k' nodes' ⟨⟩ -
        exact hf
    rw [hfits]
    constructor
    · intro hp'
      by_contra hlong
      have hnone : w.main.encoded json c = none := by
        simp [Main.encoded, ho, encode_eq_none_iff.mpr (Nat.lt_of_not_le hlong)]
      have hwritten : w'.written c = w.written c := by
        rw [hw]
        simp [Link.write, LinkEvent.takes, hnone]
      have := hp' c
      rw [hwritten, hp c, hdue] at this
      exact absurd this (by simp)
    · intro hshort c'
      by_cases hcc : c' = c
      · subst hcc
        have hsome : w.main.encoded json c' = some (json.toVec (.nodeList (w.asked c'))) := by
          simp [Main.encoded, ho, encode, hshort]
        have hnodes : nodesOf json (json.toVec (.nodeList (w.asked c'))) = some (w.asked c') := by
          simp [nodesOf, decode_encode laws (encode_eq_some_iff.mpr ⟨hshort, rfl⟩),
            ClusterMessage.nodes]
        have hwritten : w'.written c' = json.toVec (.nodeList (w.asked c')) :: w.written c' := by
          rw [hw]
          simp [Link.write, LinkEvent.takes, hsome]
        rw [hwritten, hdue, List.filterMap_cons, hnodes, hp c']
      · have hsame : w'.written c' = w.written c' ∧ w'.due c' = w.due c' := by
          rw [hw, hd]
          simp [Link.write, Link.owe, LinkEvent.takes, ho, ClusterMessage.nodes,
            Function.update_of_ne hcc]
        rw [hsame.1, hsame.2, hp c']
  · refine iff_of_true (answered_of_no_list laws hp ?_ hw hd) ?_
    · intro c ht
      rw [Option.bind_eq_none_iff]
      intro msg ho
      cases msg with
      | nodeList nodes => exact absurd ⟨c, nodes, ht, ho⟩ hlist
      | _ => rfl
    · rintro c n k nodes rfl hc
      exact absurd ⟨c, nodes, rfl, by rw [hc]; rfl⟩ hlist

end

/-- In any run, every worker reads on its connection the registry as it was at
each of its `ListNodes` that the connection takes an answer to, one list for
each, exactly when every such list fits in a frame. The connection turns to the
answer as soon as it has received the `ListNodes`.

Premise: what `serde_json` writes it reads back. -/
theorem answered_iff_fits (server : ClusterServer) (json : SerdeJson Data) (laws : json.Lawful)
    (es : List (LinkEvent Data)) :
    (Always (Link.step server json) (Link.Answered json) .init es ↔
      Guarded (Link.step server json) (Fits json) .init es) ∧
    ∀ earlier later c inbound w,
      es = earlier ++ .frame c inbound :: later →
      decode json inbound = .message .listNodes →
      run (Link.step server json) .init es = some w →
      ∃ up, (later.filter fun e => e.conn = some c).take 2 <+: [.list c, .replied c up] := by
  constructor
  · have hi : Link.Inv (.init : Link Data) := by
      constructor
      · intro c nodes h
        cases h
      · intro c ack info h
        cases h
    exact always_iff_guarded hi (fun _ => rfl) (fun _ _ _ hi _ h _ => hi.step h)
      fun _ _ _ hi hp h => hp.step_iff laws hi h
  · rintro earlier later c inbound w rfl hask hr
    rw [run_append, Option.bind_eq_some_iff] at hr
    obtain ⟨w₁, -, hr⟩ := hr
    obtain ⟨w₂, hs, hr⟩ := run_cons.mp hr
    obtain ⟨n, k, hp⟩ := frame_listing hs hask
    exact answer_next hp hr

-- ---------------------------------------------------------------------------
-- Two workers with much metadata
-- ---------------------------------------------------------------------------

def bulky (n : Nat) : Metadata :=
  (∅ : Metadata).insert "notes" (String.ofList (List.replicate n 'x'))

def bulkyRegister (n : Nat) (nodeId : String) : ClusterMessage :=
  .register nodeId .worker [] (bulky n) "secret"

def bulkyNode (n : Nat) (nodeId : String) : NodeInfo := ⟨nodeId, .worker, [], bulky n, .online⟩

/-- Two workers register, and the first one asks for the nodes. -/
def bulkyWorkers (n : Nat) : List (LinkEvent ClusterMessage) :=
  [.accept 0, .registerFrame 0 (some (.frame (bulkyRegister n "w1"))), .ack 0 true, .register 0,
    .accept 1, .registerFrame 1 (some (.frame (bulkyRegister n "w2"))), .ack 1 true, .register 1,
    .frame 0 (.frame .listNodes), .list 0, .replied 0 true]

theorem total_replicate (n k : Nat) : total (List.replicate n k) = n * k := by
  induction n with
  | zero => simp
  | succ n ih => rw [List.replicate_succ, total_cons, ih, Nat.succ_mul, Nat.add_comm]

theorem bulky_jsonLen : Metadata.jsonLen (bulky n) = n + 12 := by
  have htext : stringLen (String.ofList (List.replicate n 'x')) = n + 2 := by
    have h : charLen 'x' = 1 := by decide
    simp [stringLen, h, total_replicate, Nat.add_comm]
  have hname : stringLen "notes" = 7 := by decide
  have hlist : (bulky n).toList = [("notes", String.ofList (List.replicate n 'x'))] := rfl
  simp [Metadata.jsonLen, hlist, objectLen, arrayLen, htext, hname]
  omega

theorem bulkyRegister_jsonLen :
    (bulkyRegister n nodeId).jsonLen = n + stringLen nodeId + 97 := by
  have h : stringLen "Register" = 10 ∧ stringLen "node_id" = 9 ∧ stringLen "role" = 6 ∧
      stringLen "Worker" = 8 ∧ stringLen "endpoints" = 11 ∧ stringLen "metadata" = 10 ∧
      stringLen "token" = 7 ∧ stringLen "secret" = 8 := by decide
  simp [bulkyRegister, ClusterMessage.jsonLen, NodeRole.jsonLen, objectLen, arrayLen,
    bulky_jsonLen, h]
  omega

theorem bulkyNode_jsonLen : (bulkyNode n nodeId).jsonLen = n + stringLen nodeId + 80 := by
  have h : stringLen "id" = 4 ∧ stringLen "role" = 6 ∧ stringLen "Worker" = 8 ∧
      stringLen "endpoints" = 11 ∧ stringLen "metadata" = 10 ∧ stringLen "status" = 8 ∧
      stringLen "Online" = 8 := by decide
  simp [bulkyNode, NodeInfo.jsonLen, NodeRole.jsonLen, NodeStatus.jsonLen, objectLen, arrayLen,
    bulky_jsonLen, h]
  omega

theorem bulkyList_jsonLen : (ClusterMessage.nodeList [bulkyNode n a, bulkyNode n b]).jsonLen =
    2 * n + stringLen a + stringLen b + 186 := by
  have h : stringLen "NodeList" = 10 ∧ stringLen "nodes" = 7 := by decide
  simp [ClusterMessage.jsonLen, objectLen, arrayLen, bulkyNode_jsonLen, h]
  omega

theorem bulky_listNodes :
    ((ConnectedRegistry.new.register "w1" .worker [] (bulky n)).register "w2" .worker []
      (bulky n)).listNodes = [bulkyNode n "w1", bulkyNode n "w2"] := rfl

/-- The registrations fit, the list of the two nodes does not. -/
theorem bulkyWorkers_run
    (hfit : ∀ nodeId ∈ ["w1", "w2"], (bulkyRegister n nodeId).jsonLen ≤ maxFrameLength)
    (hlong : maxFrameLength <
      (ClusterMessage.nodeList [bulkyNode n "w1", bulkyNode n "w2"]).jsonLen) :
    ∃ w, run (Link.step ⟨"secret", fromSecs 10⟩ plainJson) .init (bulkyWorkers n) = some w ∧
      w.due 0 = [[bulkyNode n "w1", bulkyNode n "w2"]] ∧
      (w.written 0).filterMap (nodesOf plainJson) = [] := by
  have hregister : ∀ nodeId ∈ ["w1", "w2"],
      decode plainJson (.frame (bulkyRegister n nodeId)) = .message (bulkyRegister n nodeId) :=
    fun nodeId h =>
      decode_encode plainJson_lawful (encode_eq_some_iff.mpr ⟨hfit nodeId h, rfl⟩)
  have hw1 := hregister "w1" (by simp)
  have hw2 := hregister "w2" (by simp)
  have hask : decode plainJson (.frame .listNodes) = .message .listNodes :=
    decode_encode plainJson_lawful (encode_eq_some_iff.mpr ⟨by decide, rfl⟩)
  have hack : encode plainJson (.registerAck true none) = some (.registerAck true none) :=
    encode_eq_some_iff.mpr ⟨by decide, rfl⟩
  have hlist : encode plainJson (.nodeList [bulkyNode n "w1", bulkyNode n "w2"]) = none :=
    encode_eq_none_iff.mpr hlong
  have hread : nodesOf plainJson (.registerAck true none) = none := by
    simp [nodesOf, decode_encode plainJson_lawful hack, ClusterMessage.nodes]
  simp only [bulkyWorkers, run, Link.step, LinkEvent.event, Option.map_some, hw1, hw2, hask]
  simp [Cluster.step, Link.init, Main.init, Main.goto, Main.send, Main.encoded, Phase.outgoing,
    bulkyRegister, ClusterServer.handleRegister, handleFrame, fromSecs, nanosPerSec,
    ClusterMessage.nodes, bulky_listNodes, Link.owe, Link.write, LinkEvent.takes, Link.ask, hack,
    hlist, hread]

theorem bulkyWorkers_unanswered :
    (∀ nodeId ∈ ["w1", "w2"], (bulkyRegister 40000 nodeId).jsonLen ≤ maxFrameLength) ∧
    ∃ w, run (Link.step ⟨"secret", fromSecs 10⟩ plainJson) .init (bulkyWorkers 40000) = some w ∧
      w.due 0 = [[bulkyNode 40000 "w1", bulkyNode 40000 "w2"]] ∧
      (w.written 0).filterMap (nodesOf plainJson) = [] ∧ ¬ w.Answered plainJson := by
  have hids : stringLen "w1" = 4 ∧ stringLen "w2" = 4 := by decide
  have hfit : ∀ nodeId ∈ ["w1", "w2"],
      (bulkyRegister 40000 nodeId).jsonLen ≤ maxFrameLength := by
    simp [bulkyRegister_jsonLen, hids, maxFrameLength]
  have hlong : maxFrameLength <
      (ClusterMessage.nodeList [bulkyNode 40000 "w1", bulkyNode 40000 "w2"]).jsonLen := by
    simp [bulkyList_jsonLen, hids, maxFrameLength]
  obtain ⟨w, hr, hdue, hnone⟩ := bulkyWorkers_run hfit hlong
  refine ⟨hfit, w, hr, hdue, hnone, fun h => ?_⟩
  have := h 0
  rw [hnone, hdue] at this
  cases this

theorem answered_iff_fits_bulkyWorkers :
    Always (Link.step ⟨"secret", fromSecs 10⟩ plainJson) (Link.Answered plainJson) .init
        (bulkyWorkers 10) ↔
      Guarded (Link.step ⟨"secret", fromSecs 10⟩ plainJson) (Fits plainJson) .init
        (bulkyWorkers 10) :=
  (answered_iff_fits ⟨"secret", fromSecs 10⟩ plainJson plainJson_lawful (bulkyWorkers 10)).1

end Rinfra.Cluster
