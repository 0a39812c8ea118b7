import Rinfra.Lib.Json
import Rinfra.Sdk.Alignment

/-!
# Resolving over the registry

A node that leaves stays in the registry of the main node as `Offline`, and the
reply to `ListNodes` has every entry with its status. The providers of the SDKs
keep the id, the endpoints and the metadata of a node, so the resolvers do not
see the status.
-/

namespace Rinfra.Sdk

open Cluster (Endpoint Metadata ConnectedRegistry)
open Lib.Json (Value)

-- ---------------------------------------------------------------------------
-- The reply of the main node
-- ---------------------------------------------------------------------------

def roleJson : Cluster.NodeRole → Value
  | .main => .string "Main"
  | .worker => .string "Worker"

def statusJson : Cluster.NodeStatus → Value
  | .online => .string "Online"
  | .offline => .string "Offline"
  | .draining => .string "Draining"

def endpointJson (e : Endpoint) : Value :=
  .object [("protocol", .string e.protocol), ("address", .string e.address)]

def metadataJson (metadata : Metadata) : Value :=
  .object (metadata.toList.map fun entry => (entry.1, .string entry.2))

def nodeJson (node : Cluster.NodeInfo) : Value :=
  .object [("id", .string node.id), ("role", roleJson node.role),
    ("endpoints", .array (node.endpoints.map endpointJson)),
    ("metadata", metadataJson node.metadata), ("status", statusJson node.status)]

def nodeListJson (nodes : List Cluster.NodeInfo) : Value :=
  .object [("NodeList", .object [("nodes", .array (nodes.map nodeJson))])]

def elements : Option Value → List Value
  | some (.array elements) => elements
  | _ => []

/-- The `listNodes` of a client hands on the elements as they are. -/
def rawNodes (reply : Value) : List Value := elements (reply.at? ["NodeList", "nodes"])

-- ---------------------------------------------------------------------------
-- The providers
-- ---------------------------------------------------------------------------

namespace Go

/-- `json.Unmarshal` into a string; `null` leaves it as it was. -/
def unmarshalString : Option Value → Option String
  | none | some .null => some ""
  | some (.string s) => some s
  | some _ => none

def unmarshalEndpoint : Value → Option Endpoint
  | .null => some ⟨"", ""⟩
  | .object fields => do
    let protocol ← unmarshalString ((Value.object fields).get? "protocol")
    let address ← unmarshalString ((Value.object fields).get? "address")
    return ⟨protocol, address⟩
  | _ => none

def unmarshalEndpoints : Option Value → Option (List Endpoint)
  | none | some .null => some []
  | some (.array es) => es.mapM unmarshalEndpoint
  | some _ => none

def unmarshalEntry (field : String × Value) : Option (String × String) :=
  (unmarshalString (some field.2)).map fun value => (field.1, value)

def unmarshalMetadata : Option Value → Option Metadata
  | none | some .null => some ∅
  | some (.object fields) => do
    let entries ← fields.mapM unmarshalEntry
    return Std.ExtTreeMap.ofList entries
  | some _ => none

/-- The keys are those of the main node, so none differs from a field in case. -/
def unmarshalNode : Value → Option NodeInfo
  | .null => some ⟨"", [], ∅⟩
  | .object fields => do
    let id ← unmarshalString ((Value.object fields).get? "id")
    let endpoints ← unmarshalEndpoints ((Value.object fields).get? "endpoints")
    let metadata ← unmarshalMetadata ((Value.object fields).get? "metadata")
    return ⟨id, endpoints, metadata⟩
  | _ => none

/-- A node that cannot be read is left out. -/
def provide (reply : Value) : List NodeInfo := (rawNodes reply).filterMap unmarshalNode

end Go

/-- The text of a field; what a language writes of a value that is no string is
`other`. -/
def text (other : Value → String) : Option Value → String
  | none => ""
  | some (.string s) => s
  | some value => other value

def readEndpoint (other : Value → String) (value : Value) : Endpoint :=
  ⟨text other (value.get? "protocol"), text other (value.get? "address")⟩

def readMetadata (other : Value → String) : Option Value → Metadata
  | some (.object fields) =>
    Std.ExtTreeMap.ofList (fields.map fun field => (field.1, text other (some field.2)))
  | _ => ∅

/-- A node as TypeScript, Python and Java read it; `keeps` says which elements
are taken for endpoints. -/
def readNode (other : Value → String) (keeps : Value → Bool) (value : Value) : NodeInfo where
  id := text other (value.get? "id")
  endpoints := ((elements (value.get? "endpoints")).filter keeps).map (readEndpoint other)
  metadata := readMetadata other (value.get? "metadata")

/-- The parsed object itself is the node. -/
def Ts.provide (other : Value → String) (reply : Value) : List NodeInfo :=
  (rawNodes reply).map (readNode other fun _ => true)

def Py.provide (other : Value → String) (reply : Value) : List NodeInfo :=
  (rawNodes reply).map (readNode other fun value => value.IsObject)

def Java.provide (other : Value → String) (reply : Value) : List NodeInfo :=
  (rawNodes reply).map (readNode other fun _ => true)

def view (node : Cluster.NodeInfo) : NodeInfo := ⟨node.id, node.endpoints, node.metadata⟩

section
variable {node : Cluster.NodeInfo} {nodes : List Cluster.NodeInfo} {other : Value → String}

theorem ofList_toList (metadata : Metadata) : Std.ExtTreeMap.ofList metadata.toList = metadata := by
  refine Std.ExtTreeMap.ext_getElem? fun key => ?_
  cases hget : metadata[key]? with
  | some value =>
    exact Std.ExtTreeMap.getElem?_ofList_of_mem Std.ReflCmp.compare_self
      Std.ExtTreeMap.distinct_keys_toList (Std.ExtTreeMap.mem_toList_iff_getElem?_eq_some.mpr hget)
  | none =>
    refine Std.ExtTreeMap.getElem?_ofList_of_contains_eq_false ?_
    rw [List.contains_eq_mem, decide_eq_false_iff_not]
    intro hmem
    obtain ⟨entry, hentry, rfl⟩ := List.mem_map.mp hmem
    rw [Std.ExtTreeMap.mem_toList_iff_getElem?_eq_some.mp hentry] at hget
    cases hget

theorem rawNodes_nodeListJson : rawNodes (nodeListJson nodes) = nodes.map nodeJson := rfl

theorem Go.unmarshalEndpoint_json (e : Endpoint) :
    Go.unmarshalEndpoint (endpointJson e) = some e := rfl

theorem mapM_map_some {write : α → β} {read : β → Option α} (h : ∀ a, read (write a) = some a)
    (l : List α) : (l.map write).mapM read = some l := by
  induction l with
  | nil => rfl
  | cons a l ih => simp [h, ih]

theorem Go.unmarshalMetadata_json (metadata : Metadata) :
    Go.unmarshalMetadata (some (metadataJson metadata)) = some metadata := by
  have hread : ∀ entry : String × String,
      Go.unmarshalEntry (entry.1, Value.string entry.2) = some entry := fun _ => rfl
  have hentries : (metadata.toList.map fun entry => (entry.1, Value.string entry.2)).mapM
      Go.unmarshalEntry = some metadata.toList :=
    mapM_map_some hread metadata.toList
  simp only [Go.unmarshalMetadata, metadataJson, hentries]
  exact congrArg some (ofList_toList metadata)

theorem readMetadata_json (metadata : Metadata) :
    readMetadata other (some (metadataJson metadata)) = metadata := by
  have hentries : (metadata.toList.map fun entry => (entry.1, Value.string entry.2)).map
      (fun field => (field.1, text other (some field.2))) = metadata.toList := by
    rw [List.map_map]
    exact List.map_id _
  simp only [readMetadata, metadataJson, hentries, ofList_toList]

theorem Go.unmarshalNode_json (node : Cluster.NodeInfo) :
    Go.unmarshalNode (nodeJson node) = some (view node) := by
  have hid : (nodeJson node).get? "id" = some (.string node.id) := rfl
  have hendpoints : Go.unmarshalEndpoints ((nodeJson node).get? "endpoints") =
      some node.endpoints :=
    mapM_map_some Go.unmarshalEndpoint_json node.endpoints
  have hmetadata : Go.unmarshalMetadata ((nodeJson node).get? "metadata") = some node.metadata :=
    Go.unmarshalMetadata_json node.metadata
  rw [nodeJson] at hid hendpoints hmetadata ⊢
  simp only [Go.unmarshalNode, hid, hendpoints, hmetadata]
  rfl

theorem readNode_json {keeps : Value → Bool} (h : ∀ e, keeps (endpointJson e)) :
    readNode other keeps (nodeJson node) = view node := by
  have hendpoints : ((elements ((nodeJson node).get? "endpoints")).filter keeps).map
      (readEndpoint other) = node.endpoints := by
    change ((node.endpoints.map endpointJson).filter keeps).map (readEndpoint other) = _
    rw [List.filter_eq_self.mpr, List.map_map]
    · exact List.map_id _
    · simp only [List.mem_map]
      rintro _ ⟨e, -, rfl⟩
      exact h e
  have hmetadata : readMetadata other ((nodeJson node).get? "metadata") = node.metadata :=
    readMetadata_json node.metadata
  rw [readNode, hendpoints, hmetadata]
  rfl

theorem Go.provide_nodeListJson : Go.provide (nodeListJson nodes) = nodes.map view := by
  rw [Go.provide, rawNodes_nodeListJson, List.filterMap_map]
  have hread : Go.unmarshalNode ∘ nodeJson = some ∘ view := funext Go.unmarshalNode_json
  rw [hread, List.filterMap_eq_map]

theorem map_readNode_json {keeps : Value → Bool} (h : ∀ e, keeps (endpointJson e)) :
    (rawNodes (nodeListJson nodes)).map (readNode other keeps) = nodes.map view := by
  rw [rawNodes_nodeListJson, List.map_map]
  exact List.map_congr_left fun node _ => readNode_json h

end

-- ---------------------------------------------------------------------------
-- Live nodes
-- ---------------------------------------------------------------------------

def Go.accepts (maps : CaseMaps) (o : ResolveOptions) (node : NodeInfo) (e : Endpoint) : Bool :=
  Go.matchMetadata (Go.withDefaults o) node && Go.serves maps o e

def Ts.accepts (maps : CaseMaps) (o : ResolveOptions) (node : NodeInfo) (e : Endpoint) : Bool :=
  metadataMatch (· = "") o node && Ts.serves maps o e

def Py.accepts (maps : CaseMaps) (o : ResolveOptions) (node : NodeInfo) (e : Endpoint) : Bool :=
  metadataMatch (· = "") o node && Py.serves maps o e

def Java.accepts (maps : CaseMaps) (o : ResolveOptions) (node : NodeInfo) (e : Endpoint) : Bool :=
  metadataMatch isBlank (Java.withDefaults o) node && Java.serves maps o e

/-- An endpoint of a node that is online. -/
def IsLive (nodes : List Cluster.NodeInfo) (e : Endpoint) : Prop :=
  ∃ node ∈ nodes, node.status = .online ∧ e ∈ node.endpoints

/-- No online node has an endpoint that the filters accept. -/
def NoneOnline (accepts : NodeInfo → Endpoint → Bool) (nodes : List Cluster.NodeInfo) : Prop :=
  ∀ node ∈ nodes, node.status = .online → ∀ e ∈ node.endpoints, accepts (view node) e = false

/-- What is listed and what is picked is live, and there is nothing where no
online node matches. -/
structure LiveOnly (accepts : NodeInfo → Endpoint → Bool) (nodes : List Cluster.NodeInfo)
    (result : Except RpcError (List Endpoint)) : Prop where
  list : ∀ es, result = .ok es → ∀ e ∈ es, IsLive nodes e
  resolve : ∀ draw e, pick draw result = .ok (some e) → IsLive nodes e
  notFound : NoneOnline accepts nodes → ∃ err, result = .error err ∧ err.code = .notFound

/-- What the filters accept at a node that is not online is live all the same,
and they accept something at an online node as well. -/
def Covered (accepts : NodeInfo → Endpoint → Bool) (nodes : List Cluster.NodeInfo) : Prop :=
  ∀ node ∈ nodes, node.status ≠ .online → ∀ e ∈ node.endpoints, accepts (view node) e →
    IsLive nodes e ∧ ¬ NoneOnline accepts nodes

theorem mem_of_pick (h : pick draw (.ok es) = .ok (some e)) : e ∈ es := by
  simp only [pick, Except.map, Except.ok.injEq] at h
  exact List.mem_of_getElem? h

theorem liveOnly_iff {f : NodeInfo → Bool} {p : Endpoint → Bool} {nodes : List Cluster.NodeInfo} :
    LiveOnly (fun node e => f node && p e) nodes (listEndpoints f p service (nodes.map view)) ↔
      Covered (fun node e => f node && p e) nodes := by
  have hlisted : ∀ e, e ∈ candidates f p (nodes.map view) ↔
      ∃ node ∈ nodes, e ∈ node.endpoints ∧ (f (view node) && p e) := by
    intro e
    rw [mem_candidates]
    simp only [List.mem_map, Bool.and_eq_true]
    constructor
    · rintro ⟨_, ⟨node, hnode, rfl⟩, hf, he, hp⟩
      exact ⟨node, hnode, he, hf, hp⟩
    · rintro ⟨node, hnode, he, hf, hp⟩
      exact ⟨view node, ⟨node, hnode, rfl⟩, hf, he, hp⟩
  constructor
  · intro h node hnode _ e he haccepts
    have hmem := (hlisted e).mpr ⟨node, hnode, he, haccepts⟩
    have hok : listEndpoints f p service (nodes.map view) =
        .ok (candidates f p (nodes.map view)) :=
      listEndpoints_eq_ok.mpr ⟨rfl, List.ne_nil_of_mem hmem⟩
    refine ⟨h.list _ hok e hmem, fun hnone => ?_⟩
    obtain ⟨err, herr, -⟩ := h.notFound hnone
    rw [hok] at herr
    cases herr
  · intro h
    have hlive : ∀ e ∈ candidates f p (nodes.map view),
        IsLive nodes e ∧ ¬ NoneOnline (fun node e => f node && p e) nodes := by
      intro e hmem
      obtain ⟨node, hnode, he, haccepts⟩ := (hlisted e).mp hmem
      by_cases honline : node.status = .online
      · refine ⟨⟨node, hnode, honline, he⟩, fun hnone => ?_⟩
        exact Bool.false_ne_true ((hnone node hnode honline e he).symm.trans haccepts)
      · exact h node hnode honline e he haccepts
    have hlist : ∀ es, listEndpoints f p service (nodes.map view) = .ok es →
        ∀ e ∈ es, IsLive nodes e := by
      intro es hes e he
      rw [(listEndpoints_eq_ok.mp hes).1] at he
      exact (hlive e he).1
    refine ⟨hlist, fun draw e hpick => ?_, fun hnone => ?_⟩
    · cases hes : listEndpoints f p service (nodes.map view) with
      | ok es =>
        rw [hes] at hpick
        exact hlist es hes e (mem_of_pick hpick)
      | error err =>
        rw [hes] at hpick
        cases hpick
    · refine ⟨notFound service, listEndpoints_eq_error.mpr ⟨rfl, ?_⟩, rfl⟩
      rw [List.eq_nil_iff_forall_not_mem]
      intro e hmem
      exact (hlive e hmem).2 hnone

section
variable (maps : CaseMaps) (o : ResolveOptions) (nodes : List Cluster.NodeInfo)
  (other : Value → String)

theorem Go.liveOnly_iff :
    LiveOnly (Go.accepts maps o) nodes (Go.list maps o (Go.provide (nodeListJson nodes))) ↔
      Covered (Go.accepts maps o) nodes := by
  rw [Go.provide_nodeListJson]
  exact Sdk.liveOnly_iff

theorem Ts.liveOnly_iff :
    LiveOnly (Ts.accepts maps o) nodes (Ts.list maps o (Ts.provide other (nodeListJson nodes))) ↔
      Covered (Ts.accepts maps o) nodes := by
  rw [Ts.provide, map_readNode_json fun _ => rfl]
  exact Sdk.liveOnly_iff

theorem Py.liveOnly_iff :
    LiveOnly (Py.accepts maps o) nodes (Py.list maps o (Py.provide other (nodeListJson nodes))) ↔
      Covered (Py.accepts maps o) nodes := by
  have hobject : ∀ e, decide (endpointJson e).IsObject = true := fun _ => rfl
  rw [Py.provide, map_readNode_json hobject]
  exact Sdk.liveOnly_iff

theorem Java.liveOnly_iff :
    LiveOnly (Java.accepts maps o) nodes
        (Java.list maps o (Java.provide other (nodeListJson nodes))) ↔
      Covered (Java.accepts maps o) nodes := by
  rw [Java.provide, map_readNode_json fun _ => rfl]
  exact Sdk.liveOnly_iff

end

/-- For every registry: the four resolvers return live nodes only, exactly when
their filters accept nothing at the others that the online nodes do not have. -/
theorem resolvers_live_iff (maps : CaseMaps) (other : Value → String) (o : ResolveOptions)
    (reg : ConnectedRegistry) :
    let reply := nodeListJson reg.listNodes
    (LiveOnly (Go.accepts maps o) reg.listNodes (Go.list maps o (Go.provide reply)) ↔
        Covered (Go.accepts maps o) reg.listNodes) ∧
      (LiveOnly (Ts.accepts maps o) reg.listNodes (Ts.list maps o (Ts.provide other reply)) ↔
        Covered (Ts.accepts maps o) reg.listNodes) ∧
      (LiveOnly (Py.accepts maps o) reg.listNodes (Py.list maps o (Py.provide other reply)) ↔
        Covered (Py.accepts maps o) reg.listNodes) ∧
      (LiveOnly (Java.accepts maps o) reg.listNodes
          (Java.list maps o (Java.provide other reply)) ↔
        Covered (Java.accepts maps o) reg.listNodes) :=
  ⟨Go.liveOnly_iff maps o reg.listNodes, Ts.liveOnly_iff maps o reg.listNodes other,
    Py.liveOnly_iff maps o reg.listNodes other, Java.liveOnly_iff maps o reg.listNodes other⟩

def departed : ConnectedRegistry :=
  (ConnectedRegistry.new.register "w1" .worker [⟨"grpc", "10.0.0.1:9000"⟩] ∅).setStatus
    "w1" .offline

theorem mem_departed :
    node ∈ departed.listNodes ↔
      node = ⟨"w1", .worker, [⟨"grpc", "10.0.0.1:9000"⟩], ∅, .offline⟩ := by
  rw [ConnectedRegistry.mem_listNodes]
  simp only [departed, ConnectedRegistry.getNode_setStatus, ConnectedRegistry.getNode_register]
  constructor
  · rintro ⟨k, hk⟩
    split at hk
    · rename_i hkn
      exact (Option.some.inj hk).symm
    · cases hk
  · rintro rfl
    exact ⟨"w1", rfl⟩

theorem not_covered_departed {accepts : NodeInfo → Endpoint → Bool}
    (h : accepts ⟨"w1", [⟨"grpc", "10.0.0.1:9000"⟩], ∅⟩ ⟨"grpc", "10.0.0.1:9000"⟩) :
    ¬ Covered accepts departed.listNodes := by
  intro hcovered
  obtain ⟨⟨node, hnode, honline, -⟩, -⟩ := hcovered _ (mem_departed.mpr rfl) nofun
    ⟨"grpc", "10.0.0.1:9000"⟩ List.mem_cons_self h
  rw [mem_departed.mp hnode] at honline
  cases honline

/-- All four list the endpoint of the worker that has left. -/
theorem departed_node_listed :
    let o := ⟨none, "", "", ""⟩
    let reply := nodeListJson departed.listNodes
    ¬ LiveOnly (Go.accepts asciiMaps o) departed.listNodes
        (Go.list asciiMaps o (Go.provide reply)) ∧
      ¬ LiveOnly (Ts.accepts asciiMaps o) departed.listNodes
        (Ts.list asciiMaps o (Ts.provide (fun _ => "") reply)) ∧
      ¬ LiveOnly (Py.accepts asciiMaps o) departed.listNodes
        (Py.list asciiMaps o (Py.provide (fun _ => "") reply)) ∧
      ¬ LiveOnly (Java.accepts asciiMaps o) departed.listNodes
        (Java.list asciiMaps o (Java.provide (fun _ => "") reply)) := by
  intro o reply
  simp only [reply, Go.liveOnly_iff, Ts.liveOnly_iff, Py.liveOnly_iff, Java.liveOnly_iff]
  refine ⟨not_covered_departed ?_, not_covered_departed ?_, not_covered_departed ?_,
    not_covered_departed ?_⟩ <;> decide +kernel

end Rinfra.Sdk
