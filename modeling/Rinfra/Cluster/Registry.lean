import Std.Data.ExtTreeMap.Lemmas

/-!
# The registry of connected nodes

`ConnectedRegistry` holds one entry for each node id. Its writers know the id
and nothing of the connection that registered it.
-/

namespace Rinfra.Cluster

inductive NodeRole
  | main | worker
  deriving DecidableEq, Repr

inductive NodeStatus
  | online | offline | draining
  deriving DecidableEq, Repr

structure Endpoint where
  protocol : String
  address : String
  deriving DecidableEq, Repr

abbrev Metadata := Std.ExtTreeMap String String compare

structure NodeInfo where
  id : String
  role : NodeRole
  endpoints : List Endpoint
  metadata : Metadata
  status : NodeStatus

structure ConnectedRegistry where
  nodes : Std.ExtTreeMap String NodeInfo compare

namespace ConnectedRegistry

def new : ConnectedRegistry := ⟨∅⟩

def register (reg : ConnectedRegistry) (nodeId : String) (role : NodeRole)
    (endpoints : List Endpoint) (metadata : Metadata) : ConnectedRegistry :=
  ⟨reg.nodes.insert nodeId ⟨nodeId, role, endpoints, metadata, .online⟩⟩

def unregister (reg : ConnectedRegistry) (nodeId : String) : ConnectedRegistry :=
  ⟨reg.nodes.erase nodeId⟩

def setStatus (reg : ConnectedRegistry) (nodeId : String) (status : NodeStatus) :
    ConnectedRegistry :=
  ⟨reg.nodes.modify nodeId fun node => { node with status }⟩

def getNode (reg : ConnectedRegistry) (nodeId : String) : Option NodeInfo := reg.nodes[nodeId]?

def listNodes (reg : ConnectedRegistry) : List NodeInfo := reg.nodes.values

section
variable {reg : ConnectedRegistry}

theorem getNode_register : (reg.register n role endpoints metadata).getNode k =
    if k = n then some ⟨n, role, endpoints, metadata, .online⟩ else reg.getNode k := by
  simp [register, getNode, Std.ExtTreeMap.getElem?_insert, eq_comm (a := k)]

theorem getNode_unregister :
    (reg.unregister n).getNode k = if k = n then none else reg.getNode k := by
  simp [unregister, getNode, Std.ExtTreeMap.getElem?_erase, eq_comm (a := k)]

theorem getNode_setStatus : (reg.setStatus n status).getNode k =
    if k = n then (reg.getNode k).map fun node => { node with status } else reg.getNode k := by
  by_cases h : n = k
  · simp [setStatus, getNode, h]
  · simp [setStatus, getNode, Std.ExtTreeMap.getElem?_modify, h, Ne.symm h]

theorem values_eq_map_snd {t : Std.ExtTreeMap String α compare} :
    t.values = t.toList.map Prod.snd := by
  have h : t.values = t.foldr (fun _ v vs => v :: vs) [] := rfl
  rw [h, Std.ExtTreeMap.foldr_eq_foldr_toList]
  induction t.toList with
  | nil => rfl
  | cons entry entries ih => simp [ih]

theorem mem_listNodes : node ∈ reg.listNodes ↔ ∃ k, reg.getNode k = some node := by
  simp [listNodes, getNode, values_eq_map_snd, Std.ExtTreeMap.mem_toList_iff_getElem?_eq_some]

def Keyed (reg : ConnectedRegistry) : Prop := ∀ k node, reg.getNode k = some node → node.id = k

theorem keyed_register (h : reg.Keyed) : (reg.register n role endpoints metadata).Keyed := by
  intro k node hk
  rw [getNode_register] at hk
  split at hk
  · rename_i hkn
    cases hk
    exact hkn.symm
  · exact h k node hk

theorem keyed_unregister (h : reg.Keyed) : (reg.unregister n).Keyed := by
  intro k node hk
  rw [getNode_unregister] at hk
  split at hk
  · cases hk
  · exact h k node hk

theorem keyed_setStatus (h : reg.Keyed) : (reg.setStatus n status).Keyed := by
  intro k node hk
  rw [getNode_setStatus] at hk
  split at hk
  · obtain ⟨node', hk', rfl⟩ := Option.map_eq_some_iff.mp hk
    exact h k node' hk'
  · exact h k node hk

theorem Keyed.mem_listNodes (h : reg.Keyed) :
    node ∈ reg.listNodes ↔ reg.getNode node.id = some node := by
  rw [ConnectedRegistry.mem_listNodes]
  constructor
  · rintro ⟨k, hk⟩
    rwa [h k node hk]
  · exact fun hn => ⟨_, hn⟩

end

-- ---------------------------------------------------------------------------
-- Who is online
-- ---------------------------------------------------------------------------

def Online (reg : ConnectedRegistry) (nodeId : String) : Prop :=
  ∃ node, reg.getNode nodeId = some node ∧ node.status = .online

section
variable {reg : ConnectedRegistry}

theorem online_register :
    (reg.register n role endpoints metadata).Online m ↔ m = n ∨ reg.Online m := by
  by_cases h : m = n <;> simp [Online, getNode_register, h]

theorem online_unregister : (reg.unregister n).Online m ↔ m ≠ n ∧ reg.Online m := by
  by_cases h : m = n <;> simp [Online, getNode_unregister, h]

theorem online_setStatus_offline : (reg.setStatus n .offline).Online m ↔ m ≠ n ∧ reg.Online m := by
  by_cases h : m = n <;> simp [Online, getNode_setStatus, h]

end

end ConnectedRegistry

end Rinfra.Cluster
