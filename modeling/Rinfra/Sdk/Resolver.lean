import Mathlib.Data.List.Basic
import Rinfra.Cluster.Registry
import Rinfra.Sdk.Rpc

/-!
# The four resolvers

Each SDK filters the endpoints of a node list by metadata and by protocol. Go
and Java drop a blank filter, TypeScript and Python an empty one; only Go trims
the protocols. A filter by metadata that is not given is the same as an empty
one in every SDK; a protocol that is not given is `none`, and the empty one in
Go.

What the languages do with the case of letters comes from the Unicode tables
and is a parameter.
-/

namespace Rinfra.Sdk

open Cluster (Endpoint Metadata)

structure NodeInfo where
  id : String
  endpoints : List Endpoint
  metadata : Metadata

structure ResolveOptions where
  protocol : Option String
  service : String
  serviceVersion : String
  zone : String

structure CaseMaps where
  /-- `strings.EqualFold` -/
  equalFold : String → String → Bool
  toLowerTs : String → String
  toLowerPy : String → String
  toLowerJava : String → String

/-- `unicode.IsSpace` -/
def isSpace (c : Char) : Bool :=
  (0x2000 ≤ c.toNat && c.toNat ≤ 0x200A) ||
    [0x09, 0x0A, 0x0B, 0x0C, 0x0D, 0x20, 0x85, 0xA0, 0x1680, 0x2028, 0x2029, 0x202F, 0x205F,
      0x3000].contains c.toNat

/-- `strings.TrimSpace` -/
def trimSpace (s : String) : String :=
  String.ofList ((s.toList.dropWhile isSpace).reverse.dropWhile isSpace).reverse

/-- `Character.isWhitespace` -/
def isWhitespace (c : Char) : Bool :=
  (0x2000 ≤ c.toNat && c.toNat ≤ 0x200A && c.toNat ≠ 0x2007) ||
    [0x09, 0x0A, 0x0B, 0x0C, 0x0D, 0x1C, 0x1D, 0x1E, 0x1F, 0x20, 0x1680, 0x2028, 0x2029, 0x205F,
      0x3000].contains c.toNat

def isBlank (s : String) : Bool := s.toList.all isWhitespace

def notFound (service : String) : RpcError :=
  ⟨.notFound, "no endpoint matched resolve filters", some service, none, none⟩

/-- The loops of a resolver: the endpoints of a protocol of the nodes that match. -/
def candidates (matchesNode : NodeInfo → Bool) (serves : Endpoint → Bool)
    (nodes : List NodeInfo) : List Endpoint :=
  nodes.flatMap fun node => if matchesNode node then node.endpoints.filter serves else []

def listEndpoints (matchesNode : NodeInfo → Bool) (serves : Endpoint → Bool) (service : String)
    (nodes : List NodeInfo) : Except RpcError (List Endpoint) :=
  let endpoints := candidates matchesNode serves nodes
  if endpoints = [] then .error (notFound service) else .ok endpoints

/-- `resolve`, with the random number it draws. -/
def pick (draw : Nat) (endpoints : Except RpcError (List Endpoint)) :
    Except RpcError (Option Endpoint) :=
  endpoints.map fun es => es[draw % es.length]?

def passes (ignored : String → Bool) (key want : String) (metadata : Metadata) : Bool :=
  ignored want || metadata[key]? = some want

def metadataMatch (ignored : String → Bool) (o : ResolveOptions) (node : NodeInfo) : Bool :=
  passes ignored "service.name" o.service node.metadata &&
    passes ignored "service.version" o.serviceVersion node.metadata &&
    passes ignored "service.zone" o.zone node.metadata

namespace Go

def withDefaults (o : ResolveOptions) : ResolveOptions :=
  if trimSpace (o.protocol.getD "") = "" then { o with protocol := some "grpc" } else o

/-- An entry that is missing reads as the empty string. -/
def matchMetadata (o : ResolveOptions) (node : NodeInfo) : Bool :=
  !(trimSpace o.service ≠ "" && node.metadata["service.name"]?.getD "" ≠ o.service) &&
  !(trimSpace o.serviceVersion ≠ "" &&
    node.metadata["service.version"]?.getD "" ≠ o.serviceVersion) &&
  !(trimSpace o.zone ≠ "" && node.metadata["service.zone"]?.getD "" ≠ o.zone)

def serves (maps : CaseMaps) (o : ResolveOptions) (e : Endpoint) : Bool :=
  maps.equalFold (trimSpace e.protocol) ((withDefaults o).protocol.getD "")

def list (maps : CaseMaps) (o : ResolveOptions) (nodes : List NodeInfo) :
    Except RpcError (List Endpoint) :=
  listEndpoints (matchMetadata (withDefaults o)) (serves maps o) (withDefaults o).service nodes

end Go

namespace Ts

def serves (maps : CaseMaps) (o : ResolveOptions) (e : Endpoint) : Bool :=
  maps.toLowerTs e.protocol = maps.toLowerTs (o.protocol.getD "grpc")

def list (maps : CaseMaps) (o : ResolveOptions) (nodes : List NodeInfo) :
    Except RpcError (List Endpoint) :=
  listEndpoints (metadataMatch (· = "") o) (serves maps o) o.service nodes

end Ts

namespace Py

def serves (maps : CaseMaps) (o : ResolveOptions) (e : Endpoint) : Bool :=
  maps.toLowerPy e.protocol = maps.toLowerPy (o.protocol.getD "grpc")

def list (maps : CaseMaps) (o : ResolveOptions) (nodes : List NodeInfo) :
    Except RpcError (List Endpoint) :=
  listEndpoints (metadataMatch (· = "") o) (serves maps o) o.service nodes

end Py

namespace Java

def withDefaults (o : ResolveOptions) : ResolveOptions :=
  if isBlank (o.protocol.getD "") then { o with protocol := some "grpc" } else o

def serves (maps : CaseMaps) (o : ResolveOptions) (e : Endpoint) : Bool :=
  maps.toLowerJava e.protocol = maps.toLowerJava ((withDefaults o).protocol.getD "")

def list (maps : CaseMaps) (o : ResolveOptions) (nodes : List NodeInfo) :
    Except RpcError (List Endpoint) :=
  listEndpoints (metadataMatch isBlank (withDefaults o)) (serves maps o) (withDefaults o).service
    nodes

end Java

-- ---------------------------------------------------------------------------
-- Two filters on one node list
-- ---------------------------------------------------------------------------

section
variable {f g : NodeInfo → Bool} {p q : Endpoint → Bool} {nodes : List NodeInfo}

theorem mem_candidates :
    e ∈ candidates f p nodes ↔ ∃ node ∈ nodes, f node ∧ e ∈ node.endpoints ∧ p e := by
  rw [candidates, List.mem_flatMap]
  refine exists_congr fun node => and_congr_right fun _ => ?_
  cases f node <;> simp

theorem listEndpoints_eq_ok :
    listEndpoints f p service nodes = .ok es ↔ es = candidates f p nodes ∧ es ≠ [] := by
  rw [listEndpoints]
  split
  · rename_i hnil
    refine iff_of_false (fun h => ?_) fun h => h.2 (h.1.trans hnil)
    cases h
  · rename_i hne
    constructor
    · rintro ⟨⟩
      exact ⟨rfl, hne⟩
    · rintro ⟨rfl, -⟩
      rfl

theorem listEndpoints_eq_error :
    listEndpoints f p service nodes = .error err ↔
      err = notFound service ∧ candidates f p nodes = [] := by
  rw [listEndpoints]
  split
  · rename_i hnil
    rw [Except.error.injEq, eq_comm]
    exact (and_iff_left hnil).symm
  · rename_i hne
    refine iff_of_false (fun h => ?_) fun h => hne h.2
    cases h

/-- The endpoints of the nodes that match, of any protocol. -/
def offered (matchesNode : NodeInfo → Bool) (nodes : List NodeInfo) : List Endpoint :=
  nodes.flatMap fun node => if matchesNode node then node.endpoints else []

theorem candidates_eq_filter : candidates f p nodes = (offered f nodes).filter p := by
  rw [candidates, offered, List.filter_flatMap]
  refine List.flatMap_congr fun node _ => ?_
  cases f node <;> rfl

theorem count_candidates (e : Endpoint) :
    (candidates f p nodes).count e = if p e then (offered f nodes).count e else 0 := by
  rw [candidates_eq_filter]
  split
  · rename_i hp
    exact List.count_filter hp
  · rename_i hp
    exact List.count_eq_zero.mpr fun hmem => hp (List.mem_filter.mp hmem).2

theorem count_offered_le (hfg : ∀ node, g node → f node) (nodes : List NodeInfo) (e : Endpoint) :
    (offered g nodes).count e ≤ (offered f nodes).count e := by
  induction nodes with
  | nil => exact Nat.le_refl _
  | cons node nodes ih =>
    simp only [offered, List.flatMap_cons, List.count_append] at ih ⊢
    have hhead : (if g node then node.endpoints else []).count e ≤
        (if f node then node.endpoints else []).count e := by
      cases hg : g node with
      | true => exact Nat.le_of_eq (by rw [if_pos rfl, if_pos (hfg node hg)])
      | false => exact Nat.zero_le _
    exact Nat.add_le_add hhead ih

theorem count_offered_lt (hfg : ∀ node, g node → f node) (hnode : node ∈ nodes)
    (hf : f node) (hg : g node = false) (he : e ∈ node.endpoints) :
    (offered g nodes).count e < (offered f nodes).count e := by
  obtain ⟨before, after, rfl⟩ := List.append_of_mem hnode
  have hbefore := count_offered_le hfg before e
  have hafter := count_offered_le hfg after e
  have hpos := List.count_pos_iff.mpr he
  simp only [offered, List.flatMap_append, List.flatMap_cons, List.count_append, hf, hg, if_true,
    Bool.false_eq_true, if_false, List.count_nil] at hbefore hafter ⊢
  omega

/-- Where one filter by metadata is as strict as the other, the lists are the
same exactly when every endpoint of every node is treated the same. -/
theorem candidates_eq_iff (hfg : ∀ node, g node → f node) :
    candidates f p nodes = candidates g q nodes ↔
      ∀ node ∈ nodes, ∀ e ∈ node.endpoints,
        (g node → p e = q e) ∧ (f node → g node = false → p e = false) := by
  constructor
  · intro h node hnode e he
    have hcount := congrArg (List.count e) h
    rw [count_candidates, count_candidates] at hcount
    have hle := count_offered_le hfg nodes e
    refine ⟨fun hg => ?_, fun hf hg => ?_⟩
    · have hpos : 0 < (offered g nodes).count e :=
        List.count_pos_iff.mpr (List.mem_flatMap.mpr ⟨node, hnode, by rwa [if_pos hg]⟩)
      cases hp : p e <;> cases hq : q e <;> simp only [hp, hq, if_true, Bool.false_eq_true,
        if_false] at hcount ⊢ <;> omega
    · have hlt := count_offered_lt hfg hnode hf hg he
      cases hp : p e with
      | false => rfl
      | true =>
        rw [hp, if_pos rfl] at hcount
        split at hcount <;> omega
  · intro h
    refine List.flatMap_congr fun node hnode => ?_
    cases hg : g node with
    | true =>
      rw [if_pos (hfg node hg), if_pos rfl]
      exact List.filter_congr fun e he => (h node hnode e he).1 hg
    | false =>
      rw [if_neg Bool.false_ne_true]
      split
      · rename_i hf
        refine List.filter_eq_nil_iff.mpr fun e he => ?_
        rw [(h node hnode e he).2 hf hg]
        exact Bool.false_ne_true
      · rfl

end

end Rinfra.Sdk
