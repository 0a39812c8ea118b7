import Rinfra.Sdk.Resolver

/-!
# Whether the resolvers agree

TypeScript and Python have the strictest filter by metadata: a filter that is
blank for Go or Java need not be empty. So the other two find at least their
nodes, and the lists are compared with the one of TypeScript.
-/

namespace Rinfra.Sdk

open Cluster (Endpoint)

/-- What a caller goes by: the endpoints, or the code of the error. -/
def outcome (result : Except RpcError (List Endpoint)) :
    Except RpcErrorCode (List Endpoint) :=
  result.mapError RpcError.code

def Agree (maps : CaseMaps) (o : ResolveOptions) (nodes : List NodeInfo) : Prop :=
  outcome (Go.list maps o nodes) = outcome (Ts.list maps o nodes) ∧
    outcome (Py.list maps o nodes) = outcome (Ts.list maps o nodes) ∧
    outcome (Java.list maps o nodes) = outcome (Ts.list maps o nodes)

/-- A node and its endpoints are the same to all of the filters: where the node
passes the strictest one, its protocols are read alike, and where a blank filter
lets it pass in Go or in Java only, its protocols do not. -/
structure SameVerdict (maps : CaseMaps) (o : ResolveOptions) (node : NodeInfo) : Prop where
  protocol : metadataMatch (· = "") o node → ∀ e ∈ node.endpoints,
    Go.serves maps o e = Ts.serves maps o e ∧ Py.serves maps o e = Ts.serves maps o e ∧
      Java.serves maps o e = Ts.serves maps o e
  go : Go.matchMetadata o node → metadataMatch (· = "") o node = false →
    ∀ e ∈ node.endpoints, Go.serves maps o e = false
  java : metadataMatch isBlank o node → metadataMatch (· = "") o node = false →
    ∀ e ∈ node.endpoints, Java.serves maps o e = false

section
variable {o : ResolveOptions} {node : NodeInfo} {nodes : List NodeInfo}

theorem outcome_listEndpoints {f : NodeInfo → Bool} {p : Endpoint → Bool} :
    outcome (listEndpoints f p service nodes) =
      if candidates f p nodes = [] then .error .notFound else .ok (candidates f p nodes) := by
  simp only [listEndpoints]
  split <;> rfl

theorem outcome_inj {f g : NodeInfo → Bool} {p q : Endpoint → Bool} :
    outcome (listEndpoints f p service nodes) = outcome (listEndpoints g q service' nodes) ↔
      candidates f p nodes = candidates g q nodes := by
  rw [outcome_listEndpoints, outcome_listEndpoints]
  constructor
  · intro h
    split at h <;> split at h
    · rename_i hf hg
      rw [hf, hg]
    · cases h
    · cases h
    · exact Except.ok.inj h
  · intro h
    rw [h]

theorem passes_mono {i j : String → Bool} (hij : ∀ s, i s → j s)
    (h : passes i key want metadata) : passes j key want metadata := by
  simp only [passes, Bool.or_eq_true] at h ⊢
  exact h.imp_left (hij want)

theorem metadataMatch_mono {i j : String → Bool} (hij : ∀ s, i s → j s)
    (h : metadataMatch i o node) : metadataMatch j o node := by
  simp only [metadataMatch, Bool.and_eq_true] at h ⊢
  exact ⟨⟨passes_mono hij h.1.1, passes_mono hij h.1.2⟩, passes_mono hij h.2⟩

/-- A missing entry is no match either: what is looked for is not blank. -/
theorem passes_trimSpace :
    passes (trimSpace · = "") key want metadata =
      !(trimSpace want ≠ "" && metadata[key]?.getD "" ≠ want) := by
  have hempty : trimSpace "" = "" := by decide
  cases hget : metadata[key]? with
  | some value => simp [passes, hget]
  | none =>
    have hwant : want = "" → trimSpace want = "" := by
      rintro rfl
      exact hempty
    simpa [passes, hget] using hwant

theorem Go.matchMetadata_eq :
    Go.matchMetadata o node = metadataMatch (trimSpace · = "") o node := by
  simp only [Go.matchMetadata, metadataMatch, passes_trimSpace]

theorem Go.matchMetadata_withDefaults :
    Go.matchMetadata (Go.withDefaults o) = Go.matchMetadata o := by
  funext node
  simp only [Go.withDefaults]
  split <;> rfl

theorem Java.metadataMatch_withDefaults :
    metadataMatch isBlank (Java.withDefaults o) = metadataMatch isBlank o := by
  funext node
  simp only [Java.withDefaults]
  split <;> rfl

theorem Go.matchMetadata_of_strict (h : metadataMatch (· = "") o node) :
    Go.matchMetadata o node := by
  rw [Go.matchMetadata_eq]
  refine metadataMatch_mono (fun s hs => ?_) h
  rw [of_decide_eq_true hs]
  decide

theorem Java.metadataMatch_of_strict (h : metadataMatch (· = "") o node) :
    metadataMatch isBlank o node := by
  refine metadataMatch_mono (fun s hs => ?_) h
  rw [of_decide_eq_true hs]
  decide

theorem go_outcome_iff {maps : CaseMaps} :
    outcome (Go.list maps o nodes) = outcome (Ts.list maps o nodes) ↔
      ∀ node ∈ nodes, ∀ e ∈ node.endpoints,
        (metadataMatch (· = "") o node → Go.serves maps o e = Ts.serves maps o e) ∧
        (Go.matchMetadata o node → metadataMatch (· = "") o node = false →
          Go.serves maps o e = false) := by
  rw [Go.list, Ts.list, outcome_inj, Go.matchMetadata_withDefaults,
    candidates_eq_iff fun node => Go.matchMetadata_of_strict]

theorem py_outcome_iff {maps : CaseMaps} :
    outcome (Py.list maps o nodes) = outcome (Ts.list maps o nodes) ↔
      ∀ node ∈ nodes, ∀ e ∈ node.endpoints,
        metadataMatch (· = "") o node → Py.serves maps o e = Ts.serves maps o e := by
  rw [Py.list, Ts.list, outcome_inj, candidates_eq_iff fun _ => id]
  refine forall₄_congr fun node _ e _ => and_iff_left fun hmatch hno => ?_
  rw [hmatch] at hno
  cases hno

theorem java_outcome_iff {maps : CaseMaps} :
    outcome (Java.list maps o nodes) = outcome (Ts.list maps o nodes) ↔
      ∀ node ∈ nodes, ∀ e ∈ node.endpoints,
        (metadataMatch (· = "") o node → Java.serves maps o e = Ts.serves maps o e) ∧
        (metadataMatch isBlank o node → metadataMatch (· = "") o node = false →
          Java.serves maps o e = false) := by
  rw [Java.list, Ts.list, outcome_inj, Java.metadataMatch_withDefaults,
    candidates_eq_iff fun node => Java.metadataMatch_of_strict]

end

/-- The four lists are the same, or all four report `not_found`, exactly when
every node of the list is the same to the four filters. -/
theorem resolvers_agree_iff (maps : CaseMaps) (o : ResolveOptions) (nodes : List NodeInfo) :
    Agree maps o nodes ↔ ∀ node ∈ nodes, SameVerdict maps o node := by
  rw [Agree, go_outcome_iff, py_outcome_iff, java_outcome_iff]
  constructor
  · rintro ⟨hgo, hpy, hjava⟩ node hnode
    exact {
      protocol := fun hmatch e he =>
        ⟨(hgo node hnode e he).1 hmatch, hpy node hnode e he hmatch,
          (hjava node hnode e he).1 hmatch⟩
      go := fun hgomatch hno e he => (hgo node hnode e he).2 hgomatch hno
      java := fun hjavamatch hno e he => (hjava node hnode e he).2 hjavamatch hno }
  · intro h
    refine ⟨fun node hnode e he => ?_, fun node hnode e he hmatch => ?_, fun node hnode e he => ?_⟩
    · exact ⟨fun hmatch => ((h node hnode).protocol hmatch e he).1,
        fun hgomatch hno => (h node hnode).go hgomatch hno e he⟩
    · exact ((h node hnode).protocol hmatch e he).2.1
    · exact ⟨fun hmatch => ((h node hnode).protocol hmatch e he).2.2,
        fun hjavamatch hno => (h node hnode).java hjavamatch hno e he⟩

def asciiMaps : CaseMaps where
  equalFold s t := s.toLower = t.toLower
  toLowerTs := String.toLower
  toLowerPy := String.toLower
  toLowerJava := String.toLower

/-- A protocol that a worker registers as ` grpc` is found by Go alone. -/
theorem padded_protocol_found_by_go :
    let nodes := [⟨"w1", [⟨" grpc", "10.0.0.1:9000"⟩], ∅⟩]
    let o := ⟨some "grpc", "", "", ""⟩
    Go.list asciiMaps o nodes = .ok [⟨" grpc", "10.0.0.1:9000"⟩] ∧
      Ts.list asciiMaps o nodes = .error (notFound "") ∧ ¬ Agree asciiMaps o nodes := by
  intro nodes o
  have hgo : Go.list asciiMaps o nodes = .ok [⟨" grpc", "10.0.0.1:9000"⟩] := by decide +kernel
  have hts : Ts.list asciiMaps o nodes = .error (notFound "") := by decide +kernel
  refine ⟨hgo, hts, fun h => ?_⟩
  have hsame := h.1
  rw [hgo, hts] at hsame
  cases hsame

end Rinfra.Sdk
