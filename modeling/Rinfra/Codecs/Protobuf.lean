import Rinfra.Lib.Double
import Rinfra.Lib.Json

/-!
# JSON values as protobuf values

`json_to_proto` and `proto_to_json` go between the values of `serde_json` and
`google.protobuf.Value`, whose only numbers are binary64. A map has its entries
in the order of its keys, and a conversion of the values keeps the keys.
-/

namespace Rinfra.Codecs

open Lib

/-- `prost_types::Value`; a value can be without a kind. -/
inductive ProtoValue
  | unset
  | nullValue (n : Int)
  | boolValue (b : Bool)
  | numberValue (x : Double)
  | stringValue (s : String)
  | listValue (values : List ProtoValue)
  | structValue (fields : List (String × ProtoValue))

def asF64 : Json.Number → Option Double
  | .posInt n => some (.ofInt n)
  | .negInt n => some (.ofInt n)
  | .float x => some (.finite x)

mutual
def jsonToProto : Json.Value → ProtoValue
  | .null => .nullValue 0
  | .bool b => .boolValue b
  | .number n => .numberValue ((asF64 n).getD (.ofInt 0))
  | .string s => .stringValue s
  | .array elements => .listValue (elementsToProto elements)
  | .object fields => .structValue (fieldsToProto fields)

def elementsToProto : List Json.Value → List ProtoValue
  | [] => []
  | v :: vs => jsonToProto v :: elementsToProto vs

def fieldsToProto : List (String × Json.Value) → List (String × ProtoValue)
  | [] => []
  | (k, v) :: fields => (k, jsonToProto v) :: fieldsToProto fields
end

/-- `json!` of an `f64`; what is not finite is null. -/
def jsonOfDouble : Double → Json.Value
  | .finite x => .number (.float x)
  | .infinite _ | .nan => .null

mutual
def protoToJson : ProtoValue → Json.Value
  | .nullValue _ => .null
  | .boolValue b => .bool b
  | .numberValue x => jsonOfDouble x
  | .stringValue s => .string s
  | .listValue values => .array (valuesToJson values)
  | .structValue fields => .object (fieldsToJson fields)
  | .unset => .null

def valuesToJson : List ProtoValue → List Json.Value
  | [] => []
  | v :: vs => protoToJson v :: valuesToJson vs

def fieldsToJson : List (String × ProtoValue) → List (String × Json.Value)
  | [] => []
  | (k, v) :: fields => (k, protoToJson v) :: fieldsToJson fields
end

-- ---------------------------------------------------------------------------
-- What comes back
-- ---------------------------------------------------------------------------

mutual
def numbers : Json.Value → List Json.Number
  | .number n => [n]
  | .array elements => elementNumbers elements
  | .object fields => fieldNumbers fields
  | .null | .bool _ | .string _ => []

def elementNumbers : List Json.Value → List Json.Number
  | [] => []
  | v :: vs => numbers v ++ elementNumbers vs

def fieldNumbers : List (String × Json.Value) → List Json.Number
  | [] => []
  | (_, v) :: fields => numbers v ++ fieldNumbers fields
end

/-- All numbers are of the kind that is written with a point or an exponent. -/
def Floats (ns : List Json.Number) : Prop := ∀ n ∈ ns, ∃ x, n = .float x

theorem floats_append {ns ms : List Json.Number} : Floats (ns ++ ms) ↔ Floats ns ∧ Floats ms :=
  List.forall_mem_append

theorem number_comes_back (n : Json.Number) :
    jsonOfDouble ((asF64 n).getD (.ofInt 0)) = .number n ↔ Floats [n] := by
  have hint (i : Int) (m : Json.Number) (hm : ∀ x, m ≠ .float x) :
      jsonOfDouble (.ofInt i) ≠ .number m := by
    cases Double.ofInt i with
    | finite x => exact fun h => hm x (Json.Value.number.inj h).symm
    | infinite | nan => nofun
  cases n with
  | posInt n => simpa [asF64, Floats] using hint n (.posInt n) nofun
  | negInt n => simpa [asF64, Floats] using hint n (.negInt n) nofun
  | float x => simp [asF64, jsonOfDouble, Floats]

mutual
theorem comes_back_iff : (v : Json.Value) →
    (protoToJson (jsonToProto v) = v ↔ Floats (numbers v))
  | .null | .bool _ | .string _ => by simp [jsonToProto, protoToJson, numbers, Floats]
  | .number n => number_comes_back n
  | .array elements => by
    simpa [jsonToProto, protoToJson, numbers] using elements_come_back_iff elements
  | .object fields => by
    simpa [jsonToProto, protoToJson, numbers] using fields_come_back_iff fields

theorem elements_come_back_iff : (vs : List Json.Value) →
    (valuesToJson (elementsToProto vs) = vs ↔ Floats (elementNumbers vs))
  | [] => by simp [elementsToProto, valuesToJson, elementNumbers, Floats]
  | v :: vs => by
    rw [elementsToProto, valuesToJson, elementNumbers, List.cons.injEq, comes_back_iff v,
      elements_come_back_iff vs, floats_append]

theorem fields_come_back_iff : (fields : List (String × Json.Value)) →
    (fieldsToJson (fieldsToProto fields) = fields ↔ Floats (fieldNumbers fields))
  | [] => by simp [fieldsToProto, fieldsToJson, fieldNumbers, Floats]
  | (k, v) :: fields => by
    rw [fieldsToProto, fieldsToJson, fieldNumbers, List.cons.injEq, Prod.mk.injEq,
      comes_back_iff v, fields_come_back_iff fields, floats_append]
    simp
end

end Rinfra.Codecs
