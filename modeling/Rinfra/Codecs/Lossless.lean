import Rinfra.Codecs.Protobuf
import Rinfra.Core.Error

/-!
# The codecs

A codec turns values of `serde_json` into bytes and back. `serde_json`,
`rmp_serde` and `prost` are given, and nothing is asked of them but that what one
of them writes of a value it reads back as that value.
-/

namespace Rinfra.Codecs

open Lib

abbrev Bytes := List UInt8

/-- `serde_json` or `rmp_serde`; an error is its text. -/
structure Serde where
  toVec : Json.Value → Except String Bytes
  fromSlice : Bytes → Except String Json.Value

/-- `prost::Message` for `prost_types::Value` -/
structure Prost where
  encodeToVec : ProtoValue → Bytes
  decode : Bytes → Except String ProtoValue

def Serde.Inverts (serde : Serde) (v : Json.Value) : Prop :=
  ∀ bytes, serde.toVec v = .ok bytes → serde.fromSlice bytes = .ok v

def Prost.Inverts (prost : Prost) (v : ProtoValue) : Prop :=
  prost.decode (prost.encodeToVec v) = .ok v

structure Codec where
  name : String
  contentType : String
  encodeValue : Json.Value → Except AppError Bytes
  decodeValue : Bytes → Except AppError Json.Value

def jsonCodec (serdeJson : Serde) : Codec where
  name := "json"
  contentType := "application/json"
  encodeValue v := (serdeJson.toVec v).mapError fun e =>
    ⟨.codecEncodeFailed, s!"json encode failed: {e}"⟩
  decodeValue data := (serdeJson.fromSlice data).mapError fun e =>
    ⟨.codecDecodeFailed, s!"json decode failed: {e}"⟩

def msgpackCodec (rmpSerde : Serde) : Codec where
  name := "msgpack"
  contentType := "application/msgpack"
  encodeValue v := (rmpSerde.toVec v).mapError fun e =>
    ⟨.codecEncodeFailed, s!"msgpack encode failed: {e}"⟩
  decodeValue data := (rmpSerde.fromSlice data).mapError fun e =>
    ⟨.codecDecodeFailed, s!"msgpack decode failed: {e}"⟩

def protobufCodec (prost : Prost) : Codec where
  name := "protobuf"
  contentType := "application/x-protobuf"
  encodeValue v := .ok (prost.encodeToVec (jsonToProto v))
  decodeValue data := do
    let protoValue ← (prost.decode data).mapError fun e =>
      ⟨.codecDecodeFailed, s!"protobuf decode failed: {e}"⟩
    return protoToJson protoValue

def codecs (serdeJson rmpSerde : Serde) (prost : Prost) : List Codec :=
  [jsonCodec serdeJson, msgpackCodec rmpSerde, protobufCodec prost]

-- ---------------------------------------------------------------------------
-- Lossless codecs
-- ---------------------------------------------------------------------------

def Codec.Lossless (codec : Codec) (v : Json.Value) : Prop :=
  ∀ bytes, codec.encodeValue v = .ok bytes → codec.decodeValue bytes = .ok v

/-- What two codecs make of a value is decoded to the same. -/
def Codec.Agrees (codec codec' : Codec) (v : Json.Value) : Prop :=
  ∀ bytes bytes', codec.encodeValue v = .ok bytes → codec'.encodeValue v = .ok bytes' →
    codec.decodeValue bytes = codec'.decodeValue bytes'

variable {serdeJson rmpSerde serde : Serde} {prost : Prost} {v : Json.Value}

theorem Codec.Lossless.agrees {codec codec' : Codec} (h : codec.Lossless v)
    (h' : codec'.Lossless v) : codec.Agrees codec' v := fun bytes bytes' hb hb' => by
  rw [h bytes hb, h' bytes' hb']

theorem mapError_eq_ok {ε ε' α : Type} {x : Except ε α} {f : ε → ε'} {a : α} :
    x.mapError f = .ok a ↔ x = .ok a := by
  cases x <;> simp [Except.mapError]

theorem jsonCodec_lossless (h : serdeJson.Inverts v) : (jsonCodec serdeJson).Lossless v :=
  fun bytes hb => mapError_eq_ok.mpr (h bytes (mapError_eq_ok.mp hb))

theorem msgpackCodec_lossless (h : rmpSerde.Inverts v) : (msgpackCodec rmpSerde).Lossless v :=
  fun bytes hb => mapError_eq_ok.mpr (h bytes (mapError_eq_ok.mp hb))

/-- Encoding to protobuf never fails, so all depends on the conversions. -/
theorem protobufCodec_lossless_iff (h : prost.Inverts (jsonToProto v)) :
    (protobufCodec prost).Lossless v ↔ protoToJson (jsonToProto v) = v := by
  have hdecode : (protobufCodec prost).decodeValue (prost.encodeToVec (jsonToProto v)) =
      .ok (protoToJson (jsonToProto v)) := by
    have hread : prost.decode (prost.encodeToVec (jsonToProto v)) = .ok (jsonToProto v) := h
    simp [protobufCodec, hread, Except.mapError, bind, Except.bind, pure, Except.pure]
  constructor
  · intro hlossless
    have := hlossless _ rfl
    rw [hdecode] at this
    exact Except.ok.inj this
  · intro hv bytes hbytes
    obtain rfl := Except.ok.inj hbytes
    rw [hdecode, hv]

/-- All codecs give a value back, and so agree on it, when it has no integers, and
only then. -/
theorem codecs_lossless_iff (hjson : serdeJson.Inverts v) (hmsgpack : rmpSerde.Inverts v)
    (hproto : prost.Inverts (jsonToProto v)) :
    ((∀ codec ∈ codecs serdeJson rmpSerde prost, codec.Lossless v) ∧
      ∀ codec ∈ codecs serdeJson rmpSerde prost, ∀ codec' ∈ codecs serdeJson rmpSerde prost,
        codec.Agrees codec' v) ↔
    Floats (numbers v) := by
  rw [← comes_back_iff, ← protobufCodec_lossless_iff hproto]
  constructor
  · exact fun h => h.1 _ (by simp [codecs])
  · intro hprotobuf
    have hall : ∀ codec ∈ codecs serdeJson rmpSerde prost, codec.Lossless v := by
      simp only [codecs, List.forall_mem_cons]
      exact ⟨jsonCodec_lossless hjson, msgpackCodec_lossless hmsgpack, hprotobuf, nofun⟩
    exact ⟨hall, fun codec hc codec' hc' => (hall codec hc).agrees (hall codec' hc')⟩

/-- What the libraries write for one value, and that they read it back. -/
def serdeFor (v : Json.Value) (written : Bytes) : Serde where
  toVec _ := .ok written
  fromSlice bytes := if bytes = written then .ok v else .error "invalid value"

def prostFor (v : ProtoValue) (written : Bytes) : Prost where
  encodeToVec _ := written
  decode bytes := if bytes = written then .ok v else .error "invalid wire type value"

theorem serdeFor_inverts (v : Json.Value) (written : Bytes) : (serdeFor v written).Inverts v := by
  intro bytes hbytes
  obtain rfl := Except.ok.inj hbytes
  exact if_pos rfl

theorem prostFor_inverts (v : ProtoValue) (written : Bytes) :
    (prostFor v written).Inverts v := if_pos rfl

/-- `{"x": 1.5}` -/
def oneAndHalf : Json.Value := .object [("x", .number (.float ⟨false, 3 * 2 ^ 51, -52⟩))]

theorem codecs_lossless_iff_oneAndHalf :
    let json := serdeFor oneAndHalf [0x7B, 0x22, 0x78, 0x22, 0x3A, 0x31, 0x2E, 0x35, 0x7D]
    let msgpack := serdeFor oneAndHalf [0x81, 0xA1, 0x78, 0xCB, 0x3F, 0xF8, 0, 0, 0, 0, 0, 0]
    let prost := prostFor (jsonToProto oneAndHalf) [0x2A, 0x10, 0x0A, 0x0E, 0x0A, 0x01, 0x78,
      0x12, 0x09, 0x11, 0, 0, 0, 0, 0, 0, 0xF8, 0x3F]
    (∀ codec ∈ codecs json msgpack prost, codec.Lossless oneAndHalf) ∧
      ∀ codec ∈ codecs json msgpack prost, ∀ codec' ∈ codecs json msgpack prost,
        codec.Agrees codec' oneAndHalf := by
  intro json msgpack prost
  refine (codecs_lossless_iff (serdeFor_inverts _ _) (serdeFor_inverts _ _)
    (prostFor_inverts _ _)).mpr ?_
  simp [oneAndHalf, numbers, fieldNumbers, Floats]

/-- The least integer that is no binary64 number. -/
def bigId : Json.Value := .number (.posInt (2 ^ 53 + 1))

theorem identifier_is_rounded :
    let prost := prostFor (jsonToProto bigId) [0x11, 0, 0, 0, 0, 0, 0, 0x40, 0x43]
    prost.Inverts (jsonToProto bigId) ∧ ¬ (protobufCodec prost).Lossless bigId := by
  intro prost
  refine ⟨prostFor_inverts _ _, fun hlossless => ?_⟩
  have hback : protoToJson (jsonToProto bigId) = bigId :=
    (protobufCodec_lossless_iff (prostFor_inverts _ _)).mp hlossless
  -- it comes back as the float of 2 ^ 53
  have hrounded : asF64 (.posInt (2 ^ 53 + 1)) = some (.finite ⟨false, 2 ^ 52, 1⟩) := by
    decide +kernel
  rw [bigId, jsonToProto, hrounded, Option.getD_some, protoToJson] at hback
  nomatch hback

end Rinfra.Codecs
