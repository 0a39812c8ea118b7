import Rinfra.Cluster.Server

/-!
# The cluster codec

`ClusterCodec` puts the JSON text of a message in one length-delimited frame.
A frame over `max_frame_length` is refused on both sides.

What `serde_json` writes and reads comes from outside; how long its texts are
is worked out for the messages, to speak of frames that fit.
-/

namespace Rinfra.Cluster

structure SerdeJson (Data : Type) where
  toVec : ClusterMessage → Data
  fromSlice : Data → Except String ClusterMessage
  /-- The number of bytes. -/
  len : Data → Nat

structure SerdeJson.Lawful (json : SerdeJson Data) : Prop where
  roundTrip : ∀ msg, json.fromSlice (json.toVec msg) = .ok msg

/-- What the stream gives: the text of a frame, an error, or its end. -/
inductive Inbound (Data : Type)
  | frame (data : Data)
  | error
  | eof

namespace ClusterCodec

def maxFrameLength : Nat := 64 * 1024

/-- `none` is the error of a frame that is too long. -/
def encode (json : SerdeJson Data) (item : ClusterMessage) : Option Data :=
  let data := json.toVec item
  if json.len data ≤ maxFrameLength then some data else none

def decode (json : SerdeJson Data) : Inbound Data → Frame
  | .frame data =>
    if json.len data ≤ maxFrameLength then
      match json.fromSlice data with
      | .ok msg => .message msg
      | .error _ => .error
    else .error
  | .error => .error
  | .eof => .eof

theorem decode_encode {json : SerdeJson Data} (laws : json.Lawful)
    (h : encode json msg = some data) : decode json (.frame data) = .message msg := by
  simp only [encode, Option.ite_none_right_eq_some, Option.some.injEq] at h
  obtain ⟨hlen, rfl⟩ := h
  simp [decode, hlen, laws.roundTrip]

end ClusterCodec

-- ---------------------------------------------------------------------------
-- The length of a text
-- ---------------------------------------------------------------------------

namespace Json

/-- The bytes of a character between the quotes. -/
def charLen (c : Char) : Nat :=
  -- quote, backslash, and the control characters with a short escape
  if c.toNat ∈ [0x22, 0x5c, 0x08, 0x09, 0x0a, 0x0c, 0x0d] then 2
  else if c.toNat < 0x20 then 6
  else c.utf8Size

def total (lens : List Nat) : Nat := lens.foldr Nat.add 0

@[simp] theorem total_nil : total [] = 0 := rfl

@[simp] theorem total_cons : total (len :: lens) = len + total lens := rfl

def stringLen (s : String) : Nat := 2 + total (s.toList.map charLen)

def arrayLen (elements : List Nat) : Nat := 2 + (elements.length - 1) + total elements

def objectLen (fields : List (String × Nat)) : Nat :=
  arrayLen (fields.map fun (name, len) => stringLen name + 1 + len)

def nullLen : Nat := 4

def boolLen (b : Bool) : Nat := if b then 4 else 5

end Json

open Json

def NodeRole.jsonLen : NodeRole → Nat
  | .main => stringLen "Main"
  | .worker => stringLen "Worker"

def NodeStatus.jsonLen : NodeStatus → Nat
  | .online => stringLen "Online"
  | .offline => stringLen "Offline"
  | .draining => stringLen "Draining"

def Endpoint.jsonLen (e : Endpoint) : Nat :=
  objectLen [("protocol", stringLen e.protocol), ("address", stringLen e.address)]

def Metadata.jsonLen (metadata : Metadata) : Nat :=
  objectLen (metadata.toList.map fun (k, v) => (k, stringLen v))

def NodeInfo.jsonLen (node : NodeInfo) : Nat :=
  objectLen [("id", stringLen node.id), ("role", node.role.jsonLen),
    ("endpoints", arrayLen (node.endpoints.map Endpoint.jsonLen)),
    ("metadata", Metadata.jsonLen node.metadata), ("status", node.status.jsonLen)]

def ClusterMessage.jsonLen : ClusterMessage → Nat
  | .register nodeId role endpoints metadata token =>
    objectLen [("Register", objectLen [("node_id", stringLen nodeId), ("role", role.jsonLen),
      ("endpoints", arrayLen (endpoints.map Endpoint.jsonLen)),
      ("metadata", Metadata.jsonLen metadata), ("token", stringLen token)])]
  | .registerAck success error =>
    objectLen [("RegisterAck", objectLen [("success", boolLen success),
      ("error", (error.map stringLen).getD nullLen)])]
  | .deregister nodeId => objectLen [("Deregister", objectLen [("node_id", stringLen nodeId)])]
  | .listNodes => stringLen "ListNodes"
  | .nodeList nodes =>
    objectLen [("NodeList", objectLen [("nodes", arrayLen (nodes.map NodeInfo.jsonLen))])]
  | .ping => stringLen "Ping"
  | .pong => stringLen "Pong"

def plainJson : SerdeJson ClusterMessage := ⟨id, .ok, ClusterMessage.jsonLen⟩

theorem plainJson_lawful : plainJson.Lawful := ⟨fun _ => rfl⟩

example : ClusterMessage.jsonLen (.registerAck true none) =
    ("\x7b\x22RegisterAck\x22:\x7b" ++ "\x22success\x22:true," ++
      "\x22error\x22:null\x7d\x7d").utf8ByteSize := by decide

end Rinfra.Cluster
