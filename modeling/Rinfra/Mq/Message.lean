import Std.Data.ExtTreeMap.Lemmas

/-!
# Messages
-/

namespace Rinfra.Mq

abbrev Headers := Std.ExtTreeMap String String compare

structure Message where
  id : String
  topic : String
  payload : List UInt8
  headers : Headers
  createdAt : Nat

/-- What making a message takes from outside: a UUID and the time. -/
structure Draw where
  id : String
  createdAt : Nat

namespace Message

def new (draw : Draw) (topic : String) (payload : List UInt8) : Message :=
  ⟨draw.id, topic, payload, ∅, draw.createdAt⟩

def withHeaders (draw : Draw) (topic : String) (payload : List UInt8) (headers : Headers) :
    Message :=
  { new draw topic payload with headers }

end Message

end Rinfra.Mq
