import Rinfra.Core.Error

/-!
# The multi-level cache

`Cache` is the trait, over the monad in which its methods run. `MultilevelCache`
knows its levels through the trait only, so one text of its methods serves both
below: step by step between the calls of others, and at given times over the
backends of the repository.
-/

namespace Rinfra.Cache

abbrev Value := List UInt8

/-- The trait. A time to live is a `Duration`, in nanoseconds. -/
structure Cache (m : Type → Type) where
  get : String → ExceptT AppError m (Option Value)
  set : String → Value → ExceptT AppError m Unit
  setWithTtl : String → Value → Nat → ExceptT AppError m Unit
  delete : String → ExceptT AppError m Unit
  exists_ : String → ExceptT AppError m Bool

inductive Call
  | get (key : String)
  | set (key : String) (value : Value)
  | setWithTtl (key : String) (value : Value) (ttl : Nat)
  | delete (key : String)
  | exists_ (key : String)
  deriving DecidableEq, Repr

inductive Answer
  | value (v : Option Value)
  | found (b : Bool)
  | done
  deriving DecidableEq, Repr

abbrev Reply := Except AppError Answer

def Call.key : Call → String
  | .get key | .set key _ | .setWithTtl key _ _ | .delete key | .exists_ key => key

structure MultilevelCache (m : Type → Type) where
  l1 : Cache m
  l2 : Cache m

variable {m : Type → Type} [Monad m]

namespace MultilevelCache

def get (cache : MultilevelCache m) (key : String) : ExceptT AppError m (Option Value) := do
  if let some val ← cache.l1.get key then
    return some val
  if let some val ← cache.l2.get key then
    -- the result of the backfill is ignored
    let _ ← ExceptT.lift (cache.l1.set key val).run
    return some val
  return none

def set (cache : MultilevelCache m) (key : String) (value : Value) : ExceptT AppError m Unit := do
  cache.l1.set key value
  cache.l2.set key value

def setWithTtl (cache : MultilevelCache m) (key : String) (value : Value) (ttl : Nat) :
    ExceptT AppError m Unit := do
  cache.l1.setWithTtl key value ttl
  cache.l2.setWithTtl key value ttl

def delete (cache : MultilevelCache m) (key : String) : ExceptT AppError m Unit := do
  cache.l1.delete key
  cache.l2.delete key

def exists_ (cache : MultilevelCache m) (key : String) : ExceptT AppError m Bool := do
  if ← cache.l1.exists_ key then
    return true
  cache.l2.exists_ key

def toCache (cache : MultilevelCache m) : Cache m where
  get := cache.get
  set := cache.set
  setWithTtl := cache.setWithTtl
  delete := cache.delete
  exists_ := cache.exists_

end MultilevelCache

def Cache.call (cache : Cache m) : Call → m Reply
  | .get key => (Answer.value <$> cache.get key).run
  | .set key value => (cache.set key value *> pure Answer.done).run
  | .setWithTtl key value ttl => (cache.setWithTtl key value ttl *> pure Answer.done).run
  | .delete key => (cache.delete key *> pure Answer.done).run
  | .exists_ key => (Answer.found <$> cache.exists_ key).run

end Rinfra.Cache
