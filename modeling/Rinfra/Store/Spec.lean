import Mathlib.Algebra.Group.Nat.Defs

/-!
# Specifications

`Specification` is a trait with six implementations; here they are the
constructors of one type. A clause is put together from texts, with the names of
columns as they are given, and refers to its parameters by number.
-/

namespace Rinfra.Store

/-- An `f64` is given by its bits. -/
inductive DbValue
  | null
  | bool (b : Bool)
  | int (n : Int)
  | float (bits : UInt64)
  | text (s : String)
  | bytes (bs : List UInt8)
  deriving DecidableEq, Repr

def DbValue.isNull : DbValue → Bool
  | .null => true
  | _ => false

inductive Specification
  | andSpec (left right : Specification)
  | orSpec (left right : Specification)
  | eqSpec (field : String) (value : DbValue)
  | likeSpec (field pattern : String)
  | inSpec (field : String) (values : List DbValue)
  | betweenSpec (field : String) (low high : DbValue)
  deriving DecidableEq, Repr

/-- Addition on `usize`; a release build wraps around. -/
def usizeAdd (m n : Nat) : Nat := (m + n) % 2 ^ 64

def commaJoin (texts : List String) : String := ", ".intercalate texts

namespace Specification

def toWhereClause : Specification → (offset : Nat) → String × List DbValue
  | andSpec left right, offset =>
    let (lClause, lParams) := left.toWhereClause offset
    let (rClause, rParams) := right.toWhereClause (usizeAdd offset lParams.length)
    (s!"({lClause}) AND ({rClause})", lParams ++ rParams)
  | orSpec left right, offset =>
    let (lClause, lParams) := left.toWhereClause offset
    let (rClause, rParams) := right.toWhereClause (usizeAdd offset lParams.length)
    (s!"({lClause}) OR ({rClause})", lParams ++ rParams)
  | eqSpec field value, offset => (s!"{field} = ${offset}", [value])
  | likeSpec field pattern, offset => (s!"{field} LIKE ${offset}", [.text pattern])
  | inSpec field values, offset =>
    let placeholders := (List.range values.length).map fun i => s!"${usizeAdd offset i}"
    (s!"{field} IN ({commaJoin placeholders})", values)
  | betweenSpec field low high, offset =>
    (s!"{field} BETWEEN ${offset} AND ${usizeAdd offset 1}", [low, high])

example :
    (andSpec (eqSpec "active" (.bool true))
        (betweenSpec "age" (.int 20) (.int 50))).toWhereClause 1 =
      ("(active = $1) AND (age BETWEEN $2 AND $3)", [.bool true, .int 20, .int 50]) := by
  decide

end Specification

end Rinfra.Store
