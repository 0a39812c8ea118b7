import Mathlib.Data.String.Basic
import Rinfra.Lib.Decimal
import Rinfra.Lib.SortedMap

/-!
# JSON values

The tree that a JSON library keeps: an object is a map sorted by its keys, and a
number is an unsigned or a negative integer or a finite binary64 number.
-/

namespace Rinfra.Lib.Json

inductive Number
  | posInt (n : Nat)
  | negInt (n : Int)
  | float (x : F64)
  deriving DecidableEq, Repr

inductive Value
  | null
  | bool (b : Bool)
  | number (n : Number)
  | string (s : String)
  | array (elements : List Value)
  | object (fields : List (String × Value))

abbrev Fields := List (String × Value)

def Value.IsObject : Value → Prop
  | .object _ => True
  | _ => False

instance : DecidablePred Value.IsObject := fun v =>
  match v with
  | .object _ => .isTrue trivial
  | .null | .bool _ | .number _ | .string _ | .array _ => .isFalse id

theorem Value.object_or_leaf (v : Value) : (∃ fields, v = .object fields) ∨ ¬ v.IsObject := by
  cases v with
  | object fields => exact .inl ⟨fields, rfl⟩
  | _ => exact .inr id

def Value.asStr : Value → Option String
  | .string s => some s
  | _ => none

def Value.get? (key : String) : Value → Option Value
  | .object fields => SortedMap.get key fields
  | _ => none

def Value.at? : Value → List String → Option Value
  | v, [] => some v
  | v, key :: rest => (v.get? key).bind fun child => child.at? rest

variable {value : Value} {path : List String}

/-- On the way to the path is something other than an object. -/
def Blocked (value : Value) (path : List String) : Prop :=
  ∃ q w, q <+: path ∧ q ≠ path ∧ value.at? q = some w ∧ ¬ w.IsObject

theorem not_blocked_nil (value : Value) : ¬ Blocked value [] := by
  rintro ⟨q, w, hq, hne, -⟩
  exact hne (List.prefix_nil.mp hq)

theorem blocked_leaf (h : ¬ value.IsObject) (key : String) (rest : List String) :
    Blocked value (key :: rest) :=
  ⟨[], value, List.nil_prefix, List.cons_ne_nil _ _ |>.symm, rfl, h⟩

theorem blocked_object (map : Fields) (key : String) (rest : List String) :
    Blocked (.object map) (key :: rest) ↔
      ∃ child, SortedMap.get key map = some child ∧ Blocked child rest := by
  constructor
  · rintro ⟨q, w, hq, hne, hat, hw⟩
    cases q with
    | nil =>
      cases hat
      exact absurd trivial hw
    | cons key' q =>
      obtain ⟨rfl, hshort⟩ := List.cons_prefix_cons.mp hq
      obtain ⟨child, hget, hat⟩ := Option.bind_eq_some_iff.mp hat
      exact ⟨child, hget, q, w, hshort, fun heq => hne (heq ▸ rfl), hat, hw⟩
  · rintro ⟨child, hget, q, w, hq, hne, hat, hw⟩
    exact ⟨key :: q, w, (List.prefix_cons_inj key).mpr hq, fun h => hne (List.cons.inj h).2,
      Option.bind_eq_some_iff.mpr ⟨child, hget, hat⟩, hw⟩

theorem not_blocked_empty : ¬ Blocked (.object []) path := by
  cases path with
  | nil => exact not_blocked_nil _
  | cons key rest =>
    intro h
    obtain ⟨child, hget, -⟩ := (blocked_object _ _ _).mp h
    cases hget

theorem not_blocked_of_at? (h : (value.at? path).isSome) : ¬ Blocked value path := by
  induction path generalizing value with
  | nil => exact not_blocked_nil value
  | cons key rest ih =>
    rcases value.object_or_leaf with ⟨fields, rfl⟩ | hv
    · rw [blocked_object]
      rintro ⟨child, hget, hblocked⟩
      simp only [Value.at?, Value.get?, hget, Option.bind_some] at h
      exact ih h hblocked
    · cases value with
      | object => exact absurd trivial hv
      | _ => cases h

end Rinfra.Lib.Json
