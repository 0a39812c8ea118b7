import Rinfra.Lib.Sql.Statement
import Rinfra.Store.Placeholders

/-!
# What a specification selects

The clause of a specification is a condition on the columns it names, and a row
is selected where the specification holds of it. Comparing with NULL never holds,
as in SQL: `field = $1` with NULL for `$1` selects no row.
-/

namespace Rinfra.Store

open Rinfra.Lib.Sql

variable {V : Type}

/-- A database with values `V`, and how it is sent a parameter. -/
structure Backend (V : Type) extends Dialect V where
  bind : DbValue → Option V
  bind_null : bind .null = none

/-- The parameters of a statement, by the number of the placeholder. -/
def Backend.sent (b : Backend V) (offset : Nat) (params : List DbValue) (n : Nat) : Option V :=
  (paramAt offset params n).bind b.bind

/-- A name of letters, digits and underscores that is not reserved. -/
def Plain (d : Dialect V) (name : String) : Prop :=
  d.isName name = true ∧ ∀ c ∈ name.toList, isWord c = true

instance (d : Dialect V) : DecidablePred (Plain d) := fun _ =>
  @instDecidableAnd _ _ _ (List.decidableBAll _ _)

theorem Plain.lexes {d : Dialect V} (h : Plain d name) : Lexes name [.word name] := by
  obtain ⟨hname, hword⟩ := h
  cases htext : name.toList with
  | nil => simp [Dialect.isName, htext] at hname
  | cons c text =>
    rw [htext] at hword
    exact .word htext (hword c List.mem_cons_self) fun e he =>
      .inl (hword e (List.mem_cons_of_mem _ he))

theorem Plain.inert {d : Dialect V} (h : Plain d name) : Inert name := by
  have htokens : tokens name = [.word name] := h.lexes.1
  refine ⟨?_, ?_⟩
  · rw [htokens]
    exact h.lexes
  · rw [placeholders, htokens]
    rfl

-- ---------------------------------------------------------------------------
-- Meaning
-- ---------------------------------------------------------------------------

/-- Both are there, and compare as `op` says. -/
def Compares (op : V → V → Bool) (x y : Option V) : Prop :=
  ∃ v w, x = some v ∧ y = some w ∧ op v w = true

instance (op : V → V → Bool) (x y : Option V) : Decidable (Compares op x y) :=
  decidable_of_iff _ (compare_eq_true op x y)

namespace Specification

/-- What a specification says about a row, where columns and values are related
by `equal`, `like` and `le`. -/
def Holds (equal like le : Option V → Option V → Prop) (bind : DbValue → Option V)
    (row : String → Option V) : Specification → Prop
  | andSpec left right => left.Holds equal like le bind row ∧ right.Holds equal like le bind row
  | orSpec left right => left.Holds equal like le bind row ∨ right.Holds equal like le bind row
  | eqSpec field value => equal (row field) (bind value)
  | likeSpec field pattern => like (row field) (bind (.text pattern))
  | inSpec field values => ∃ value ∈ values, equal (row field) (bind value)
  | betweenSpec field low high => le (bind low) (row field) ∧ le (row field) (bind high)

instance decidableHolds {equal like le : Option V → Option V → Prop}
    [∀ x y, Decidable (equal x y)] [∀ x y, Decidable (like x y)] [∀ x y, Decidable (le x y)]
    (bind : DbValue → Option V) (row : String → Option V) :
    (spec : Specification) → Decidable (spec.Holds equal like le bind row)
  | andSpec left right =>
    @instDecidableAnd _ _ (decidableHolds bind row left) (decidableHolds bind row right)
  | orSpec left right =>
    @instDecidableOr _ _ (decidableHolds bind row left) (decidableHolds bind row right)
  | eqSpec field value => inferInstanceAs (Decidable (equal (row field) (bind value)))
  | likeSpec field pattern => inferInstanceAs (Decidable (like (row field) (bind (.text pattern))))
  | inSpec field values =>
    inferInstanceAs (Decidable (∃ value ∈ values, equal (row field) (bind value)))
  | betweenSpec field low high =>
    inferInstanceAs (Decidable (le (bind low) (row field) ∧ le (row field) (bind high)))

def ListsNonempty : Specification → Prop
  | andSpec left right | orSpec left right => left.ListsNonempty ∧ right.ListsNonempty
  | inSpec _ values => values ≠ []
  | _ => True

def expr : Specification → (offset : Nat) → Expr
  | andSpec left right, offset =>
    .and (left.expr offset) (right.expr (usizeAdd offset left.params.length))
  | orSpec left right, offset =>
    .or (left.expr offset) (right.expr (usizeAdd offset left.params.length))
  | eqSpec field _, offset => .eq (.column field) (.param offset)
  | likeSpec field _, offset => .like (.column field) (.param offset)
  | inSpec field values, offset =>
    .isIn (.column field) ((List.range values.length).map fun i => .param (usizeAdd offset i))
  | betweenSpec field _ _, offset =>
    .between (.column field) (.param offset) (.param (usizeAdd offset 1))

def depth : Specification → Nat
  | andSpec left right | orSpec left right => max left.depth right.depth + 1
  | _ => 0

end Specification

def Backend.Selects (b : Backend V) (row : String → Option V) (spec : Specification) : Prop :=
  spec.Holds (Compares b.eq) (Compares b.like) (Compares b.le) b.bind row

instance (b : Backend V) (row : String → Option V) (spec : Specification) :
    Decidable (b.Selects row spec) :=
  Specification.decidableHolds b.bind row spec

namespace Specification

theorem depth_le (spec : Specification) (offset : Nat) :
    spec.depth ≤ (spec.tokensAt offset).length := by
  induction spec generalizing offset with
  | andSpec left right ihl ihr | orSpec left right ihl ihr =>
    have hl := ihl offset
    have hr := ihr (usizeAdd offset left.params.length)
    simp only [depth, tokensAt, List.length_cons, List.length_append]
    omega
  | _ => exact Nat.zero_le _

theorem parses (d : Dialect V) (spec : Specification) (offset : Nat)
    (hfields : ∀ field ∈ spec.fields, Plain d field) (hlists : spec.ListsNonempty) :
    Parses d spec.depth (spec.tokensAt offset) (spec.expr offset) := by
  induction spec generalizing offset with
  | andSpec left right ihl ihr =>
    exact .and (ihl _ (fun f hf => hfields f (List.mem_append_left _ hf)) hlists.1)
      (ihr _ (fun f hf => hfields f (List.mem_append_right _ hf)) hlists.2)
  | orSpec left right ihl ihr =>
    exact .or (ihl _ (fun f hf => hfields f (List.mem_append_left _ hf)) hlists.1)
      (ihr _ (fun f hf => hfields f (List.mem_append_right _ hf)) hlists.2)
  | eqSpec field value | likeSpec field pattern =>
    have hfield := hfields field (by simp [fields])
    simp only [tokensAt, hfield.lexes.1]
    exact .comparison fun rest => by simp [comparison, operand, hfield.1, expr]
  | inSpec field values =>
    have hfield := hfields field (by simp [fields])
    have hrange : List.range values.length ≠ [] := by
      simpa using (show values ≠ [] from hlists)
    simp only [tokensAt, hfield.lexes.1]
    apply Parses.comparison
    intro rest
    have hitems := operands_params (d := d) (usizeAdd offset) hrange rest
    simp [comparison, operand, hfield.1, expr, hitems]
  | betweenSpec field low high =>
    have hfield := hfields field (by simp [fields])
    simp only [tokensAt, hfield.lexes.1]
    exact .comparison fun rest => by simp [comparison, operand, hfield.1, expr]

theorem eval_expr (b : Backend V) (spec : Specification) (offset : Nat) (row : String → Option V)
    (value : Nat → Option DbValue) (hfits : offset + spec.params.length ≤ 2 ^ 64)
    (hvalue : ∀ i < spec.params.length, value (offset + i) = spec.params[i]?) :
    (spec.expr offset).eval b.toDialect row (fun n => (value n).bind b.bind) = .true ↔
      b.Selects row spec := by
  induction spec generalizing offset with
  | andSpec left right ihl ihr =>
    have hl := ihl offset (left_fits hfits) (left_supplied hvalue)
    have hr := ihr (usizeAdd offset left.params.length) (right_fits hfits)
      (right_supplied hfits hvalue)
    rw [expr, Expr.eval, Truth.and_eq_true, hl, hr]
    rfl
  | orSpec left right ihl ihr =>
    have hl := ihl offset (left_fits hfits) (left_supplied hvalue)
    have hr := ihr (usizeAdd offset left.params.length) (right_fits hfits)
      (right_supplied hfits hvalue)
    rw [expr, Expr.eval, Truth.or_eq_true, hl, hr]
    rfl
  | eqSpec field v =>
    have hparam : value offset = some v := hvalue 0 (by simp [params])
    simp only [expr, Expr.eval, Operand.eval, hparam, Option.bind_some, compare_eq_true]
    rfl
  | likeSpec field pattern =>
    have hparam : value offset = some (.text pattern) := hvalue 0 (by simp [params])
    simp only [expr, Expr.eval, Operand.eval, hparam, Option.bind_some, compare_eq_true]
    rfl
  | inSpec field values =>
    have hvalues : ∀ i < values.length, value (usizeAdd offset i) = values[i]? := by
      intro i hi
      simp only [params] at hfits
      rw [usizeAdd_of_lt (by omega)]
      exact hvalue i hi
    have hitem : ∀ i, (hi : i < values.length) → (value (usizeAdd offset i)).bind b.bind =
        b.bind values[i] := by
      intro i hi
      rw [hvalues i hi, List.getElem?_eq_getElem hi, Option.bind_some]
    rw [expr, eval_isIn_eq_true]
    constructor
    · rintro ⟨y, hy, htrue⟩
      obtain ⟨i, hi, rfl⟩ := List.mem_map.mp hy
      have hlt := List.mem_range.mp hi
      rw [Operand.eval, Operand.eval, hitem i hlt, compare_eq_true] at htrue
      exact ⟨values[i], List.getElem_mem hlt, htrue⟩
    · rintro ⟨v, hv, hequal⟩
      obtain ⟨i, hlt, rfl⟩ := List.getElem_of_mem hv
      refine ⟨_, List.mem_map_of_mem (List.mem_range.mpr hlt), ?_⟩
      rw [Operand.eval, Operand.eval, hitem i hlt, compare_eq_true]
      exact hequal
  | betweenSpec field low high =>
    have hadd : usizeAdd offset 1 = offset + 1 := by
      simp only [params, List.length_cons, List.length_nil] at hfits
      exact usizeAdd_of_lt (by omega)
    have hlow : value offset = some low := hvalue 0 (by simp [params])
    have hhigh : value (offset + 1) = some high := hvalue 1 (by simp [params])
    simp only [expr, Expr.eval, Operand.eval, hadd, hlow, hhigh, Option.bind_some,
      Truth.and_eq_true, compare_eq_true]
    rfl

end Specification

end Rinfra.Store
