import Mathlib.Data.List.Forall2
import Rinfra.Store.Repository

/-!
# Rows of a database

A row that a driver reads becomes a `DbRow` column by column: the name of the
column's type says which Rust type `try_get` is asked for, and an error of
`try_get` is taken for NULL. What the driver does is `Sqlx`.
-/

namespace Rinfra.Store

inductive RustType
  | bool
  | i64
  | f64
  | bytes
  | string
  deriving DecidableEq, Repr

namespace RustType

/-- An `f64` is given by its bits. -/
def Val : RustType → Type
  | bool => Bool
  | i64 => Int
  | f64 => UInt64
  | bytes => List UInt8
  | string => String

def wrap : (t : RustType) → t.Val → DbValue
  | bool, b => .bool b
  | i64, n => .int n
  | f64, bits => .float bits
  | bytes, bs => .bytes bs
  | string, s => .text s

theorem wrap_ne_null (t : RustType) (v : t.Val) : t.wrap v ≠ .null := by
  cases t <;> nofun

end RustType

/-- A driver and the cells that it reads. The type of a column can differ from
that of a value in it. `try_get` succeeds for a value that is not NULL, of a type
compatible with the Rust type, and with bytes that are such a value. -/
structure Sqlx (Cell : Type) where
  name : Cell → String
  columnType : Cell → String
  valueType : Cell → String
  isNull : Cell → Bool
  Represents : Cell → DbValue → Prop
  compatible : String → RustType → Bool
  decodes : Cell → RustType → Bool
  tryGet : Cell → (t : RustType) → Except String t.Val
  null_err : ∀ c t, isNull c = true → ∃ e, tryGet c t = .error e
  incompatible_err : ∀ c t, compatible (valueType c) t = false → ∃ e, tryGet c t = .error e
  undecodable_err : ∀ c t, decodes c t = false → ∃ e, tryGet c t = .error e
  value_ok : ∀ c t, isNull c = false → compatible (valueType c) t = true → decodes c t = true →
    ∃ v, tryGet c t = .ok v ∧ Represents c (t.wrap v)

section
variable {Cell : Type} (s : Sqlx Cell)

/-- `row.try_get(…).ok()`, and `Null` for nothing. -/
def tryValue (c : Cell) (t : RustType) : DbValue :=
  match s.tryGet c t with
  | .ok v => t.wrap v
  | .error _ => .null

def rowToDbRow (arm : String → RustType) (row : List Cell) : Except AppError DbRow :=
  .ok ⟨row.map s.name, row.map fun c => tryValue s c (arm (s.columnType c))⟩

def pgType : String → RustType
  | "BOOL" => .bool
  | "INT2" | "INT4" | "INT8" => .i64
  | "FLOAT4" | "FLOAT8" | "NUMERIC" => .f64
  | "BYTEA" => .bytes
  | _ => .string

def mysqlType : String → RustType
  | "BOOLEAN" | "TINYINT(1)" => .bool
  | "TINYINT" | "SMALLINT" | "INT" | "BIGINT" => .i64
  | "FLOAT" | "DOUBLE" | "DECIMAL" => .f64
  | "BLOB" | "BINARY" | "VARBINARY" => .bytes
  | _ => .string

def sqliteType : String → RustType
  | "BOOLEAN" => .bool
  | "INTEGER" => .i64
  | "REAL" => .f64
  | "BLOB" => .bytes
  | _ => .string

def pgRowToDbRow (row : List Cell) : Except AppError DbRow := rowToDbRow s pgType row

def mysqlRowToDbRow (row : List Cell) : Except AppError DbRow := rowToDbRow s mysqlType row

def sqliteRowToDbRow (row : List Cell) : Except AppError DbRow := rowToDbRow s sqliteType row

namespace Transaction

/-- The transaction has a function of its own, which is the same. -/
def pgRowToDbRow (row : List Cell) : Except AppError DbRow := rowToDbRow s pgType row

end Transaction

-- ---------------------------------------------------------------------------
-- What is lost
-- ---------------------------------------------------------------------------

/-- An error, or a row whose values are those of the cells; `Null` is NULL. -/
def Lossless (row : List Cell) (result : Except AppError DbRow) : Prop :=
  ∀ dbRow, result = .ok dbRow → List.Forall₂
    (fun c v => (s.isNull c = false → v ≠ .null ∧ s.Represents c v) ∧
      (v = .null → s.isNull c = true)) row dbRow.values

/-- The Rust type that is asked for is one that the cell can be read as. -/
def Readable (arm : String → RustType) (c : Cell) : Prop :=
  s.isNull c = true ∨
    (s.compatible (s.valueType c) (arm (s.columnType c)) = true ∧
      s.decodes c (arm (s.columnType c)) = true)

variable {s}

theorem tryValue_of_readable {c : Cell} {t : RustType} (hnull : s.isNull c = false)
    (hcompatible : s.compatible (s.valueType c) t = true) (hdecodes : s.decodes c t = true) :
    tryValue s c t ≠ .null ∧ s.Represents c (tryValue s c t) := by
  obtain ⟨v, hget, hrepresents⟩ := s.value_ok c t hnull hcompatible hdecodes
  rw [tryValue, hget]
  exact ⟨t.wrap_ne_null v, hrepresents⟩

theorem tryValue_of_err {c : Cell} {t : RustType} (h : ∃ e, s.tryGet c t = .error e) :
    tryValue s c t = .null := by
  obtain ⟨e, he⟩ := h
  rw [tryValue, he]

/-- A value that cannot be read is lost, and only such a value. -/
theorem cell_lossless_iff (arm : String → RustType) (c : Cell) :
    (s.isNull c = false → tryValue s c (arm (s.columnType c)) ≠ .null ∧
        s.Represents c (tryValue s c (arm (s.columnType c)))) ∧
      (tryValue s c (arm (s.columnType c)) = .null → s.isNull c = true) ↔
    Readable s arm c := by
  constructor
  · rintro ⟨-, honly⟩
    by_contra hread
    obtain ⟨hnull, hbad⟩ : s.isNull c ≠ true ∧ _ := not_or.mp hread
    apply hnull
    apply honly
    by_cases hcompatible : s.compatible (s.valueType c) (arm (s.columnType c)) = true
    · have hdecodes : s.decodes c (arm (s.columnType c)) = false :=
        Bool.eq_false_iff.mpr fun h => hbad ⟨hcompatible, h⟩
      exact tryValue_of_err (s.undecodable_err c _ hdecodes)
    · exact tryValue_of_err (s.incompatible_err c _ (Bool.eq_false_iff.mpr hcompatible))
  · rintro (hnull | ⟨hcompatible, hdecodes⟩)
    · exact ⟨fun h => absurd hnull (by simp [h]), fun _ => hnull⟩
    · refine ⟨fun hnull => tryValue_of_readable hnull hcompatible hdecodes, fun hvalue => ?_⟩
      by_contra hnull
      exact (tryValue_of_readable (Bool.eq_false_iff.mpr hnull) hcompatible hdecodes).1 hvalue

theorem rowToDbRow_lossless_iff (arm : String → RustType) (row : List Cell) :
    Lossless s row (rowToDbRow s arm row) ↔ ∀ c ∈ row, Readable s arm c := by
  have hcells : Lossless s row (rowToDbRow s arm row) ↔ List.Forall₂
      (fun c v => (s.isNull c = false → v ≠ .null ∧ s.Represents c v) ∧
        (v = .null → s.isNull c = true)) row
      (row.map fun c => tryValue s c (arm (s.columnType c))) := by
    constructor
    · exact fun h => h _ rfl
    · rintro h dbRow hok
      cases hok
      exact h
  rw [hcells, List.forall₂_map_right_iff, List.forall₂_same]
  exact forall₂_congr fun c _ => cell_lossless_iff arm c

/-- What the driver for Postgres reads as what. -/
structure PgTypes (s : Sqlx Cell) (text : List String) : Prop where
  same_type : ∀ c, s.valueType c = s.columnType c
  bool : ∀ n, s.compatible n .bool = true ↔ n = "BOOL"
  i64 : ∀ n, s.compatible n .i64 = true ↔ n = "INT8"
  f64 : ∀ n, s.compatible n .f64 = true ↔ n = "FLOAT8"
  bytes : ∀ n, s.compatible n .bytes = true ↔ n = "BYTEA"
  string : ∀ n, s.compatible n .string = true ↔ n ∈ text
  text_plain : ∀ n ∈ text, pgType n = .string

/-- Of the numbers only those of eight bytes are read, and of what has no Rust type
of its own only texts. -/
theorem pg_readable_iff (h : PgTypes s text) (c : Cell) :
    Readable s pgType c ↔ s.isNull c = true ∨
      (s.columnType c ∈ ["BOOL", "INT8", "FLOAT8", "BYTEA"] ++ text ∧
        s.decodes c (pgType (s.columnType c)) = true) := by
  have hcompatible : s.compatible (s.valueType c) (pgType (s.columnType c)) = true ↔
      s.columnType c ∈ ["BOOL", "INT8", "FLOAT8", "BYTEA"] ++ text := by
    rw [h.same_type]
    generalize s.columnType c = n
    have hplain := h.text_plain n
    unfold pgType at hplain ⊢
    split <;> simp_all [h.bool, h.i64, h.f64, h.bytes, h.string]
  rw [Readable, hcompatible]

end

theorem conversions_lossless_iff {Cell : Type} (s : Sqlx Cell) (row : List Cell) :
    (Lossless s row (pgRowToDbRow s row) ↔ ∀ c ∈ row, Readable s pgType c) ∧
    (Lossless s row (Transaction.pgRowToDbRow s row) ↔ ∀ c ∈ row, Readable s pgType c) ∧
    (Lossless s row (mysqlRowToDbRow s row) ↔ ∀ c ∈ row, Readable s mysqlType c) ∧
    (Lossless s row (sqliteRowToDbRow s row) ↔ ∀ c ∈ row, Readable s sqliteType c) :=
  ⟨rowToDbRow_lossless_iff _ _, rowToDbRow_lossless_iff _ _, rowToDbRow_lossless_iff _ _,
    rowToDbRow_lossless_iff _ _⟩

/-- A column of Postgres, its type and what is in it. -/
structure PgCell where
  name : String
  type : String
  value : DbValue
  deriving DecidableEq, Repr

def pgCompatible (type : String) : RustType → Bool
  | .bool => type = "BOOL"
  | .i64 => type = "INT8"
  | .f64 => type = "FLOAT8"
  | .bytes => type = "BYTEA"
  | .string => type = "TEXT" || type = "VARCHAR"

def DbValue.as : DbValue → (t : RustType) → Option t.Val
  | .bool b, .bool => some b
  | .int n, .i64 => some n
  | .float bits, .f64 => some bits
  | .bytes bs, .bytes => some bs
  | .text s, .string => some s
  | _, _ => none

theorem DbValue.wrap_of_as {value : DbValue} {t : RustType} {v : t.Val} (h : value.as t = some v) :
    t.wrap v = value := by
  cases t <;> cases value <;> cases h <;> rfl

theorem DbValue.as_of_isNull {value : DbValue} {t : RustType} (h : value.isNull = true) :
    value.as t = none := by
  cases value <;> first | rfl | cases h

def pgSqlx : Sqlx PgCell where
  name := PgCell.name
  columnType := PgCell.type
  valueType := PgCell.type
  isNull c := c.value.isNull
  Represents c v := v = c.value
  compatible := pgCompatible
  decodes c t := (c.value.as t).isSome
  tryGet c t :=
    if pgCompatible c.type t then
      match c.value.as t with
      | some v => .ok v
      | none => .error "unexpected null; try decoding as an Option"
    else .error "mismatched types"
  null_err c t h := by
    have hnone : c.value.as t = none := DbValue.as_of_isNull h
    by_cases hcompatible : pgCompatible c.type t = true <;> simp [hcompatible, hnone]
  incompatible_err c t h := by simp [h]
  undecodable_err c t h := by
    have hnone : c.value.as t = none := Option.not_isSome_iff_eq_none.mp (by simp [h])
    by_cases hcompatible : pgCompatible c.type t = true <;> simp [hcompatible, hnone]
  value_ok c t hnull hcompatible hdecodes := by
    obtain ⟨v, hv⟩ := Option.isSome_iff_exists.mp hdecodes
    exact ⟨v, by simp [hcompatible, hv], DbValue.wrap_of_as hv⟩

theorem int4_lost :
    pgRowToDbRow pgSqlx [⟨"age", "INT4", .int 7⟩] = .ok ⟨["age"], [.null]⟩ ∧
      ¬ Lossless pgSqlx [⟨"age", "INT4", .int 7⟩]
        (pgRowToDbRow pgSqlx [⟨"age", "INT4", .int 7⟩]) := by
  have hrow : pgRowToDbRow pgSqlx [⟨"age", "INT4", .int 7⟩] = .ok ⟨["age"], [.null]⟩ := by decide
  refine ⟨hrow, fun h => ?_⟩
  cases h _ hrow with
  | cons hcell _ => exact (hcell.1 rfl).1 rfl

end Rinfra.Store
