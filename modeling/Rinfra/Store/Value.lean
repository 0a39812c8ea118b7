import Mathlib.Data.List.Lex
import Mathlib.Data.List.Nodup
import Rinfra.Lib.Double
import Rinfra.Store.Repository

/-!
# Values of a row

`IntoDbValue` and `FromDbValue` for the types that have both, and `DbRow::get`.
A type is read from more kinds of values than it is written as: an integer can
be read as a `bool`, as an `i32`, which keeps its low bits, and as an `f64`.
-/

namespace Rinfra.Store

inductive BaseType
  | bool
  | i32
  | i64
  | f64
  | string
  | bytes
  deriving DecidableEq, Repr

/-- An `f64` is given by its bits. -/
def BaseType.Val : BaseType → Type
  | bool => Bool
  | i32 => Int32
  | i64 => Int64
  | f64 => UInt64
  | string => String
  | bytes => List UInt8

def BaseType.intoDbValue : (t : BaseType) → t.Val → DbValue
  | bool, b => .bool b
  | i32, n => .int (Int32.toInt n)
  | i64, n => .int (Int64.toInt n)
  | f64, bits => .float bits
  | string, s => .text s
  | bytes, bs => .bytes bs

inductive FieldType
  | plain (t : BaseType)
  | option (t : BaseType)
  deriving DecidableEq, Repr

def FieldType.Val : FieldType → Type
  | plain t => t.Val
  | option t => Option t.Val

def FieldType.intoDbValue : (t : FieldType) → t.Val → DbValue
  | plain t, v => t.intoDbValue v
  | option t, some v => t.intoDbValue v
  | option _, none => .null

section
variable (debug : DbValue → String)

/-- `debug` is how Rust writes a value for debugging. -/
def typeError (expected : String) (got : DbValue) : AppError :=
  queryFailed s!"expected {expected}, got {debug got}"

def BaseType.fromDbValue : (t : BaseType) → DbValue → Except AppError t.Val
  | bool, .bool b => .ok b
  | bool, .int n => .ok (n != 0)
  | bool, v => .error (typeError debug "bool" v)
  | i32, .int n => .ok (Int32.ofInt n)
  | i32, v => .error (typeError debug "i32" v)
  | i64, .int n => .ok (Int64.ofInt n)
  | i64, v => .error (typeError debug "i64" v)
  | f64, .float bits => .ok bits
  | f64, .int n => .ok (Lib.Double.ofInt n).toBits
  | f64, v => .error (typeError debug "f64" v)
  | string, .text s => .ok s
  | string, v => .error (typeError debug "String" v)
  | bytes, .bytes bs => .ok bs
  | bytes, v => .error (typeError debug "Vec<u8>" v)

def FieldType.fromDbValue : (t : FieldType) → DbValue → Except AppError t.Val
  | plain t, v => t.fromDbValue debug v
  | option t, v => if v.isNull then .ok none else (t.fromDbValue debug v).map some

/-- `row.get::<T>(column)`; a row with fewer values than columns panics. -/
def DbRow.get (row : DbRow) (t : FieldType) (column : String) : Outcome t.Val :=
  match row.columns.idxOf? column with
  | none => .err (queryFailed s!"column '{column}' not found in row")
  | some idx =>
    match row.values[idx]? with
    | none => .panicked
    | some v =>
      match t.fromDbValue debug v with
      | .ok x => .ok x
      | .error e => .err e

end

variable {debug : DbValue → String}

theorem BaseType.isNull_intoDbValue (t : BaseType) (v : t.Val) :
    (t.intoDbValue v).isNull = false := by
  cases t <;> rfl

theorem BaseType.fromDbValue_intoDbValue (t : BaseType) (v : t.Val) :
    t.fromDbValue debug (t.intoDbValue v) = .ok v := by
  cases t with
  | i32 => exact congrArg Except.ok (Int32.ofInt_toInt v)
  | i64 => exact congrArg Except.ok (Int64.ofInt_toInt v)
  | bool | f64 | string | bytes => rfl

theorem FieldType.fromDbValue_intoDbValue (t : FieldType) (v : t.Val) :
    t.fromDbValue debug (t.intoDbValue v) = .ok v := by
  cases t with
  | plain t => exact t.fromDbValue_intoDbValue v
  | option t =>
    cases v with
    | none => rfl
    | some v =>
      simp [fromDbValue, intoDbValue, t.isNull_intoDbValue, t.fromDbValue_intoDbValue,
        Except.map]

theorem DbRow.get_of_mem {row : DbRow} {column : String} {t : FieldType} {v : t.Val}
    (hnodup : row.columns.Nodup) (hmem : (column, t.intoDbValue v) ∈ row.columns.zip row.values) :
    row.get debug t column = .ok v := by
  obtain ⟨idx, hidx, hpair⟩ := List.mem_iff_getElem.mp hmem
  rw [List.length_zip] at hidx
  rw [List.getElem_zip, Prod.mk.injEq] at hpair
  have hfound : row.columns.idxOf? column = some idx := by
    refine List.idxOf?_eq_some_iff.mpr ⟨by omega, hpair.1, fun j hj heq => ?_⟩
    have := (hnodup.getElem_inj_iff).mp (heq.trans hpair.1.symm)
    omega
  have hvalue : row.values[idx]? = some (t.intoDbValue v) :=
    List.getElem?_eq_some_iff.mpr ⟨by omega, hpair.2⟩
  simp only [get, hfound, hvalue, t.fromDbValue_intoDbValue]

end Rinfra.Store
