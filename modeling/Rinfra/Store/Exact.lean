import Rinfra.Lib.Binary64
import Rinfra.Store.Selection
import Rinfra.Store.Value

/-!
# Values that are read as what they are

What a value of the database stands for, and what a value of a Rust type does:
reading is exact where the two are the same. An integer is cut down to its low
bits for an `i32`, and rounded for an `f64`; nothing says so to the caller.

A count of the repository is an integer of the database as well.
-/

namespace Rinfra.Store

open Rinfra.Lib

/-- What values stand for. -/
inductive Meaning
  | null
  | truth (b : Bool)
  | number (q : ℚ)
  | infinite (negative : Bool)
  | nan
  | text (s : String)
  | bytes (bs : List UInt8)

/-- What the bits of an `f64` stand for. -/
def Meaning.ofDouble : Double → Meaning
  | .finite x => .number x.value
  | .infinite negative => .infinite negative
  | .nan => .nan

def DbValue.meaning : DbValue → Meaning
  | .null => .null
  | .bool b => .truth b
  | .int n => .number n
  | .float bits => .ofDouble (.ofBits bits)
  | .text s => .text s
  | .bytes bs => .bytes bs

def BaseType.meaning : (t : BaseType) → t.Val → Meaning
  | bool, b => .truth b
  | i32, n => .number (Int32.toInt n)
  | i64, n => .number (Int64.toInt n)
  | f64, bits => .ofDouble (.ofBits bits)
  | string, s => .text s
  | bytes, bs => .bytes bs

def FieldType.meaning : (t : FieldType) → t.Val → Meaning
  | plain t, v => t.meaning v
  | option _, none => .null
  | option t, some v => t.meaning v

def FieldType.base : FieldType → BaseType
  | plain t | option t => t

/-- The integer is an `i64`, as the type of the source has it. -/
def DbValue.Valid (v : DbValue) : Prop := ∀ n, v = .int n → -2 ^ 63 ≤ n ∧ n < 2 ^ 63

instance : DecidablePred DbValue.Valid := fun v =>
  match v with
  | .int n => decidable_of_iff (-2 ^ 63 ≤ n ∧ n < 2 ^ 63) (by simp [DbValue.Valid])
  | .null | .bool _ | .float _ | .text _ | .bytes _ => .isTrue (by simp [DbValue.Valid])

/-- The value is refused, or read as what it stands for. -/
def FieldType.Exact (debug : DbValue → String) (t : FieldType) (v : DbValue) : Prop :=
  ∀ x, t.fromDbValue debug v = .ok x → t.meaning x = v.meaning

def BaseType.Has : BaseType → Int → Prop
  | i32, n => -2 ^ 31 ≤ n ∧ n < 2 ^ 31
  | f64, n => FitsMantissa n.natAbs
  | bool, _ => False
  | i64, _ | string, _ | bytes, _ => True

-- ---------------------------------------------------------------------------
-- Conversions
-- ---------------------------------------------------------------------------

section
variable {debug : DbValue → String}

theorem int32_exact_iff (n : Int) : (Int32.ofInt n).toInt = n ↔ -2 ^ 31 ≤ n ∧ n < 2 ^ 31 := by
  constructor
  · intro h
    have hlow := Int32.le_toInt (Int32.ofInt n)
    have hhigh := Int32.toInt_lt (Int32.ofInt n)
    rw [h] at hlow hhigh
    exact ⟨hlow, hhigh⟩
  · exact fun h => Int32.toInt_ofInt_of_le h.1 h.2

theorem forall_ok_iff {a : α} {P : α → Prop} :
    (∀ x, (.ok a : Except AppError α) = .ok x → P x) ↔ P a := by
  simp

theorem BaseType.exact_int_iff (t : BaseType) (debug : DbValue → String) (hlow : -2 ^ 63 ≤ n)
    (hhigh : n < 2 ^ 63) :
    (∀ x, t.fromDbValue debug (.int n) = .ok x → t.meaning x = .number n) ↔ t.Has n := by
  cases t with
  | bool =>
    refine (forall_ok_iff (a := n != 0)).trans ?_
    simp [meaning, Has]
  | i32 =>
    refine (forall_ok_iff (a := Int32.ofInt n)).trans ?_
    change Meaning.number (Int32.ofInt n).toInt = _ ↔ _
    rw [Meaning.number.injEq, Int.cast_inj]
    exact int32_exact_iff n
  | i64 =>
    refine (forall_ok_iff (a := Int64.ofInt n)).trans ?_
    change Meaning.number (Int64.ofInt n).toInt = _ ↔ _
    rw [Meaning.number.injEq, Int.cast_inj]
    exact iff_of_true (Int64.toInt_ofInt_of_le hlow hhigh) trivial
  | f64 =>
    have hlog : n.natAbs.log2 < 1023 := by
      by_cases hzero : n.natAbs = 0
      · rw [hzero]
        decide
      · have hbits : n.natAbs.log2 < 64 := (Nat.log2_lt hzero).mpr (by omega)
        omega
    obtain ⟨x, hx, hvalue⟩ := ofBits_ofInt n hlog
    refine (forall_ok_iff (a := (Double.ofInt n).toBits)).trans ?_
    change Meaning.ofDouble (.ofBits (Double.ofInt n).toBits) = _ ↔ _
    rw [hx, Meaning.ofDouble, Meaning.number.injEq]
    exact hvalue
  | string | bytes => simp [fromDbValue, Has]

/-- Nothing but an integer is read as something else. -/
theorem BaseType.exact_of_not_int {t : BaseType} {x : t.Val} (hv : ∀ n, v ≠ .int n)
    (h : t.fromDbValue debug v = .ok x) : t.meaning x = v.meaning := by
  cases v with
  | int n => exact absurd rfl (hv n)
  | null | bool | float | text | bytes => cases t <;> cases h <;> rfl

theorem FieldType.exact_iff (t : FieldType) (hv : v.Valid) :
    t.Exact debug v ↔ ∀ n, v = .int n → t.base.Has n := by
  by_cases hint : ∃ n, v = .int n
  · obtain ⟨n, rfl⟩ := hint
    obtain ⟨hlow, hhigh⟩ := hv n rfl
    simp only [DbValue.int.injEq, forall_eq']
    cases t with
    | plain t => exact t.exact_int_iff debug hlow hhigh
    | option t =>
      rw [base, ← t.exact_int_iff debug hlow hhigh]
      simp only [Exact, fromDbValue, DbValue.isNull, Bool.false_eq_true, if_false]
      constructor
      · exact fun h x hx => h (some x) (by rw [hx]; rfl)
      · intro h x hx
        cases hread : t.fromDbValue debug (.int n) with
        | error e =>
          rw [hread] at hx
          cases hx
        | ok y =>
          rw [hread] at hx
          cases hx
          exact h y hread
  · have hne : ∀ n, v ≠ .int n := fun n h => hint ⟨n, h⟩
    refine iff_of_true (fun x hx => ?_) fun n h => absurd h (hne n)
    cases t with
    | plain t => exact t.exact_of_not_int hne hx
    | option t =>
      simp only [fromDbValue] at hx
      split at hx
      · rename_i hnull
        cases hx
        cases v <;> cases hnull
        rfl
      · cases hread : t.fromDbValue debug v with
        | error e =>
          rw [hread] at hx
          cases hx
        | ok y =>
          rw [hread] at hx
          cases hx
          exact t.exact_of_not_int hne hread

end

-- ---------------------------------------------------------------------------
-- Counts
-- ---------------------------------------------------------------------------

/-- A database answers a statement that counts with one row, which has the number
as a bigint. -/
structure Counts (exec : DbExecutor Db) (counted : Db → String → List DbValue → Nat) : Prop where
  answers : ∀ db rest params row db',
    exec.queryOne db ("SELECT count(*) AS cnt FROM " ++ rest) params = (.ok row, db') →
    counted db ("SELECT count(*) AS cnt FROM " ++ rest) params < 2 ^ 63 ∧
      row = some ⟨["cnt"], [.int (counted db ("SELECT count(*) AS cnt FROM " ++ rest) params)]⟩

section
variable {debug : DbValue → String} {Db T : Type} {exec : DbExecutor Db}
  {counted : Db → String → List DbValue → Nat}

theorem countRows_iff (hexec : Counts exec counted) :
    GenericRepository.countRows (.ok exec) debug ("SELECT count(*) AS cnt FROM " ++ rest)
        params db = (.ok n, db') ↔
      (∃ row, exec.queryOne db ("SELECT count(*) AS cnt FROM " ++ rest) params = (.ok row, db')) ∧
      n = counted db ("SELECT count(*) AS cnt FROM " ++ rest) params := by
  constructor
  · intro h
    obtain ⟨row, hquery, -⟩ := GenericRepository.countRows_ok h
    obtain ⟨hlt, rfl⟩ := hexec.answers _ _ _ _ _ hquery
    have hok := h.symm.trans (GenericRepository.countRows_number hlt hquery)
    cases hok
    exact ⟨⟨_, hquery⟩, rfl⟩
  · rintro ⟨⟨row, hquery⟩, rfl⟩
    obtain ⟨hlt, rfl⟩ := hexec.answers _ _ _ _ _ hquery
    exact GenericRepository.countRows_number hlt hquery

theorem count_iff (hexec : Counts exec counted) (entity : EntityType T) :
    GenericRepository.count (.ok exec) entity debug db = (.ok n, db') ↔
      (∃ row, exec.queryOne db ("SELECT count(*) AS cnt FROM " ++ entity.tableName) [] =
        (.ok row, db')) ∧
      n = counted db ("SELECT count(*) AS cnt FROM " ++ entity.tableName) [] :=
  countRows_iff hexec

theorem countBy_exact_iff (hexec : Counts exec counted) (entity : EntityType T)
    (spec : Specification) :
    GenericRepository.countBy (.ok exec) entity debug spec db = (.ok n, db') ↔
      (∃ row, exec.queryOne db ("SELECT count(*) AS cnt FROM " ++
        (entity.tableName ++ " WHERE " ++ (spec.toWhereClause 1).1)) (spec.toWhereClause 1).2 =
          (.ok row, db')) ∧
      n = counted db ("SELECT count(*) AS cnt FROM " ++
        (entity.tableName ++ " WHERE " ++ (spec.toWhereClause 1).1)) (spec.toWhereClause 1).2 := by
  have hsql : GenericRepository.countRows (.ok exec) debug ("SELECT count(*) AS cnt FROM " ++
      (entity.tableName ++ " WHERE " ++ (spec.toWhereClause 1).1)) (spec.toWhereClause 1).2 db =
      GenericRepository.countBy (.ok exec) entity debug spec db := by
    rw [GenericRepository.countBy]
    simp only [String.append_assoc]
    rfl
  rw [← hsql]
  exact countRows_iff hexec

/-- A value is read exactly, or refused, if and only if the type has it in the case
of an integer; and where the database answers, the repository returns what it has
counted, and nothing else ever. -/
theorem reads_exact (debug : DbValue → String) :
    (∀ (t : FieldType) (v : DbValue), v.Valid →
      (t.Exact debug v ↔ ∀ n, v = .int n → t.base.Has n)) ∧
    ∀ (exec : DbExecutor Db) counted, Counts exec counted →
      ∀ (entity : EntityType T) (db : Db) (n : Nat) (db' : Db),
      (GenericRepository.count (.ok exec) entity debug db = (.ok n, db') ↔
        (∃ row, exec.queryOne db ("SELECT count(*) AS cnt FROM " ++ entity.tableName) [] =
          (.ok row, db')) ∧
        n = counted db ("SELECT count(*) AS cnt FROM " ++ entity.tableName) []) ∧
      ∀ spec : Specification,
        GenericRepository.countBy (.ok exec) entity debug spec db = (.ok n, db') ↔
          (∃ row, exec.queryOne db ("SELECT count(*) AS cnt FROM " ++
            (entity.tableName ++ " WHERE " ++ (spec.toWhereClause 1).1)) (spec.toWhereClause 1).2 =
              (.ok row, db')) ∧
          n = counted db ("SELECT count(*) AS cnt FROM " ++
            (entity.tableName ++ " WHERE " ++ (spec.toWhereClause 1).1))
            (spec.toWhereClause 1).2 :=
  ⟨fun t _ hv => t.exact_iff hv, fun _ _ hexec entity _ _ _ =>
    ⟨count_iff hexec entity, countBy_exact_iff hexec entity⟩⟩

end

def tally : DbExecutor Nat where
  execute db _ _ := (.error (queryFailed "execute failed: not supported"), db)
  query db _ _ := (.error (queryFailed "query failed: not supported"), db)
  queryOne db _ _ :=
    if db < 2 ^ 63 then (.ok (some ⟨["cnt"], [.int db]⟩), db)
    else (.error (queryFailed "query_one failed: bigint out of range"), db)

theorem tally_counts : Counts tally fun db _ _ => db where
  answers db rest params row db' h := by
    simp only [tally] at h
    split at h
    · rename_i hlt
      cases h
      exact ⟨hlt, rfl⟩
    · cases h

theorem reads_exact_small :
    (FieldType.plain .f64).Exact (fun _ => "") (.int 9007199254740992) ∧
    (FieldType.option .i32).Exact (fun _ => "") (.int 7) ∧
    GenericRepository.count (.ok tally) users (fun _ => "") 3 = (.ok 3, 3) ∧
    GenericRepository.countBy (.ok tally) users (fun _ => "") (.eqSpec "id" (.int 1)) 3 =
      (.ok 3, 3) := by
  obtain ⟨hreads, hcounts⟩ := @reads_exact Nat (Int × String) fun _ => ""
  obtain ⟨hcount, hcountBy⟩ := hcounts tally _ tally_counts users 3 3 3
  refine ⟨(hreads _ _ (by decide)).mpr fun n hn => ?_,
    (hreads _ _ (by decide)).mpr fun n hn => ?_,
    hcount.mpr ⟨⟨_, rfl⟩, rfl⟩, (hcountBy _).mpr ⟨⟨_, rfl⟩, rfl⟩⟩
  · cases hn
    exact ⟨1, 53, rfl, by decide⟩
  · cases hn
    exact ⟨by decide, by decide⟩

/-- An `i32` that is read where the column has `2 ^ 32 + 1` is 1, and an `f64` where
it has `2 ^ 53 + 1` is `2 ^ 53`. -/
theorem large_integers_altered :
    (FieldType.plain .i32).fromDbValue (fun _ => "") (.int 4294967297) = .ok (1 : Int32) ∧
    (FieldType.plain .f64).fromDbValue (fun _ => "") (.int 9007199254740993) =
      .ok (Double.ofInt 9007199254740992).toBits ∧
    ¬ (FieldType.plain .i32).Exact (fun _ => "") (.int 4294967297) ∧
    ¬ (FieldType.plain .f64).Exact (fun _ => "") (.int 9007199254740993) := by
  have hrounded : (Double.ofInt 9007199254740993).toBits =
      (Double.ofInt 9007199254740992).toBits := by
    decide +kernel
  refine ⟨rfl, congrArg Except.ok hrounded, fun h => ?_, fun h => ?_⟩
  · obtain ⟨-, hlt⟩ := ((FieldType.plain .i32).exact_iff (by decide)).mp h _ rfl
    exact absurd hlt (by decide)
  · obtain ⟨m, k, hm, hlt⟩ := ((FieldType.plain .f64).exact_iff (by decide)).mp h _ rfl
    cases k with
    | zero =>
      simp at hm
      omega
    | succ k =>
      rw [Nat.pow_succ, ← Nat.mul_assoc] at hm
      omega

end Rinfra.Store
