import Mathlib.Algebra.Ring.Int.Defs
import Rinfra.Core.Error
import Rinfra.Store.Spec

/-!
# The generic repository

`GenericRepository` writes one SQL statement for each call and sends it through
a `DbExecutor`, which is a parameter: every backend has its own. Getting the
executor from the connection can fail.

What an entity type provides, `Entity`, `FromRow` and `ToRow`, is `EntityType`.
-/

namespace Rinfra.Store

structure DbRow where
  columns : List String
  values : List DbValue
  deriving DecidableEq, Repr

/-- An executor on a database in state `Db`. -/
structure DbExecutor (Db : Type) where
  execute : Db → (sql : String) → (params : List DbValue) → Except AppError Nat × Db
  query : Db → (sql : String) → (params : List DbValue) → Except AppError (List DbRow) × Db
  queryOne : Db → (sql : String) → (params : List DbValue) → Except AppError (Option DbRow) × Db

structure EntityType (T : Type) where
  tableName : String
  idColumn : String := "id"
  toParams : T → List (String × DbValue)
  id : T → Int
  fromRow : DbRow → Except AppError T

inductive SortDirection
  | asc
  | desc
  deriving DecidableEq, Repr

structure OrderBy where
  field : String
  direction : SortDirection
  deriving DecidableEq, Repr

structure QueryOptions where
  limit : Int := 100
  offset : Int := 0
  orderBy : List OrderBy := []
  deriving DecidableEq, Repr

def queryFailed (message : String) : AppError := ⟨.storeQueryFailed, message⟩

section
variable (debug : DbValue → String)

/-- `i64::from_db_value`; `debug` is how Rust writes a value for debugging. -/
def DbValue.toI64 : DbValue → Except AppError Int
  | .int n => .ok n
  | v => .error (queryFailed s!"expected i64, got {debug v}")

/-- `row.get::<i64>(column)`; a row with fewer values than columns panics. -/
def DbRow.getI64 (row : DbRow) (column : String) : Outcome Int :=
  match row.columns.idxOf? column with
  | none => .err (queryFailed s!"column '{column}' not found in row")
  | some idx =>
    match row.values[idx]? with
    | none => .panicked
    | some v =>
      match v.toI64 debug with
      | .ok n => .ok n
      | .error e => .err e

end

def i64AsU64 (n : Int) : Nat := (n % 2 ^ 64).toNat

namespace GenericRepository

-- ---------------------------------------------------------------------------
-- Statements
-- ---------------------------------------------------------------------------

def SortDirection.word : SortDirection → String
  | .asc => "ASC"
  | .desc => "DESC"

def pageSql (opts : QueryOptions) : String :=
  let clauses := opts.orderBy.map fun o => s!"{o.field} {SortDirection.word o.direction}"
  let order := if opts.orderBy.isEmpty then "" else " ORDER BY " ++ commaJoin clauses
  order ++ s!" LIMIT {opts.limit} OFFSET {opts.offset}"

def numbered (n : Nat) : List String := (List.range n).map fun i => s!"${i + 1}"

def insertSql (table : String) (params : List (String × DbValue)) : String × List DbValue :=
  let cols := params.map Prod.fst
  let placeholders := numbered cols.length
  (s!"INSERT INTO {table} ({commaJoin cols}) VALUES ({commaJoin placeholders}) RETURNING *",
    params.map Prod.snd)

def updateSql (table idCol : String) (params : List (String × DbValue)) (id : Int) :
    String × List DbValue :=
  let setClauses := params.zipIdx.map fun ((col, _), i) => s!"{col} = ${i + 1}"
  let idParamIdx := params.length + 1
  (s!"UPDATE {table} SET {commaJoin setClauses} WHERE {idCol} = ${idParamIdx} RETURNING *",
    params.map Prod.snd ++ [.int id])

section
variable {Db T : Type} (conn : Except AppError (DbExecutor Db)) (entity : EntityType T)
  (debug : DbValue → String)

/-- Rows are read one after the other, up to the first that cannot be. -/
def readRows (rows : List DbRow) : Outcome (List T) :=
  match rows.mapM entity.fromRow with
  | .ok ts => .ok ts
  | .error e => .err e

def findMany (sql : String) (params : List DbValue) (db : Db) : Outcome (List T) × Db :=
  match conn with
  | .error e => (.err e, db)
  | .ok exec =>
    match exec.query db sql params with
    | (.error e, db) => (.err e, db)
    | (.ok rows, db) => (readRows entity rows, db)

def countRows (sql : String) (params : List DbValue) (db : Db) : Outcome Nat × Db :=
  match conn with
  | .error e => (.err e, db)
  | .ok exec =>
    match exec.queryOne db sql params with
    | (.error e, db) => (.err e, db)
    | (.ok none, db) => (.ok 0, db)
    | (.ok (some row), db) =>
      match row.getI64 debug "cnt" with
      | .ok cnt => (.ok (i64AsU64 cnt), db)
      | .err e => (.err e, db)
      | .panicked => (.panicked, db)

/-- The row that `RETURNING` gives back. -/
def returned (sql : String) (params : List DbValue) (missing : String) (db : Db) : Outcome T × Db :=
  match conn with
  | .error e => (.err e, db)
  | .ok exec =>
    match exec.queryOne db sql params with
    | (.error e, db) => (.err e, db)
    | (.ok none, db) => (.err (queryFailed missing), db)
    | (.ok (some row), db) =>
      match entity.fromRow row with
      | .ok t => (.ok t, db)
      | .error e => (.err e, db)

def affected (sql : String) (params : List DbValue) (db : Db) : Outcome Nat × Db :=
  match conn with
  | .error e => (.err e, db)
  | .ok exec =>
    match exec.execute db sql params with
    | (.error e, db) => (.err e, db)
    | (.ok n, db) => (.ok n, db)

-- ---------------------------------------------------------------------------
-- Calls
-- ---------------------------------------------------------------------------

def findById (id : Int) (db : Db) : Outcome (Option T) × Db :=
  match conn with
  | .error e => (.err e, db)
  | .ok exec =>
    match exec.queryOne db
        s!"SELECT * FROM {entity.tableName} WHERE {entity.idColumn} = $1" [.int id] with
    | (.error e, db) => (.err e, db)
    | (.ok none, db) => (.ok none, db)
    | (.ok (some row), db) =>
      match entity.fromRow row with
      | .ok t => (.ok (some t), db)
      | .error e => (.err e, db)

def findAll (opts : QueryOptions) (db : Db) : Outcome (List T) × Db :=
  findMany conn entity (s!"SELECT * FROM {entity.tableName}" ++ pageSql opts) [] db

def create (t : T) (db : Db) : Outcome T × Db :=
  let (sql, values) := insertSql entity.tableName (entity.toParams t)
  returned conn entity sql values "INSERT RETURNING returned no rows" db

def update (t : T) (db : Db) : Outcome T × Db :=
  let (sql, values) :=
    updateSql entity.tableName entity.idColumn (entity.toParams t) (entity.id t)
  returned conn entity sql values "UPDATE RETURNING returned no rows" db

def delete (id : Int) (db : Db) : Outcome Bool × Db :=
  match affected conn s!"DELETE FROM {entity.tableName} WHERE {entity.idColumn} = $1" [.int id] db
  with
  | (.ok affected, db) => (.ok (decide (0 < affected)), db)
  | (.err e, db) => (.err e, db)
  | (.panicked, db) => (.panicked, db)

def exists_ (id : Int) (db : Db) : Outcome Bool × Db :=
  match conn with
  | .error e => (.err e, db)
  | .ok exec =>
    match exec.queryOne db
        s!"SELECT 1 FROM {entity.tableName} WHERE {entity.idColumn} = $1 LIMIT 1" [.int id] with
    | (.error e, db) => (.err e, db)
    | (.ok row, db) => (.ok row.isSome, db)

def count (db : Db) : Outcome Nat × Db :=
  countRows conn debug s!"SELECT count(*) AS cnt FROM {entity.tableName}" [] db

def findBy (spec : Specification) (opts : QueryOptions) (db : Db) : Outcome (List T) × Db :=
  let (whereClause, params) := spec.toWhereClause 1
  findMany conn entity
    (s!"SELECT * FROM {entity.tableName} WHERE {whereClause}" ++ pageSql opts) params db

def countBy (spec : Specification) (db : Db) : Outcome Nat × Db :=
  let (whereClause, params) := spec.toWhereClause 1
  countRows conn debug
    s!"SELECT count(*) AS cnt FROM {entity.tableName} WHERE {whereClause}" params db

def deleteBy (spec : Specification) (db : Db) : Outcome Nat × Db :=
  let (whereClause, params) := spec.toWhereClause 1
  affected conn s!"DELETE FROM {entity.tableName} WHERE {whereClause}" params db

end

end GenericRepository

end Rinfra.Store
