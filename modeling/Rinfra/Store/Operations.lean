import Rinfra.Store.Rows
import Rinfra.Store.Selection

/-!
# The operations over each store

One text for all of them: the executors of PostgreSQL, MySQL and SQLite pass a
statement to the driver as it is and bind its parameters one by one.

The driver and its database are parameters. `Driver.recorded` keeps what it is passed.
-/

namespace Rinfra.Store

open Rinfra.Lib.Sql

-- ---------------------------------------------------------------------------
-- Executors
-- ---------------------------------------------------------------------------

/-- A driver on a database in state `Db`: a statement with what is bound to it. Errors
are given by their texts. -/
structure Driver (Db Cell : Type) where
  execute : Db → (sql : String) → (params : List DbValue) → Except String Nat × Db
  fetchAll : Db → (sql : String) → (params : List DbValue) → Except String (List (List Cell)) × Db
  fetchOptional : Db → (sql : String) → (params : List DbValue) →
    Except String (Option (List Cell)) × Db

inductive SqlStore
  | postgres
  | mysql
  | sqlite
  deriving DecidableEq, Repr

section
variable {Db Cell T : Type}

/-- An executor with the texts before its errors. -/
def executorOf (label : String) (toDbRow : List Cell → Except AppError DbRow)
    (driver : Driver Db Cell) : DbExecutor Db where
  execute db sql params :=
    match driver.execute db sql params with
    | (.error e, db) => (.error (queryFailed s!"{label}execute failed: {e}"), db)
    | (.ok n, db) => (.ok n, db)
  query db sql params :=
    match driver.fetchAll db sql params with
    | (.error e, db) => (.error (queryFailed s!"{label}query failed: {e}"), db)
    | (.ok rows, db) => (rows.mapM toDbRow, db)
  queryOne db sql params :=
    match driver.fetchOptional db sql params with
    | (.error e, db) => (.error (queryFailed s!"{label}query_one failed: {e}"), db)
    | (.ok none, db) => (.ok none, db)
    | (.ok (some row), db) => ((toDbRow row).map some, db)

variable (s : Sqlx Cell) (driver : Driver Db Cell)

def pgExecutor : DbExecutor Db := executorOf "" (pgRowToDbRow s) driver

def mysqlExecutor : DbExecutor Db := executorOf "mysql " (mysqlRowToDbRow s) driver

def sqliteExecutor : DbExecutor Db := executorOf "sqlite " (sqliteRowToDbRow s) driver

def SqlStore.toDbRow : SqlStore → List Cell → Except AppError DbRow
  | .postgres => pgRowToDbRow s
  | .mysql => mysqlRowToDbRow s
  | .sqlite => sqliteRowToDbRow s

/-- `executor` of a connection that is open. -/
def SqlStore.executor : SqlStore → DbExecutor Db
  | .postgres => pgExecutor s driver
  | .mysql => mysqlExecutor s driver
  | .sqlite => sqliteExecutor s driver

end

-- ---------------------------------------------------------------------------
-- Operations
-- ---------------------------------------------------------------------------

inductive Operation (T : Type)
  | findById (id : Int)
  | findAll (opts : QueryOptions)
  | count
  | create (t : T)
  | update (t : T)
  | delete (id : Int)
  | exists_ (id : Int)
  | findBy (spec : Specification) (opts : QueryOptions)
  | countBy (spec : Specification)
  | deleteBy (spec : Specification)

namespace Operation

open GenericRepository

section
variable {Db T : Type} (conn : Except AppError (DbExecutor Db)) (entity : EntityType T)
  (debug : DbValue → String)

def after (db : Db) : Operation T → Db
  | .findById id => (GenericRepository.findById conn entity id db).2
  | .findAll opts => (GenericRepository.findAll conn entity opts db).2
  | .count => (GenericRepository.count conn entity debug db).2
  | .create t => (GenericRepository.create conn entity t db).2
  | .update t => (GenericRepository.update conn entity t db).2
  | .delete id => (GenericRepository.delete conn entity id db).2
  | .exists_ id => (GenericRepository.exists_ conn entity id db).2
  | .findBy spec opts => (GenericRepository.findBy conn entity spec opts db).2
  | .countBy spec => (GenericRepository.countBy conn entity debug spec db).2
  | .deleteBy spec => (GenericRepository.deleteBy conn entity spec db).2

def entity? (db : Db) : Operation T → Option (Outcome T)
  | .create t => some (GenericRepository.create conn entity t db).1
  | .update t => some (GenericRepository.update conn entity t db).1
  | _ => none

def sql : Operation T → String
  | .findById _ => s!"SELECT * FROM {entity.tableName} WHERE {entity.idColumn} = $1"
  | .findAll opts => s!"SELECT * FROM {entity.tableName}" ++ pageSql opts
  | .count => s!"SELECT count(*) AS cnt FROM {entity.tableName}"
  | .create t => (insertSql entity.tableName (entity.toParams t)).1
  | .update t =>
    (updateSql entity.tableName entity.idColumn (entity.toParams t) (entity.id t)).1
  | .delete _ => s!"DELETE FROM {entity.tableName} WHERE {entity.idColumn} = $1"
  | .exists_ _ => s!"SELECT 1 FROM {entity.tableName} WHERE {entity.idColumn} = $1 LIMIT 1"
  | .findBy spec opts =>
    s!"SELECT * FROM {entity.tableName} WHERE {(spec.toWhereClause 1).1}" ++ pageSql opts
  | .countBy spec =>
    s!"SELECT count(*) AS cnt FROM {entity.tableName} WHERE {(spec.toWhereClause 1).1}"
  | .deleteBy spec => s!"DELETE FROM {entity.tableName} WHERE {(spec.toWhereClause 1).1}"

def params : Operation T → List DbValue
  | .findById id | .delete id | .exists_ id => [.int id]
  | .findAll _ | .count => []
  | .create t => (insertSql entity.tableName (entity.toParams t)).2
  | .update t =>
    (updateSql entity.tableName entity.idColumn (entity.toParams t) (entity.id t)).2
  | .findBy spec _ | .countBy spec | .deleteBy spec => (spec.toWhereClause 1).2

def names : Operation T → List String
  | .findById _ | .delete _ | .exists_ _ => [entity.tableName, entity.idColumn]
  | .findAll opts => entity.tableName :: opts.orderBy.map OrderBy.field
  | .count => [entity.tableName]
  | .create t => entity.tableName :: (entity.toParams t).map Prod.fst
  | .update t => entity.tableName :: entity.idColumn :: (entity.toParams t).map Prod.fst
  | .findBy spec opts => entity.tableName :: (spec.fields ++ opts.orderBy.map OrderBy.field)
  | .countBy spec | .deleteBy spec => entity.tableName :: spec.fields

end

end Operation

-- ---------------------------------------------------------------------------
-- What is passed
-- ---------------------------------------------------------------------------

section
variable {Db Cell T : Type}

def Driver.recorded (driver : Driver Db Cell) :
    Driver (Db × List (String × List DbValue)) Cell where
  execute db sql params :=
    let (result, after) := driver.execute db.1 sql params
    (result, after, db.2 ++ [(sql, params)])
  fetchAll db sql params :=
    let (result, after) := driver.fetchAll db.1 sql params
    (result, after, db.2 ++ [(sql, params)])
  fetchOptional db sql params :=
    let (result, after) := driver.fetchOptional db.1 sql params
    (result, after, db.2 ++ [(sql, params)])

/-- The statements that the driver is passed by one operation. -/
def passed (store : SqlStore) (s : Sqlx Cell) (driver : Driver Db Cell) (entity : EntityType T)
    (debug : DbValue → String) (op : Operation T) (db : Db) : List (String × List DbValue) :=
  (op.after (.ok (store.executor s driver.recorded)) entity debug (db, [])).2

structure Records (exec : DbExecutor (Db × List (String × List DbValue))) : Prop where
  execute : ∀ db sql params, (exec.execute db sql params).2.2 = db.2 ++ [(sql, params)]
  query : ∀ db sql params, (exec.query db sql params).2.2 = db.2 ++ [(sql, params)]
  queryOne : ∀ db sql params, (exec.queryOne db sql params).2.2 = db.2 ++ [(sql, params)]

theorem records_executorOf (label : String) (toDbRow : List Cell → Except AppError DbRow)
    (driver : Driver Db Cell) : Records (executorOf label toDbRow driver.recorded) where
  execute db sql params := by
    have hafter : (driver.recorded.execute db sql params).2.2 = db.2 ++ [(sql, params)] := rfl
    simp only [executorOf]
    split <;> simp_all
  query db sql params := by
    have hafter : (driver.recorded.fetchAll db sql params).2.2 = db.2 ++ [(sql, params)] := rfl
    simp only [executorOf]
    split <;> simp_all
  queryOne db sql params := by
    have hafter : (driver.recorded.fetchOptional db sql params).2.2 = db.2 ++ [(sql, params)] := rfl
    simp only [executorOf]
    split <;> simp_all

theorem records_executor (store : SqlStore) (s : Sqlx Cell) (driver : Driver Db Cell) :
    Records (store.executor s driver.recorded) := by
  cases store <;> exact records_executorOf ..

section
open GenericRepository
variable {exec : DbExecutor Db} {entity : EntityType T} {sql : String} {params : List DbValue}
  {db : Db}

theorem findMany_after :
    (findMany (.ok exec) entity sql params db).2 = (exec.query db sql params).2 := by
  simp only [findMany]
  split <;> simp [*]

theorem countRows_after {debug : DbValue → String} :
    (countRows (.ok exec) debug sql params db).2 = (exec.queryOne db sql params).2 := by
  simp only [countRows]
  split
  · simp [*]
  · simp [*]
  · split <;> simp [*]

theorem returned_after {missing : String} :
    (returned (.ok exec) entity sql params missing db).2 = (exec.queryOne db sql params).2 := by
  simp only [returned]
  split
  · simp [*]
  · simp [*]
  · split <;> simp [*]

def readRow {T : Type} (entity : EntityType T) (row : DbRow) : Outcome T :=
  match entity.fromRow row with
  | .ok t => .ok t
  | .error e => .err e

theorem returned_row {db' : Db} {missing : String} {dbRow : DbRow}
    (hquery : exec.queryOne db sql params = (.ok (some dbRow), db')) :
    (GenericRepository.returned (.ok exec) entity sql params missing db).1 =
      readRow entity dbRow := by
  simp only [GenericRepository.returned, hquery, readRow]
  cases entity.fromRow dbRow <;> rfl

theorem returned_err {db' : Db} {missing : String} {e : AppError}
    (hquery : exec.queryOne db sql params = (.error e, db')) :
    GenericRepository.returned (.ok exec) entity sql params missing db = (.err e, db') := by
  simp only [GenericRepository.returned, hquery]

theorem affected_after :
    (affected (.ok exec) sql params db).2 = (exec.execute db sql params).2 := by
  simp only [affected]
  split <;> simp [*]

theorem findById_after {id : Int} :
    (findById (.ok exec) entity id db).2 =
      (exec.queryOne db s!"SELECT * FROM {entity.tableName} WHERE {entity.idColumn} = $1"
        [.int id]).2 := by
  simp only [findById]
  split
  · simp [*]
  · simp [*]
  · split <;> simp [*]

theorem delete_after {id : Int} :
    (delete (.ok exec) entity id db).2 =
      (exec.execute db s!"DELETE FROM {entity.tableName} WHERE {entity.idColumn} = $1"
        [.int id]).2 := by
  rw [← affected_after]
  simp only [delete]
  split <;> simp [*]

theorem exists_after {id : Int} :
    (exists_ (.ok exec) entity id db).2 =
      (exec.queryOne db
        s!"SELECT 1 FROM {entity.tableName} WHERE {entity.idColumn} = $1 LIMIT 1" [.int id]).2 := by
  simp only [exists_]
  split <;> simp [*]

end

/-- One statement for each operation, whatever the driver answers. -/
theorem passed_eq (store : SqlStore) (s : Sqlx Cell) (driver : Driver Db Cell)
    (entity : EntityType T) (debug : DbValue → String) (op : Operation T) (db : Db) :
    passed store s driver entity debug op db = [(op.sql entity, op.params entity)] := by
  have hrec := records_executor store s driver
  unfold passed
  generalize store.executor s driver.recorded = exec at hrec
  cases op with
  | findById id => exact (congrArg Prod.snd findById_after).trans (hrec.queryOne ..)
  | findAll opts => exact (congrArg Prod.snd findMany_after).trans (hrec.query ..)
  | count => exact (congrArg Prod.snd countRows_after).trans (hrec.queryOne ..)
  | create t => exact (congrArg Prod.snd returned_after).trans (hrec.queryOne ..)
  | update t => exact (congrArg Prod.snd returned_after).trans (hrec.queryOne ..)
  | delete id => exact (congrArg Prod.snd delete_after).trans (hrec.execute ..)
  | exists_ id => exact (congrArg Prod.snd exists_after).trans (hrec.queryOne ..)
  | findBy spec opts => exact (congrArg Prod.snd findMany_after).trans (hrec.query ..)
  | countBy spec => exact (congrArg Prod.snd countRows_after).trans (hrec.queryOne ..)
  | deleteBy spec => exact (congrArg Prod.snd affected_after).trans (hrec.execute ..)

end

-- ---------------------------------------------------------------------------
-- The tokens of a statement
-- ---------------------------------------------------------------------------

namespace Operation

open GenericRepository

variable {T : Type} {entity : EntityType T}

theorem append_four (a b c d : String) : a ++ b ++ c ++ d = a ++ (b ++ (c ++ d)) := by
  simp only [String.append_assoc]

theorem append_five (a b c d e : String) :
    a ++ b ++ c ++ d ++ e = a ++ (b ++ (c ++ (d ++ e))) := by
  simp only [String.append_assoc]

def statement (entity : EntityType T) : Operation T → List Token
  | .findById _ =>
    .word "SELECT" :: .sym '*' :: .word "FROM" :: (tokens entity.tableName ++
      (.word "WHERE" :: (tokens entity.idColumn ++ [.sym '=', .param 1])))
  | .findAll opts =>
    .word "SELECT" :: .sym '*' :: .word "FROM" :: (tokens entity.tableName ++ pageTokensOf opts)
  | .count =>
    .word "SELECT" :: .word "count" :: .sym '(' :: .sym '*' :: .sym ')' :: .word "AS" ::
      .word "cnt" :: .word "FROM" :: tokens entity.tableName
  | .create t => insertTokens entity.tableName (entity.toParams t)
  | .update t => updateTokens entity.tableName entity.idColumn (entity.toParams t)
  | .delete _ =>
    .word "DELETE" :: .word "FROM" :: (tokens entity.tableName ++
      (.word "WHERE" :: (tokens entity.idColumn ++ [.sym '=', .param 1])))
  | .exists_ _ =>
    .word "SELECT" :: .word "1" :: .word "FROM" :: (tokens entity.tableName ++
      (.word "WHERE" :: (tokens entity.idColumn ++
        [.sym '=', .param 1, .word "LIMIT", .word "1"])))
  | .findBy spec opts =>
    .word "SELECT" :: .sym '*' :: .word "FROM" :: (tokens entity.tableName ++
      (.word "WHERE" :: (spec.tokensAt 1 ++ pageTokensOf opts)))
  | .countBy spec =>
    .word "SELECT" :: .word "count" :: .sym '(' :: .sym '*' :: .sym ')' :: .word "AS" ::
      .word "cnt" :: .word "FROM" :: (tokens entity.tableName ++
        (.word "WHERE" :: spec.tokensAt 1))
  | .deleteBy spec =>
    .word "DELETE" :: .word "FROM" :: (tokens entity.tableName ++
      (.word "WHERE" :: spec.tokensAt 1))

theorem tableName_mem (op : Operation T) : entity.tableName ∈ op.names entity := by
  cases op <;> exact List.mem_cons_self

section
variable {start table idCol condition : String} {ss cs : List Token} {spec : Specification}

theorem tokens_byId (hstart : Lexes start ss) (hgap : EndsInGap start) (htable : Whole table)
    (hid : Whole idCol) (hcondition : Lexes condition cs) (hbreak : BeginsWithBreak condition) :
    tokens (start ++ table ++ " WHERE " ++ idCol ++ condition) =
      ss ++ (tokens table ++ (.word "WHERE" :: (tokens idCol ++ cs))) := by
  rw [append_five]
  exact (lexes_from hstart hgap htable (hid.append hcondition hbreak)).1

theorem tokens_bySpec (hstart : Lexes start ss) (hgap : EndsInGap start) (htable : Whole table)
    (hfields : ∀ field ∈ spec.fields, Whole field) :
    tokens (start ++ table ++ " WHERE " ++ (spec.toWhereClause 1).1) =
      ss ++ (tokens table ++ (.word "WHERE" :: spec.tokensAt 1)) := by
  rw [append_four]
  exact (lexes_from hstart hgap htable (spec.lexes_clause 1 hfields)).1

end

/-- Where the names leave no quote open, they stand in the statement as they are. -/
theorem tokens_sql (op : Operation T) (hnames : ∀ name ∈ op.names entity, Whole name) :
    tokens (op.sql entity) = op.statement entity := by
  have hselect : Lexes "SELECT * FROM " [.word "SELECT", .sym '*', .word "FROM"] := by decide
  have hcount : Lexes "SELECT count(*) AS cnt FROM " [.word "SELECT", .word "count", .sym '(',
      .sym '*', .sym ')', .word "AS", .word "cnt", .word "FROM"] := by decide
  have hdelete : Lexes "DELETE FROM " [.word "DELETE", .word "FROM"] := by decide
  have hone : Lexes "SELECT 1 FROM " [.word "SELECT", .word "1", .word "FROM"] := by decide
  have hfirst : Lexes " = $1" [.sym '=', .param 1] := by decide
  have htable : Whole entity.tableName := hnames _ op.tableName_mem
  cases op with
  | findById id =>
    have hid : Whole entity.idColumn := hnames _ (by simp [names])
    exact tokens_byId hselect (by decide) htable hid hfirst (by decide)
  | findAll opts =>
    obtain ⟨hpage, hbreak⟩ := lexes_page opts fun o ho =>
      hnames _ (List.mem_cons_of_mem _ (List.mem_map_of_mem ho))
    have hlexes := hselect.append_gap (htable.append hpage hbreak) (by decide)
    have htext : (findAll opts).sql entity =
        "SELECT * FROM " ++ (entity.tableName ++ pageSql opts) := String.append_assoc ..
    rw [htext, hlexes.1]
    rfl
  | count => exact (hcount.append_gap htable (by decide)).1
  | create t =>
    exact (lexes_insert htable fun col hcol => hnames col (List.mem_cons_of_mem _ hcol)).1
  | update t =>
    have hid : Whole entity.idColumn := hnames _ (by simp [names])
    exact (lexes_update htable hid
      (fun col hcol => hnames col (List.mem_cons_of_mem _ (List.mem_cons_of_mem _ hcol)))
      (entity.id t)).1
  | delete id =>
    have hid : Whole entity.idColumn := hnames _ (by simp [names])
    exact tokens_byId hdelete (by decide) htable hid hfirst (by decide)
  | exists_ id =>
    have hid : Whole entity.idColumn := hnames _ (by simp [names])
    have hlimit : Lexes " = $1 LIMIT 1" [.sym '=', .param 1, .word "LIMIT", .word "1"] := by decide
    exact tokens_byId hone (by decide) htable hid hlimit (by decide)
  | findBy spec opts =>
    have hclause := spec.lexes_clause 1 fun field hf => hnames _ (by simp [names, hf])
    obtain ⟨hpage, hbreak⟩ := lexes_page opts fun o ho =>
      hnames _ (List.mem_cons_of_mem _ (List.mem_append_right _ (List.mem_map_of_mem ho)))
    have hlexes := lexes_from hselect (by decide) htable (hclause.append hpage hbreak)
    have htext : (findBy spec opts).sql entity = "SELECT * FROM " ++
        (entity.tableName ++ (" WHERE " ++ ((spec.toWhereClause 1).1 ++ pageSql opts))) :=
      append_five "SELECT * FROM " _ " WHERE " _ _
    rw [htext, hlexes.1]
    rfl
  | countBy spec =>
    exact tokens_bySpec hcount (by decide) htable fun field hf =>
      hnames _ (List.mem_cons_of_mem _ hf)
  | deleteBy spec =>
    exact tokens_bySpec hdelete (by decide) htable fun field hf =>
      hnames _ (List.mem_cons_of_mem _ hf)

end Operation

end Rinfra.Store
