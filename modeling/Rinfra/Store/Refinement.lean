import Rinfra.Store.Collection

/-!
# Runs of the repository

Over every database that carries out the commands of the repository (`Carries`), the runs
of its operations are histories of a map from ids to entities.
-/

namespace Rinfra.Store

open Rinfra.Lib Rinfra.Lib.Sql

variable {Db Row V T : Type}

section
variable (b : Backend V) (view : View Db Row V) (defs : Definitions V)

def View.Does (params : List DbValue) (db : Db) (cmd : Command) (db' : Db) (rows : List Row) :
    Prop :=
  Sql.Does b.toDialect defs view.cell (b.sent 1 params) (view.table db) cmd (view.table db') rows

/-- The first row of what a command gives back. -/
def View.First (view : View Db Row V) : Command → (rows : List Row) → Option DbRow → Prop
  | .count _ _ column, rows, row =>
    rows.length < 2 ^ 63 ∧ row = some ⟨[column], [.int rows.length]⟩
  | .probe .., rows, row => row.isSome = !rows.isEmpty
  | .select .., rows, row | .insert .., rows, row | .update .., rows, row
  | .delete .., rows, row => row = rows.head?.map view.read

/-- The database does what a command says. When it answers with an error, one of those
that it `refuses` with, it has done all of it or nothing. -/
structure Carries (refuses : AppError → Prop) (exec : DbExecutor Db) : Prop where
  execute : ∀ db sql params cmd n db', Means b.toDialect (tokens sql) cmd →
    exec.execute db sql params = (.ok n, db') →
    ∃ rows, view.Does b defs params db cmd db' rows ∧ n = rows.length
  query : ∀ db sql params cmd answer db', Means b.toDialect (tokens sql) cmd →
    exec.query db sql params = (.ok answer, db') →
    ∃ rows, view.Does b defs params db cmd db' rows ∧ answer = rows.map view.read
  queryOne : ∀ db sql params cmd row db', Means b.toDialect (tokens sql) cmd →
    exec.queryOne db sql params = (.ok row, db') →
    ∃ rows, view.Does b defs params db cmd db' rows ∧ view.First cmd rows row
  failed : ∀ db sql params cmd e db', Means b.toDialect (tokens sql) cmd →
    exec.execute db sql params = (.error e, db') ∨ exec.query db sql params = (.error e, db') ∨
      exec.queryOne db sql params = (.error e, db') →
    refuses e ∧ (view.table db' = view.table db ∨ ∃ rows, view.Does b defs params db cmd db' rows)

end

-- ---------------------------------------------------------------------------
-- Operations
-- ---------------------------------------------------------------------------

def Reply.of {α : Type} (f : α → Reply T) : Outcome α → Outcome (Reply T)
  | .ok a => .ok (f a)
  | .err e => .err e
  | .panicked => .panicked

def reply {α : Type} (f : α → Reply T) (result : Outcome α × Db) : Outcome (Reply T) × Db :=
  (Reply.of f result.1, result.2)

def Operation.run (conn : Except AppError (DbExecutor Db)) (entity : EntityType T)
    (debug : DbValue → String) (db : Db) : Operation T → Outcome (Reply T) × Db
  | .findById id => reply .found (GenericRepository.findById conn entity id db)
  | .findAll opts => reply .all (GenericRepository.findAll conn entity opts db)
  | .count => reply .number (GenericRepository.count conn entity debug db)
  | .create t => reply .stored (GenericRepository.create conn entity t db)
  | .update t => reply .stored (GenericRepository.update conn entity t db)
  | .delete id => reply .yes (GenericRepository.delete conn entity id db)
  | .exists_ id => reply .yes (GenericRepository.exists_ conn entity id db)
  | .findBy spec opts => reply .all (GenericRepository.findBy conn entity spec opts db)
  | .countBy spec => reply .number (GenericRepository.countBy conn entity debug spec db)
  | .deleteBy spec => reply .number (GenericRepository.deleteBy conn entity spec db)

section
variable (b : Backend V) (view : View Db Row V) (defs : Definitions V) (entity : EntityType T)
  (refuses : AppError → Prop)

/-- The operation on the map. One that is refused is done or not; an update of what is not
there does nothing. -/
inductive Step (m : Collection T) (op : Operation T) :
    Outcome (Reply T) → Collection T → Prop
  | answered {r : Reply T} {m' : Collection T} (h : Answers b defs entity m op r m') :
    Step m op (.ok r) m'
  | refused {e : AppError} (he : refuses e) : Step m op (.err e) m
  | lost {e : AppError} {r : Reply T} {m' : Collection T} (he : refuses e)
      (h : Answers b defs entity m op r m') : Step m op (.err e) m'
  | missing {t : T} (hop : op = .update t) (hnone : m (entity.id t) = none) :
    Step m op (.err (queryFailed "UPDATE RETURNING returned no rows")) m

/-- The table has become that of a map to which the operation leads, and no other table
has changed. -/
def Refines (db : Db) (m : Collection T) (op : Operation T) (result : Outcome (Reply T) × Db) :
    Prop :=
  ∃ m', Step b defs entity refuses m op result.1 m' ∧
    Represents b view defs entity (view.table result.2 (tokens entity.tableName)) m' ∧
    ∀ other, other ≠ tokens entity.tableName → view.table result.2 other = view.table db other

end

section
variable {b : Backend V} {view : View Db Row V} {defs : Definitions V} {entity : EntityType T}
  {columns : List String} {refuses : AppError → Prop} {exec : DbExecutor Db} {db db' : Db}
  {m : Collection T} {op : Operation T}
  (hmaps : Maps b view defs entity columns)
  (hrep : Represents b view defs entity (view.table db (tokens entity.tableName)) m)
  (hop : op.Within b.toDialect (entity.idColumn :: columns))
include hmaps hrep hop

/-- From what the command has done to what the operation gives back. -/
theorem refines_of_does {rows : List Row} {result : Outcome (Reply T)}
    (hdoes : view.Does b defs (op.params entity) db (op.command entity) db' rows)
    (hreply : ∀ r, Replies b view defs entity rows op r → result = .ok r)
    (hmissing : ∀ t, op = .update t → rows = [] →
      result = .err (queryFailed "UPDATE RETURNING returned no rows")) :
    Refines b view defs entity refuses db m op (result, db') := by
  have hother : ∀ other, other ≠ tokens entity.tableName →
      view.table db' other = view.table db other := fun other hne =>
    hdoes.other (by rwa [Operation.table_command])
  rcases does_answers hmaps hrep op hop hdoes with
    ⟨r, m', hrep', hanswers, hreplies⟩ | ⟨⟨t, hupdate, hnone⟩, hrows, hrep'⟩
  · rw [hreply r hreplies]
    exact ⟨m', .answered hanswers, hrep', hother⟩
  · rw [hmissing t hupdate hrows]
    exact ⟨m, .missing hupdate hnone, hrep', hother⟩

variable (hexec : Carries b view defs refuses exec)
include hexec

theorem refines_of_failed {e : AppError}
    (hfailed : exec.execute db (op.sql entity) (op.params entity) = (.error e, db') ∨
      exec.query db (op.sql entity) (op.params entity) = (.error e, db') ∨
      exec.queryOne db (op.sql entity) (op.params entity) = (.error e, db')) :
    Refines b view defs entity refuses db m op (.err e, db') := by
  have hmeans := op.means_command hmaps.table
    (hmaps.names entity.idColumn List.mem_cons_self) (hop.proper hmaps)
  obtain ⟨he, hsame | ⟨rows, hdoes⟩⟩ := hexec.failed _ _ _ _ _ _ hmeans hfailed
  · rw [← hsame] at hrep
    exact ⟨m, .refused he, hrep, fun other _ => congrFun hsame other⟩
  · have hother : ∀ other, other ≠ tokens entity.tableName →
        view.table db' other = view.table db other := fun other hne =>
      hdoes.other (by rwa [Operation.table_command])
    rcases does_answers hmaps hrep op hop hdoes with
      ⟨r, m', hrep', hanswers, -⟩ | ⟨-, -, hrep'⟩
    · exact ⟨m', .lost he hanswers, hrep', hother⟩
    · exact ⟨m, .refused he, hrep', hother⟩

theorem refines_of_query {answer : List DbRow} {result : Outcome (Reply T)}
    (hquery : exec.query db (op.sql entity) (op.params entity) = (.ok answer, db'))
    (hreply : ∀ rows r, answer = rows.map view.read → Replies b view defs entity rows op r →
      result = .ok r)
    (hother : ∀ t, op ≠ .update t) :
    Refines b view defs entity refuses db m op (result, db') := by
  have hmeans := op.means_command hmaps.table
    (hmaps.names entity.idColumn List.mem_cons_self) (hop.proper hmaps)
  obtain ⟨rows, hdoes, hanswer⟩ := hexec.query _ _ _ _ _ _ hmeans hquery
  exact refines_of_does hmaps hrep hop hdoes (fun r => hreply rows r hanswer)
    fun t ht => absurd ht (hother t)

theorem refines_of_queryOne {row : Option DbRow} {result : Outcome (Reply T)}
    (hquery : exec.queryOne db (op.sql entity) (op.params entity) = (.ok row, db'))
    (hreply : ∀ rows r, view.First (op.command entity) rows row →
      Replies b view defs entity rows op r → result = .ok r)
    (hmissing : ∀ t, op = .update t → row = none →
      result = .err (queryFailed "UPDATE RETURNING returned no rows")) :
    Refines b view defs entity refuses db m op (result, db') := by
  have hmeans := op.means_command hmaps.table
    (hmaps.names entity.idColumn List.mem_cons_self) (hop.proper hmaps)
  obtain ⟨rows, hdoes, hfirst⟩ := hexec.queryOne _ _ _ _ _ _ hmeans hquery
  refine refines_of_does hmaps hrep hop hdoes (fun r => hreply rows r hfirst) ?_
  rintro t rfl rfl
  exact hmissing t rfl hfirst

theorem refines_of_execute {n : Nat} {result : Outcome (Reply T)}
    (hexecute : exec.execute db (op.sql entity) (op.params entity) = (.ok n, db'))
    (hreply : ∀ rows r, n = rows.length → Replies b view defs entity rows op r → result = .ok r)
    (hother : ∀ t, op ≠ .update t) :
    Refines b view defs entity refuses db m op (result, db') := by
  have hmeans := op.means_command hmaps.table
    (hmaps.names entity.idColumn List.mem_cons_self) (hop.proper hmaps)
  obtain ⟨rows, hdoes, hn⟩ := hexec.execute _ _ _ _ _ _ hmeans hexecute
  exact refines_of_does hmaps hrep hop hdoes (fun r => hreply rows r hn)
    fun t ht => absurd ht (hother t)

theorem refines_findMany (hlist : ∀ rows r, Replies b view defs entity rows op r →
      ∃ ts, r = .all ts ∧ List.Forall₂ (Reads b view defs entity) rows ts)
    (hother : ∀ t, op ≠ .update t) :
    Refines b view defs entity refuses db m op (reply .all
      (GenericRepository.findMany (.ok exec) entity (op.sql entity) (op.params entity) db)) := by
  rcases hquery : exec.query db (op.sql entity) (op.params entity) with ⟨e | answer, db'⟩
  · simp only [GenericRepository.findMany, hquery]
    exact refines_of_failed hmaps hrep hop hexec (.inr (.inl hquery))
  · simp only [GenericRepository.findMany, hquery]
    refine refines_of_query hmaps hrep hop hexec hquery ?_ hother
    rintro rows r rfl hr
    obtain ⟨ts, rfl, hreads⟩ := hlist rows r hr
    simp only [GenericRepository.readRows, Reads.mapM hreads, Reply.of]

theorem refines_returned {missing : String}
    (hfirst : ∀ rows row, view.First (op.command entity) rows row →
      row = rows.head?.map view.read)
    (hone : ∀ rows r, Replies b view defs entity rows op r →
      ∃ t, r = .stored t ∧ List.Forall₂ (Reads b view defs entity) rows [t])
    (hmissing : ∀ t, op = .update t → missing = "UPDATE RETURNING returned no rows") :
    Refines b view defs entity refuses db m op (reply .stored
      (GenericRepository.returned (.ok exec) entity (op.sql entity) (op.params entity) missing
        db)) := by
  rcases hquery : exec.queryOne db (op.sql entity) (op.params entity) with ⟨e | row, db'⟩
  · simp only [GenericRepository.returned, hquery]
    exact refines_of_failed hmaps hrep hop hexec (.inr (.inr hquery))
  · have hafter : (GenericRepository.returned (.ok exec) entity (op.sql entity) (op.params entity)
        missing db).2 = db' := by
      rw [returned_after, hquery]
    rw [reply, hafter]
    refine refines_of_queryOne hmaps hrep hop hexec hquery ?_ ?_
    · intro rows r hf hr
      obtain ⟨t, rfl, hreads⟩ := hone rows r hr
      obtain rfl := hfirst rows row hf
      cases hreads with
      | cons hrow hnil =>
        rw [returned_row hquery, readRow, hrow.read]
        rfl
    · rintro t ht rfl
      simp only [GenericRepository.returned, hquery, hmissing t ht, Reply.of]

theorem refines_countRows {debug : DbValue → String}
    (hfirst : ∀ rows row, view.First (op.command entity) rows row →
      rows.length < 2 ^ 63 ∧ row = some ⟨["cnt"], [.int rows.length]⟩)
    (hnumber : ∀ rows r, Replies b view defs entity rows op r → r = .number rows.length)
    (hother : ∀ t, op ≠ .update t) :
    Refines b view defs entity refuses db m op (reply .number
      (GenericRepository.countRows (.ok exec) debug (op.sql entity) (op.params entity) db)) := by
  rcases hquery : exec.queryOne db (op.sql entity) (op.params entity) with ⟨e | row, db'⟩
  · simp only [GenericRepository.countRows, hquery]
    exact refines_of_failed hmaps hrep hop hexec (.inr (.inr hquery))
  · have hafter : (GenericRepository.countRows (.ok exec) debug (op.sql entity) (op.params entity)
        db).2 = db' := by
      rw [countRows_after, hquery]
    rw [reply, hafter]
    refine refines_of_queryOne hmaps hrep hop hexec hquery ?_ fun t ht => absurd ht (hother t)
    intro rows r hf hr
    obtain rfl := hnumber rows r hr
    obtain ⟨hlt, rfl⟩ := hfirst rows row hf
    have hget : DbRow.getI64 debug ⟨["cnt"], [.int rows.length]⟩ "cnt" = .ok rows.length := rfl
    have hcount : i64AsU64 rows.length = rows.length := by
      rw [i64AsU64]
      omega
    simp only [GenericRepository.countRows, hquery, hget, hcount, Reply.of]

theorem refines_affected {α : Type} {f : α → Reply T} {g : Nat → α}
    (hnumber : ∀ rows r, Replies b view defs entity rows op r → r = f (g rows.length))
    (hother : ∀ t, op ≠ .update t) {result : Outcome α × Db}
    (hresult : result = match GenericRepository.affected (.ok exec) (op.sql entity)
      (op.params entity) db with
      | (.ok n, db) => (.ok (g n), db)
      | (.err e, db) => (.err e, db)
      | (.panicked, db) => (.panicked, db)) :
    Refines b view defs entity refuses db m op (reply f result) := by
  rcases hexecute : exec.execute db (op.sql entity) (op.params entity) with ⟨e | n, db'⟩
  · simp only [GenericRepository.affected, hexecute] at hresult
    rw [hresult]
    exact refines_of_failed hmaps hrep hop hexec (.inl hexecute)
  · simp only [GenericRepository.affected, hexecute] at hresult
    rw [hresult]
    refine refines_of_execute hmaps hrep hop hexec hexecute ?_ hother
    rintro rows r rfl hr
    exact congrArg Outcome.ok (hnumber rows r hr).symm

theorem refines_findById {id : Int} (hid : op = .findById id) :
    Refines b view defs entity refuses db m op (reply .found
      (GenericRepository.findById (.ok exec) entity id db)) := by
  subst hid
  simp only [GenericRepository.findById]
  split
  · rename_i hquery
    exact refines_of_failed hmaps hrep hop hexec (.inr (.inr hquery))
  · rename_i hquery
    refine refines_of_queryOne hmaps hrep hop hexec hquery ?_ (fun _ ht => by cases ht)
    intro rows r hfirst hr
    cases r with
    | found found =>
      cases found with
      | none => rfl
      | some t => cases hr with | cons => cases hfirst
    | _ => exact hr.elim
  · rename_i row db' hquery
    have hrow : ∀ rows r, some row = rows.head?.map view.read →
        Replies b view defs entity rows (.findById id) r →
        ∃ t, r = .found (some t) ∧ entity.fromRow row = .ok t := by
      intro rows r hfirst hr
      cases r with
      | found found =>
        cases found with
        | none =>
          cases hr
          cases hfirst
        | some t =>
          cases hr with
          | cons hread => exact ⟨t, rfl, (Option.some.inj hfirst) ▸ hread.read⟩
      | _ => exact hr.elim
    split
    · rename_i t hread
      refine refines_of_queryOne hmaps hrep hop hexec hquery ?_ (fun _ ht => by cases ht)
      intro rows r hfirst hr
      obtain ⟨u, rfl, hu⟩ := hrow rows r hfirst hr
      rw [hread] at hu
      cases hu
      rfl
    · rename_i e hread
      refine refines_of_queryOne hmaps hrep hop hexec hquery ?_ (fun _ ht => by cases ht)
      intro rows r hfirst hr
      obtain ⟨u, -, hu⟩ := hrow rows r hfirst hr
      rw [hread] at hu
      cases hu

theorem refines_exists {id : Int} (hid : op = .exists_ id) :
    Refines b view defs entity refuses db m op (reply .yes
      (GenericRepository.exists_ (.ok exec) entity id db)) := by
  subst hid
  simp only [GenericRepository.exists_]
  split
  · rename_i hquery
    exact refines_of_failed hmaps hrep hop hexec (.inr (.inr hquery))
  · rename_i hquery
    refine refines_of_queryOne hmaps hrep hop hexec hquery ?_ (fun _ ht => by cases ht)
    intro rows r hfirst hr
    cases r with
    | yes found =>
      have hfound : _ = found := Eq.trans hfirst hr.symm
      exact congrArg (fun found => Outcome.ok (Reply.yes found)) hfound
    | _ => exact hr.elim

theorem refines_of_open (debug : DbValue → String) :
    Refines b view defs entity refuses db m op (op.run (.ok exec) entity debug db) := by
  cases op with
  | findById id => exact refines_findById hmaps hrep hop hexec rfl
  | findAll opts =>
    refine refines_findMany hmaps hrep hop hexec (fun rows r hr => ?_) nofun
    cases r with
    | all ts => exact ⟨ts, rfl, hr⟩
    | _ => exact hr.elim
  | count =>
    refine refines_countRows hmaps hrep hop hexec (fun rows row h => h) (fun rows r hr => ?_) nofun
    cases r with
    | number n => exact congrArg _ hr
    | _ => exact hr.elim
  | create t =>
    refine refines_returned hmaps hrep hop hexec (fun rows row h => h) (fun rows r hr => ?_) nofun
    cases r with
    | stored t' => exact ⟨t', rfl, hr⟩
    | _ => exact hr.elim
  | update t =>
    refine refines_returned hmaps hrep hop hexec (fun rows row h => h) (fun rows r hr => ?_)
      fun _ _ => rfl
    cases r with
    | stored t' => exact ⟨t', rfl, hr⟩
    | _ => exact hr.elim
  | delete id =>
    refine refines_affected hmaps hrep hop hexec (g := fun n => decide (0 < n))
      (fun rows r hr => ?_) nofun rfl
    cases r with
    | yes found =>
      have hlength : decide (0 < rows.length) = !rows.isEmpty := by cases rows <;> simp
      rw [hlength]
      exact congrArg _ hr
    | _ => exact hr.elim
  | exists_ id => exact refines_exists hmaps hrep hop hexec rfl
  | findBy spec opts =>
    refine refines_findMany hmaps hrep hop hexec (fun rows r hr => ?_) nofun
    cases r with
    | all ts => exact ⟨ts, rfl, hr⟩
    | _ => exact hr.elim
  | countBy spec =>
    refine refines_countRows hmaps hrep hop hexec (fun rows row h => h) (fun rows r hr => ?_) nofun
    cases r with
    | number n => exact congrArg _ hr
    | _ => exact hr.elim
  | deleteBy spec =>
    refine refines_affected hmaps hrep hop hexec (g := fun n => n) (fun rows r hr => ?_) nofun ?_
    · cases r with
      | number n => exact congrArg _ hr
      | _ => exact hr.elim
    · have hsame : ∀ result : Outcome Nat × Db, result = match result with
          | (.ok n, db) => (.ok n, db)
          | (.err e, db) => (.err e, db)
          | (.panicked, db) => (.panicked, db) := by
        rintro ⟨_ | _ | _, _⟩ <;> rfl
      exact hsame _

end

-- ---------------------------------------------------------------------------
-- Runs
-- ---------------------------------------------------------------------------

/-- The connection that a call finds, and the operation. -/
structure Call (Db T : Type) where
  conn : Except AppError (DbExecutor Db)
  op : Operation T

def runAll (entity : EntityType T) (debug : DbValue → String) :
    Db → List (Call Db T) → List (Outcome (Reply T)) × Db
  | db, [] => ([], db)
  | db, call :: calls =>
    let (result, db) := call.op.run call.conn entity debug db
    let (results, db) := runAll entity debug db calls
    (result :: results, db)

inductive History (b : Backend V) (defs : Definitions V) (entity : EntityType T)
    (refuses : AppError → Prop) :
    Collection T → List (Operation T) → List (Outcome (Reply T)) → Collection T → Prop
  | nil {m : Collection T} : History b defs entity refuses m [] [] m
  | cons {m m' m'' : Collection T} {op : Operation T} {result : Outcome (Reply T)}
      {ops : List (Operation T)} {results : List (Outcome (Reply T))}
      (hstep : Step b defs entity refuses m op result m')
      (hrest : History b defs entity refuses m' ops results m'') :
    History b defs entity refuses m (op :: ops) (result :: results) m''

/-- The connection is open to such a database, or there is an error to refuse with. -/
def Sound (b : Backend V) (view : View Db Row V) (defs : Definitions V)
    (refuses : AppError → Prop) : Except AppError (DbExecutor Db) → Prop
  | .ok exec => Carries b view defs refuses exec
  | .error e => refuses e

section
variable {b : Backend V} {view : View Db Row V} {defs : Definitions V} {entity : EntityType T}
  {columns : List String} {refuses : AppError → Prop} {conn : Except AppError (DbExecutor Db)}
  (hmaps : Maps b view defs entity columns) (debug : DbValue → String)
include hmaps

theorem refines_run (hconn : Sound b view defs refuses conn) {op : Operation T}
    (hop : op.Within b.toDialect (entity.idColumn :: columns)) {db : Db} {m : Collection T}
    (hrep : Represents b view defs entity (view.table db (tokens entity.tableName)) m) :
    Refines b view defs entity refuses db m op (op.run conn entity debug db) := by
  cases conn with
  | ok exec => exact refines_of_open hmaps hrep hop hconn debug
  | error e =>
    have hrun : op.run (.error e) entity debug db = (.err e, db) := by cases op <;> rfl
    rw [hrun]
    exact ⟨m, .refused hconn, hrep, fun _ _ => rfl⟩

/-- The repository is a map from ids to entities in every run of its operations, and the
other tables stay as they are. -/
theorem repository_is_map (calls : List (Call Db T))
    (hconns : ∀ call ∈ calls, Sound b view defs refuses call.conn)
    (hops : ∀ call ∈ calls, call.op.Within b.toDialect (entity.idColumn :: columns)) (db : Db)
    (m : Collection T)
    (hrep : Represents b view defs entity (view.table db (tokens entity.tableName)) m) :
    ∃ m', History b defs entity refuses m (calls.map Call.op) (runAll entity debug db calls).1 m' ∧
      Represents b view defs entity
        (view.table (runAll entity debug db calls).2 (tokens entity.tableName)) m' ∧
      ∀ other, other ≠ tokens entity.tableName →
        view.table (runAll entity debug db calls).2 other = view.table db other := by
  induction calls generalizing db m with
  | nil => exact ⟨m, .nil, hrep, fun _ _ => rfl⟩
  | cons call calls ih =>
    obtain ⟨m', hstep, hrep', hother⟩ := refines_run hmaps debug
      (hconns call List.mem_cons_self) (hops call List.mem_cons_self) hrep
    obtain ⟨m'', hhistory, hrep'', hother'⟩ := ih
      (fun c hc => hconns c (List.mem_cons_of_mem _ hc))
      (fun c hc => hops c (List.mem_cons_of_mem _ hc)) _ m' hrep'
    exact ⟨m'', .cons hstep hhistory, hrep'', fun other hne =>
      (hother' other hne).trans (hother other hne)⟩

end

-- ---------------------------------------------------------------------------
-- A table of users
-- ---------------------------------------------------------------------------

abbrev User := Int × String

def usersView : View (List User) User DbValue where
  table db name := if name = [.word "users"] then db else []
  cell user column :=
    if column = "id" then some (.int user.1)
    else if column = "name" then some (.text user.2) else none
  read user := ⟨["id", "name"], [.int user.1, .text user.2]⟩

/-- Ids are integers, and values are kept as they are given. -/
def usersTable : Definitions DbValue where
  store _ _ v := v
  key _ := "id"
  isKey _ v := ∃ n, v = .int n

def nextId (db : List User) : Int := (db.map Prod.fst).foldr max 0 + 1

def perform (params : Nat → Option DbValue) (db : List User) (cmd : Command) :
    Option (List User × List User) :=
  let chosen (cond : Option Expr) := selects memory.toDialect usersView.cell params cond
  if cmd.table = [.word "users"] then
    match cmd with
    | .select _ cond _ page => some (db, slice page (db.filter (chosen cond)))
    | .count _ cond _ => some (db, db.filter (chosen cond))
    | .probe _ cond limit => some (db, (db.filter (chosen (some cond))).take limit)
    | .insert _ columns places =>
      match columns, places.map params with
      | ["name"], [some (.text name)] =>
        some ((nextId db, name) :: db, [(nextId db, name)])
      | _, _ => none
    | .update _ sets cond =>
      match sets.map fun set => (set.1, params set.2) with
      | [("name", some (.text name))] =>
        some (db.map fun user => if chosen (some cond) user then (user.1, name) else user,
          (db.filter (chosen (some cond))).map fun user => (user.1, name))
      | _ => none
    | .delete _ cond =>
      some (db.filter fun user => !chosen (some cond) user, db.filter (chosen (some cond)))
  else none

def usersCommand (sql : String) : Option Command :=
  match parseCommand memory.toDialect (tokens sql),
    parseStatement memory.toDialect (tokens sql) with
  | some cmd, none => some cmd
  | none, some s => some s.command
  | _, _ => none

def notSupported : AppError := queryFailed "not supported"

def usersRun (db : List User) (sql : String) (params : List DbValue) :
    Option (Command × List User × List User) := do
  let cmd ← usersCommand sql
  let (db, rows) ← perform (memory.sent 1 params) db cmd
  return (cmd, db, rows)

def firstOf (cmd : Command) (rows : List User) : Except AppError (Option DbRow) :=
  match cmd with
  | .count _ _ column =>
    if rows.length < 2 ^ 63 then .ok (some ⟨[column], [.int rows.length]⟩) else .error notSupported
  | .probe .. => .ok (if rows.isEmpty then none else some ⟨["1"], [.int 1]⟩)
  | _ => .ok (rows.head?.map usersView.read)

def usersExecutor : DbExecutor (List User) where
  execute db sql params :=
    match usersRun db sql params with
    | some (_, db, rows) => (.ok rows.length, db)
    | none => (.error notSupported, db)
  query db sql params :=
    match usersRun db sql params with
    | some (_, db, rows) => (.ok (rows.map usersView.read), db)
    | none => (.error notSupported, db)
  queryOne db sql params :=
    match usersRun db sql params with
    | some (cmd, db', rows) => (firstOf cmd rows, if (firstOf cmd rows).isOk then db' else db)
    | none => (.error notSupported, db)

theorem lt_nextId {db : List User} {user : User} (h : user ∈ db) : user.1 < nextId db := by
  unfold nextId
  induction db with
  | nil => cases h
  | cons other db ih =>
    rw [List.map_cons, List.foldr_cons]
    rcases List.mem_cons.mp h with rfl | h
    · omega
    · have := ih h
      omega

theorem usersView_table (db : List User) : usersView.table db [.word "users"] = db := by
  simp [usersView]

theorem usersView_other {other : List Token} (h : other ≠ [.word "users"]) (db db' : List User) :
    usersView.table db' other = usersView.table db other := by
  simp [usersView, h]

section
variable {params : Nat → Option DbValue} {db db' rows : List User}

theorem does_insert {columns : List String} {places : List Nat}
    (h : perform params db (.insert [.word "users"] columns places) = some (db', rows)) :
    Does memory.toDialect usersTable usersView.cell params (usersView.table db)
      (.insert [.word "users"] columns places) (usersView.table db') rows := by
  simp only [perform, Command.table, if_true] at h
  split at h
  · rename_i name hplaces
    cases h
    obtain ⟨n, rfl, hn⟩ : ∃ n, places = [n] ∧ params n = some (.text name) := by
      obtain ⟨n, rest, rfl, hn, hrest⟩ := List.map_eq_cons_iff.mp hplaces
      exact ⟨n, by rw [List.map_eq_nil_iff.mp hrest], hn⟩
    have hkey : usersView.cell (nextId db, name) "id" = some (.int (nextId db)) := rfl
    refine .insert ?_ (fun other hne => usersView_other hne _ _) ?_ hkey ⟨_, rfl⟩ ?_
    · rw [usersView_table, usersView_table]
    · intro _ p hp
      obtain rfl : p = ("name", n) := List.mem_singleton.mp hp
      exact hn.symm
    · intro user huser heq
      rw [usersView_table] at huser
      have hlt := lt_nextId huser
      have hid : user.1 = nextId db := by simpa [usersView, usersTable] using heq
      omega
  · cases h

theorem does_update {sets : List (String × Nat)} {cond : Expr}
    (h : perform params db (.update [.word "users"] sets cond) = some (db', rows)) :
    Does memory.toDialect usersTable usersView.cell params (usersView.table db)
      (.update [.word "users"] sets cond) (usersView.table db') rows := by
  simp only [perform, Command.table, if_true] at h
  split at h
  · rename_i name hsets
    cases h
    obtain ⟨n, rfl, hn⟩ : ∃ n, sets = [("name", n)] ∧ params n = some (.text name) := by
      obtain ⟨set, rest, rfl, hset, hrest⟩ := List.map_eq_cons_iff.mp hsets
      obtain ⟨hname, hn⟩ := Prod.mk.injEq .. ▸ hset
      exact ⟨set.2, by rw [List.map_eq_nil_iff.mp hrest, ← hname], hn⟩
    refine @Does.update _ _ _ _ _ _ _ _ _ _ (fun user => (user.1, name)) _ _ ?_
      (fun other hne => usersView_other hne _ _) ?_ (fun _ _ _ _ => rfl) ?_
    · rw [usersView_table, usersView_table]
    · intro _ user _ _ p hp
      obtain rfl : p = ("name", n) := List.mem_singleton.mp hp
      exact hn.symm
    · rw [usersView_table]
  · cases h

theorem does_of_perform {cmd : Command} (h : perform params db cmd = some (db', rows)) :
    Does memory.toDialect usersTable usersView.cell params (usersView.table db) cmd
      (usersView.table db') rows := by
  have htable : cmd.table = [.word "users"] := by
    by_contra hne
    simp [perform, hne] at h
  have hself := usersView_table db
  cases cmd with
  | select table cond order page =>
    obtain rfl : table = [.word "users"] := htable
    simp only [perform, Command.table, if_true, Option.some.injEq, Prod.mk.injEq] at h
    obtain ⟨rfl, rfl⟩ := h
    exact .select (.of_eq (by rw [hself]))
  | count table cond column =>
    obtain rfl : table = [.word "users"] := htable
    simp only [perform, Command.table, if_true, Option.some.injEq, Prod.mk.injEq] at h
    obtain ⟨rfl, rfl⟩ := h
    nth_rewrite 3 [← hself]
    exact .count
  | probe table cond limit =>
    obtain rfl : table = [.word "users"] := htable
    simp only [perform, Command.table, if_true, Option.some.injEq, Prod.mk.injEq] at h
    obtain ⟨rfl, rfl⟩ := h
    nth_rewrite 3 [← hself]
    exact .probe
  | insert table columns places =>
    obtain rfl : table = [.word "users"] := htable
    exact does_insert h
  | update table sets cond =>
    obtain rfl : table = [.word "users"] := htable
    exact does_update h
  | delete table cond =>
    obtain rfl : table = [.word "users"] := htable
    simp only [perform, Command.table, if_true, Option.some.injEq, Prod.mk.injEq] at h
    obtain ⟨rfl, rfl⟩ := h
    nth_rewrite 3 [← hself]
    refine .delete ?_ fun other hne => usersView_other hne _ _
    rw [usersView_table, usersView_table]

end

theorem usersCommand_eq {sql : String} {cmd cmd' : Command}
    (hmeans : Means memory.toDialect (tokens sql) cmd) (h : usersCommand sql = some cmd') :
    cmd' = cmd := by
  unfold usersCommand at h
  split at h
  · rename_i hcommand hstatement
    cases h
    rcases hmeans with hmeans | ⟨s, hmeans, rfl⟩
    · exact Option.some.inj (hcommand.symm.trans hmeans)
    · cases hstatement.symm.trans hmeans
  · rename_i s hcommand hstatement
    cases h
    rcases hmeans with hmeans | ⟨s', hmeans, rfl⟩
    · cases hcommand.symm.trans hmeans
    · rw [Option.some.inj (hstatement.symm.trans hmeans)]
  · cases h

theorem usersRun_eq {db db' rows : List User} {sql : String} {params : List DbValue}
    {cmd cmd' : Command} (hmeans : Means memory.toDialect (tokens sql) cmd)
    (h : usersRun db sql params = some (cmd', db', rows)) :
    cmd' = cmd ∧ usersView.Does memory usersTable params db cmd db' rows := by
  obtain ⟨c, hc, h⟩ := Option.bind_eq_some_iff.mp h
  obtain ⟨⟨after, chosen⟩, hperform, h⟩ := Option.bind_eq_some_iff.mp h
  cases h
  obtain rfl := usersCommand_eq hmeans hc
  exact ⟨rfl, does_of_perform hperform⟩

theorem firstOf_ok {cmd : Command} {rows : List User} {row : Option DbRow}
    (h : firstOf cmd rows = .ok row) : usersView.First cmd rows row := by
  cases cmd with
  | count table cond column =>
    simp only [firstOf] at h
    split at h
    · rename_i hlt
      cases h
      exact ⟨hlt, rfl⟩
    · cases h
  | probe table cond limit =>
    cases h
    cases rows <;> rfl
  | select | insert | update | delete =>
    cases h
    rfl

theorem firstOf_err {cmd : Command} {rows : List User} {e : AppError}
    (h : firstOf cmd rows = .error e) : e = notSupported := by
  cases cmd with
  | count table cond column =>
    simp only [firstOf] at h
    split at h <;> cases h
    rfl
  | probe | select | insert | update | delete => cases h

theorem users_carries : Carries memory usersView usersTable (· = notSupported) usersExecutor where
  execute := by
    intro db sql params cmd n db' hmeans h
    simp only [usersExecutor] at h
    split at h
    · rename_i hrun
      cases h
      exact ⟨_, (usersRun_eq hmeans hrun).2, rfl⟩
    · cases h
  query := by
    intro db sql params cmd answer db' hmeans h
    simp only [usersExecutor] at h
    split at h
    · rename_i hrun
      cases h
      exact ⟨_, (usersRun_eq hmeans hrun).2, rfl⟩
    · cases h
  queryOne := by
    intro db sql params cmd row db' hmeans h
    simp only [usersExecutor] at h
    split at h
    · rename_i cmd' after rows hrun
      obtain ⟨rfl, hdoes⟩ := usersRun_eq hmeans hrun
      obtain ⟨hfirst, hafter⟩ := Prod.mk.injEq .. ▸ h
      rw [hfirst] at hafter
      obtain rfl : after = db' := hafter
      exact ⟨rows, hdoes, firstOf_ok hfirst⟩
    · cases h
  failed := by
    intro db sql params cmd e db' hmeans h
    simp only [usersExecutor] at h
    rcases h with h | h | h
    · split at h <;> cases h
      exact ⟨rfl, .inl rfl⟩
    · split at h <;> cases h
      exact ⟨rfl, .inl rfl⟩
    · split at h
      · rename_i cmd' after rows hrun
        obtain ⟨hfirst, hafter⟩ := Prod.mk.injEq .. ▸ h
        rw [hfirst] at hafter
        obtain rfl : db = db' := hafter
        exact ⟨firstOf_err hfirst, .inl rfl⟩
      · cases h
        exact ⟨rfl, .inl rfl⟩

theorem users_maps : Maps memory usersView usersTable users ["name"] where
  table := by decide +kernel
  names := by decide +kernel
  distinct := by decide
  nonempty := by decide
  params _ := rfl
  key := rfl
  isKey := by
    rintro v ⟨n, rfl⟩
    exact ⟨n, rfl⟩
  ints n := ⟨.int n, rfl⟩
  eq := by
    rintro n _ k _ ⟨⟩ ⟨⟩
    simp [memory]
  reads := by
    intro user t n hkey hparams
    have hid : user.1 = n := by simpa [usersView, memory, users, DbValue.isNull] using hkey
    have hname : user.2 = t.2 := by
      simpa [usersView, memory, usersTable, DbValue.isNull] using
        hparams ("name", .text t.2) List.mem_cons_self
    exact ⟨user, rfl, hid, by simp [users, hname]⟩

/-- A call that finds the connection closed is among them. -/
def userCalls : List (Call (List User) User) :=
  [⟨.ok usersExecutor, .create (0, "Ann")⟩, ⟨.ok usersExecutor, .create (0, "Bob")⟩,
    ⟨.ok usersExecutor, .update (1, "Eve")⟩, ⟨.error notSupported, .count⟩,
    ⟨.ok usersExecutor, .countBy (.eqSpec "name" (.text "Bob"))⟩, ⟨.ok usersExecutor, .delete 2⟩,
    ⟨.ok usersExecutor, .update (2, "Bob")⟩, ⟨.ok usersExecutor, .findAll {}⟩]

theorem repository_is_map_users :
    ∃ m', History memory usersTable users (· = notSupported) (fun _ => none)
        (userCalls.map Call.op)
        [.ok (.stored (1, "Ann")), .ok (.stored (2, "Bob")), .ok (.stored (1, "Eve")),
          .err notSupported, .ok (.number 1), .ok (.yes true),
          .err (queryFailed "UPDATE RETURNING returned no rows"), .ok (.all [(1, "Eve")])] m' ∧
      Represents memory usersView usersTable users [(1, "Eve")] m' := by
  have hrun : runAll users (fun _ => "") [] userCalls =
      ([.ok (.stored (1, "Ann")), .ok (.stored (2, "Bob")), .ok (.stored (1, "Eve")),
        .err notSupported, .ok (.number 1), .ok (.yes true),
        .err (queryFailed "UPDATE RETURNING returned no rows"), .ok (.all [(1, "Eve")])],
        [(1, "Eve")]) := by
    decide +kernel
  have hconns : ∀ call ∈ userCalls,
      Sound memory usersView usersTable (· = notSupported) call.conn := by
    simp only [userCalls, List.forall_mem_cons]
    exact ⟨users_carries, users_carries, users_carries, rfl, users_carries, users_carries,
      users_carries, users_carries, fun _ h => absurd h List.not_mem_nil⟩
  have hops : ∀ call ∈ userCalls, call.op.Within memory.toDialect ["id", "name"] := by
    simp only [userCalls, List.forall_mem_cons]
    exact ⟨trivial, trivial, trivial, trivial, ⟨by decide, trivial, by decide⟩, trivial, trivial,
      ⟨by decide, by decide, fun _ h => absurd h List.not_mem_nil⟩,
      fun _ h => absurd h List.not_mem_nil⟩
  have htable (db : List User) : usersView.table db (tokens users.tableName) = db := by
    rw [show tokens users.tableName = [.word "users"] by decide, usersView_table]
  have hempty : Represents memory usersView usersTable users
      (usersView.table [] (tokens users.tableName)) (fun _ => none) := by
    rw [htable]
    exact ⟨[], .nil, .nil⟩
  obtain ⟨m', hhistory, hrep, -⟩ := repository_is_map users_maps (fun _ => "") userCalls hconns
    hops [] (fun _ => none) hempty
  rw [hrun] at hhistory hrep
  rw [htable] at hrep
  exact ⟨m', hhistory, hrep⟩

end Rinfra.Store
