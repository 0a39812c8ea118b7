import Rinfra.Store.Clauses

/-!
# The repository over each store

What PostgreSQL, MySQL and SQLite take, and which operations of the repository are
spoken in each of the three: what is passed to the driver is taken by its store, and
the row that is written comes back.
-/

namespace Rinfra.Store

open Rinfra.Lib.Sql

-- ---------------------------------------------------------------------------
-- What a store takes
-- ---------------------------------------------------------------------------

def SqlStore.takes : SqlStore → Feature → Bool
  | .postgres, .question => false
  | .mysql, .dollar | .mysql, .returning => false
  | .postgres, _ | .mysql, .question | .sqlite, _ => true

/-- MySQL writes a row without naming columns; SQLite has empty lists, and numbers below
zero for all rows and for none. -/
def SqlStore.bears : SqlStore → Hole → Bool
  | .mysql, .columns | .sqlite, .values | .sqlite, .rows => true
  | _, _ => false

structure SqlStore.Takes (store : SqlStore) (sql : String) : Prop where
  features : ∀ t ∈ tokens sql, ∀ f ∈ feature? t, store.takes f
  holes : ∀ hole ∈ holes (tokens sql), store.bears hole

instance (store : SqlStore) : DecidablePred store.Takes := fun sql =>
  decidable_of_iff ((∀ t ∈ tokens sql, ∀ f ∈ feature? t, store.takes f) ∧
      ∀ hole ∈ holes (tokens sql), store.bears hole)
    ⟨fun h => ⟨h.1, h.2⟩, fun h => ⟨h.features, h.holes⟩⟩

-- ---------------------------------------------------------------------------
-- Speaking a store's language
-- ---------------------------------------------------------------------------

/-- A text the store takes, with a place for each parameter. -/
def SqlStore.Conforms (store : SqlStore) (sql : String) (params : List DbValue) : Prop :=
  store.Takes sql ∧ markers sql = params.length

instance (store : SqlStore) (sql : String) (params : List DbValue) :
    Decidable (store.Conforms sql params) := instDecidableAnd

/-- What a driver does with a statement that its store does not take, and with one that
gives a row back; `made` is what the database comes to for it. -/
structure Keeps {Db Cell : Type} (store : SqlStore) (driver : Driver Db Cell)
    (made : Db → String → List DbValue → Except String (Option (List Cell)) × Db) : Prop where
  refused : ∀ db sql params, ¬ store.Conforms sql params →
    ∃ e, driver.fetchOptional db sql params = (.error e, db)
  returned : ∀ db sql params, store.Conforms sql params → .word "RETURNING" ∈ tokens sql →
    driver.fetchOptional db sql params = made db sql params

/-- What is passed to the driver conforms, and the row that is made is given back. -/
structure Speaks {T : Type} (store : SqlStore) (entity : EntityType T) (op : Operation T) :
    Prop where
  conforms : ∀ {Db Cell : Type} (s : Sqlx Cell) (driver : Driver Db Cell)
    (debug : DbValue → String) (db : Db),
    ∀ p ∈ passed store s driver entity debug op db, store.Conforms p.1 p.2
  returned : ∀ {Db Cell : Type} (s : Sqlx Cell) (driver : Driver Db Cell)
    (made : Db → String → List DbValue → Except String (Option (List Cell)) × Db),
    Keeps store driver made → ∀ db db' row dbRow,
    made db (op.sql entity) (op.params entity) = (.ok (some row), db') →
    store.toDbRow s row = .ok dbRow →
    ∀ result ∈ op.entity? (.ok (store.executor s driver)) entity db,
      result = readRow entity dbRow

/-- Nothing to bind, and no row to give back. -/
def Operation.Bare {T : Type} : Operation T → Prop
  | .findAll _ | .count => True
  | .findById _ | .create _ | .update _ | .delete _ | .exists_ _ | .findBy .. | .countBy _
  | .deleteBy _ => False

theorem Specification.params_ne_nil {spec : Specification} (h : spec.ListsNonempty) :
    spec.params ≠ [] := by
  induction spec with
  | andSpec left right ihl ihr | orSpec left right ihl ihr => simp [params, ihl h.1]
  | inSpec field values => exact h
  | eqSpec | likeSpec | betweenSpec => simp [params]

section
variable {T : Type} {entity : EntityType T} {op : Operation T} {store : SqlStore}

/-- Where MySQL is given no empty list, only these operations bind nothing. -/
theorem bare_iff (hlacks : ∀ hole, op.Lacks entity hole → SqlStore.mysql.bears hole) :
    op.Bare ↔ (op.params entity).length = 0 ∧ op.givesBack = false := by
  cases op with
  | findBy spec opts | countBy spec | deleteBy spec =>
    have hlists : spec.ListsNonempty := by
      by_contra hempty
      cases hlacks .values hempty
    simp [Operation.Bare, Operation.params, Specification.params_ne_nil hlists]
  | findById | findAll | count | create | update | delete | exists_ =>
    simp [Operation.Bare, Operation.params, Operation.givesBack]

theorem features_eq_zero {f : Feature} {ts : List Token} :
    features f ts = 0 ↔ ∀ t ∈ ts, feature? t ≠ some f := by
  simp [features]

theorem takes_iff (store : SqlStore) (sql : String) :
    store.Takes sql ↔ (∀ f, store.takes f = false → features f (tokens sql) = 0) ∧
      ∀ hole ∈ holes (tokens sql), store.bears hole := by
  simp only [features_eq_zero]
  constructor
  · intro h
    refine ⟨fun f hf t ht heq => ?_, h.holes⟩
    have htakes := h.features t ht f heq
    rw [hf] at htakes
    cases htakes
  · rintro ⟨h, hholes⟩
    refine ⟨fun t ht f heq => ?_, hholes⟩
    by_contra hf
    exact h f (by simpa using hf) t ht heq

theorem features_names {f : Feature} (names : List String) :
    features f (names.flatMap tokens) = 0 ↔ ∀ name ∈ names, features f (tokens name) = 0 := by
  simp only [features_eq_zero, List.mem_flatMap]
  exact ⟨fun h name hname t ht => h t ⟨name, hname, ht⟩, fun h t ⟨name, hname, ht⟩ =>
    h name hname t ht⟩

theorem returning_iff (ts : List Token) :
    features .returning ts = 0 ↔ .word "RETURNING" ∉ ts := by
  rw [features_eq_zero]
  constructor
  · intro h hmem
    exact h _ hmem rfl
  · intro h t ht hfeature
    cases t with
    | word text =>
      have htext : text = "RETURNING" := by
        by_contra hne
        rw [feature?, if_neg hne] at hfeature
        cases hfeature
      exact h (htext ▸ ht)
    | sym c =>
      rw [feature?] at hfeature
      split at hfeature <;> cases hfeature
    | param | quoted => cases hfeature

theorem forall_feature {P : Feature → Prop} :
    (∀ f, P f) ↔ P .dollar ∧ P .question ∧ P .returning :=
  ⟨fun h => ⟨h _, h _, h _⟩, fun ⟨hd, hq, hr⟩ f => by cases f <;> assumption⟩

/-- What a name of a table or a column is: no quote is open after it, and it is something
without parentheses and the words before and after a list or a number of rows. -/
structure IsName (name : String) : Prop where
  whole : Whole name
  solid : Solid (tokens name)

instance : DecidablePred IsName := fun name =>
  decidable_of_iff (Whole name ∧ Solid (tokens name))
    ⟨fun h => ⟨h.1, h.2⟩, fun h => ⟨h.whole, h.solid⟩⟩

theorem conforms_iff (hnames : ∀ name ∈ op.names entity, IsName name) :
    store.Conforms (op.sql entity) (op.params entity) ↔
      (∀ name ∈ op.names entity, markers name = 0) ∧
      (∀ hole, op.Lacks entity hole → store.bears hole) ∧
        (store = .mysql → op.Bare ∧ ∀ name ∈ op.names entity, .word "RETURNING" ∉ tokens name) := by
  have hown : (∀ name ∈ op.names entity, markers name = 0) ↔
      features .dollar ((op.names entity).flatMap tokens) = 0 ∧
        features .question ((op.names entity).flatMap tokens) = 0 := by
    simp only [features_names, markers, Nat.add_eq_zero_iff]
    exact forall₂_and
  have hreturning : (∀ name ∈ op.names entity, .word "RETURNING" ∉ tokens name) ↔
      features .returning ((op.names entity).flatMap tokens) = 0 := by
    simp only [features_names, returning_iff]
  have htokens := op.tokens_sql fun name hname => (hnames name hname).whole
  have hholes : (∀ hole ∈ holes (op.statement entity), store.bears hole) ↔
      ∀ hole, op.Lacks entity hole → store.bears hole :=
    forall_congr' fun hole =>
      imp_congr_left (mem_holes_statement op fun name hname => (hnames name hname).solid)
  rw [SqlStore.Conforms, takes_iff, markers, hown, hreturning, forall_feature, htokens, hholes]
  simp only [features_statement op]
  by_cases hlacks : ∀ hole, op.Lacks entity hole → store.bears hole
  · -- What the names have, and what the statement has of its own.
    rw [eq_true hlacks]
    cases store with
    | mysql =>
      rw [bare_iff hlacks]
      generalize (op.params entity).length = n
      cases op.givesBack with
      | false =>
        simp [SqlStore.takes, Feature.dollars]
        omega
      | true => simp [SqlStore.takes, Feature.dollars, Feature.returnings]
    | postgres | sqlite =>
      cases op.givesBack <;> simp [SqlStore.takes, Feature.dollars, Feature.returnings] <;> omega
  · simp [hlacks]

theorem executorOf_row {Db Cell : Type} {label : String}
    {toDbRow : List Cell → Except AppError DbRow} {driver : Driver Db Cell} {db db' : Db}
    {sql : String} {params : List DbValue} {row : List Cell} {dbRow : DbRow}
    (hfetch : driver.fetchOptional db sql params = (.ok (some row), db'))
    (hrow : toDbRow row = .ok dbRow) :
    (executorOf label toDbRow driver).queryOne db sql params = (.ok (some dbRow), db') := by
  simp only [executorOf, hfetch, hrow]
  rfl

theorem queryOne_row {Db Cell : Type} {s : Sqlx Cell} {driver : Driver Db Cell} {db db' : Db}
    {sql : String} {params : List DbValue} {row : List Cell} {dbRow : DbRow}
    (hfetch : driver.fetchOptional db sql params = (.ok (some row), db'))
    (hrow : store.toDbRow s row = .ok dbRow) :
    (store.executor s driver).queryOne db sql params = (.ok (some dbRow), db') := by
  cases store with
  | postgres => exact executorOf_row hfetch hrow
  | mysql => exact executorOf_row hfetch hrow
  | sqlite => exact executorOf_row hfetch hrow

section
variable {Db : Type} {exec : DbExecutor Db} {db : Db} {result : Outcome T}

theorem givesBack_of_entity? (h : result ∈ op.entity? (.ok exec) entity db) :
    op.givesBack = true := by
  cases op with
  | create | update => rfl
  | _ => cases h

theorem entity?_row {db' : Db} {dbRow : DbRow} (h : result ∈ op.entity? (.ok exec) entity db)
    (hquery : exec.queryOne db (op.sql entity) (op.params entity) = (.ok (some dbRow), db')) :
    result = readRow entity dbRow := by
  cases op with
  | create t | update t =>
    cases h
    exact returned_row hquery
  | _ => cases h

end

theorem returning_of_givesBack (hnames : ∀ name ∈ op.names entity, Whole name)
    (h : op.givesBack = true) : .word "RETURNING" ∈ tokens (op.sql entity) := by
  by_contra hnot
  have hcount : features .returning (op.statement entity) = _ := features_statement op
  rw [← op.tokens_sql hnames, (returning_iff _).mpr hnot, if_pos h] at hcount
  simp [Feature.returnings] at hcount

def silent : Driver Unit PgCell where
  execute db _ _ := (.error "closed", db)
  fetchAll db _ _ := (.error "closed", db)
  fetchOptional db _ _ := (.error "closed", db)

theorem Speaks.conforms_sql (h : Speaks store entity op) :
    store.Conforms (op.sql entity) (op.params entity) := by
  have hpassed := passed_eq store pgSqlx silent entity (fun _ => "") op ()
  exact h.conforms pgSqlx silent (fun _ => "") () (op.sql entity, op.params entity)
    (hpassed ▸ List.mem_singleton_self _)

/-- PostgreSQL and SQLite are spoken to wherever nothing is missing that they ask for,
MySQL where moreover nothing is bound and no row is asked back. -/
theorem speaks_iff (store : SqlStore) (entity : EntityType T) (op : Operation T)
    (hnames : ∀ name ∈ op.names entity, IsName name) :
    Speaks store entity op ↔
      (∀ name ∈ op.names entity, markers name = 0) ∧
      (∀ hole, op.Lacks entity hole → store.bears hole) ∧
        (store = .mysql → op.Bare ∧ ∀ name ∈ op.names entity, .word "RETURNING" ∉ tokens name) := by
  rw [← conforms_iff hnames]
  refine ⟨Speaks.conforms_sql, fun h => ⟨?_, ?_⟩⟩
  · intro Db Cell s driver debug db p hp
    rw [passed_eq, List.mem_singleton] at hp
    exact hp ▸ h
  · intro Db Cell s driver made hkeeps db db' row dbRow hmade hrow result hresult
    have hreturning := returning_of_givesBack (fun name hname => (hnames name hname).whole)
      (givesBack_of_entity? hresult)
    have hfetch := (hkeeps.returned db _ _ h hreturning).trans hmade
    exact entity?_row hresult (queryOne_row hfetch hrow)

end

theorem speaks_iff_users :
    Speaks .sqlite users (.findBy (.orSpec listAndRange (.inSpec "id" [])) {}) ∧
      Speaks .postgres users (.create (7, "a")) ∧ Speaks .mysql users .count := by
  refine ⟨(speaks_iff _ _ _ (by decide +kernel)).mpr ⟨by decide +kernel, ?_, by simp⟩,
    (speaks_iff _ _ _ (by decide +kernel)).mpr ⟨by decide +kernel, ?_, by simp⟩,
    (speaks_iff _ _ _ (by decide +kernel)).mpr ⟨by decide +kernel, ?_,
      fun _ => ⟨trivial, by decide +kernel⟩⟩⟩
  · intro hole h
    cases hole with
    | values | rows => rfl
    | columns | settings => cases h
  · intro hole h
    cases hole <;> cases h
  · intro hole h
    cases hole <;> cases h

/-- MySQL takes neither `$1` nor `RETURNING`, and no row comes back. PostgreSQL takes no
empty list. -/
theorem mysql_refuses :
    ¬ Speaks .mysql users (.findById 7) ∧ ¬ Speaks .mysql users (.create (7, "a")) ∧
      ¬ Speaks .postgres users (.deleteBy (.inSpec "id" [])) ∧
      ∀ (Db Cell : Type) (s : Sqlx Cell) (driver : Driver Db Cell)
        (made : Db → String → List DbValue → Except String (Option (List Cell)) × Db) (db : Db),
        Keeps .mysql driver made →
        ∃ e, GenericRepository.create (.ok (mysqlExecutor s driver)) users (7, "a") db =
          (.err e, db) := by
  have hcreate : ¬ SqlStore.mysql.Conforms ((Operation.create (7, "a")).sql users)
      ((Operation.create (7, "a")).params users) := by decide +kernel
  refine ⟨fun h => absurd h.conforms_sql (by decide +kernel), fun h => hcreate h.conforms_sql,
    fun h => absurd h.conforms_sql (by decide +kernel), ?_⟩
  intro Db Cell s driver made db hkeeps
  obtain ⟨e, he⟩ := hkeeps.refused db _ _ hcreate
  have hquery : (mysqlExecutor s driver).queryOne db ((Operation.create (7, "a")).sql users)
      ((Operation.create (7, "a")).params users) =
        (.error (queryFailed s!"mysql query_one failed: {e}"), db) := by
    simp only [mysqlExecutor, executorOf, he]
    rfl
  exact ⟨_, returned_err hquery⟩

end Rinfra.Store
