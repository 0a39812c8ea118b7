import Rinfra.Store.Meaning

/-!
# Finding, counting and deleting by specification

`Obeys` is what a database does with the statements of `find_by`, `count_by` and
`delete_by` when it carries them out. The rows that it finds, counts and deletes
are then those of which the specification holds.
-/

namespace Rinfra.Store

open Rinfra.Lib.Sql

variable {Db Row V T : Type}

/-- How a database is looked at: its tables by name, the cells of a row, and the
row as a client reads it. -/
structure View (Db Row V : Type) where
  table : Db → List Token → List Row
  cell : Row → String → Option V
  read : Row → DbRow

section
variable (b : Backend V) (view : View Db Row V)

def View.selected (db : Db) (table : List Token) (e : Expr) (params : List DbValue) : List Row :=
  (view.table db table).filter fun row =>
    e.eval b.toDialect (view.cell row) (b.sent 1 params) = .true

structure Obeys (exec : DbExecutor Db) : Prop where
  select : ∀ (db : Db) (sql : String) (params : List DbValue) (table : List Token) (e : Expr)
    (order : List SortKey) (limit offset : Nat) (rows : List DbRow) (db' : Db),
    parseStatement b.toDialect (tokens sql) = some (.select table e order limit offset) →
    exec.query db sql params = (.ok rows, db') →
    ∃ sorted : List Row, sorted.Perm (view.selected b db table e params) ∧
      rows = ((sorted.drop offset).take limit).map view.read
  count : ∀ (db : Db) (sql : String) (params : List DbValue) (table : List Token) (e : Expr)
    (column : String) (row : Option DbRow) (db' : Db),
    parseStatement b.toDialect (tokens sql) = some (.count table e column) →
    exec.queryOne db sql params = (.ok row, db') →
    (view.selected b db table e params).length < 2 ^ 63 ∧
      row = some ⟨[column], [.int (view.selected b db table e params).length]⟩
  delete : ∀ (db : Db) (sql : String) (params : List DbValue) (table : List Token) (e : Expr)
    (n : Nat) (db' : Db),
    parseStatement b.toDialect (tokens sql) = some (.delete table e) →
    exec.execute db sql params = (.ok n, db') →
    n = (view.selected b db table e params).length ∧
      view.table db' table = (view.table db table).filter fun row =>
        e.eval b.toDialect (view.cell row) (b.sent 1 params) ≠ .true

end

-- ---------------------------------------------------------------------------
-- Statements
-- ---------------------------------------------------------------------------

/-- The name of a table, perhaps in quotes or with a schema before it. -/
def IsTableName (d : Dialect V) (name : String) : Prop :=
  Lexes name (tokens name) ∧ isTable d (tokens name) = true

instance (d : Dialect V) : DecidablePred (IsTableName d) := fun _ => instDecidableAnd

namespace GenericRepository

def SortDirection.ascending : SortDirection → Bool
  | .asc => true
  | .desc => false

def sortKeysOf (orderBy : List OrderBy) : List SortKey :=
  orderBy.map fun o => (o.field, SortDirection.ascending o.direction)

def intTokens : Int → List Token
  | .ofNat n => [.word n.repr]
  | .negSucc n => [.sym '-', .word (n + 1).repr]

def pageTokensOf (opts : QueryOptions) : List Token :=
  let keys := opts.orderBy.map fun o =>
    tokens o.field ++ [.word (directionWord (SortDirection.ascending o.direction))]
  (if opts.orderBy = [] then [] else .word "ORDER" :: .word "BY" :: sepBy (.sym ',') keys) ++
    .word "LIMIT" :: (intTokens opts.limit ++ .word "OFFSET" :: intTokens opts.offset)

theorem lexes_number (n : Nat) : Lexes n.repr [.word n.repr] := by
  have hdigits : ∀ c ∈ n.repr.toList, isWord c = true := by
    rw [Nat.toList_repr]
    exact fun c hc => isWord_of_isDigit (Nat.isDigit_of_mem_toDigits (by decide) (by decide) hc)
  cases htext : n.repr.toList with
  | nil =>
    rw [Nat.toList_repr] at htext
    exact absurd htext Nat.toDigits_ne_nil
  | cons c text =>
    rw [htext] at hdigits
    exact .word htext (hdigits c List.mem_cons_self) fun e he =>
      .inl (hdigits e (List.mem_cons_of_mem _ he))

theorem lexes_int (n : Int) : Lexes (toString n) (intTokens n) := by
  cases n with
  | ofNat n => exact lexes_number n
  | negSucc n =>
    have hsign : Lexes "-" [.sym '-'] := by decide
    exact hsign.append_gap (lexes_number (n + 1)) (by decide)

theorem lexes_sortKey {o : OrderBy} (h : Whole o.field) :
    Lexes s!"{o.field} {SortDirection.word o.direction}"
      (tokens o.field ++ [.word (directionWord (SortDirection.ascending o.direction))]) := by
  have htext : s!"{o.field} {SortDirection.word o.direction}" =
      o.field ++ (" " ++ SortDirection.word o.direction) := by
    rw [← String.append_assoc]
    rfl
  have hdirection : Lexes (" " ++ SortDirection.word o.direction)
      [.word (directionWord (SortDirection.ascending o.direction))] := by
    cases o.direction <;> decide
  rw [htext]
  exact h.append hdirection (BeginsWithBreak.append (by decide) _)

theorem lexes_page (opts : QueryOptions) (horder : ∀ o ∈ opts.orderBy, Whole o.field) :
    Lexes (pageSql opts) (pageTokensOf opts) ∧ BeginsWithBreak (pageSql opts) := by
  have hlimitWord : Lexes " LIMIT " [.word "LIMIT"] := by decide
  have hoffsetWord : Lexes " OFFSET " [.word "OFFSET"] := by decide
  have hpage : Lexes (" LIMIT " ++ (toString opts.limit ++ (" OFFSET " ++ toString opts.offset)))
      (.word "LIMIT" :: (intTokens opts.limit ++ .word "OFFSET" :: intTokens opts.offset)) :=
    hlimitWord.between (by decide) (lexes_int opts.limit)
      (hoffsetWord.append_gap (lexes_int opts.offset) (by decide))
      (BeginsWithBreak.append (by decide) _)
  have hbreak : BeginsWithBreak
      (" LIMIT " ++ (toString opts.limit ++ (" OFFSET " ++ toString opts.offset))) :=
    BeginsWithBreak.append (by decide) _
  have htext : pageSql opts = (if opts.orderBy.isEmpty then "" else " ORDER BY " ++ commaJoin
      (opts.orderBy.map fun o => s!"{o.field} {SortDirection.word o.direction}")) ++
      (" LIMIT " ++ (toString opts.limit ++ (" OFFSET " ++ toString opts.offset))) := by
    unfold pageSql
    simp only [String.append_assoc]
    rfl
  rw [htext, pageTokensOf]
  by_cases hempty : opts.orderBy = []
  · rw [hempty]
    simp only [List.isEmpty_nil, if_true, String.empty_append, List.nil_append]
    exact ⟨hpage, hbreak⟩
  · have hkeys : List.Forall₂ Lexes
        (opts.orderBy.map fun o => s!"{o.field} {SortDirection.word o.direction}")
        (opts.orderBy.map fun o => tokens o.field ++
          [.word (directionWord (SortDirection.ascending o.direction))]) := by
      rw [List.forall₂_map_left_iff, List.forall₂_map_right_iff, List.forall₂_same]
      exact fun o ho => lexes_sortKey (horder o ho)
    have horderWord : Lexes " ORDER BY " [.word "ORDER", .word "BY"] := by decide
    have hall := horderWord.between (by decide) (.join hkeys) hpage hbreak
    rw [if_neg (by simpa using hempty), if_neg hempty, String.append_assoc]
    exact ⟨hall, BeginsWithBreak.append (by decide) _⟩

theorem pageTokensOf_plain {d : Dialect V} {opts : QueryOptions}
    (horder : ∀ o ∈ opts.orderBy, Plain d o.field) (hlimit : opts.limit = (limit : Nat))
    (hoffset : opts.offset = (offset : Nat)) :
    pageTokensOf opts = orderTokens (sortKeysOf opts.orderBy) ++ pageTokens limit offset := by
  have hkeys : (opts.orderBy.map fun o => tokens o.field ++
      [.word (directionWord (SortDirection.ascending o.direction))]) =
      (sortKeysOf opts.orderBy).map fun key => [.word key.1, .word (directionWord key.2)] := by
    rw [sortKeysOf, List.map_map]
    refine List.map_congr_left fun o ho => ?_
    rw [(horder o ho).lexes.1]
    rfl
  rw [pageTokensOf, hlimit, hoffset, hkeys, orderTokens]
  by_cases hempty : opts.orderBy = []
  · simp [hempty, sortKeysOf, pageTokens, intTokens]
  · have hne : sortKeysOf opts.orderBy ≠ [] := by simpa [sortKeysOf] using hempty
    rw [if_neg hempty, if_neg hne]
    simp [pageTokens, intTokens]

theorem lexes_from {start table condition : String} (hstart : Lexes start ss)
    (hgap : EndsInGap start) (htable : Whole table) (hcondition : Lexes condition cs) :
    Lexes (start ++ (table ++ (" WHERE " ++ condition)))
      (ss ++ (tokens table ++ (.word "WHERE" :: cs))) := by
  have hwhere : Lexes " WHERE " [.word "WHERE"] := by decide
  exact hstart.append_gap (htable.append (hwhere.append_gap hcondition (by decide))
    (BeginsWithBreak.append (by decide) _)) hgap

section
variable {d : Dialect V} {table : String} {spec : Specification} (htable : IsTableName d table)
  (hfields : ∀ field ∈ spec.fields, Plain d field) (hlists : spec.ListsNonempty)
include htable hfields hlists

theorem parse_findBy {opts : QueryOptions} (horder : ∀ o ∈ opts.orderBy, Plain d o.field)
    (hlimit : opts.limit = (limit : Nat)) (hoffset : opts.offset = (offset : Nat)) :
    parseStatement d (tokens
      (s!"SELECT * FROM {table} WHERE {(spec.toWhereClause 1).1}" ++ pageSql opts)) =
      some (.select (tokens table) (spec.expr 1) (sortKeysOf opts.orderBy) limit offset) := by
  have hclause := spec.lexes_clause 1 fun f hf => (hfields f hf).inert.whole
  obtain ⟨hpage, hbreak⟩ := lexes_page opts fun o ho => (horder o ho).inert.whole
  rw [pageTokensOf_plain horder hlimit hoffset] at hpage
  have hselect : Lexes "SELECT * FROM " [.word "SELECT", .sym '*', .word "FROM"] := by decide
  have hlexes := lexes_from hselect (by decide) htable.1 (hclause.append hpage hbreak)
  have htext : s!"SELECT * FROM {table} WHERE {(spec.toWhereClause 1).1}" ++ pageSql opts =
      "SELECT * FROM " ++ (table ++ (" WHERE " ++ ((spec.toWhereClause 1).1 ++ pageSql opts))) := by
    simp only [String.append_assoc]
    rfl
  rw [htext, hlexes.1]
  exact parse_select htable.2 (spec.parses d 1 hfields hlists) (spec.depth_le 1)
    (by simpa [sortKeysOf] using fun o ho => (horder o ho).1) limit offset

theorem parse_countBy :
    parseStatement d (tokens
      s!"SELECT count(*) AS cnt FROM {table} WHERE {(spec.toWhereClause 1).1}") =
      some (.count (tokens table) (spec.expr 1) "cnt") := by
  have hclause := spec.lexes_clause 1 fun f hf => (hfields f hf).inert.whole
  have hselect : Lexes "SELECT count(*) AS cnt FROM " [.word "SELECT", .word "count", .sym '(',
      .sym '*', .sym ')', .word "AS", .word "cnt", .word "FROM"] := by decide
  have hlexes := lexes_from hselect (by decide) htable.1 hclause
  have htext : s!"SELECT count(*) AS cnt FROM {table} WHERE {(spec.toWhereClause 1).1}" =
      "SELECT count(*) AS cnt FROM " ++ (table ++ (" WHERE " ++ (spec.toWhereClause 1).1)) := by
    simp only [String.append_assoc]
    rfl
  rw [htext, hlexes.1]
  exact parse_count htable.2 (spec.parses d 1 hfields hlists) (spec.depth_le 1) "cnt"

theorem parse_deleteBy :
    parseStatement d (tokens s!"DELETE FROM {table} WHERE {(spec.toWhereClause 1).1}") =
      some (.delete (tokens table) (spec.expr 1)) := by
  have hclause := spec.lexes_clause 1 fun f hf => (hfields f hf).inert.whole
  have hdelete : Lexes "DELETE FROM " [.word "DELETE", .word "FROM"] := by decide
  have hlexes := lexes_from hdelete (by decide) htable.1 hclause
  have htext : s!"DELETE FROM {table} WHERE {(spec.toWhereClause 1).1}" =
      "DELETE FROM " ++ (table ++ (" WHERE " ++ (spec.toWhereClause 1).1)) := by
    simp only [String.append_assoc]
    rfl
  rw [htext, hlexes.1]
  exact parse_delete htable.2 (spec.parses d 1 hfields hlists) (spec.depth_le 1)

end

end GenericRepository

-- ---------------------------------------------------------------------------
-- What the calls do
-- ---------------------------------------------------------------------------

namespace GenericRepository

theorem findMany_ok_iff {exec : DbExecutor Db} {entity : EntityType T} :
    findMany (.ok exec) entity sql params db = (.ok ts, db') ↔
      ∃ rows, exec.query db sql params = (.ok rows, db') ∧ rows.mapM entity.fromRow = .ok ts := by
  constructor
  · intro h
    unfold findMany readRows at h
    split at h
    · cases h
    · rename_i exec hconn
      cases hconn
      split at h
      · cases h
      · rename_i rows db'' hquery
        split at h
        · rename_i hread
          cases h
          exact ⟨rows, hquery, hread⟩
        · cases h
  · rintro ⟨rows, hquery, hread⟩
    simp only [findMany, hquery, readRows, hread]

theorem countRows_ok {exec : DbExecutor Db} {debug : DbValue → String}
    (h : countRows (.ok exec) debug sql params db = (.ok n, db')) :
    ∃ row, exec.queryOne db sql params = (.ok row, db') ∧
      match row with
      | none => n = 0
      | some row => ∃ cnt, row.getI64 debug "cnt" = .ok cnt ∧ n = i64AsU64 cnt := by
  unfold countRows at h
  split at h
  · cases h
  · rename_i exec hconn
    cases hconn
    split at h
    · cases h
    · rename_i hquery
      cases h
      exact ⟨none, hquery, rfl⟩
    · rename_i row db'' hquery
      split at h
      · rename_i cnt hcnt
        cases h
        exact ⟨some row, hquery, cnt, hcnt, rfl⟩
      · cases h
      · cases h

theorem countRows_number {exec : DbExecutor Db} {debug : DbValue → String} {n : Nat}
    (hlt : n < 2 ^ 63)
    (hquery : exec.queryOne db sql params = (.ok (some ⟨["cnt"], [.int n]⟩), db')) :
    countRows (.ok exec) debug sql params db = (.ok n, db') := by
  have hget : DbRow.getI64 debug ⟨["cnt"], [.int n]⟩ "cnt" = .ok n := rfl
  have hn : i64AsU64 n = n := by
    rw [i64AsU64]
    omega
  simp only [countRows, hquery, hget, hn]

theorem affected_ok_iff {exec : DbExecutor Db} :
    affected (.ok exec) sql params db = (.ok n, db') ↔
      exec.execute db sql params = (.ok n, db') := by
  constructor
  · intro h
    unfold affected at h
    split at h
    · cases h
    · rename_i exec hconn
      cases hconn
      split at h
      · cases h
      · rename_i hexecute
        cases h
        exact hexecute
  · intro hexecute
    simp only [affected, hexecute]

end GenericRepository

section
variable (b : Backend V) (view : View Db Row V)

def View.matching (db : Db) (table : String) (spec : Specification) : List Row :=
  (view.table db (tokens table)).filter fun row => b.Selects (view.cell row) spec

/-- The clause is true of the rows of which the specification holds. -/
theorem clause_selects (spec : Specification) (offset : Nat)
    (hfits : offset + (spec.toWhereClause offset).2.length ≤ 2 ^ 64) (row : String → Option V) :
    (spec.expr offset).eval b.toDialect row (b.sent offset (spec.toWhereClause offset).2) = .true ↔
      b.Selects row spec := by
  rw [spec.toWhereClause_snd] at hfits ⊢
  exact spec.eval_expr b offset row _ hfits fun i _ => paramAt_add offset _ i

section
variable {b view} {exec : DbExecutor Db} {entity : EntityType T} {spec : Specification}
  (hexec : Obeys b view exec) (htable : IsTableName b.toDialect entity.tableName)
  (hfields : ∀ field ∈ spec.fields, Plain b.toDialect field) (hlists : spec.ListsNonempty)
  (hfits : 1 + (spec.toWhereClause 1).2.length ≤ 2 ^ 64)

theorem selected_eq_matching (hfits : 1 + (spec.toWhereClause 1).2.length ≤ 2 ^ 64) (db : Db)
    (table : String) :
    view.selected b db (tokens table) (spec.expr 1) (spec.toWhereClause 1).2 =
      view.matching b db table spec := by
  apply List.filter_congr
  intro row _
  rw [decide_eq_decide]
  exact clause_selects b spec 1 hfits (view.cell row)

include hexec htable hfields hlists hfits

theorem findBy_matching {opts : QueryOptions}
    (horder : ∀ o ∈ opts.orderBy, Plain b.toDialect o.field) (hoffset : opts.offset = 0)
    (hlimit : (view.matching b db entity.tableName spec).length ≤ opts.limit)
    (hfind : GenericRepository.findBy (.ok exec) entity spec opts db = (.ok ts, db')) :
    ∃ found : List Row, found.Perm (view.matching b db entity.tableName spec) ∧
      (found.map view.read).mapM entity.fromRow = .ok ts := by
  obtain ⟨limit, hlimitEq⟩ := Int.eq_ofNat_of_zero_le (Int.le_trans (Int.natCast_nonneg _) hlimit)
  obtain ⟨rows, hquery, hread⟩ := GenericRepository.findMany_ok_iff.mp hfind
  have hparse := GenericRepository.parse_findBy htable hfields hlists horder hlimitEq hoffset
  obtain ⟨sorted, hperm, rfl⟩ := hexec.select _ _ _ _ _ _ _ _ _ _ hparse hquery
  rw [selected_eq_matching hfits] at hperm
  have hall : (sorted.drop 0).take limit = sorted := by
    rw [List.drop_zero]
    apply List.take_of_length_le
    rw [hperm.length_eq]
    omega
  rw [hall] at hread
  exact ⟨sorted, hperm, hread⟩

theorem countBy_matching {debug : DbValue → String}
    (hquery : exec.queryOne db
      s!"SELECT count(*) AS cnt FROM {entity.tableName} WHERE {(spec.toWhereClause 1).1}"
      (spec.toWhereClause 1).2 = (.ok row, db')) :
    GenericRepository.countBy (.ok exec) entity debug spec db =
      (.ok (view.matching b db entity.tableName spec).length, db') := by
  have hparse := GenericRepository.parse_countBy htable hfields hlists
  obtain ⟨hlt, hrow⟩ := hexec.count _ _ _ _ _ _ _ _ hparse hquery
  rw [selected_eq_matching hfits] at hlt hrow
  subst hrow
  exact GenericRepository.countRows_number hlt hquery

theorem countBy_iff {debug : DbValue → String} :
    GenericRepository.countBy (.ok exec) entity debug spec db = (.ok n, db') ↔
      (∃ row, exec.queryOne db
        s!"SELECT count(*) AS cnt FROM {entity.tableName} WHERE {(spec.toWhereClause 1).1}"
        (spec.toWhereClause 1).2 = (.ok row, db')) ∧
      n = (view.matching b db entity.tableName spec).length := by
  constructor
  · intro hcount
    obtain ⟨row, hquery, -⟩ := GenericRepository.countRows_ok hcount
    have hok := hcount.symm.trans (countBy_matching hexec htable hfields hlists hfits hquery)
    cases hok
    exact ⟨⟨row, hquery⟩, rfl⟩
  · rintro ⟨⟨row, hquery⟩, rfl⟩
    exact countBy_matching hexec htable hfields hlists hfits hquery

theorem deleteBy_matching
    (hdelete : GenericRepository.deleteBy (.ok exec) entity spec db = (.ok n, db')) :
    n = (view.matching b db entity.tableName spec).length ∧
      view.table db' (tokens entity.tableName) = (view.table db (tokens entity.tableName)).filter
        fun row => ¬ b.Selects (view.cell row) spec := by
  have hexecute := GenericRepository.affected_ok_iff.mp hdelete
  have hparse := GenericRepository.parse_deleteBy htable hfields hlists
  obtain ⟨hn, hrest⟩ := hexec.delete _ _ _ _ _ _ _ hparse hexecute
  rw [selected_eq_matching hfits] at hn
  refine ⟨hn, ?_⟩
  rw [hrest]
  apply List.filter_congr
  intro row _
  rw [decide_eq_decide, not_iff_not]
  exact clause_selects b spec 1 hfits (view.cell row)

end

theorem specification_meaning {b view} {exec : DbExecutor Db} (hexec : Obeys b view exec)
    (entity : EntityType T) (debug : DbValue → String) (spec : Specification)
    (hfields : ∀ field ∈ spec.fields, Plain b.toDialect field) (hlists : spec.ListsNonempty) :
    (∀ offset, offset + (spec.toWhereClause offset).2.length ≤ 2 ^ 64 →
      ∃ e, parseCondition b.toDialect (tokens (spec.toWhereClause offset).1) = some e ∧
        ∀ row : String → Option V,
          e.eval b.toDialect row (b.sent offset (spec.toWhereClause offset).2) = .true ↔
            b.Selects row spec) ∧
    (IsTableName b.toDialect entity.tableName → 1 + (spec.toWhereClause 1).2.length ≤ 2 ^ 64 →
      ∀ db : Db,
      (∀ (opts : QueryOptions) ts db',
        (GenericRepository.findBy (.ok exec) entity spec opts db = (.ok ts, db') ↔
          ∃ rows, exec.query db
            (s!"SELECT * FROM {entity.tableName} WHERE {(spec.toWhereClause 1).1}" ++
              GenericRepository.pageSql opts) (spec.toWhereClause 1).2 = (.ok rows, db') ∧
            rows.mapM entity.fromRow = .ok ts) ∧
        ((∀ o ∈ opts.orderBy, Plain b.toDialect o.field) → opts.offset = 0 →
          (view.matching b db entity.tableName spec).length ≤ opts.limit →
          GenericRepository.findBy (.ok exec) entity spec opts db = (.ok ts, db') →
          ∃ found : List Row, found.Perm (view.matching b db entity.tableName spec) ∧
            (found.map view.read).mapM entity.fromRow = .ok ts)) ∧
      (∀ n db', GenericRepository.countBy (.ok exec) entity debug spec db = (.ok n, db') ↔
        (∃ row, exec.queryOne db
          s!"SELECT count(*) AS cnt FROM {entity.tableName} WHERE {(spec.toWhereClause 1).1}"
          (spec.toWhereClause 1).2 = (.ok row, db')) ∧
        n = (view.matching b db entity.tableName spec).length) ∧
      ∀ n db', (GenericRepository.deleteBy (.ok exec) entity spec db = (.ok n, db') ↔
          exec.execute db s!"DELETE FROM {entity.tableName} WHERE {(spec.toWhereClause 1).1}"
            (spec.toWhereClause 1).2 = (.ok n, db')) ∧
        (GenericRepository.deleteBy (.ok exec) entity spec db = (.ok n, db') →
          n = (view.matching b db entity.tableName spec).length ∧
          view.table db' (tokens entity.tableName) =
            (view.table db (tokens entity.tableName)).filter
              fun row => ¬ b.Selects (view.cell row) spec)) := by
  refine ⟨fun offset hfits => ⟨spec.expr offset, ?_, fun row => ?_⟩,
    fun htable hfits db => ⟨?_, ?_, ?_⟩⟩
  · rw [(spec.lexes_clause offset fun f hf => (hfields f hf).inert.whole).1]
    exact parseCondition_of_parses (spec.parses _ offset hfields hlists) (spec.depth_le offset)
  · exact clause_selects b spec offset hfits row
  · intro opts ts db'
    refine ⟨GenericRepository.findMany_ok_iff, fun horder hoffset hlimit hfind => ?_⟩
    exact findBy_matching hexec htable hfields hlists hfits horder hoffset hlimit hfind
  · intro n db'
    exact countBy_iff hexec htable hfields hlists hfits
  · intro n db'
    refine ⟨GenericRepository.affected_ok_iff, fun hdelete => ?_⟩
    exact deleteBy_matching hexec htable hfields hlists hfits hdelete

end

-- ---------------------------------------------------------------------------
-- A database of one table
-- ---------------------------------------------------------------------------

/-- `%` stands for any text, `_` for one character. -/
def likeText : (pattern text : List Char) → Bool
  | [], text => text.isEmpty
  | '%' :: pattern, text => text.tails.any (likeText pattern)
  | '_' :: pattern, _ :: text => likeText pattern text
  | c :: pattern, e :: text => c = e && likeText pattern text
  | _ :: _, [] => false

def DbValue.like : DbValue → DbValue → Bool
  | .text s, .text pattern => likeText pattern.toList s.toList
  | _, _ => false

def DbValue.le : DbValue → DbValue → Bool
  | .bool v, .bool w => !v || w
  | .int m, .int n => m ≤ n
  | .text s, .text t => s ≤ t
  | _, _ => false

/-- Values without floats, compared with those of their own type. -/
def memory : Backend DbValue where
  reserved text := ["AND", "BETWEEN", "DELETE", "FROM", "IN", "LIKE", "LIMIT", "NOT", "NULL",
    "OFFSET", "OR", "ORDER", "SELECT", "WHERE"].contains text.toUpper
  eq v w := v = w
  like := DbValue.like
  le := DbValue.le
  bind v := if v.isNull then none else some v
  bind_null := rfl

abbrev MemoryRow := List (String × DbValue)

def memoryView : View (List MemoryRow) MemoryRow DbValue where
  table db name := if name = [.word "users"] then db else []
  cell row column := (row.lookup column).bind memory.bind
  read row := ⟨row.map Prod.fst, row.map Prod.snd⟩

/-- It does not sort. -/
def memoryExecutor : DbExecutor (List MemoryRow) where
  query db sql params :=
    match parseStatement memory.toDialect (tokens sql) with
    | some (.select table e [] limit offset) =>
      let rows := memoryView.selected memory db table e params
      (.ok (((rows.drop offset).take limit).map memoryView.read), db)
    | _ => (.error (queryFailed "query failed: not supported"), db)
  queryOne db sql params :=
    match parseStatement memory.toDialect (tokens sql) with
    | some (.count table e column) =>
      let rows := memoryView.selected memory db table e params
      if rows.length < 2 ^ 63 then (.ok (some ⟨[column], [.int rows.length]⟩), db)
      else (.error (queryFailed "query_one failed: bigint out of range"), db)
    | _ => (.error (queryFailed "query_one failed: not supported"), db)
  execute db sql params :=
    match parseStatement memory.toDialect (tokens sql) with
    | some (.delete [.word "users"] e) =>
      (.ok (memoryView.selected memory db [.word "users"] e params).length,
        db.filter fun row =>
          e.eval memory.toDialect (memoryView.cell row) (memory.sent 1 params) ≠ .true)
    | _ => (.error (queryFailed "execute failed: not supported"), db)

theorem memory_obeys : Obeys memory memoryView memoryExecutor where
  select := by
    intro db sql params table e order limit offset rows db' hparse hquery
    simp only [memoryExecutor, hparse] at hquery
    split at hquery
    · rename_i hstatement
      cases hstatement
      cases hquery
      exact ⟨_, .refl _, rfl⟩
    · cases hquery
  count := by
    intro db sql params table e column row db' hparse hquery
    simp only [memoryExecutor, hparse] at hquery
    split at hquery
    · rename_i hlt
      cases hquery
      exact ⟨hlt, rfl⟩
    · cases hquery
  delete := by
    intro db sql params table e n db' hparse hexecute
    simp only [memoryExecutor, hparse] at hexecute
    split at hexecute
    · rename_i hstatement
      cases hstatement
      cases hexecute
      exact ⟨rfl, rfl⟩
    · cases hexecute

def people : List MemoryRow :=
  [[("id", .int 1), ("name", .text "Ann")], [("id", .int 2), ("name", .null)],
    [("id", .int 3), ("name", .text "Bob")]]

def annOrThird : Specification :=
  .orSpec (.eqSpec "name" (.text "Ann")) (.inSpec "id" [.int 3, .null])

theorem specification_meaning_people :
    (∃ found : List MemoryRow,
      found.Perm (memoryView.matching memory people "users" annOrThird) ∧
      (found.map memoryView.read).mapM users.fromRow = .ok [(1, "Ann"), (3, "Bob")]) ∧
    2 = (memoryView.matching memory people "users" annOrThird).length ∧
    memoryView.table [people[1]] (tokens "users") =
      (memoryView.table people (tokens "users")).filter
        fun row => ¬ memory.Selects (memoryView.cell row) annOrThird := by
  obtain ⟨-, hcalls⟩ := specification_meaning memory_obeys users (fun _ => "") annOrThird
    (by decide +kernel) ⟨trivial, List.cons_ne_nil _ _⟩
  obtain ⟨hfind, hcount, hdelete⟩ := hcalls (by decide +kernel) (by decide) people
  exact ⟨(hfind {} _ people).2 nofun rfl (by decide +kernel) (by decide +kernel),
    ((hcount 2 people).mp (by decide +kernel)).2,
    ((hdelete 2 [people[1]]).2 (by decide +kernel)).2⟩

/-- Equality that also holds between NULL and NULL. -/
def NullOrEqual (eq : V → V → Bool) (x y : Option V) : Prop :=
  (x = none ∧ y = none) ∨ Compares eq x y

/-- A person without a name is not among those whose name is NULL, and no text is
a condition that asks for one of no values. -/
theorem null_name_unselected :
    let spec := Specification.eqSpec "name" .null
    let row := memoryView.cell people[1]
    spec.Holds (NullOrEqual memory.eq) (Compares memory.like) (Compares memory.le) memory.bind row ∧
      (parseCondition memory.toDialect (tokens (spec.toWhereClause 1).1)).map
        (Expr.eval memory.toDialect row (memory.sent 1 (spec.toWhereClause 1).2)) =
        some .unknown ∧
      parseCondition memory.toDialect
        (tokens ((Specification.inSpec "id" []).toWhereClause 1).1) = none := by
  exact ⟨.inl ⟨rfl, rfl⟩, by decide +kernel, by decide +kernel⟩

end Rinfra.Store
