import Mathlib.Logic.Function.Basic
import Rinfra.Lib.Sql.Statement

/-!
# Commands

What is asked of a database about one table, and what it does to the tables: `Does`.
`parseCommand` reads the commands that are no `Statement`, those without a condition
or without a page and those that add a row or change some.
-/

namespace Rinfra.Lib.Sql

inductive Command
  | select (table : List Token) (cond : Option Expr) (order : List SortKey)
      (page : Option (Nat × Nat))
  | count (table : List Token) (cond : Option Expr) (column : String)
  | probe (table : List Token) (cond : Expr) (limit : Nat)
  | insert (table : List Token) (columns : List String) (places : List Nat)
  | update (table : List Token) (sets : List (String × Nat)) (cond : Expr)
  | delete (table : List Token) (cond : Expr)
  deriving DecidableEq, Repr

def Statement.command : Statement → Command
  | .select table cond order limit offset => .select table (some cond) order (some (limit, offset))
  | .count table cond column => .count table (some cond) column
  | .delete table cond => .delete table cond

def Command.table : Command → List Token
  | .select table .. | .count table .. | .probe table .. | .insert table .. | .update table ..
  | .delete table .. => table

-- ---------------------------------------------------------------------------
-- Meaning
-- ---------------------------------------------------------------------------

/-- What the definitions of the tables say: the value that a column makes of one it is
given, the column that rows are told apart by, and what can stand there. -/
structure Definitions (V : Type) where
  store : List Token → String → Option V → Option V
  key : List Token → String
  isKey : List Token → V → Prop

abbrev Tables (Row : Type) := List Token → List Row

def slice {Row : Type} : Option (Nat × Nat) → List Row → List Row
  | none, rows => rows
  | some (limit, offset), rows => (rows.drop offset).take limit

section
variable {Row V : Type} (d : Dialect V) (defs : Definitions V) (cell : Row → String → Option V)
  (params : Nat → Option V)

/-- Without a condition every row is selected. -/
def selects : Option Expr → Row → Bool
  | none, _ => true
  | some e, row => e.eval d (cell row) params = .true

/-- The tables after a command, and the rows that it selects, adds, changes or removes.
Rows have no order. -/
inductive Does (before : Tables Row) : Command → (after : Tables Row) → (rows : List Row) → Prop
  | select {table : List Token} {cond : Option Expr} {order : List SortKey}
      {page : Option (Nat × Nat)} {sorted : List Row}
      (hsorted : sorted.Perm ((before table).filter (selects d cell params cond))) :
    Does before (.select table cond order page) before (slice page sorted)
  | count {table : List Token} {cond : Option Expr} {column : String} :
    Does before (.count table cond column) before
      ((before table).filter (selects d cell params cond))
  | probe {table : List Token} {cond : Expr} {limit : Nat} :
    Does before (.probe table cond limit) before
      (((before table).filter (selects d cell params (some cond))).take limit)
  | insert {table : List Token} {columns : List String} {places : List Nat} {row : Row} {v : V}
      {after : Tables Row} (hafter : (after table).Perm (row :: before table))
      (hother : ∀ other, other ≠ table → after other = before other)
      (hcells : columns.Nodup → ∀ p ∈ columns.zip places,
        cell row p.1 = defs.store table p.1 (params p.2))
      (hkey : cell row (defs.key table) = some v) (hv : defs.isKey table v)
      (hnew : ∀ r ∈ before table, cell r (defs.key table) ≠ some v) :
    Does before (.insert table columns places) after [row]
  | update {table : List Token} {sets : List (String × Nat)} {cond : Expr} {change : Row → Row}
      {after : Tables Row} {rows : List Row}
      (hafter : (after table).Perm ((before table).map fun row =>
        if selects d cell params (some cond) row then change row else row))
      (hother : ∀ other, other ≠ table → after other = before other)
      (hcells : (sets.map Prod.fst).Nodup →
        ∀ row ∈ before table, selects d cell params (some cond) row = true →
          ∀ p ∈ sets, cell (change row) p.1 = defs.store table p.1 (params p.2))
      (hkey : defs.key table ∉ sets.map Prod.fst →
        ∀ row ∈ before table, selects d cell params (some cond) row = true →
          cell (change row) (defs.key table) = cell row (defs.key table))
      (hrows : rows.Perm (((before table).filter (selects d cell params (some cond))).map change)) :
    Does before (.update table sets cond) after rows
  | delete {table : List Token} {cond : Expr} {after : Tables Row}
      (hafter : (after table).Perm ((before table).filter fun row =>
        !selects d cell params (some cond) row))
      (hother : ∀ other, other ≠ table → after other = before other) :
    Does before (.delete table cond) after
      ((before table).filter (selects d cell params (some cond)))

variable {d defs cell params}

@[simp] theorem filter_selects_none (rows : List Row) :
    rows.filter (selects d cell params none) = rows :=
  List.filter_eq_self.mpr fun _ _ => rfl

/-- The other tables are left as they are. -/
theorem Does.other {before after : Tables Row} {cmd : Command} {rows : List Row}
    (h : Does d defs cell params before cmd after rows) {other : List Token}
    (hne : other ≠ cmd.table) : after other = before other := by
  cases h with
  | select | count | probe => rfl
  | insert _ hother | update _ hother | delete _ hother => exact hother other hne

end

-- ---------------------------------------------------------------------------
-- Parsing
-- ---------------------------------------------------------------------------

def listed {α : Type} (item : Token → Option α) : List Token → Option (List α × List Token)
  | t :: .sym ')' :: rest => do
    let x ← item t
    return ([x], rest)
  | t :: .sym ',' :: rest => do
    let x ← item t
    let (xs, rest) ← listed item rest
    return (x :: xs, rest)
  | _ => none

section
variable {V : Type} (d : Dialect V)

def columnName : Token → Option String
  | .word text => if d.isName text then some text else none
  | _ => none

def assignment (column value : Token) : Option (String × Nat) := do
  return (← columnName d column, ← value.param?)

def assignments : List Token → Option (List (String × Nat) × List Token)
  | column :: .sym '=' :: value :: .sym ',' :: rest => do
    let set ← assignment d column value
    let (sets, rest) ← assignments rest
    return (set :: sets, rest)
  | column :: .sym '=' :: value :: rest => do
    let set ← assignment d column value
    return ([set], rest)
  | _ => none

/-- What a statement asks for is given back with `RETURNING *`. -/
def parseCommand : List Token → Option Command
  | .word "SELECT" :: .sym '*' :: .word "FROM" :: ts => do
    let (table, ts) ← tableName d ts
    match ts with
    | .word "WHERE" :: _ => do
      let (cond, []) ← whereClause d ts | none
      return .select table (some cond) [] none
    | _ => do
      let (order, ts) ← ordering d ts
      return .select table none order (some (← page ts))
  | .word "SELECT" :: .word "count" :: .sym '(' :: .sym '*' :: .sym ')' :: .word "AS" ::
      .word column :: .word "FROM" :: ts => do
    let (table, []) ← tableName d ts | none
    return .count table none column
  | .word "SELECT" :: .word "1" :: .word "FROM" :: ts => do
    let (table, ts) ← tableName d ts
    let (cond, [.word "LIMIT", limit]) ← whereClause d ts | none
    return .probe table cond (← number limit)
  | .word "INSERT" :: .word "INTO" :: ts => do
    let (table, .sym '(' :: ts) ← tableName d ts | none
    let (columns, .word "VALUES" :: .sym '(' :: ts) ← listed (columnName d) ts | none
    let (places, [.word "RETURNING", .sym '*']) ← listed Token.param? ts | none
    return .insert table columns places
  | .word "UPDATE" :: ts => do
    let (table, .word "SET" :: ts) ← tableName d ts | none
    let (sets, ts) ← assignments d ts
    let (cond, [.word "RETURNING", .sym '*']) ← whereClause d ts | none
    return .update table sets cond
  | _ => none

/-- The tokens are the command, as one of these or as a statement. -/
def Means (ts : List Token) (cmd : Command) : Prop :=
  parseCommand d ts = some cmd ∨ ∃ s, parseStatement d ts = some s ∧ s.command = cmd

end

-- ---------------------------------------------------------------------------
-- Rules
-- ---------------------------------------------------------------------------

theorem listed_append {α : Type} {item : Token → Option α} {write : α → Token} {xs : List α}
    (h : ∀ x ∈ xs, item (write x) = some x) (hne : xs ≠ []) (rest : List Token) :
    listed item (sepBy (.sym ',') (xs.map fun x => [write x]) ++ .sym ')' :: rest) =
      some (xs, rest) := by
  induction xs with
  | nil => exact absurd rfl hne
  | cons x xs ih =>
    have hx := h x List.mem_cons_self
    cases xs with
    | nil => simp [sepBy, listed, hx]
    | cons y xs =>
      have htail := ih (fun z hz => h z (List.mem_cons_of_mem _ hz)) (by simp)
      simp only [List.map_cons] at htail
      simp [sepBy, listed, hx, htail]

variable {V : Type} {d : Dialect V}

theorem columnName_word {text : String} (h : d.isName text = true) :
    columnName d (.word text) = some text := if_pos h

theorem assignments_append {sets : List (String × Nat)} (h : ∀ p ∈ sets, d.isName p.1 = true)
    (hne : sets ≠ []) {rest : List Token} (hrest : rest.head? ≠ some (.sym ',')) :
    assignments d (sepBy (.sym ',') (sets.map fun p => [.word p.1, .sym '=', .param p.2]) ++ rest) =
      some (sets, rest) := by
  induction sets with
  | nil => exact absurd rfl hne
  | cons p sets ih =>
    have hp : assignment d (.word p.1) (.param p.2) = some p := by
      simp [assignment, columnName_word (h p List.mem_cons_self), Token.param?]
    cases sets with
    | nil =>
      cases rest with
      | nil => simp [sepBy, assignments, hp]
      | cons t rest =>
        have hcomma : t ≠ .sym ',' := fun ht => hrest (congrArg some ht)
        simp [sepBy, assignments, hp, hcomma]
    | cons q sets =>
      have htail := ih (fun z hz => h z (List.mem_cons_of_mem _ hz)) (by simp)
      simp only [List.map_cons] at htail
      simp [sepBy, assignments, hp, htail]

section
variable {table : List Token} (htable : isTable d table = true)
include htable

theorem parse_list {order : List SortKey} (horder : ∀ key ∈ order, d.isName key.1 = true)
    (limit offset : Nat) :
    parseCommand d (.word "SELECT" :: .sym '*' :: .word "FROM" ::
      (table ++ (orderTokens order ++ pageTokens limit offset))) =
      some (.select table none order (some (limit, offset))) := by
  have hpage := ordering_orderTokens horder limit offset
  -- What follows the name is neither a dot nor a condition.
  obtain ⟨text, rest, hrest, hne⟩ : ∃ text rest,
      orderTokens order ++ pageTokens limit offset = .word text :: rest ∧ text ≠ "WHERE" := by
    unfold orderTokens
    split
    · exact ⟨"LIMIT", _, rfl, by decide⟩
    · exact ⟨"ORDER", _, rfl, by decide⟩
  have hname : tableName d (table ++ .word text :: rest) = some (table, .word text :: rest) :=
    tableName_append htable (by simp)
  rw [hrest] at hpage ⊢
  simp [parseCommand, hname, hne, hpage, page_pageTokens]

theorem parse_size (column : String) :
    parseCommand d (.word "SELECT" :: .word "count" :: .sym '(' :: .sym '*' :: .sym ')' ::
      .word "AS" :: .word column :: .word "FROM" :: table) = some (.count table none column) := by
  have hname : tableName d (table ++ []) = some (table, []) := tableName_append htable nofun
  rw [List.append_nil] at hname
  simp [parseCommand, hname]

theorem parse_insert {columns : List String} {places : List Nat}
    (hcolumns : ∀ column ∈ columns, d.isName column = true) (hne : columns ≠ [])
    (hplaces : places ≠ []) :
    parseCommand d (.word "INSERT" :: .word "INTO" :: (table ++ (.sym '(' ::
      (sepBy (.sym ',') (columns.map fun column => [.word column]) ++ (.sym ')' ::
        .word "VALUES" :: .sym '(' :: (sepBy (.sym ',') (places.map fun n => [.param n]) ++
          [.sym ')', .word "RETURNING", .sym '*'])))))) = some (.insert table columns places) := by
  have hname : ∀ rest, tableName d (table ++ .sym '(' :: rest) = some (table, .sym '(' :: rest) :=
    fun rest => tableName_append htable (by simp)
  have hword : ∀ column ∈ columns, columnName d (.word column) = some column :=
    fun column hcolumn => columnName_word (hcolumns column hcolumn)
  have hparam : ∀ n ∈ places, (Token.param n).param? = some n := fun n _ => rfl
  have hlist := listed_append hword hne
  have hnumbers := listed_append hparam hplaces
  simp [parseCommand, hname, hlist, hnumbers]

end

section
variable {table ts : List Token} {e : Expr} {depth : Nat}
  (htable : isTable d table = true) (hcond : Parses d depth ts e) (hdepth : depth ≤ ts.length)
include htable hcond hdepth

theorem parse_find :
    parseCommand d (.word "SELECT" :: .sym '*' :: .word "FROM" ::
      (table ++ (.word "WHERE" :: ts))) = some (.select table (some e) [] none) := by
  have hwhere : whereClause d (.word "WHERE" :: (ts ++ [])) = some (e, []) :=
    whereClause_append hcond hdepth (by decide)
  rw [List.append_nil] at hwhere
  simp [parseCommand, tableName_where htable, hwhere]

theorem parse_probe (limit : Nat) :
    parseCommand d (.word "SELECT" :: .word "1" :: .word "FROM" ::
      (table ++ (.word "WHERE" :: (ts ++ [.word "LIMIT", .word limit.repr])))) =
      some (.probe table e limit) := by
  have hends : Ends [.word "LIMIT", .word limit.repr] := ⟨by simp, by simp⟩
  have hwhere := whereClause_append hcond hdepth hends
  simp [parseCommand, tableName_where htable, hwhere, number_repr]

theorem parse_update {sets : List (String × Nat)} (hsets : ∀ p ∈ sets, d.isName p.1 = true)
    (hne : sets ≠ []) :
    parseCommand d (.word "UPDATE" :: (table ++ (.word "SET" ::
      (sepBy (.sym ',') (sets.map fun p => [.word p.1, .sym '=', .param p.2]) ++
        (.word "WHERE" :: (ts ++ [.word "RETURNING", .sym '*'])))))) =
      some (.update table sets e) := by
  have hname : ∀ rest, tableName d (table ++ .word "SET" :: rest) =
      some (table, .word "SET" :: rest) := fun rest => tableName_append htable (by simp)
  have hhead : ∀ rest, (Token.word "WHERE" :: rest).head? ≠ some (.sym ',') := by simp
  have hlist := assignments_append hsets hne (hhead (ts ++ [.word "RETURNING", .sym '*']))
  have hends : Ends [.word "RETURNING", .sym '*'] := by decide
  have hwhere := whereClause_append hcond hdepth hends
  simp [parseCommand, hname, hlist, hwhere]

end

end Rinfra.Lib.Sql
