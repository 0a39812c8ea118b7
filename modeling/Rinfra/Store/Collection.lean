import Rinfra.Lib.Listing
import Rinfra.Store.Commands

/-!
# The repository as a map

To its callers a repository is a map from ids to entities, and `Answers` is what the
operations do with it. What a command does to a table that is defined for the entity
(`Maps`) is what the operation does to the map.

The columns of the table may make another value of one that they are given, as their
types say, as long as the entity is read back.
-/

namespace Rinfra.Store

open Rinfra.Lib Rinfra.Lib.Sql

variable {Db Row V T : Type}

inductive Reply (T : Type)
  | found (entity : Option T)
  | all (entities : List T)
  | stored (entity : T)
  | number (n : Nat)
  | yes (b : Bool)
  deriving DecidableEq, Repr

-- ---------------------------------------------------------------------------
-- The map
-- ---------------------------------------------------------------------------

abbrev Collection (T : Type) := Int → Option T

section
variable (b : Backend V) (defs : Definitions V) (entity : EntityType T)

def cells (t : T) (column : String) : Option V :=
  if column = entity.idColumn then b.bind (.int (entity.id t))
  else match (entity.toParams t).lookup column with
    | some v => defs.store (tokens entity.tableName) column (b.bind v)
    | none => none

def meets (spec : Specification) (t : T) : Bool := b.Selects (cells b defs entity t) spec

/-- What an operation answers, and the map after it. The order of a list is the
database's, and so is the id of a new entity. -/
inductive Answers (m : Collection T) : Operation T → Reply T → Collection T → Prop
  | findById {id : Int} : Answers m (.findById id) (.found (m id)) m
  | findAll {opts : QueryOptions} {ts : List T} (h : Lists entity.id m ts) :
    Answers m (.findAll opts) (.all (slice (some opts.page) ts)) m
  | count {ts : List T} (h : Lists entity.id m ts) : Answers m .count (.number ts.length) m
  | create {t t' : T} (hparams : entity.toParams t' = entity.toParams t)
      (hnew : m (entity.id t') = none) :
    Answers m (.create t) (.stored t') (Function.update m (entity.id t') (some t'))
  | update {t t' : T} (hparams : entity.toParams t' = entity.toParams t)
      (hid : entity.id t' = entity.id t) (hold : m (entity.id t) ≠ none) :
    Answers m (.update t) (.stored t') (Function.update m (entity.id t) (some t'))
  | delete {id : Int} :
    Answers m (.delete id) (.yes (m id).isSome) (Function.update m id none)
  | exists_ {id : Int} : Answers m (.exists_ id) (.yes (m id).isSome) m
  | findBy {spec : Specification} {opts : QueryOptions} {ts : List T}
      (h : Lists entity.id (those m (meets b defs entity spec)) ts) :
    Answers m (.findBy spec opts) (.all (slice (some opts.page) ts)) m
  | countBy {spec : Specification} {ts : List T}
      (h : Lists entity.id (those m (meets b defs entity spec)) ts) :
    Answers m (.countBy spec) (.number ts.length) m
  | deleteBy {spec : Specification} {ts : List T}
      (h : Lists entity.id (those m (meets b defs entity spec)) ts) :
    Answers m (.deleteBy spec) (.number ts.length)
      (those m fun t => !meets b defs entity spec t)

end

-- ---------------------------------------------------------------------------
-- The table
-- ---------------------------------------------------------------------------

section
variable (b : Backend V) (view : View Db Row V) (defs : Definitions V)

/-- The table has an integer key, which the database gives, and the entity's columns; a row
with the values of an entity is read as that entity, with the row's key for its id. -/
structure Maps (entity : EntityType T) (columns : List String) : Prop where
  table : IsTableName b.toDialect entity.tableName
  names : ∀ column ∈ entity.idColumn :: columns, Plain b.toDialect column
  distinct : (entity.idColumn :: columns).Nodup
  nonempty : columns ≠ []
  params : ∀ t, (entity.toParams t).map Prod.fst = columns
  key : defs.key (tokens entity.tableName) = entity.idColumn
  isKey : ∀ v, defs.isKey (tokens entity.tableName) v → ∃ n, b.bind (.int n) = some v
  ints : ∀ n, ∃ v, b.bind (.int n) = some v
  eq : ∀ n v k w, b.bind (.int n) = some v → b.bind (.int k) = some w → (b.eq v w = true ↔ n = k)
  reads : ∀ row t n, view.cell row entity.idColumn = b.bind (.int n) →
    (∀ p ∈ entity.toParams t,
      view.cell row p.1 = defs.store (tokens entity.tableName) p.1 (b.bind p.2)) →
    ∃ t', entity.fromRow (view.read row) = .ok t' ∧ entity.id t' = n ∧
      entity.toParams t' = entity.toParams t

structure Reads (entity : EntityType T) (row : Row) (t : T) : Prop where
  read : entity.fromRow (view.read row) = .ok t
  key : view.cell row entity.idColumn = b.bind (.int (entity.id t))
  params : ∀ p ∈ entity.toParams t,
    view.cell row p.1 = defs.store (tokens entity.tableName) p.1 (b.bind p.2)

def Represents (entity : EntityType T) (rows : List Row) (m : Collection T) : Prop :=
  ∃ ts, List.Forall₂ (Reads b view defs entity) rows ts ∧ Lists entity.id m ts

end

/-- The specification is about these columns, and its parameters have numbers. -/
structure Specification.Within (columns : List String) (spec : Specification) : Prop where
  fields : ∀ field ∈ spec.fields, field ∈ columns
  lists : spec.ListsNonempty
  fits : 1 + spec.params.length ≤ 2 ^ 64

/-- What is asked for can be asked for. -/
def Operation.Within (d : Dialect V) (columns : List String) : Operation T → Prop
  | .findById _ | .count | .create _ | .update _ | .delete _ | .exists_ _ => True
  | .findAll opts => opts.Proper d
  | .findBy spec opts => spec.Within columns ∧ opts.Proper d
  | .countBy spec | .deleteBy spec => spec.Within columns

-- ---------------------------------------------------------------------------
-- Rows
-- ---------------------------------------------------------------------------

section
variable {b : Backend V} {view : View Db Row V} {defs : Definitions V} {entity : EntityType T}
  {columns : List String}

theorem Specification.Within.proper (hmaps : Maps b view defs entity columns)
    {spec : Specification} (h : spec.Within (entity.idColumn :: columns)) :
    spec.Proper b.toDialect where
  fields field hfield := hmaps.names field (h.fields field hfield)
  lists := h.lists

theorem Maps.properParams (hmaps : Maps b view defs entity columns) (t : T) :
    ProperParams b.toDialect (entity.toParams t) where
  columns column hcolumn := by
    rw [hmaps.params] at hcolumn
    exact hmaps.names column (List.mem_cons_of_mem _ hcolumn)
  nonempty hnil := by
    have hparams := hmaps.params t
    rw [hnil] at hparams
    exact hmaps.nonempty hparams.symm

theorem Operation.Within.proper (hmaps : Maps b view defs entity columns) {op : Operation T}
    (h : op.Within b.toDialect (entity.idColumn :: columns)) : op.Proper b.toDialect entity := by
  cases op with
  | findById | count | delete | exists_ => trivial
  | findAll opts => exact h
  | create t | update t => exact hmaps.properParams t
  | findBy spec opts => exact ⟨h.1.proper hmaps, h.2⟩
  | countBy spec | deleteBy spec => exact Specification.Within.proper hmaps h

theorem Specification.holds_congr {equal like le : Option V → Option V → Prop}
    {bind : DbValue → Option V} {row row' : String → Option V} (spec : Specification)
    (h : ∀ field ∈ spec.fields, row field = row' field) :
    spec.Holds equal like le bind row ↔ spec.Holds equal like le bind row' := by
  induction spec with
  | andSpec left right ihl ihr =>
    have hl := ihl fun field hf => h field (List.mem_append_left _ hf)
    have hr := ihr fun field hf => h field (List.mem_append_right _ hf)
    simp only [Holds, hl, hr]
  | orSpec left right ihl ihr =>
    have hl := ihl fun field hf => h field (List.mem_append_left _ hf)
    have hr := ihr fun field hf => h field (List.mem_append_right _ hf)
    simp only [Holds, hl, hr]
  | eqSpec field | likeSpec field | inSpec field | betweenSpec field =>
    simp only [Holds, h field (by simp [fields])]

theorem Reads.cell {row : Row} {t : T} (h : Reads b view defs entity row t)
    (hcolumns : (entity.toParams t).map Prod.fst = columns) {column : String}
    (hcolumn : column ∈ entity.idColumn :: columns) :
    view.cell row column = cells b defs entity t column := by
  unfold cells
  split
  · rename_i hid
    rw [hid]
    exact h.key
  · rename_i hid
    have hmem : column ∈ (entity.toParams t).map Prod.fst := by
      rw [hcolumns]
      exact (List.mem_cons.mp hcolumn).resolve_left hid
    split
    · rename_i v hlookup
      obtain ⟨before, after, heq, -⟩ := List.lookup_eq_some_iff.mp hlookup
      exact h.params (column, v) (by simp [heq])
    · rename_i hlookup
      obtain ⟨p, hp, rfl⟩ := List.mem_map.mp hmem
      have hne := List.lookup_eq_none_iff.mp hlookup p hp
      simp at hne

/-- The rows that a condition selects are the entities that it is true of. -/
theorem Reads.filter {rows : List Row} {ts : List T} {p : Row → Bool} {q : T → Bool}
    (h : List.Forall₂ (Reads b view defs entity) rows ts)
    (hpq : ∀ row t, Reads b view defs entity row t → p row = q t) :
    List.Forall₂ (Reads b view defs entity) (rows.filter p) (ts.filter q) :=
  List.rel_filter (fun row t hreads => iff_of_eq (congrArg (· = true) (hpq row t hreads))) h

theorem Reads.isSome {rows : List Row} {found : Option T}
    (h : List.Forall₂ (Reads b view defs entity) rows found.toList) :
    found.isSome = !rows.isEmpty := by
  cases found with
  | none =>
    cases h
    rfl
  | some t =>
    cases h
    rfl

theorem Reads.mapM {rows : List Row} {ts : List T}
    (h : List.Forall₂ (Reads b view defs entity) rows ts) :
    (rows.map view.read).mapM entity.fromRow = .ok ts := by
  induction h with
  | nil => rfl
  | cons hrow _ ih =>
    simp only [List.map_cons, List.mapM_cons, hrow.read, ih]
    rfl

theorem perm_toList {ts : List T} {found : Option T} (h : ts.Perm found.toList) :
    ts = found.toList := by
  cases found with
  | none => exact List.perm_nil.mp h
  | some t => exact List.perm_singleton.mp h

theorem Represents.of_perm {rows rows' : List Row} {m : Collection T}
    (h : Represents b view defs entity rows m) (hperm : rows'.Perm rows) :
    Represents b view defs entity rows' m := by
  obtain ⟨ts, hreads, hlists⟩ := h
  obtain ⟨ts', hreads', hperm'⟩ := List.perm_comp_forall₂ hperm hreads
  exact ⟨ts', hreads', hlists.perm hperm'⟩

theorem Represents.id_eq {rows : List Row} {m : Collection T} {id : Int} {t : T}
    (h : Represents b view defs entity rows m) (ht : m id = some t) : entity.id t = id := by
  obtain ⟨ts, -, hlists⟩ := h
  exact ((hlists.mem id t).mp ht).2

theorem Represents.length {rows : List Row} {m : Collection T}
    (h : Represents b view defs entity rows m) :
    ∃ ts, Lists entity.id m ts ∧ ts.length = rows.length := by
  obtain ⟨ts, hreads, hlists⟩ := h
  exact ⟨ts, hlists, hreads.length_eq.symm⟩

theorem Represents.slice {rows : List Row} {m : Collection T}
    (h : Represents b view defs entity rows m) (page : Nat × Nat) :
    ∃ ts, Lists entity.id m ts ∧ List.Forall₂ (Reads b view defs entity)
      (Sql.slice (some page) rows) (Sql.slice (some page) ts) := by
  obtain ⟨ts, hreads, hlists⟩ := h
  exact ⟨ts, hlists, List.forall₂_take _ (List.forall₂_drop _ hreads)⟩

theorem Represents.split {rows : List Row} {m : Collection T} {id : Int} {t : T}
    (h : Represents b view defs entity rows m) (ht : m id = some t) :
    ∃ row others, rows.Perm (row :: others) ∧ Reads b view defs entity row t ∧
      Represents b view defs entity others (Function.update m id none) := by
  obtain ⟨ts, hreads, hlists⟩ := h
  obtain ⟨us, hperm, hus⟩ := hlists.split ht
  obtain ⟨_, hsplit, hrows⟩ := List.perm_comp_forall₂ hperm.symm hreads.flip
  cases hsplit with
  | cons hrow hothers => exact ⟨_, _, hrows.symm, hrow, us, hothers.flip, hus⟩

theorem Represents.insert {rows : List Row} {m : Collection T} {row : Row} {t : T}
    (h : Represents b view defs entity rows m) (hrow : Reads b view defs entity row t)
    (hnew : m (entity.id t) = none) :
    Represents b view defs entity (row :: rows) (Function.update m (entity.id t) (some t)) := by
  obtain ⟨ts, hreads, hlists⟩ := h
  exact ⟨t :: ts, .cons hrow hreads, hlists.insert hnew⟩

variable (hmaps : Maps b view defs entity columns)
include hmaps

theorem selects_byKey {row : Row} {t : T} (h : Reads b view defs entity row t)
    {params : Nat → Option V} {n : Nat} {id : Int} (hid : params n = b.bind (.int id)) :
    selects b.toDialect view.cell params (some (Operation.byKey entity n)) row =
      decide (entity.id t = id) := by
  obtain ⟨v, hv⟩ := hmaps.ints (entity.id t)
  obtain ⟨w, hw⟩ := hmaps.ints id
  have heq := hmaps.eq _ _ _ _ hv hw
  have hcell := h.key
  rw [hv] at hcell
  rw [hw] at hid
  rw [selects, Operation.byKey, Expr.eval, Operand.eval, Operand.eval, hcell, hid,
    decide_eq_decide, compare_eq_true, ← heq]
  simp

theorem selects_spec {row : Row} {t : T} (h : Reads b view defs entity row t)
    {spec : Specification} (hspec : spec.Within (entity.idColumn :: columns)) :
    selects b.toDialect view.cell (b.sent 1 (spec.toWhereClause 1).2) (some (spec.expr 1)) row =
      meets b defs entity spec t := by
  have hfits : 1 + (spec.toWhereClause 1).2.length ≤ 2 ^ 64 := by
    rw [spec.toWhereClause_snd]
    exact hspec.fits
  rw [selects, meets, decide_eq_decide, clause_selects b spec 1 hfits]
  exact spec.holds_congr fun field hfield => h.cell (hmaps.params t) (hspec.fields field hfield)

theorem Represents.byKey {rows : List Row} {m : Collection T}
    (h : Represents b view defs entity rows m) {params : Nat → Option V} {n : Nat} {id : Int}
    (hid : params n = b.bind (.int id)) :
    List.Forall₂ (Reads b view defs entity)
      (rows.filter (selects b.toDialect view.cell params (some (Operation.byKey entity n))))
      (m id).toList := by
  obtain ⟨ts, hreads, hlists⟩ := h
  rw [← hlists.filter_key id]
  exact Reads.filter hreads fun row t hrow => selects_byKey hmaps hrow hid

theorem Represents.bySpec {rows : List Row} {m : Collection T}
    (h : Represents b view defs entity rows m) {spec : Specification}
    (hspec : spec.Within (entity.idColumn :: columns)) :
    Represents b view defs entity
      (rows.filter (selects b.toDialect view.cell (b.sent 1 (spec.toWhereClause 1).2)
        (some (spec.expr 1)))) (those m (meets b defs entity spec)) := by
  obtain ⟨ts, hreads, hlists⟩ := h
  exact ⟨_, Reads.filter hreads fun row t hrow => selects_spec hmaps hrow hspec,
    hlists.filter _⟩

theorem Represents.erase {rows : List Row} {m : Collection T}
    (h : Represents b view defs entity rows m) {params : Nat → Option V} {n : Nat} {id : Int}
    (hid : params n = b.bind (.int id)) :
    Represents b view defs entity
      (rows.filter fun row =>
        !selects b.toDialect view.cell params (some (Operation.byKey entity n)) row)
      (Function.update m id none) := by
  obtain ⟨ts, hreads, hlists⟩ := h
  refine ⟨_, Reads.filter hreads fun row t hrow => ?_, hlists.erase id⟩
  rw [selects_byKey hmaps hrow hid]
  exact decide_not.symm

theorem Represents.eraseBySpec {rows : List Row} {m : Collection T}
    (h : Represents b view defs entity rows m) {spec : Specification}
    (hspec : spec.Within (entity.idColumn :: columns)) :
    Represents b view defs entity
      (rows.filter fun row => !selects b.toDialect view.cell (b.sent 1 (spec.toWhereClause 1).2)
        (some (spec.expr 1)) row) (those m fun t => !meets b defs entity spec t) := by
  obtain ⟨ts, hreads, hlists⟩ := h
  refine ⟨_, Reads.filter hreads fun row t hrow => ?_, hlists.filter _⟩
  rw [selects_spec hmaps hrow hspec]

-- ---------------------------------------------------------------------------
-- Commands on the map
-- ---------------------------------------------------------------------------

omit hmaps in
def Replies (b : Backend V) (view : View Db Row V) (defs : Definitions V) (entity : EntityType T)
    (rows : List Row) : Operation T → Reply T → Prop
  | .findById _, .found found => List.Forall₂ (Reads b view defs entity) rows found.toList
  | .findAll _, .all ts | .findBy _ _, .all ts =>
    List.Forall₂ (Reads b view defs entity) rows ts
  | .create _, .stored t | .update _, .stored t =>
    List.Forall₂ (Reads b view defs entity) rows [t]
  | .count, .number n | .countBy _, .number n | .deleteBy _, .number n => n = rows.length
  | .delete _, .yes found | .exists_ _, .yes found => found = !rows.isEmpty
  | _, _ => False

omit hmaps in
theorem sent_succ (params : List DbValue) (i : Nat) :
    b.sent 1 params (i + 1) = params[i]?.bind b.bind := by
  rw [Backend.sent, Nat.add_comm, paramAt_add]

omit hmaps in
theorem sent_create {t : T} {p : String × DbValue} {i : Nat}
    (h : (entity.toParams t)[i]? = some p) :
    b.sent 1 ((Operation.create t).params entity) (i + 1) = b.bind p.2 := by
  rw [sent_succ, Operation.params, GenericRepository.insertSql_snd, List.getElem?_map, h]
  rfl

omit hmaps in
theorem sent_update {t : T} {p : String × DbValue} {i : Nat}
    (h : (entity.toParams t)[i]? = some p) :
    b.sent 1 ((Operation.update t).params entity) (i + 1) = b.bind p.2 := by
  have hlt := (List.getElem?_eq_some_iff.mp h).1
  rw [sent_succ, Operation.params, GenericRepository.updateSql_snd,
    List.getElem?_append_left (by simpa using hlt), List.getElem?_map, h]
  rfl

omit hmaps in
theorem sent_update_id (entity : EntityType T) (t : T) :
    b.sent 1 ((Operation.update t).params entity) ((entity.toParams t).length + 1) =
      b.bind (.int (entity.id t)) := by
  rw [sent_succ]
  simp [Operation.params, GenericRepository.updateSql_snd]

/-- A row with a key and the values of an entity is the entity under that key. -/
theorem Maps.read_row {row : Row} {t : T} {n : Int}
    (hkey : view.cell row entity.idColumn = b.bind (.int n))
    (hparams : ∀ p ∈ entity.toParams t,
      view.cell row p.1 = defs.store (tokens entity.tableName) p.1 (b.bind p.2)) :
    ∃ t', Reads b view defs entity row t' ∧ entity.id t' = n ∧
      entity.toParams t' = entity.toParams t := by
  obtain ⟨t', hread, rfl, hsame⟩ := hmaps.reads row t n hkey hparams
  refine ⟨t', ⟨hread, hkey, ?_⟩, rfl, hsame⟩
  rw [hsame]
  exact hparams

section
variable {before after : Tables Row} {rows : List Row} {m : Collection T}
  (hrep : Represents b view defs entity (before (tokens entity.tableName)) m)
include hrep

theorem insert_answers {t : T}
    (h : Does b.toDialect defs view.cell (b.sent 1 ((Operation.create t).params entity)) before
      ((Operation.create t).command entity) after rows) :
    ∃ t', Represents b view defs entity (after (tokens entity.tableName))
        (Function.update m (entity.id t') (some t')) ∧
      Answers b defs entity m (.create t) (.stored t')
        (Function.update m (entity.id t') (some t')) ∧
      List.Forall₂ (Reads b view defs entity) rows [t'] := by
  cases h with
  | @insert _ _ _ row v _ hafter hother hcells hkey hv hnew =>
    rw [hmaps.key] at hkey hnew
    obtain ⟨n, hn⟩ := hmaps.isKey v hv
    have hdistinct : ((entity.toParams t).map Prod.fst).Nodup := by
      rw [hmaps.params]
      exact (List.nodup_cons.mp hmaps.distinct).2
    have hparams : ∀ p ∈ entity.toParams t,
        view.cell row p.1 = defs.store (tokens entity.tableName) p.1 (b.bind p.2) := by
      intro p hp
      obtain ⟨i, hi⟩ := List.mem_iff_getElem?.mp hp
      have hmem : (p.1, i + 1) ∈ ((entity.toParams t).map Prod.fst).zip
          (List.range' 1 (entity.toParams t).length) := by
        obtain ⟨hlt, rfl⟩ := List.getElem?_eq_some_iff.mp hi
        exact List.mem_iff_getElem.mpr ⟨i, by simp [hlt], by simp [Nat.add_comm]⟩
      rw [hcells hdistinct _ hmem, sent_create hi]
    obtain ⟨t', hrow, hid, hsame⟩ := hmaps.read_row (hkey.trans hn.symm) hparams
    have hfresh : m (entity.id t') = none := by
      cases hm : m (entity.id t') with
      | none => rfl
      | some u =>
        obtain ⟨other, others, hperm, hother, -⟩ := hrep.split hm
        have hcell := hother.key
        rw [hrep.id_eq hm, hid, hn] at hcell
        exact absurd hcell (hnew other (hperm.mem_iff.mpr List.mem_cons_self))
    exact ⟨t', (hrep.insert hrow hfresh).of_perm hafter, .create hsame hfresh, .cons hrow .nil⟩

theorem update_answers {t : T}
    (h : Does b.toDialect defs view.cell (b.sent 1 ((Operation.update t).params entity)) before
      ((Operation.update t).command entity) after rows) :
    (m (entity.id t) = none ∧ rows = [] ∧
      Represents b view defs entity (after (tokens entity.tableName)) m) ∨
    ∃ t', Represents b view defs entity (after (tokens entity.tableName))
        (Function.update m (entity.id t) (some t')) ∧
      Answers b defs entity m (.update t) (.stored t')
        (Function.update m (entity.id t) (some t')) ∧
      List.Forall₂ (Reads b view defs entity) rows [t'] := by
  cases h with
  | @update _ _ _ change _ _ hafter hother hcells hkey hrows =>
    cases hm : m (entity.id t) with
    | none =>
      left
      have hnone := hrep.byKey hmaps (sent_update_id entity t)
      rw [hm, Option.toList_none, List.forall₂_nil_right_iff] at hnone
      rw [hnone] at hrows
      refine ⟨rfl, List.perm_nil.mp hrows, hrep.of_perm ?_⟩
      -- No row is changed.
      refine hafter.trans (.of_eq ((List.map_congr_left fun row hrow => ?_).trans (List.map_id' _)))
      exact if_neg (List.filter_eq_nil_iff.mp hnone row hrow)
    | some u =>
      right
      obtain ⟨row, others, hperm, hrow, hothers⟩ := hrep.split hm
      have hid : entity.id u = entity.id t := hrep.id_eq hm
      have hselected := selects_byKey hmaps hrow (sent_update_id entity t)
      rw [hid, decide_eq_true rfl] at hselected
      have hunselected := hothers.byKey hmaps (sent_update_id entity t)
      rw [Function.update_self, Option.toList_none, List.forall₂_nil_right_iff] at hunselected
      have hmem : row ∈ before (tokens entity.tableName) :=
        hperm.mem_iff.mpr List.mem_cons_self
      have hnames : ((entity.toParams t).zipIdx.map fun x => (x.1.1, x.2 + 1)).map Prod.fst =
          columns := by
        rw [← hmaps.params t, List.map_map, ← List.zipIdx_map_fst 0 (entity.toParams t),
          List.map_map, List.zipIdx_map_fst]
        rfl
      obtain ⟨hkeyless, hdistinct⟩ := List.nodup_cons.mp hmaps.distinct
      rw [hmaps.key, hnames] at hkey
      rw [hnames] at hcells
      have hparams : ∀ p ∈ entity.toParams t, view.cell (change row) p.1 =
          defs.store (tokens entity.tableName) p.1 (b.bind p.2) := by
        intro p hp
        obtain ⟨i, hi⟩ := List.mem_iff_getElem?.mp hp
        have hset := hcells hdistinct row hmem hselected (p.1, i + 1)
          (List.mem_map.mpr ⟨(p, i), List.mem_zipIdx_iff_getElem?.mpr hi, rfl⟩)
        rw [hset, sent_update hi]
      have hcell := (hkey hkeyless row hmem hselected).trans hrow.key
      rw [hid] at hcell
      obtain ⟨t', hrow', hid', hsame⟩ := hmaps.read_row hcell hparams
      refine ⟨t', ?_, .update hsame hid' (by simp [hm]), ?_⟩
      · have hrep' := hothers.insert hrow' (by simp [hid'])
        rw [hid', Function.update_idem] at hrep'
        refine hrep'.of_perm (hafter.trans ((hperm.map _).trans (.of_eq ?_)))
        rw [List.map_cons, if_pos hselected]
        refine congrArg _ ((List.map_congr_left fun other hother => ?_).trans (List.map_id' _))
        exact if_neg (List.filter_eq_nil_iff.mp hunselected other hother)
      · have hchanged := hrows.trans ((hperm.filter _).map change)
        rw [List.filter_cons_of_pos hselected, hunselected] at hchanged
        rw [List.perm_singleton.mp hchanged]
        exact .cons hrow' .nil

/-- The operation is answered as the map answers it, or an update finds nothing. -/
theorem does_answers (op : Operation T)
    (hop : op.Within b.toDialect (entity.idColumn :: columns))
    (h : Does b.toDialect defs view.cell (b.sent 1 (op.params entity)) before (op.command entity)
      after rows) :
    (∃ reply m', Represents b view defs entity (after (tokens entity.tableName)) m' ∧
      Answers b defs entity m op reply m' ∧ Replies b view defs entity rows op reply) ∨
    (∃ t, op = .update t ∧ m (entity.id t) = none) ∧ rows = [] ∧
      Represents b view defs entity (after (tokens entity.tableName)) m := by
  cases op with
  | findById id =>
    left
    have hid : b.sent 1 [.int id] 1 = b.bind (.int id) := rfl
    cases h with
    | select hsorted =>
      obtain ⟨ts, hreads, hperm⟩ := List.perm_comp_forall₂ hsorted (hrep.byKey hmaps hid)
      rw [perm_toList hperm] at hreads
      exact ⟨_, _, hrep, .findById, hreads⟩
  | findAll opts =>
    left
    cases h with
    | select hsorted =>
      rw [filter_selects_none] at hsorted
      obtain ⟨ts, hlists, hreads⟩ := (hrep.of_perm hsorted).slice opts.page
      exact ⟨_, _, hrep, .findAll hlists, hreads⟩
  | count =>
    left
    cases h with
    | count =>
      rw [filter_selects_none]
      obtain ⟨ts, hlists, hlength⟩ := hrep.length
      exact ⟨_, _, hrep, .count hlists, hlength⟩
  | create t =>
    left
    obtain ⟨t', hafter, hanswers, hrows⟩ := insert_answers hmaps hrep h
    exact ⟨_, _, hafter, hanswers, hrows⟩
  | update t =>
    rcases update_answers hmaps hrep h with ⟨hnone, hrows, hafter⟩ | ⟨t', hafter, hanswers, hrows⟩
    · exact .inr ⟨⟨t, rfl, hnone⟩, hrows, hafter⟩
    · exact .inl ⟨_, _, hafter, hanswers, hrows⟩
  | delete id =>
    left
    have hid : b.sent 1 [.int id] 1 = b.bind (.int id) := rfl
    cases h with
    | delete hafter =>
      exact ⟨_, _, (hrep.erase hmaps hid).of_perm hafter, .delete,
        Reads.isSome (hrep.byKey hmaps hid)⟩
  | exists_ id =>
    left
    have hid : b.sent 1 [.int id] 1 = b.bind (.int id) := rfl
    cases h with
    | probe =>
      have hfirst := List.forall₂_take 1 (hrep.byKey hmaps hid)
      rw [List.take_of_length_le (l := (m id).toList) (by cases m id <;> simp)] at hfirst
      exact ⟨_, _, hrep, .exists_, Reads.isSome hfirst⟩
  | findBy spec opts =>
    left
    cases h with
    | select hsorted =>
      obtain ⟨ts, hlists, hreads⟩ := ((hrep.bySpec hmaps hop.1).of_perm hsorted).slice opts.page
      exact ⟨_, _, hrep, .findBy hlists, hreads⟩
  | countBy spec =>
    left
    cases h with
    | count =>
      obtain ⟨ts, hlists, hlength⟩ := (hrep.bySpec hmaps hop).length
      exact ⟨_, _, hrep, .countBy hlists, hlength⟩
  | deleteBy spec =>
    left
    cases h with
    | delete hafter =>
      obtain ⟨ts, hlists, hlength⟩ := (hrep.bySpec hmaps hop).length
      exact ⟨_, _, (hrep.eraseBySpec hmaps hop).of_perm hafter, .deleteBy hlists, hlength⟩

end

end

end Rinfra.Store
