import Rinfra.Lib.Sql.Command
import Rinfra.Store.Operations

/-!
# The commands of the repository

The statement of each operation is one command on the table of the entity.
-/

namespace Rinfra.Store

open Rinfra.Lib.Sql

variable {V T : Type}

/-- The rows from a place on, up to a number, in the order of plain names. -/
structure QueryOptions.Proper (d : Dialect V) (opts : QueryOptions) : Prop where
  limit : 0 ≤ opts.limit
  offset : 0 ≤ opts.offset
  order : ∀ o ∈ opts.orderBy, Plain d o.field

def QueryOptions.page (opts : QueryOptions) : Nat × Nat := (opts.limit.toNat, opts.offset.toNat)

structure Specification.Proper (d : Dialect V) (spec : Specification) : Prop where
  fields : ∀ field ∈ spec.fields, Plain d field
  lists : spec.ListsNonempty

/-- The columns that are written have plain names, and there are some. -/
structure ProperParams (d : Dialect V) (params : List (String × DbValue)) : Prop where
  columns : ∀ column ∈ params.map Prod.fst, Plain d column
  nonempty : params ≠ []

namespace Operation

open GenericRepository

def Proper (d : Dialect V) (entity : EntityType T) : Operation T → Prop
  | .findById _ | .count | .delete _ | .exists_ _ => True
  | .findAll opts => opts.Proper d
  | .create t | .update t => ProperParams d (entity.toParams t)
  | .findBy spec opts => spec.Proper d ∧ opts.Proper d
  | .countBy spec | .deleteBy spec => spec.Proper d

def byKey (entity : EntityType T) (n : Nat) : Expr := .eq (.column entity.idColumn) (.param n)

def command (entity : EntityType T) : Operation T → Command
  | .findById _ => .select (tokens entity.tableName) (some (byKey entity 1)) [] none
  | .findAll opts =>
    .select (tokens entity.tableName) none (sortKeysOf opts.orderBy) (some opts.page)
  | .count => .count (tokens entity.tableName) none "cnt"
  | .create t =>
    .insert (tokens entity.tableName) ((entity.toParams t).map Prod.fst)
      (List.range' 1 (entity.toParams t).length)
  | .update t =>
    .update (tokens entity.tableName)
      ((entity.toParams t).zipIdx.map fun x => (x.1.1, x.2 + 1))
      (byKey entity ((entity.toParams t).length + 1))
  | .delete _ => .delete (tokens entity.tableName) (byKey entity 1)
  | .exists_ _ => .probe (tokens entity.tableName) (byKey entity 1) 1
  | .findBy spec opts =>
    .select (tokens entity.tableName) (some (spec.expr 1)) (sortKeysOf opts.orderBy)
      (some opts.page)
  | .countBy spec => .count (tokens entity.tableName) (some (spec.expr 1)) "cnt"
  | .deleteBy spec => .delete (tokens entity.tableName) (spec.expr 1)

@[simp] theorem table_command (entity : EntityType T) (op : Operation T) :
    (op.command entity).table = tokens entity.tableName := by
  cases op <;> rfl

-- ---------------------------------------------------------------------------
-- Tokens
-- ---------------------------------------------------------------------------

theorem sepBy_columns {d : Dialect V} {columns : List String} (h : ∀ c ∈ columns, Plain d c) :
    columns.map tokens = columns.map fun c => [.word c] :=
  List.map_congr_left fun c hc => (h c hc).lexes.1

theorem updateTokens_plain {d : Dialect V} {params : List (String × DbValue)}
    (h : ∀ c ∈ params.map Prod.fst, Plain d c) (table idCol : String) :
    updateTokens table idCol params = .word "UPDATE" :: (tokens table ++ (.word "SET" ::
      (sepBy (.sym ',') ((params.zipIdx.map fun x => (x.1.1, x.2 + 1)).map fun p =>
          [.word p.1, .sym '=', .param p.2]) ++
        (.word "WHERE" :: (tokens idCol ++
          [.sym '=', .param (params.length + 1), .word "RETURNING", .sym '*']))))) := by
  have hsets : (params.zipIdx.map fun x => tokens x.1.1 ++ [.sym '=', .param (x.2 + 1)]) =
      (params.zipIdx.map fun x => (x.1.1, x.2 + 1)).map fun p =>
        [.word p.1, .sym '=', .param p.2] := by
    rw [List.map_map]
    refine List.map_congr_left fun x hx => ?_
    have hmem : x.1 ∈ params := List.mem_of_getElem? (List.mem_zipIdx_iff_getElem?.mp hx)
    simp [(h x.1.1 (List.mem_map_of_mem hmem)).lexes.1]
  rw [← hsets]
  rfl

theorem parses_byKey {d : Dialect V} {entity : EntityType T} (hid : Plain d entity.idColumn)
    (n : Nat) : Parses d 0 [.word entity.idColumn, .sym '=', .param n] (byKey entity n) :=
  .comparison fun rest => by simp [comparison, operand, hid.1, byKey]

-- ---------------------------------------------------------------------------
-- Meanings
-- ---------------------------------------------------------------------------

section
variable {d : Dialect V} {entity : EntityType T} (htable : IsTableName d entity.tableName)
include htable

theorem Proper.whole (hid : Plain d entity.idColumn) {op : Operation T} (h : op.Proper d entity) :
    ∀ name ∈ op.names entity, Whole name := by
  have hplain {names : List String} (hnames : ∀ name ∈ names, Plain d name) :
      ∀ name ∈ names, Whole name := fun name hname => (hnames name hname).inert.whole
  have horder {opts : QueryOptions} (hopts : opts.Proper d) :
      ∀ name ∈ opts.orderBy.map OrderBy.field, Plain d name := by
    intro name hname
    obtain ⟨o, ho, rfl⟩ := List.mem_map.mp hname
    exact hopts.order o ho
  have hwhole : Whole entity.tableName := htable.1
  have hidWhole : Whole entity.idColumn := hid.inert.whole
  cases op with
  | findById | delete | exists_ =>
    exact List.forall_mem_cons.mpr ⟨hwhole, List.forall_mem_singleton.mpr hidWhole⟩
  | count => exact List.forall_mem_singleton.mpr hwhole
  | findAll opts => exact List.forall_mem_cons.mpr ⟨hwhole, hplain (horder h)⟩
  | create t => exact List.forall_mem_cons.mpr ⟨hwhole, hplain h.columns⟩
  | update t =>
    exact List.forall_mem_cons.mpr ⟨hwhole, List.forall_mem_cons.mpr ⟨hidWhole, hplain h.columns⟩⟩
  | findBy spec opts =>
    refine List.forall_mem_cons.mpr ⟨hwhole, hplain fun name hname => ?_⟩
    exact (List.mem_append.mp hname).elim (h.1.fields name) (horder h.2 name)
  | countBy spec | deleteBy spec =>
    exact List.forall_mem_cons.mpr ⟨hwhole, hplain h.fields⟩

theorem parse_findAll {opts : QueryOptions} (h : opts.Proper d) :
    parseCommand d ((Operation.findAll opts : Operation T).statement entity) =
      some ((Operation.findAll opts : Operation T).command entity) := by
  have hlimit : opts.limit = (opts.limit.toNat : Nat) := (Int.toNat_of_nonneg h.limit).symm
  have hoffset : opts.offset = (opts.offset.toNat : Nat) := (Int.toNat_of_nonneg h.offset).symm
  rw [statement, pageTokensOf_plain h.order hlimit hoffset]
  exact parse_list htable.2 (by simpa [sortKeysOf] using fun o ho => (h.order o ho).1) _ _

theorem parse_create {t : T} (h : ProperParams d (entity.toParams t)) :
    parseCommand d ((Operation.create t).statement entity) =
      some ((Operation.create t).command entity) := by
  have hplaces : ((List.range (entity.toParams t).length).map fun i => [Token.param (i + 1)]) =
      (List.range' 1 (entity.toParams t).length).map fun n => [Token.param n] := by
    rw [← map_succ_range, List.map_map]
    rfl
  rw [statement, insertTokens, sepBy_columns h.columns, hplaces]
  exact parse_insert htable.2 (fun c hc => (h.columns c hc).1) (by simpa using h.nonempty)
    (by simpa using h.nonempty)

theorem parse_updateOf {t : T} (hid : Plain d entity.idColumn)
    (h : ProperParams d (entity.toParams t)) :
    parseCommand d ((Operation.update t).statement entity) =
      some ((Operation.update t).command entity) := by
  have hnames : ∀ p ∈ (entity.toParams t).zipIdx.map fun x => (x.1.1, x.2 + 1),
      d.isName p.1 = true := by
    intro p hp
    obtain ⟨⟨q, i⟩, hq, rfl⟩ := List.mem_map.mp hp
    have hmem : q ∈ entity.toParams t := List.mem_of_getElem? (List.mem_zipIdx_iff_getElem?.mp hq)
    exact (h.columns q.1 (List.mem_map_of_mem hmem)).1
  rw [statement, updateTokens_plain h.columns, hid.lexes.1]
  exact parse_update htable.2 (parses_byKey hid _) (Nat.zero_le _) hnames
    (by simpa using h.nonempty)

theorem means_command (hid : Plain d entity.idColumn) (op : Operation T) (h : op.Proper d entity) :
    Means d (tokens (op.sql entity)) (op.command entity) := by
  have hidTokens : tokens entity.idColumn = [.word entity.idColumn] := hid.lexes.1
  cases op with
  | findBy spec opts =>
    right
    obtain ⟨hspec, hopts⟩ := h
    exact ⟨_, parse_findBy htable hspec.fields hspec.lists hopts.order
      (Int.toNat_of_nonneg hopts.limit).symm (Int.toNat_of_nonneg hopts.offset).symm, rfl⟩
  | countBy spec => exact .inr ⟨_, parse_countBy htable h.fields h.lists, rfl⟩
  | deleteBy spec => exact .inr ⟨_, parse_deleteBy htable h.fields h.lists, rfl⟩
  | findById id =>
    rw [tokens_sql _ (Proper.whole htable hid h), statement, hidTokens]
    exact .inl (parse_find htable.2 (parses_byKey hid 1) (Nat.zero_le _))
  | findAll opts =>
    rw [tokens_sql _ (Proper.whole htable hid h)]
    exact .inl (parse_findAll htable h)
  | count =>
    rw [tokens_sql _ (Proper.whole htable hid h), statement]
    exact .inl (parse_size htable.2 "cnt")
  | create t =>
    rw [tokens_sql _ (Proper.whole htable hid h)]
    exact .inl (parse_create htable h)
  | update t =>
    rw [tokens_sql _ (Proper.whole htable hid h)]
    exact .inl (parse_updateOf htable hid h)
  | delete id =>
    rw [tokens_sql _ (Proper.whole htable hid h), statement, hidTokens]
    exact .inr ⟨_, parse_delete htable.2 (parses_byKey hid 1) (Nat.zero_le _), rfl⟩
  | exists_ id =>
    rw [tokens_sql _ (Proper.whole htable hid h), statement, hidTokens]
    exact .inl (parse_probe htable.2 (parses_byKey hid 1) (Nat.zero_le _) 1)

end

end Operation

end Rinfra.Store
