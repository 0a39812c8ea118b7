import Mathlib.Data.List.Perm.Basic
import Rinfra.Core.Str
import Rinfra.Store.Value

/-!
# The derive macros of an entity

`Entity`, `FromRow` and `ToRow` are functions of the shape of a struct. Each of
them goes through the fields by itself; a field's value is reached through the
field's place in the struct, as generated code reaches it through its name.
-/

namespace Rinfra.Derive

open Store List

/-- `syn::Meta`, with the tokens of a list as they are printed. -/
inductive Meta
  | path
  | list (tokens : String)
  | nameValue
  deriving DecidableEq, Repr

structure Attribute where
  path : String
  content : Meta
  deriving DecidableEq, Repr

structure Field where
  attrs : List Attribute := []
  ident : String
  ty : FieldType
  deriving DecidableEq, Repr

inductive Fields
  | named (fields : List Field)
  | unnamed
  | unit
  deriving DecidableEq, Repr

inductive Data
  | struct (fields : Fields)
  | enum
  | union
  deriving DecidableEq, Repr

structure DeriveInput where
  attrs : List Attribute := []
  ident : String
  data : Data
  deriving DecidableEq, Repr

/-- The fields of a struct that has names for them. -/
def DeriveInput.fields (input : DeriveInput) : List Field :=
  match input.data with
  | .struct (.named fields) => fields
  | _ => []

/-- What each macro panics with when the fields have no names. -/
def DeriveInput.checkNamed (input : DeriveInput) (trait : String) : Except String Unit :=
  match input.data with
  | .struct (.named _) => .ok ()
  | .struct _ => .error s!"{trait} derive only supports named fields"
  | _ => .error s!"{trait} derive only supports structs"

def Field.isId (f : Field) : Bool := f.attrs.any (·.path == "id")

/-- What an attribute under this name says in its list. -/
def Attribute.named (name : String) (attr : Attribute) : Option String :=
  match attr.content with
  | .list tokens =>
    if attr.path = name then some (.ofList (trimMatches '"' tokens.toList)) else none
  | _ => none

def getColumnName (f : Field) : String :=
  (f.attrs.findSome? (·.named "column")).getD f.ident

-- ---------------------------------------------------------------------------
-- Values of a struct
-- ---------------------------------------------------------------------------

inductive Record : List Field → Type
  | nil : Record []
  | cons {f : Field} {fields : List Field} : f.ty.Val → Record fields → Record (f :: fields)

inductive Slot : List Field → Type
  | here {f : Field} {fields : List Field} : Slot (f :: fields)
  | there {f : Field} {fields : List Field} : Slot fields → Slot (f :: fields)

variable {fields : List Field}

def Slot.field : {fields : List Field} → Slot fields → Field
  | f :: _, here => f
  | _ :: _, there slot => slot.field

def Record.get : {fields : List Field} → Record fields → (slot : Slot fields) → slot.field.ty.Val
  | _ :: _, cons v _, .here => v
  | _ :: _, cons _ rest, .there slot => rest.get slot

def slots : (fields : List Field) → List (Slot fields)
  | [] => []
  | _ :: rest => .here :: (slots rest).map .there

-- ---------------------------------------------------------------------------
-- The macros
-- ---------------------------------------------------------------------------

structure EntityImpl (fields : List Field) where
  idSlot : Slot fields

def EntityImpl.id (impl : EntityImpl fields) (entity : Record fields) :
    impl.idSlot.field.ty.Val := entity.get impl.idSlot

structure FromRowImpl (fields : List Field) where
  fromRow : DbRow → Outcome (Record fields)

structure ToRowImpl (fields : List Field) where
  tableName : String
  columns : List String
  idColumn : String
  toParams : Record fields → List (String × DbValue)

def nonIdSlots (fields : List Field) : List (Slot fields) :=
  (slots fields).filter fun slot => !slot.field.isId

def findId (fields : List Field) : Option (Slot fields) := (slots fields).find? (·.field.isId)

def deriveEntity (input : DeriveInput) : Except String (EntityImpl input.fields) := do
  input.checkNamed "Entity"
  match findId input.fields with
  | some slot => .ok ⟨slot⟩
  | none => .error "Entity requires exactly one field annotated with #[id]"

/-- The fields are read one after the other, up to the first that cannot be. -/
def readFields (debug : DbValue → String) (row : DbRow) :
    (fields : List Field) → Outcome (Record fields)
  | [] => .ok .nil
  | f :: rest =>
    match row.get debug f.ty (getColumnName f) with
    | .ok v =>
      match readFields debug row rest with
      | .ok record => .ok (.cons v record)
      | .err e => .err e
      | .panicked => .panicked
    | .err e => .err e
    | .panicked => .panicked

def deriveFromRow (debug : DbValue → String) (input : DeriveInput) :
    Except String (FromRowImpl input.fields) := do
  input.checkNamed "FromRow"
  return ⟨fun row => readFields debug row input.fields⟩

def deriveToRow (input : DeriveInput) : Except String (ToRowImpl input.fields) := do
  match input.attrs.findSome? (·.named "table") with
  | none => .error "ToRow requires #[table(\"table_name\")] attribute on the struct"
  | some tableName =>
    input.checkNamed "ToRow"
    let idColumn := ((findId input.fields).map fun slot => getColumnName slot.field).getD "id"
    let nonIdFields := nonIdSlots input.fields
    let colNames := nonIdFields.map fun slot => getColumnName slot.field
    return {
      tableName
      columns := colNames
      idColumn
      toParams := fun entity => (nonIdFields.zip colNames).map fun (slot, col) =>
        (col, slot.field.ty.intoDbValue (entity.get slot)) }

-- ---------------------------------------------------------------------------
-- What the macros agree on
-- ---------------------------------------------------------------------------

theorem map_field_slots (fields : List Field) : (slots fields).map Slot.field = fields := by
  induction fields with
  | nil => rfl
  | cons f rest ih => simpa [slots, Slot.field, Function.comp_def] using ih

theorem mem_slots (slot : Slot fields) : slot ∈ slots fields := by
  induction slot with
  | here => simp [slots]
  | there slot ih => simpa [slots] using ih

/-- The column of a field, and what its value is written as. -/
def Record.cell (entity : Record fields) (slot : Slot fields) : String × DbValue :=
  (getColumnName slot.field, slot.field.ty.intoDbValue (entity.get slot))

variable {input : DeriveInput} {toRow : ToRowImpl input.fields}

theorem idSlot_of_derive {entityImpl : EntityImpl input.fields}
    (h : deriveEntity input = .ok entityImpl) : findId input.fields = some entityImpl.idSlot := by
  unfold deriveEntity at h
  cases hnamed : input.checkNamed "Entity" with
  | error e => simp [hnamed, bind, Except.bind] at h
  | ok u =>
    cases hid : findId input.fields with
    | none => simp [hnamed, hid, bind, Except.bind] at h
    | some slot =>
      simp only [hnamed, hid, bind, Except.bind, Except.ok.injEq] at h
      rw [← h]

theorem fromRow_of_derive {debug : DbValue → String} {fromRow : FromRowImpl input.fields}
    (h : deriveFromRow debug input = .ok fromRow) (row : DbRow) :
    fromRow.fromRow row = readFields debug row input.fields := by
  unfold deriveFromRow at h
  cases hnamed : input.checkNamed "FromRow" with
  | error e => simp [hnamed, bind, Except.bind] at h
  | ok u =>
    simp only [hnamed, bind, Except.bind, pure, Except.pure, Except.ok.injEq] at h
    rw [← h]

theorem impl_of_deriveToRow (h : deriveToRow input = .ok toRow) :
    toRow.columns = (nonIdSlots input.fields).map (fun slot => getColumnName slot.field) ∧
    (∀ entity, toRow.toParams entity = (nonIdSlots input.fields).map entity.cell) ∧
    ∀ slot, findId input.fields = some slot → toRow.idColumn = getColumnName slot.field := by
  unfold deriveToRow at h
  cases htable : input.attrs.findSome? (·.named "table") with
  | none => simp [htable] at h
  | some tableName =>
    cases hnamed : input.checkNamed "ToRow" with
    | error e => simp [htable, hnamed, bind, Except.bind] at h
    | ok u =>
      simp only [htable, hnamed, bind, Except.bind, pure, Except.pure, Except.ok.injEq] at h
      subst h
      refine ⟨rfl, fun entity => ?_, fun slot hid => by simp [hid]⟩
      have hzip (l : List (Slot input.fields)) : l.zip (l.map fun s => getColumnName s.field) =
          l.map fun s => (s, getColumnName s.field) := by
        induction l with
        | nil => rfl
        | cons s l ih => simp [ih]
      simp [hzip, Record.cell]

theorem id_cons_perm {slot : Slot fields} (hone : (fields.filter Field.isId).length = 1)
    (hid : findId fields = some slot) : slot :: nonIdSlots fields ~ slots fields := by
  have hlength : ((slots fields).filter (·.field.isId)).length = 1 := by
    have hmap := congrArg (·.filter Field.isId) (map_field_slots fields)
    simp only [filter_map] at hmap
    rw [← hone, ← hmap, length_map]
    rfl
  have hfilter : (slots fields).filter (·.field.isId) = [slot] := by
    obtain ⟨s, hs⟩ := length_eq_one_iff.mp hlength
    have hhead := head?_filter (l := slots fields) (p := (·.field.isId))
    rw [hs, ← findId, hid] at hhead
    simpa [hs] using hhead
  have := filter_append_perm (·.field.isId) (slots fields)
  rwa [hfilter] at this

/-- A row with the value of every field in its column is read as the record. -/
theorem readFields_of_get {debug : DbValue → String} {row : DbRow} (entity : Record fields)
    (h : ∀ slot : Slot fields,
      row.get debug slot.field.ty (getColumnName slot.field) = .ok (entity.get slot)) :
    readFields debug row fields = .ok entity := by
  induction entity with
  | nil => rfl
  | @cons f fields v rest ih =>
    have hv : row.get debug f.ty (getColumnName f) = .ok v := h .here
    have hrest := ih fun slot => h slot.there
    simp only [readFields, hv, hrest]

/-- What `Entity` and `ToRow` say of a value, `FromRow` reads back as the value. -/
theorem row_round_trip (debug : DbValue → String) (input : DeriveInput)
    (toRow : ToRowImpl input.fields) (htoRow : deriveToRow input = .ok toRow) :
    (∀ entity, toRow.columns = (toRow.toParams entity).map Prod.fst) ∧
    ∀ entityImpl fromRow, deriveEntity input = .ok entityImpl →
      deriveFromRow debug input = .ok fromRow →
      (input.fields.filter Field.isId).length = 1 → (input.fields.map getColumnName).Nodup →
      ∀ (entity : Record input.fields) (row : DbRow), row.columns.length = row.values.length →
        row.columns.zip row.values ~
          (toRow.idColumn, entityImpl.idSlot.field.ty.intoDbValue (entityImpl.id entity)) ::
            toRow.toParams entity →
        fromRow.fromRow row = .ok entity := by
  obtain ⟨hcolumns, hparams, hidColumn⟩ := impl_of_deriveToRow htoRow
  constructor
  · intro entity
    rw [hcolumns, hparams, map_map]
    rfl
  · intro entityImpl fromRow hentity hfromRow hone hdistinct entity row hlength hrow
    have hid := idSlot_of_derive hentity
    -- the row pairs the column of every field with the field's value
    have hcells : row.columns.zip row.values ~ (slots input.fields).map entity.cell := by
      rw [hparams, hidColumn _ hid] at hrow
      exact hrow.trans ((id_cons_perm hone hid).map entity.cell)
    have hnodup : row.columns.Nodup := by
      have hnames := hcells.map Prod.fst
      rw [map_fst_zip hlength.le, map_map] at hnames
      refine hnames.nodup_iff.mpr ?_
      rwa [← map_field_slots input.fields, map_map] at hdistinct
    have hread : readFields debug row input.fields = .ok entity :=
      readFields_of_get entity fun slot =>
        DbRow.get_of_mem hnodup (hcells.mem_iff.mpr (mem_map_of_mem (mem_slots slot)))
    rw [fromRow_of_derive hfromRow, hread]

/-- A struct with its key in the second place and a column of another name. -/
def user : DeriveInput where
  attrs := [⟨"derive", .list "Entity, FromRow, ToRow"⟩, ⟨"table", .list "\"users\""⟩]
  ident := "User"
  data := .struct (.named [
    { ident := "name", ty := .plain .string },
    { attrs := [⟨"id", .path⟩], ident := "id", ty := .plain .i64 },
    { attrs := [⟨"column", .list "\"created_at\""⟩], ident := "created", ty := .option .i32 }])

def ann : Record user.fields :=
  .cons "Ann" (.cons (7 : Int64) (.cons (none : Option Int32) .nil))

theorem row_round_trip_user : ∃ toRow fromRow,
    deriveToRow user = .ok toRow ∧ deriveFromRow (fun _ => "") user = .ok fromRow ∧
    toRow.columns = ["name", "created_at"] ∧
    fromRow.fromRow ⟨["created_at", "id", "name"], [.null, .int 7, .text "Ann"]⟩ = .ok ann := by
  refine ⟨_, _, rfl, rfl, rfl, ?_⟩
  exact (row_round_trip _ user _ rfl).2 ⟨.there .here⟩ _ rfl rfl rfl (by decide) ann _ rfl
    (by decide)

end Rinfra.Derive
