import Rinfra.Lib.Json

/-!
# Reading trees by a schema

A record is read from a tree field by field, with a default for what the tree
leaves out. The result of a reading is written as a tree again: the tree of a
record has all of its fields and no others, so it reads as itself.
-/

namespace Rinfra.Lib.Json

def Number.toF64 : Number → Option F64
  | .posInt n => F64.ofRatio false n 1
  | .negInt n => F64.ofRatio true n.natAbs 1
  | .float x => some x

/-- What is drawn anew in each reading. -/
abbrev Draw := String

inductive Default
  | required
  | value (v : Value)
  | drawn
  | empty

inductive Ty
  | string
  | bool
  | uint (max : Nat)
  | float
  | free
  | enum (variants : List String)
  | option (ty : Ty)
  | vec (ty : Ty)
  | struct (names : List String) (dflt : String → Default) (field : String → Ty)

def readString : Value → Option Value
  | .string s => some (.string s)
  | _ => none

def readBool : Value → Option Value
  | .bool b => some (.bool b)
  | _ => none

def readUint (max : Nat) : Value → Option Value
  | .number (.posInt n) => if n ≤ max then some (.number (.posInt n)) else none
  | _ => none

def readFloat : Value → Option Value
  | .number n => n.toF64.map fun x => .number (.float x)
  | _ => none

/-- A variant is its name, or an object with the name alone. -/
def readEnum (variants : List String) : Value → Option Value
  | .string s => if s ∈ variants then some (.string s) else none
  | .object [(s, .null)] => if s ∈ variants then some (.string s) else none
  | _ => none

def readOption (inner : Value → Option Value) : Value → Option Value
  | .null => some .null
  | v => inner v

def readVec (inner : Value → Option Value) : Value → Option Value
  | .array vs => (vs.mapM inner).map .array
  | _ => none

def collect (entry : String → Option Value) : List String → Option Fields
  | [] => some []
  | name :: names => do
    let v ← entry name
    let fields ← collect entry names
    return SortedMap.insert name v fields

/-- What a tree has for each field of a record: by name, or by position. -/
def children (names : List String) : Value → Option (String → Option Value)
  | .object fields => some fun name => SortedMap.get name fields
  | .array vs => if vs.length ≤ names.length then some fun name => vs[names.idxOf name]? else none
  | _ => none

/-- The default, where `empty` is what an empty object has. -/
def Default.get (draw : Draw) (empty : Option Value) : Default → Option Value
  | .required => none
  | .value v => some v
  | .drawn => some (.string draw)
  | .empty => empty

def read (draw : Draw) : Ty → Value → Option Value
  | .string, v => readString v
  | .bool, v => readBool v
  | .uint max, v => readUint max v
  | .float, v => readFloat v
  | .free, v => some v
  | .enum variants, v => readEnum variants v
  | .option ty, v => readOption (read draw ty) v
  | .vec ty, v => readVec (read draw ty) v
  | .struct names dflt field, v => do
    let child ← children names v
    let entry (name : String) := match child name with
      | some v => read draw (field name) v
      | none => (dflt name).get draw (read draw (field name) (.object []))
    return .object (← collect entry names)

def Ty.at? : Ty → List String → Option Ty
  | ty, [] => some ty
  | .struct names _ field, name :: rest => if name ∈ names then (field name).at? rest else none
  | _, _ :: _ => none

/-- The default and the type of the field at a path. -/
def Ty.fieldAt? : Ty → List String → Option (Default × Ty)
  | .struct names dflt field, [name] =>
    if name ∈ names then some (dflt name, field name) else none
  | .struct names _ field, name :: rest => if name ∈ names then (field name).fieldAt? rest else none
  | _, _ => none

def Ty.IsStruct : Ty → Prop
  | .struct .. => True
  | _ => False

/-- The default is a tree of the type. That of a record has the defaults of its fields. -/
def Default.Fits (ty : Ty) : Default → Prop
  | .required => ¬ ty.IsStruct
  | .value v => (∀ draw, read draw ty v = some v) ∧ ¬ ty.IsStruct
  | .drawn => ty = .string
  | .empty => ty.IsStruct

def Ty.Sound : Ty → Prop
  | .option ty => ty.Sound
  | .vec ty => ty.Sound
  | .struct names dflt field => ∀ name ∈ names, (field name).Sound ∧ (dflt name).Fits (field name)
  | _ => True

-- ---------------------------------------------------------------------------
-- Collected fields
-- ---------------------------------------------------------------------------

section
variable {entry entry' : String → Option Value} {names : List String} {fields : Fields}
  {name : String} {draw draw' : Draw} {ty : Ty} {v w : Value}

theorem collect_cons : collect entry (name :: names) = (entry name).bind fun v =>
    (collect entry names).bind fun fields => some (SortedMap.insert name v fields) := rfl

theorem collect_cons_eq_some :
    collect entry (name :: names) = some fields ↔
      ∃ v fields', entry name = some v ∧ collect entry names = some fields' ∧
        SortedMap.insert name v fields' = fields := by
  simp [collect_cons, Option.bind_eq_some_iff]

theorem collect_congr (h : ∀ name ∈ names, entry name = entry' name) :
    collect entry names = collect entry' names := by
  induction names with
  | nil => rfl
  | cons name names ih =>
    rw [collect_cons, collect_cons, h name List.mem_cons_self,
      ih fun n hn => h n (List.mem_cons_of_mem name hn)]

theorem collect_isSome (h : ∀ name ∈ names, (entry name).isSome) :
    (collect entry names).isSome := by
  induction names with
  | nil => rfl
  | cons name names ih =>
    obtain ⟨v, hv⟩ := Option.isSome_iff_exists.mp (h name List.mem_cons_self)
    obtain ⟨fields, hfields⟩ := Option.isSome_iff_exists.mp
      (ih fun n hn => h n (List.mem_cons_of_mem name hn))
    rw [collect_cons, hv, hfields]
    rfl

theorem get_collect (h : collect entry names = some fields) (hn : name ∈ names) :
    SortedMap.get name fields = entry name ∧ (entry name).isSome := by
  induction names generalizing fields with
  | nil => cases hn
  | cons first names ih =>
    rw [collect_cons_eq_some] at h
    obtain ⟨v, rest, hv, hrest, rfl⟩ := h
    by_cases heq : name = first
    · subst heq
      rw [SortedMap.get_insert_self, hv]
      exact ⟨rfl, rfl⟩
    · rw [SortedMap.get_insert_of_ne heq]
      exact ih hrest ((List.mem_cons.mp hn).resolve_left heq)

theorem get_collect_none (h : collect entry names = some fields) (hn : name ∉ names) :
    SortedMap.get name fields = none := by
  induction names generalizing fields with
  | nil =>
    cases h
    rfl
  | cons first names ih =>
    rw [collect_cons_eq_some] at h
    obtain ⟨v, rest, hv, hrest, rfl⟩ := h
    rw [SortedMap.get_insert_of_ne (List.ne_of_not_mem_cons hn)]
    exact ih hrest (List.not_mem_of_not_mem_cons hn)

theorem collect_again (h : collect entry names = some fields)
    (hagain : ∀ name ∈ names, ∀ v, entry name = some v → entry' name = some v) :
    collect entry' names = some fields := by
  rw [← h]
  refine (collect_congr fun name hn => ?_).symm
  obtain ⟨v, hv⟩ := Option.isSome_iff_exists.mp (get_collect h hn).2
  rw [hv, hagain name hn v hv]

theorem collect_replace (h : collect entry names = some fields) (hn : name ∈ names)
    (hself : entry' name = some v) (hother : ∀ other, other ≠ name → entry' other = entry other) :
    ∃ fields', collect entry' names = some fields' ∧ SortedMap.get name fields' = some v ∧
      ∀ other, other ≠ name → SortedMap.get other fields' = SortedMap.get other fields := by
  have hsome : ∀ other ∈ names, (entry' other).isSome := by
    intro other ho
    by_cases heq : other = name
    · rw [heq, hself]
      rfl
    · rw [hother other heq]
      exact (get_collect h ho).2
  obtain ⟨fields', hfields'⟩ := Option.isSome_iff_exists.mp (collect_isSome hsome)
  refine ⟨fields', hfields', (get_collect hfields' hn).1.trans hself, fun other hne => ?_⟩
  by_cases ho : other ∈ names
  · rw [(get_collect hfields' ho).1, (get_collect h ho).1, hother other hne]
  · rw [get_collect_none hfields' ho, get_collect_none h ho]

-- ---------------------------------------------------------------------------
-- Trees of a type
-- ---------------------------------------------------------------------------

section
variable {names : List String} {dflt : String → Default} {field : String → Ty}

/-- What a field reads, if there is something, or has by default. -/
def readField (draw : Draw) (ty : Ty) (dflt : Default) : Option Value → Option Value
  | some v => read draw ty v
  | none => dflt.get draw (read draw ty (.object []))

theorem read_struct_eq_some :
    read draw (.struct names dflt field) v = some w ↔
      ∃ child fields, children names v = some child ∧
        collect (fun name => readField draw (field name) (dflt name) (child name)) names =
          some fields ∧ .object fields = w := by
  simp only [read, Option.bind_eq_bind, Option.bind_eq_some_iff, Option.pure_def,
    Option.some.injEq, exists_and_left]
  rfl

end

theorem readUint_eq_some {max : Nat} (h : readUint max v = some w) :
    ∃ n, n ≤ max ∧ w = .number (.posInt n) := by
  unfold readUint at h
  split at h
  · obtain ⟨hn, hw⟩ := Option.ite_none_right_eq_some.mp h
    exact ⟨_, hn, (Option.some.inj hw).symm⟩
  · cases h

theorem readEnum_eq_some {variants : List String} (h : readEnum variants v = some w) :
    ∃ s ∈ variants, w = .string s := by
  unfold readEnum at h
  split at h
  · obtain ⟨hs, hw⟩ := Option.ite_none_right_eq_some.mp h
    exact ⟨_, hs, (Option.some.inj hw).symm⟩
  · obtain ⟨hs, hw⟩ := Option.ite_none_right_eq_some.mp h
    exact ⟨_, hs, (Option.some.inj hw).symm⟩
  · cases h

theorem readFloat_eq_some (h : readFloat v = some w) : ∃ x, w = .number (.float x) := by
  unfold readFloat at h
  split at h
  · obtain ⟨x, -, hw⟩ := Option.map_eq_some_iff.mp h
    exact ⟨x, hw.symm⟩
  · cases h

theorem mapM_again {f g : Value → Option Value} {vs ws : List Value} (h : vs.mapM f = some ws)
    (hagain : ∀ v w, f v = some w → g w = some w) : ws.mapM g = some ws := by
  induction vs generalizing ws with
  | nil =>
    cases h
    rfl
  | cons v vs ih =>
    simp only [List.mapM_cons, Option.bind_eq_bind, Option.bind_eq_some_iff] at h
    obtain ⟨w, hw, ws', hws', heq⟩ := h
    cases heq
    simp [hagain v w hw, ih hws']

theorem readField_again {dflt : Default} {child : Option Value} (hfits : dflt.Fits ty)
    (hagain : ∀ v w, read draw ty v = some w → read draw' ty w = some w)
    (h : readField draw ty dflt child = some w) : read draw' ty w = some w := by
  cases child with
  | some v => exact hagain v w h
  | none =>
    cases dflt with
    | required => cases h
    | value v =>
      cases h
      exact hfits.1 draw'
    | drawn =>
      cases h
      rw [show ty = .string from hfits]
      rfl
    | empty => exact hagain _ w h

/-- A tree that was read is read as itself. -/
theorem read_again (hs : ty.Sound) (h : read draw ty v = some w) : read draw' ty w = some w := by
  induction ty generalizing v w with
  | string | bool | free => cases v <;> cases h <;> rfl
  | uint max =>
    obtain ⟨n, hn, rfl⟩ := readUint_eq_some h
    exact if_pos hn
  | float =>
    obtain ⟨x, rfl⟩ := readFloat_eq_some h
    rfl
  | enum variants =>
    obtain ⟨s, hs, rfl⟩ := readEnum_eq_some h
    exact if_pos hs
  | option ty ih =>
    have hinner : ∀ v, read draw ty v = some w → read draw' (.option ty) w = some w := by
      intro v hv
      cases w with
      | null => rfl
      | _ => exact ih hs hv
    cases v with
    | null =>
      cases h
      rfl
    | _ => exact hinner _ h
  | vec ty ih =>
    cases v with
    | array vs =>
      obtain ⟨ws, hws, rfl⟩ := Option.map_eq_some_iff.mp h
      exact Option.map_eq_some_iff.mpr ⟨ws, mapM_again hws fun v w => ih hs, rfl⟩
    | _ => cases h
  | struct names dflt field ih =>
    obtain ⟨child, fields, -, hfields, rfl⟩ := read_struct_eq_some.mp h
    refine read_struct_eq_some.mpr ⟨_, fields, rfl, collect_again hfields ?_, rfl⟩
    intro name hn v hv
    obtain ⟨hty, hfits⟩ := hs name hn
    rw [(get_collect hfields hn).1, hv]
    exact readField_again hfits (fun v w => ih name hty) hv

end

-- ---------------------------------------------------------------------------
-- Places of a record
-- ---------------------------------------------------------------------------

section
variable {ty : Ty} {names : List String} {dflt : String → Default} {field : String → Ty}
  {fields : Fields} {key : String} {path rest : List String}
  {draw : Draw} {v w u child : Value}

@[simp] theorem Ty.at?_nil (ty : Ty) : ty.at? [] = some ty := by
  cases ty <;> rfl

theorem Ty.at?_cons_eq_some {ty' : Ty} :
    ty.at? (key :: rest) = some ty' ↔ ∃ names dflt field, ty = .struct names dflt field ∧
      key ∈ names ∧ (field key).at? rest = some ty' := by
  constructor
  · intro h
    cases ty with
    | struct names dflt field =>
      obtain ⟨hkey, hrest⟩ := Option.ite_none_right_eq_some.mp h
      exact ⟨names, dflt, field, rfl, hkey, hrest⟩
    | _ => cases h
  · rintro ⟨names, dflt, field, rfl, hkey, hrest⟩
    exact Option.ite_none_right_eq_some.mpr ⟨hkey, hrest⟩

theorem not_blocked_of_read {ty' : Ty} (hs : ty.Sound) (h : read draw ty v = some w)
    (hat : ty.at? path = some ty') : ¬ Blocked w path := by
  induction path generalizing ty v w with
  | nil => exact not_blocked_nil w
  | cons key rest ih =>
    obtain ⟨names, dflt, field, rfl, hkey, hrest⟩ := Ty.at?_cons_eq_some.mp hat
    obtain ⟨child, fields, -, hfields, rfl⟩ := read_struct_eq_some.mp h
    rw [blocked_object]
    rintro ⟨w, hget, hblocked⟩
    obtain ⟨hty, hfits⟩ := hs key hkey
    rw [(get_collect hfields hkey).1] at hget
    exact ih hty (readField_again hfits (fun _ _ => read_again hty) hget) hrest hblocked

theorem Ty.isStruct_of_at? {ty' : Ty} (h : ty.at? path = some ty') (hp : path ≠ []) :
    ty.IsStruct := by
  obtain ⟨key, rest, rfl⟩ := List.exists_cons_of_ne_nil hp
  obtain ⟨names, dflt, field, rfl, -⟩ := Ty.at?_cons_eq_some.mp h
  trivial

theorem Default.Fits.eq_empty {dflt : Default} (h : dflt.Fits ty) (hs : ty.IsStruct) :
    dflt = .empty := by
  cases dflt with
  | required => exact absurd hs h
  | value v => exact absurd hs h.2
  | drawn =>
    rw [show ty = .string from h] at hs
    cases hs
  | empty => rfl

theorem readField_empty (child : Option Value) :
    readField draw ty .empty child = read draw ty (child.getD (.object [])) := by
  cases child <;> rfl

theorem readField_struct {dflt : Default} {child : Option Value} (hfits : dflt.Fits ty)
    (hstruct : ty.IsStruct) (h : readField draw ty dflt child = some u) :
    read draw ty (child.getD (.object [])) = some u := by
  rwa [hfits.eq_empty hstruct, readField_empty] at h

theorem read_child (hs : (Ty.struct names dflt field).Sound)
    (h : read draw (.struct names dflt field) (.object fields) = some w) (hkey : key ∈ names)
    (hstruct : (field key).IsStruct) :
    ∃ u, read draw (field key) ((SortedMap.get key fields).getD (.object [])) = some u ∧
      ∀ rest, w.at? (key :: rest) = u.at? rest := by
  obtain ⟨_, settings, ⟨⟩, hsettings, rfl⟩ := read_struct_eq_some.mp h
  obtain ⟨hget, hsome⟩ := get_collect hsettings hkey
  obtain ⟨u, hu⟩ := Option.isSome_iff_exists.mp hsome
  refine ⟨u, ?_, fun rest => by simp only [Value.at?, Value.get?, hget, hu, Option.bind_some]⟩
  exact readField_struct (hs key hkey).2 hstruct hu

theorem Ty.fieldAt?_cons_eq_some {entry : Default × Ty} :
    ty.fieldAt? (key :: rest) = some entry ↔ ∃ names dflt field, ty = .struct names dflt field ∧
      key ∈ names ∧ (if rest = [] then some (dflt key, field key) else (field key).fieldAt? rest) =
        some entry := by
  constructor
  · intro h
    cases ty with
    | struct names dflt field =>
      cases rest <;> exact ⟨names, dflt, field, rfl, Option.ite_none_right_eq_some.mp h⟩
    | _ => cases rest <;> cases h
  · rintro ⟨names, dflt, field, rfl, hkey, hrest⟩
    cases rest <;> exact Option.ite_none_right_eq_some.mpr ⟨hkey, hrest⟩

theorem Ty.isStruct_of_fieldAt? {entry : Default × Ty} (h : ty.fieldAt? path = some entry) :
    ty.IsStruct := by
  cases ty with
  | struct => trivial
  | _ => cases path <;> cases h

/-- What a record reads at a place, where nothing is in the way. -/
theorem read_at {dflt : Default} {ty' : Ty} (hs : ty.Sound)
    (hentry : ty.fieldAt? path = some (dflt, ty')) (hclear : ¬ Blocked v path)
    (h : read draw ty v = some w) :
    w.at? path = readField draw ty' dflt (v.at? path) := by
  induction path generalizing ty v w with
  | nil => cases ty <;> cases hentry
  | cons key rest ih =>
    obtain ⟨names, dflt', field, rfl, hkey, hrest⟩ := Ty.fieldAt?_cons_eq_some.mp hentry
    rcases v.object_or_leaf with ⟨fields, rfl⟩ | hv
    · split at hrest
      · rename_i hnil
        subst hnil
        cases hrest
        obtain ⟨_, settings, ⟨⟩, hsettings, rfl⟩ := read_struct_eq_some.mp h
        simp only [Value.at?, Value.get?, (get_collect hsettings hkey).1, Option.bind_fun_some]
      · rename_i hnil
        obtain ⟨u, hu, hat⟩ := read_child hs h hkey (Ty.isStruct_of_fieldAt? hrest)
        rw [hat]
        rw [blocked_object] at hclear
        simp only [Value.at?, Value.get?]
        cases hget : SortedMap.get key fields with
        | none =>
          rw [hget] at hu
          obtain ⟨key', rest', rfl⟩ := List.exists_cons_of_ne_nil hnil
          exact ih (hs key hkey).1 hrest not_blocked_empty hu
        | some child =>
          rw [hget] at hu
          exact ih (hs key hkey).1 hrest (fun hb => hclear ⟨child, hget, hb⟩) hu
    · exact absurd (blocked_leaf hv key rest) hclear

theorem read_insert (h : read draw (.struct names dflt field) (.object fields) = some w)
    (hkey : key ∈ names) (hu : read draw (field key) child = some u) :
    ∃ w', read draw (.struct names dflt field) (.object (SortedMap.insert key child fields)) =
        some w' ∧ (∀ rest, w'.at? (key :: rest) = u.at? rest) ∧
      ∀ name rest, name ≠ key → w'.at? (name :: rest) = w.at? (name :: rest) := by
  obtain ⟨_, settings, ⟨⟩, hsettings, rfl⟩ := read_struct_eq_some.mp h
  let entry' (name : String) := readField draw (field name) (dflt name)
    (SortedMap.get name (SortedMap.insert key child fields))
  have hself : entry' key = some u := by
    simp only [entry', SortedMap.get_insert_self, readField, hu]
  obtain ⟨settings', hsettings', hself, hother⟩ := collect_replace hsettings hkey hself
    fun name hne => by simp only [entry', SortedMap.get_insert_of_ne hne]
  refine ⟨_, read_struct_eq_some.mpr ⟨_, settings', rfl, hsettings', rfl⟩, fun rest => ?_,
    fun name rest hne => ?_⟩
  · simp only [Value.at?, Value.get?, hself, Option.bind_some]
  · simp only [Value.at?, Value.get?, hother name hne]

end

-- ---------------------------------------------------------------------------
-- What a type is made of
-- ---------------------------------------------------------------------------

/-- Neither a record nor free. -/
def Ty.plain : Ty → Bool
  | .struct .. => false
  | .free => false
  | .option ty => ty.plain
  | _ => true

def Ty.isFree : Ty → Bool
  | .free => true
  | _ => false

def Default.isNull : Default → Bool
  | .value .null => true
  | _ => false

/-- A record may be in a record or in a list only, and a free part is null by default. -/
def Ty.flat : Ty → Bool
  | .struct names dflt field => names.all fun name =>
    (field name).flat && (!(field name).isFree || (dflt name).isNull)
  | .free => true
  | ty => ty.plain

def Ty.frees : Ty → List (List String)
  | .struct names _ field => names.flatMap fun name => (field name).frees.map (name :: ·)
  | .free => [[]]
  | _ => []

def Default.isDrawn : Default → Bool
  | .drawn => true
  | _ => false

/-- What is left of a path below a name, if it leads there. -/
def enter (hole : Option (List String)) (name : String) : Option (List String) :=
  match hole with
  | some (key :: rest) => if key = name then some rest else none
  | _ => none

/-- The hole may be gone where it is given. -/
def Filled (hole hole' : Option (List String)) (given : List String → Prop) : Prop :=
  hole' = hole ∨ hole' = none ∧ ∃ path, hole = some path ∧ given path

/-- Nothing is drawn, except at the hole. -/
def Ty.steady : Ty → Option (List String) → Bool
  | .option ty, _ => ty.steady none
  | .vec ty, _ => ty.steady none
  | .struct names dflt field, hole => names.all fun name =>
    (!(dflt name).isDrawn || enter hole name == some []) &&
      (field name).steady (enter hole name)
  | _, _ => true

section
variable {ty : Ty} {names : List String} {dflt : String → Default} {field : String → Ty}
  {hole hole' : Option (List String)} {name : String} {path : List String} {draw draw' : Draw}
  {v w : Value}

theorem Filled.enter {given : List String → Prop} (h : Filled hole hole' given) (name : String) :
    Filled (enter hole name) (enter hole' name) fun rest => given (name :: rest) := by
  rcases h with rfl | ⟨rfl, path, rfl, hgiven⟩
  · exact .inl rfl
  · cases path with
    | nil => exact .inl rfl
    | cons key rest =>
      by_cases hkey : key = name
      · subst hkey
        exact .inr ⟨rfl, rest, if_pos rfl, hgiven⟩
      · exact .inl (if_neg hkey).symm

theorem Filled.imp {given given' : List String → Prop} (h : Filled hole hole' given)
    (hgiven : ∀ path, given path → given' path) : Filled hole hole' given' :=
  h.imp_right fun ⟨hnone, path, hpath, hg⟩ => ⟨hnone, path, hpath, hgiven path hg⟩

theorem Ty.flat_field (h : (Ty.struct names dflt field).flat) (hn : name ∈ names) :
    (field name).flat :=
  (Bool.and_eq_true_iff.mp (List.all_eq_true.mp h name hn)).1

theorem Ty.flat_null (h : (Ty.struct names dflt field).flat) (hn : name ∈ names)
    (hfree : field name = .free) : dflt name = .value .null := by
  have hnull := (Bool.and_eq_true_iff.mp (List.all_eq_true.mp h name hn)).2
  rw [hfree] at hnull
  cases hd : dflt name with
  | value v =>
    cases v with
    | null => rfl
    | _ => simp [hd, Ty.isFree, Default.isNull] at hnull
  | _ => simp [hd, Ty.isFree, Default.isNull] at hnull

theorem Ty.steady_field (h : (Ty.struct names dflt field).steady hole) (hn : name ∈ names) :
    ((dflt name).isDrawn → enter hole name = some []) ∧
      (field name).steady (enter hole name) := by
  have hfield := List.all_eq_true.mp h name hn
  simp only [Bool.and_eq_true, Bool.or_eq_true, Bool.not_eq_true', beq_iff_eq] at hfield
  refine ⟨fun hdrawn => hfield.1.resolve_left ?_, hfield.2⟩
  simp [hdrawn]

theorem Ty.steady_plain (hp : ty.plain) (h : ty.steady hole) : ty.steady none := by
  cases ty with
  | struct => cases hp
  | _ => exact h

theorem Ty.mem_frees (h : ty.at? path = some .free) : path ∈ ty.frees := by
  induction path generalizing ty with
  | nil =>
    obtain rfl : ty = .free := by simpa using h
    exact List.mem_singleton.mpr rfl
  | cons name rest ih =>
    obtain ⟨names, dflt, field, rfl, hn, hrest⟩ := Ty.at?_cons_eq_some.mp h
    exact List.mem_flatMap.mpr ⟨name, hn, List.mem_map.mpr ⟨rest, ih hrest, rfl⟩⟩

theorem read_plain (h : ty.plain) (hread : read draw ty v = some w) : ¬ w.IsObject := by
  induction ty generalizing v w with
  | struct => cases h
  | free => cases h
  | string | bool =>
    cases v <;> cases hread
    exact id
  | uint max =>
    obtain ⟨n, -, rfl⟩ := readUint_eq_some hread
    exact id
  | float =>
    obtain ⟨x, rfl⟩ := readFloat_eq_some hread
    exact id
  | enum variants =>
    obtain ⟨s, -, rfl⟩ := readEnum_eq_some hread
    exact id
  | option ty ih =>
    cases v with
    | null =>
      cases hread
      exact id
    | _ => exact ih h hread
  | vec ty =>
    cases v with
    | array vs =>
      obtain ⟨ws, -, rfl⟩ := Option.map_eq_some_iff.mp hread
      exact id
    | _ => cases hread

theorem read_plain_object {fields : Fields} (h : ty.plain)
    (hread : read draw ty (.object fields) = some w) : ∃ key, fields = [(key, .null)] := by
  induction ty with
  | enum variants =>
    unfold read readEnum at hread
    split at hread
    · rename_i heq
      cases heq
    · rename_i key heq
      exact ⟨key, Value.object.inj heq⟩
    · cases hread
  | option ty ih => exact ih h hread
  | struct => cases h
  | free => cases h
  | _ => cases hread

/-- Where nothing is drawn, all readings are the same. -/
theorem read_draw (h : ty.steady none) : read draw ty v = read draw' ty v := by
  induction ty generalizing v with
  | option ty ih =>
    cases v with
    | null => rfl
    | _ => exact ih h
  | vec ty ih =>
    have hinner : read draw ty = read draw' ty := funext fun v => ih h
    simp only [read, hinner]
  | struct names dflt field ih =>
    have hentry : ∀ child : String → Option Value,
        collect (fun name => readField draw (field name) (dflt name) (child name)) names =
        collect (fun name => readField draw' (field name) (dflt name) (child name)) names := by
      intro child
      refine collect_congr fun name hn => ?_
      obtain ⟨hdrawn, hfield⟩ := Ty.steady_field h hn
      cases child name with
      | some v => exact ih name hfield
      | none =>
        cases hd : dflt name with
        | drawn => cases hdrawn (by rw [hd]; rfl)
        | empty => exact ih name hfield
        | _ => rfl
    refine Option.ext fun w => ?_
    simp only [read_struct_eq_some, hentry]
  | _ => rfl

end

-- ---------------------------------------------------------------------------
-- Records by their fields
-- ---------------------------------------------------------------------------

structure Field where
  name : String
  ty : Ty
  dflt : Default
  sound : ty.Sound
  fits : dflt.Fits ty

def find (fields : List Field) (name : String) : Option Field :=
  fields.find? fun field => field.name = name

def Ty.record (fields : List Field) : Ty :=
  .struct (fields.map Field.name) (fun name => ((find fields name).map Field.dflt).getD .required)
    fun name => ((find fields name).map Field.ty).getD .free

theorem find_isSome {fields : List Field} {name : String} (h : name ∈ fields.map Field.name) :
    ∃ field ∈ fields, find fields name = some field := by
  obtain ⟨field, hfield, rfl⟩ := List.mem_map.mp h
  cases hfind : find fields field.name with
  | none => simpa using List.find?_eq_none.mp hfind field hfield
  | some found => exact ⟨found, List.mem_of_find?_eq_some hfind, rfl⟩

theorem Ty.record_sound (fields : List Field) : (Ty.record fields).Sound := by
  intro name hn
  obtain ⟨field, -, hfind⟩ := find_isSome hn
  simp only [hfind, Option.map_some, Option.getD_some]
  exact ⟨field.sound, field.fits⟩

namespace Field

def string (name dflt : String) : Field where
  name := name
  ty := .string
  dflt := .value (.string dflt)
  sound := trivial
  fits := ⟨fun _ => rfl, id⟩

def drawn (name : String) : Field where
  name := name
  ty := .string
  dflt := .drawn
  sound := trivial
  fits := rfl

def bool (name : String) (dflt : Bool) : Field where
  name := name
  ty := .bool
  dflt := .value (.bool dflt)
  sound := trivial
  fits := ⟨fun _ => rfl, id⟩

def uint (max : Nat) (name : String) (dflt : Nat) (h : dflt ≤ max := by decide) : Field where
  name := name
  ty := .uint max
  dflt := .value (.number (.posInt dflt))
  sound := trivial
  fits := ⟨fun _ => if_pos h, id⟩

abbrev u32Max := 4294967295

abbrev u64Max := 18446744073709551615

def u32 (name : String) (dflt : Nat) (h : dflt ≤ u32Max := by decide) : Field :=
  uint u32Max name dflt h

def u64 (name : String) (dflt : Nat) (h : dflt ≤ u64Max := by decide) : Field :=
  uint u64Max name dflt h

/-- On a machine of 64 bits. -/
def usize (name : String) (dflt : Nat) (h : dflt ≤ u64Max := by decide) : Field :=
  uint u64Max name dflt h

def float (name : String) (dflt : F64) : Field where
  name := name
  ty := .float
  dflt := .value (.number (.float dflt))
  sound := trivial
  fits := ⟨fun _ => rfl, id⟩

def free (name : String) : Field where
  name := name
  ty := .free
  dflt := .value .null
  sound := trivial
  fits := ⟨fun _ => rfl, id⟩

def enum (name : String) (variants : List String) (dflt : String)
    (h : dflt ∈ variants := by decide) : Field where
  name := name
  ty := .enum variants
  dflt := .value (.string dflt)
  sound := trivial
  fits := ⟨fun _ => if_pos h, id⟩

def option (name : String) (ty : Ty)
    (h : ty.Sound := by first | trivial | exact Ty.record_sound _) : Field where
  name := name
  ty := .option ty
  dflt := .value .null
  sound := h
  fits := ⟨fun _ => rfl, id⟩

def vec (name : String) (ty : Ty)
    (h : ty.Sound := by first | trivial | exact Ty.record_sound _) : Field where
  name := name
  ty := .vec ty
  dflt := .value (.array [])
  sound := h
  fits := ⟨fun _ => rfl, id⟩

theorem read_strings (draw : Draw) (texts : List String) :
    read draw (.vec .string) (.array (texts.map .string)) = some (.array (texts.map .string)) := by
  have hmap : ∀ texts : List String,
      (texts.map Value.string).mapM (read draw .string) = some (texts.map .string) := by
    intro texts
    induction texts with
    | nil => rfl
    | cons text texts ih =>
      rw [List.map_cons, List.mapM_cons, ih]
      rfl
  exact Option.map_eq_some_iff.mpr ⟨_, hmap texts, rfl⟩

def strings (name : String) (dflt : List String) : Field where
  name := name
  ty := .vec .string
  dflt := .value (.array (dflt.map .string))
  sound := trivial
  fits := ⟨fun draw => read_strings draw dflt, id⟩

def record (name : String) (fields : List Field) : Field where
  name := name
  ty := .record fields
  dflt := .empty
  sound := Ty.record_sound fields
  fits := trivial

def required (name : String) (ty : Ty)
    (h : ty.Sound := by first | trivial | exact Ty.record_sound _)
    (hty : ¬ ty.IsStruct := by exact id) : Field where
  name := name
  ty := ty
  dflt := .required
  sound := h
  fits := hty

end Field

end Rinfra.Lib.Json
