import Mathlib.Data.String.Basic
import Rinfra.Core.Error
import Rinfra.I18n.Arguments
import Rinfra.Lib.SortedMap

/-!
# Catalogs of messages

A locale has a file of messages, a YAML tree whose keys are joined with dots. The
names of all leaves of a tree share one map, and so do the locales of all files; in
both the last one that is inserted stays.
-/

namespace Rinfra

open Lib

-- `serde_yaml::Value`. A number is given by what `to_string` prints.
mutual
inductive Yaml
  | null
  | bool (b : Bool)
  | number (text : String)
  | string (s : String)
  | sequence (items : Yaml.Sequence)
  | mapping (entries : Yaml.Mapping)
  | tagged (tag : String) (value : Yaml)
inductive Yaml.Sequence
  | nil
  | cons (item : Yaml) (rest : Yaml.Sequence)
inductive Yaml.Mapping
  | nil
  | cons (key value : Yaml) (rest : Yaml.Mapping)
end

def boolText (b : Bool) : String := if b then "true" else "false"

abbrev Messages := List (String × String)

abbrev Catalog := List (String × Messages)

/-- The YAML library: what it reads, and its `Debug` format. -/
structure SerdeYaml where
  fromStr : String → Except String Yaml
  debug : Yaml → String

section
variable (serde : SerdeYaml)

def keyStr : Yaml → String
  | .string s => s
  | other => serde.debug other

def fullKey (above : String) (key : Yaml) : String :=
  if above = "" then keyStr serde key else above ++ "." ++ keyStr serde key

mutual
def flattenYaml : Yaml → String → Messages → Messages
  | .mapping entries, above, out => flattenMapping entries above out
  | .string s, above, out => SortedMap.insert above s out
  | .number text, above, out => SortedMap.insert above text out
  | .bool b, above, out => SortedMap.insert above (boolText b) out
  | .null, _, out | .sequence _, _, out | .tagged .., _, out => out
def flattenMapping : Yaml.Mapping → String → Messages → Messages
  | .nil, _, out => out
  | .cons k v rest, above, out =>
    flattenMapping rest above (flattenYaml v (fullKey serde above k) out)
end

end

structure DirEntry where
  name : String
  path : String
  content : Except String String

inductive Directory
  | missing
  | unreadable (e : String)
  | listing (entries : List DirEntry)

/-- `Path::file_stem` and `Path::extension` of a file name -/
def splitName (name : List Char) : List Char × Option (List Char) :=
  if name = ['.', '.'] then (name, none)
  else
    match name.reverse.dropWhile (· ≠ '.') with
    | [] | ['.'] => (name, none)
    | _ :: before => (before.reverse, some (name.reverse.takeWhile (· ≠ '.')).reverse)

structure FileI18n where
  catalog : Catalog
  defaultLocale : String

namespace FileI18n

def locale (entry : DirEntry) : Option String :=
  let (stem, ext) := splitName entry.name.toList
  if ext ≠ some "yaml".toList ∧ ext ≠ some "yml".toList then none
  else if stem = [] then none
  else some (String.ofList stem)

def i18nLoadFailed (message : String) : AppError := ⟨.i18nLoadFailed, message⟩

def value (serde : SerdeYaml) (entry : DirEntry) : Except AppError Yaml := do
  let content ← entry.content.mapError fun e =>
    i18nLoadFailed ("failed to read " ++ entry.path ++ ": " ++ e)
  (serde.fromStr content).mapError fun e =>
    i18nLoadFailed ("failed to parse " ++ entry.path ++ ": " ++ e)

def loadEntry (serde : SerdeYaml) (catalog : Catalog) (entry : DirEntry) :
    Except AppError Catalog :=
  match locale entry with
  | none => .ok catalog
  | some l => do
    let v ← value serde entry
    .ok (SortedMap.insert l (flattenYaml serde v "" []) catalog)

def load (serde : SerdeYaml) (dir : Directory) (defaultLocale : String) :
    Except AppError FileI18n :=
  match dir with
  | .missing => .ok ⟨[], defaultLocale⟩
  | .unreadable e => .error (i18nLoadFailed ("failed to read i18n directory: " ++ e))
  | .listing entries => do
    let catalog ← entries.foldlM (loadEntry serde) []
    .ok ⟨catalog, defaultLocale⟩

def message (i : FileI18n) (key locale : String) : Option String := do
  let messages ← SortedMap.get locale i.catalog
  SortedMap.get key messages

def t (i : FileI18n) (key locale : String) : String :=
  match i.message key locale with
  | some v => v
  | none =>
    if locale ≠ i.defaultLocale then
      match i.message key i.defaultLocale with
      | some v => v
      | none => key
    else key

def toI18n (i : FileI18n) : I18n := ⟨i.t⟩

-- ---------------------------------------------------------------------------
-- Leaves and their names
-- ---------------------------------------------------------------------------

/-- A string, a number or a boolean of a tree, and the keys that lead to it. -/
abbrev Leaf := List Yaml × String

mutual
def leaves : Yaml → List Leaf
  | .mapping entries => entryLeaves entries
  | .string s => [([], s)]
  | .number text => [([], text)]
  | .bool b => [([], boolText b)]
  | .null | .sequence _ | .tagged .. => []
def entryLeaves : Yaml.Mapping → List Leaf
  | .nil => []
  | .cons k v rest => (leaves v).map (fun leaf => (k :: leaf.1, leaf.2)) ++ entryLeaves rest
end

section
variable (serde : SerdeYaml)

/-- A scalar key as its text. Of other keys nothing is asked, so they are as the code
has them. -/
def keyText : Yaml → String
  | .string s => s
  | .number text => text
  | .bool b => boolText b
  | other => serde.debug other

def dotted (path : List Yaml) : String := ".".intercalate (path.map (keyText serde))

def flatKey (path : List Yaml) : String := path.foldl (fullKey serde) ""

def named (v : Yaml) : Messages := (leaves v).map fun leaf => (dotted serde leaf.1, leaf.2)

def stored (v : Yaml) : Messages := (leaves v).map fun leaf => (flatKey serde leaf.1, leaf.2)

/-- The files that are for a locale, as far as they are in order. -/
def files (entries : List DirEntry) : List (String × Yaml) :=
  entries.filterMap fun entry => do
    let l ← locale entry
    let v ← (value serde entry).toOption
    some (l, v)

def InOrder (entries : List DirEntry) : Prop :=
  ∀ entry ∈ entries, ∀ l, locale entry = some l → ∃ v, value serde entry = .ok v

/-- The messages are the leaves of the files: none is lost, none replaces another, and
a key without a leaf is asked of the default locale. -/
structure Keeps (files : List (String × Yaml)) (i : FileI18n) : Prop where
  found : ∀ f ∈ files, ∀ m ∈ named serde f.2,
    i.message m.1 f.1 = some m.2 ∧ i.t m.1 f.1 = m.2
  whole : ∀ f ∈ files, (flattenYaml serde f.2 "" []).length = (leaves f.2).length
  falls : ∀ key l, (∀ f ∈ files, f.1 = l → ∀ m ∈ named serde f.2, m.1 ≠ key) →
    i.message key l = none ∧ i.t key l = (i.message key i.defaultLocale).getD key

/-- In whatever order the directory is listed, its messages are kept, or it is
rejected, and they are the same in every order. -/
structure LosesNone (entries : List DirEntry) (defaultLocale : String) : Prop where
  keeps : ∀ order : List DirEntry, order.Perm entries →
    ∀ i, load serde (.listing order) defaultLocale = .ok i → Keeps serde (files serde entries) i
  alike : ∀ order order' : List DirEntry, order.Perm entries → order'.Perm entries →
    ∀ i, load serde (.listing order) defaultLocale = .ok i →
      ∃ i', load serde (.listing order') defaultLocale = .ok i' ∧ ∀ key l, i'.t key l = i.t key l

/-- The leaves of a file have keys of their own as they are put in, and, so put in, each
file of a locale has the messages of all files of the locale under their dotted keys. -/
structure Flat (files : List (String × Yaml)) : Prop where
  distinct : ∀ f ∈ files, ((stored serde f.2).map Prod.fst).Nodup
  all : ∀ f ∈ files, ∀ g ∈ files, g.1 = f.1 → ∀ m ∈ named serde g.2, m ∈ stored serde f.2
  only : ∀ f ∈ files, ∀ m ∈ stored serde f.2, ∃ g ∈ files, g.1 = f.1 ∧ m ∈ named serde g.2

end

section
variable {serde : SerdeYaml} {entries : List DirEntry} {defaultLocale : String}

mutual
theorem flattenYaml_eq (serde : SerdeYaml) : ∀ (v : Yaml) (above : String) (out : Messages),
    flattenYaml serde v above out =
      ((leaves v).map fun leaf => (leaf.1.foldl (fullKey serde) above, leaf.2)).foldl
        (fun out m => SortedMap.insert m.1 m.2 out) out
  | .mapping entries, above, out => flattenMapping_eq serde entries above out
  | .string _, _, _ | .number _, _, _ | .bool _, _, _ | .null, _, _ | .sequence _, _, _
  | .tagged .., _, _ => rfl
theorem flattenMapping_eq (serde : SerdeYaml) :
    ∀ (entries : Yaml.Mapping) (above : String) (out : Messages),
      flattenMapping serde entries above out =
        ((entryLeaves entries).map fun leaf =>
          (leaf.1.foldl (fullKey serde) above, leaf.2)).foldl
            (fun out m => SortedMap.insert m.1 m.2 out) out
  | .nil, _, _ => rfl
  | .cons k v rest, above, out => by
    rw [flattenMapping, flattenYaml_eq serde v, flattenMapping_eq serde rest, entryLeaves,
      List.map_append, List.foldl_append, List.map_map]
    rfl
end

theorem flattenYaml_stored (serde : SerdeYaml) (v : Yaml) :
    flattenYaml serde v "" [] = SortedMap.ofList (stored serde v) :=
  flattenYaml_eq serde v "" []

-- ---------------------------------------------------------------------------
-- Loading
-- ---------------------------------------------------------------------------

def catalogs (serde : SerdeYaml) (fs : List (String × Yaml)) : List (String × Messages) :=
  fs.map fun f => (f.1, SortedMap.ofList (stored serde f.2))

theorem inOrder_cons {entry : DirEntry} :
    InOrder serde (entry :: entries) ↔
      (∀ l, locale entry = some l → ∃ v, value serde entry = .ok v) ∧ InOrder serde entries :=
  List.forall_mem_cons

theorem files_cons_none {entry : DirEntry} (h : locale entry = none) :
    files serde (entry :: entries) = files serde entries :=
  List.filterMap_cons_none (by simp [h])

theorem files_cons_some {entry : DirEntry} (h : locale entry = some l)
    (hv : value serde entry = .ok v) :
    files serde (entry :: entries) = (l, v) :: files serde entries :=
  List.filterMap_cons_some (by simp [h, hv, Except.toOption])

theorem foldlM_loadEntry {catalog catalog' : Catalog} :
    entries.foldlM (loadEntry serde) catalog = .ok catalog' ↔
      InOrder serde entries ∧ (catalogs serde (files serde entries)).foldl
        (fun catalog e => SortedMap.insert e.1 e.2 catalog) catalog = catalog' := by
  induction entries generalizing catalog with
  | nil =>
    rw [List.foldlM_nil]
    exact ⟨fun h => ⟨fun _ hmem => absurd hmem List.not_mem_nil, Except.ok.inj h⟩,
      fun h => congrArg Except.ok h.2⟩
  | cons entry entries ih =>
    rw [List.foldlM_cons, inOrder_cons]
    cases hlocale : locale entry with
    | none =>
      have hturn : loadEntry serde catalog entry = .ok catalog := by simp [loadEntry, hlocale]
      rw [hturn, files_cons_none hlocale]
      change entries.foldlM (loadEntry serde) catalog = .ok catalog' ↔ _
      rw [ih]
      simp
    | some l =>
      cases hv : value serde entry with
      | error e =>
        have hturn : loadEntry serde catalog entry = .error e := by
          simp only [loadEntry, hlocale, hv]
          rfl
        rw [hturn]
        refine iff_of_false (by simp [Bind.bind, Except.bind]) fun h => ?_
        obtain ⟨v, hv'⟩ := h.1.1 l rfl
        cases hv'
      | ok v =>
        let next := SortedMap.insert l (SortedMap.ofList (stored serde v)) catalog
        have hturn : loadEntry serde catalog entry = .ok next := by
          simp only [loadEntry, hlocale, hv, next, ← flattenYaml_stored]
          rfl
        rw [hturn, files_cons_some hlocale hv]
        change entries.foldlM (loadEntry serde) next = .ok catalog' ↔ _
        rw [ih]
        simp [catalogs, next]

def loaded (serde : SerdeYaml) (entries : List DirEntry) (defaultLocale : String) : FileI18n :=
  ⟨SortedMap.ofList (catalogs serde (files serde entries)), defaultLocale⟩

theorem load_eq_ok {i : FileI18n} :
    load serde (.listing entries) defaultLocale = .ok i ↔
      InOrder serde entries ∧ i = loaded serde entries defaultLocale := by
  simp only [load]
  cases hcatalog : entries.foldlM (loadEntry serde) [] with
  | error e =>
    refine iff_of_false (by simp [Bind.bind, Except.bind]) fun h => ?_
    have hok : entries.foldlM (loadEntry serde) [] = .ok _ := foldlM_loadEntry.mpr ⟨h.1, rfl⟩
    exact absurd (hcatalog.symm.trans hok) (by simp)
  | ok catalog =>
    obtain ⟨hinOrder, rfl⟩ := foldlM_loadEntry.mp hcatalog
    change Except.ok (loaded serde entries defaultLocale) = .ok i ↔ _
    simp only [Except.ok.injEq, hinOrder, true_and, eq_comm]

theorem inOrder_perm {order : List DirEntry} (hperm : order.Perm entries) :
    InOrder serde order ↔ InOrder serde entries :=
  forall_congr' fun _ => imp_congr_left hperm.mem_iff

theorem mem_files_perm {order : List DirEntry} (hperm : order.Perm entries) :
    f ∈ files serde order ↔ f ∈ files serde entries :=
  (hperm.filterMap _).mem_iff

-- ---------------------------------------------------------------------------
-- Messages
-- ---------------------------------------------------------------------------

theorem t_of_message {i : FileI18n} (h : i.message key l = some v) : i.t key l = v := by
  simp only [t, h]

theorem t_of_none {i : FileI18n} (h : i.message key l = none) :
    i.t key l = (i.message key i.defaultLocale).getD key := by
  simp only [t, h]
  split
  · split
    · rename_i hdefault
      rw [hdefault, Option.getD_some]
    · rename_i hdefault
      rw [hdefault, Option.getD_none]
  · rename_i hsame
    rw [← Decidable.not_not.mp hsame, h, Option.getD_none]

/-- A locale has the messages of one of its files. -/
theorem message_loaded (serde : SerdeYaml) (entries : List DirEntry) (defaultLocale l : String) :
    (∀ f ∈ files serde entries, f.1 ≠ l) ∧
        (∀ key, (loaded serde entries defaultLocale).message key l = none) ∨
      ∃ f ∈ files serde entries, f.1 = l ∧
        ∀ key, (loaded serde entries defaultLocale).message key l =
          SortedMap.get key (SortedMap.ofList (stored serde f.2)) := by
  cases hget : SortedMap.get l (SortedMap.ofList (catalogs serde (files serde entries))) with
  | none =>
    refine .inl ⟨fun f hf heq => ?_, fun key => by simp [message, loaded, hget]⟩
    refine SortedMap.get_ofList_eq_none.mp hget (List.mem_map.mpr ⟨_, List.mem_map_of_mem hf, heq⟩)
  | some messages =>
    obtain ⟨f, hf, heq⟩ := List.mem_map.mp (SortedMap.mem_of_get_ofList hget)
    cases heq
    exact .inr ⟨f, hf, rfl, fun key => by simp [message, loaded, hget]⟩

theorem message_last {entry : DirEntry} (hl : locale entry = some l)
    (hv : value serde entry = .ok v) (key : String) :
    (loaded serde (entries ++ [entry]) defaultLocale).message key l =
      SortedMap.get key (SortedMap.ofList (stored serde v)) := by
  have hfiles : files serde (entries ++ [entry]) = files serde entries ++ [(l, v)] := by
    rw [files, List.filterMap_append]
    simp [files, hl, hv, Except.toOption]
  have hget := SortedMap.get_ofList_append (catalogs serde (files serde entries))
    (l, SortedMap.ofList (stored serde v)) l
  simp only [message, loaded, hfiles]
  rw [catalogs, List.map_append, List.map_singleton, ← catalogs, hget, if_pos rfl]
  rfl

theorem message_own {f : String × Yaml} (hnodup : ((stored serde f.2).map Prod.fst).Nodup)
    {m : String × String} :
    SortedMap.get m.1 (SortedMap.ofList (stored serde f.2)) = some m.2 ↔ m ∈ stored serde f.2 :=
  ⟨SortedMap.mem_of_get_ofList, SortedMap.get_ofList_of_mem hnodup⟩

theorem whole_iff (v : Yaml) :
    (flattenYaml serde v "" []).length = (leaves v).length ↔
      ((stored serde v).map Prod.fst).Nodup := by
  have hlength : (leaves v).length = (stored serde v).length := (List.length_map _).symm
  rw [flattenYaml_stored, hlength]
  exact SortedMap.length_ofList_iff.2

theorem keeps_of_flat (h : Flat serde (files serde entries)) {order : List DirEntry}
    (hperm : order.Perm entries) :
    Keeps serde (files serde entries) (loaded serde order defaultLocale) := by
  constructor
  · intro f hf m hm
    have hmessage : (loaded serde order defaultLocale).message m.1 f.1 = some m.2 := by
      rcases message_loaded serde order defaultLocale f.1 with
        ⟨hnone, -⟩ | ⟨g, hg, hlocale, hget⟩
      · exact absurd rfl (hnone f ((mem_files_perm hperm).mpr hf))
      · have hg := (mem_files_perm hperm).mp hg
        rw [hget]
        exact (message_own (h.distinct g hg)).mpr (h.all g hg f hf hlocale.symm m hm)
    exact ⟨hmessage, t_of_message hmessage⟩
  · exact fun f hf => (whole_iff f.2).mpr (h.distinct f hf)
  · intro key l habsent
    have hmessage : (loaded serde order defaultLocale).message key l = none := by
      rcases message_loaded serde order defaultLocale l with
        ⟨-, hnone⟩ | ⟨f, hf, hlocale, hget⟩
      · exact hnone key
      · have hf := (mem_files_perm hperm).mp hf
        rw [hget, SortedMap.get_ofList_eq_none]
        intro hkey
        obtain ⟨m, hm, hkey⟩ := List.mem_map.mp hkey
        obtain ⟨g, hg, hsame, hmem⟩ := h.only f hf m hm
        exact habsent g hg (hsame.trans hlocale) m hmem hkey
    exact ⟨hmessage, t_of_none hmessage⟩

theorem Keeps.message_eq {fs : List (String × Yaml)} {i i' : FileI18n} (h : Keeps serde fs i)
    (h' : Keeps serde fs i') (key l : String) : i.message key l = i'.message key l := by
  by_cases hleaf : ∃ f ∈ fs, f.1 = l ∧ ∃ m ∈ named serde f.2, m.1 = key
  · obtain ⟨f, hf, rfl, m, hm, rfl⟩ := hleaf
    rw [(h.found f hf m hm).1, (h'.found f hf m hm).1]
  · have habsent : ∀ f ∈ fs, f.1 = l → ∀ m ∈ named serde f.2, m.1 ≠ key :=
      fun f hf hl m hm hkey => hleaf ⟨f, hf, hl, m, hm, hkey⟩
    rw [(h.falls key l habsent).1, (h'.falls key l habsent).1]

theorem t_congr {i i' : FileI18n} (hmessage : ∀ key l, i.message key l = i'.message key l)
    (hdefault : i.defaultLocale = i'.defaultLocale) (key l : String) : i.t key l = i'.t key l := by
  simp only [t, hmessage, hdefault]

theorem losesNone_of_flat (h : InOrder serde entries → Flat serde (files serde entries)) :
    LosesNone serde entries defaultLocale := by
  have hkeeps : ∀ order : List DirEntry, order.Perm entries → InOrder serde entries →
      Keeps serde (files serde entries) (loaded serde order defaultLocale) :=
    fun order hperm hin => keeps_of_flat (h hin) hperm
  constructor
  · intro order hperm i hload
    obtain ⟨hin, rfl⟩ := load_eq_ok.mp hload
    exact hkeeps order hperm ((inOrder_perm hperm).mp hin)
  · intro order order' hperm hperm' i hload
    obtain ⟨hin, rfl⟩ := load_eq_ok.mp hload
    have hin := (inOrder_perm hperm).mp hin
    refine ⟨_, load_eq_ok.mpr ⟨(inOrder_perm hperm').mpr hin, rfl⟩, ?_⟩
    exact t_congr ((hkeeps order' hperm' hin).message_eq (hkeeps order hperm hin)) rfl

theorem flat_of_losesNone (h : LosesNone serde entries defaultLocale)
    (hin : InOrder serde entries) : Flat serde (files serde entries) := by
  -- list the directory with the file at its end
  have hlast : ∀ f ∈ files serde entries, ∃ i, Keeps serde (files serde entries) i ∧
      ∀ key, i.message key f.1 = SortedMap.get key (SortedMap.ofList (stored serde f.2)) := by
    intro f hf
    obtain ⟨entry, hentry, hf⟩ := List.mem_filterMap.mp hf
    obtain ⟨l, hl, hf⟩ := Option.bind_eq_some_iff.mp hf
    obtain ⟨v, hv, hf⟩ := Option.bind_eq_some_iff.mp hf
    cases hf
    have hv : value serde entry = .ok v := by
      cases hvalue : value serde entry with
      | error e => simp [hvalue, Except.toOption] at hv
      | ok v' => simpa [hvalue, Except.toOption] using hv
    obtain ⟨before, after, rfl⟩ := List.append_of_mem hentry
    have hperm : (before ++ after ++ [entry]).Perm (before ++ entry :: after) :=
      List.perm_append_singleton _ _ |>.trans List.perm_middle.symm
    have hload : load serde (.listing (before ++ after ++ [entry])) defaultLocale = .ok _ :=
      load_eq_ok.mpr ⟨(inOrder_perm hperm).mpr hin, rfl⟩
    exact ⟨_, h.keeps _ hperm _ hload, message_last hl hv⟩
  have hdistinct : ∀ f ∈ files serde entries, ((stored serde f.2).map Prod.fst).Nodup := by
    intro f hf
    obtain ⟨i, hkeeps, -⟩ := hlast f hf
    exact (whole_iff f.2).mp (hkeeps.whole f hf)
  refine ⟨hdistinct, fun f hf g hg hsame m hm => ?_, fun f hf m hm => ?_⟩
  · obtain ⟨i, hkeeps, hget⟩ := hlast f hf
    have hfound := (hkeeps.found g hg m hm).1
    rw [hsame, hget] at hfound
    exact SortedMap.mem_of_get_ofList hfound
  · obtain ⟨i, hkeeps, hget⟩ := hlast f hf
    have hmine := (message_own (hdistinct f hf)).mpr hm
    by_contra hnone
    have habsent : ∀ g ∈ files serde entries, g.1 = f.1 → ∀ m' ∈ named serde g.2, m'.1 ≠ m.1 := by
      intro g hg hsame m' hm' hkey
      have hfound := (hkeeps.found g hg m' hm').1
      rw [hsame, hget, hkey, hmine] at hfound
      exact hnone ⟨g, hg, hsame, (Prod.ext hkey (Option.some.inj hfound).symm) ▸ hm'⟩
    have hfalls := (hkeeps.falls m.1 f.1 habsent).1
    rw [hget, hmine] at hfalls
    cases hfalls

/-- No message is lost if and only if, where the files are in order, each of them puts in
the messages of its locale under their dotted keys, and none of its own twice. -/
theorem losesNone_iff (serde : SerdeYaml) (entries : List DirEntry) (defaultLocale : String) :
    LosesNone serde entries defaultLocale ↔
      (InOrder serde entries → Flat serde (files serde entries)) :=
  ⟨flat_of_losesNone, losesNone_of_flat⟩

/-- A path whose keys are strings, the first of them not empty. -/
def PlainPath (path : List Yaml) : Prop :=
  (∀ key ∈ path, ∃ s, key = .string s) ∧ path.head? ≠ some (.string "")

theorem foldl_fullKey {path : List Yaml} (hkeys : ∀ key ∈ path, ∃ s, key = .string s)
    {above : String} (habove : above ≠ "") :
    path.foldl (fullKey serde) above = ".".intercalate (above :: path.map (keyText serde)) := by
  induction path generalizing above with
  | nil => simp
  | cons key path ih =>
    obtain ⟨s, rfl⟩ := hkeys key List.mem_cons_self
    have hnext : above ++ "." ++ s ≠ "" := by simp
    have hkey : fullKey serde above (.string s) = above ++ "." ++ s := if_neg habove
    rw [List.foldl_cons, hkey, ih (fun k hk => hkeys k (List.mem_cons_of_mem _ hk)) hnext,
      String.intercalate_cons_append, List.map_cons, String.intercalate_cons_cons, keyText]

theorem flatKey_of_plain {path : List Yaml} (h : PlainPath path) :
    flatKey serde path = dotted serde path := by
  cases path with
  | nil => rfl
  | cons key path =>
    obtain ⟨s, rfl⟩ := h.1 key List.mem_cons_self
    have hs : s ≠ "" := by
      rintro rfl
      exact h.2 rfl
    exact foldl_fullKey (fun k hk => h.1 k (List.mem_cons_of_mem _ hk)) hs

/-- One file for each locale, plain paths, and no two of the same text: nothing is lost. -/
theorem losesNone_of_plain (hlocales : ((files serde entries).map Prod.fst).Nodup)
    (hpaths : ∀ f ∈ files serde entries, ∀ leaf ∈ leaves f.2, PlainPath leaf.1)
    (hnames : ∀ f ∈ files serde entries, ((named serde f.2).map Prod.fst).Nodup) :
    LosesNone serde entries defaultLocale := by
  have hsame : ∀ f ∈ files serde entries, stored serde f.2 = named serde f.2 :=
    fun f hf => List.map_congr_left fun leaf hleaf => by
      rw [flatKey_of_plain (hpaths f hf leaf hleaf)]
  refine losesNone_of_flat fun _ => ⟨fun f hf => ?_, fun f hf g hg heq m hm => ?_,
    fun f hf m hm => ⟨f, hf, rfl, hsame f hf ▸ hm⟩⟩
  · rw [hsame f hf]
    exact hnames f hf
  · obtain rfl := List.inj_on_of_nodup_map hlocales hg hf heq
    rw [hsame g hf]
    exact hm

end

/-- Trees by what is written in the file, and the `Debug` format of scalars. -/
def someYaml : SerdeYaml where
  fromStr content :=
    if content = "1: one" then .ok (.mapping (.cons (.number "1") (.string "one") .nil))
    else if content = "a.b: x\na:\n  b: y" then
      .ok (.mapping (.cons (.string "a.b") (.string "x")
        (.cons (.string "a") (.mapping (.cons (.string "b") (.string "y") .nil)) .nil)))
    else if content = "a: x" then .ok (.mapping (.cons (.string "a") (.string "x") .nil))
    else .ok .null
  debug
    | .bool b => "Bool(" ++ boolText b ++ ")"
    | .number text => "Number(" ++ text ++ ")"
    | _ => "Null"

def yamlFile (name content : String) : DirEntry := ⟨name, "i18n/" ++ name, .ok content⟩

/-- A message under a number is not found, one of two with the same dotted key is lost,
and of two files of a locale the one that is listed last is there. -/
theorem messages_lost :
    (loaded someYaml [yamlFile "en.yaml" "1: one"] "en").t "1" "en" = "1" ∧
    (loaded someYaml [yamlFile "en.yaml" "a.b: x\na:\n  b: y"] "en").t "a.b" "en" = "y" ∧
    ¬ LosesNone someYaml [yamlFile "en.yaml" "a: x", yamlFile "en.yml" ""] "en" := by
  refine ⟨by decide +kernel, by decide +kernel, fun h => ?_⟩
  have hin : InOrder someYaml [yamlFile "en.yaml" "a: x", yamlFile "en.yml" ""] := by
    intro entry hmem l hl
    rcases List.mem_cons.mp hmem with rfl | hmem
    · exact ⟨_, rfl⟩
    · obtain rfl := List.mem_singleton.mp hmem
      exact ⟨_, rfl⟩
  have hload : load someYaml (.listing [yamlFile "en.yaml" "a: x", yamlFile "en.yml" ""]) "en" =
      .ok _ := load_eq_ok.mpr ⟨hin, rfl⟩
  have hswap := List.Perm.swap (yamlFile "en.yaml" "a: x") (yamlFile "en.yml" "") []
  obtain ⟨i, hload', halike⟩ := h.alike _ _ (List.Perm.refl _) hswap _ hload
  obtain ⟨-, rfl⟩ := load_eq_ok.mp hload'
  exact absurd (halike "a" "en") (by decide +kernel)

end FileI18n

end Rinfra
