import Mathlib.Data.List.Nodup
import Rinfra.FileStore.Confinement
import Rinfra.Lib.FileTree.Keep

/-!
# Listed paths as paths of the store

`list` gives each entry the path of the directory with the name of the entry, less the
root. Every backslash in it is made a slash, which is no separator here but may be in
a name.
-/

namespace Rinfra.FileStore

open Lib Lib.FileTree

def toSlash (c : Char) : Char := if c = '\\' then '/' else c

def spelled (parts : List Name) : List Char := (['/'].intercalate parts).map toSlash

namespace LocalFileStore

variable (store : LocalFileStore) (os : Os)

def entry (pre : String) (c : Name) : Path := (store.resolve pre).join ⟨false, [c]⟩

def entryPath (pre : String) (c : Name) : String := makeRelative store.root (store.entry pre c)

/-- The calls on the path of an info find the file that is there, and it is as listed. -/
def LeadsBack (s : Session) (info : FileInfo) (q : Place) : Prop :=
  ∃ content modified, s.tree.node q = some (.file content modified) ∧
    info = fileInfo info.path (.file content modified) ∧
    store.exists_ os info.path s = (.ok true, s.touch .stat q) ∧
    store.metadata os info.path s = (.ok info, s.touch .stat q) ∧
    store.get os info.path s = (.ok content, s.touch .read q)

/-- Each listed file is found under its path, no path is listed twice, and each of the
kept files in the directory is listed once. -/
structure ListsBack (s : Session) (pre : String) (kept : List Place) (infos : List FileInfo) :
    Prop where
  back : ∀ info ∈ infos, info.isDir = false → ∃ c, info.path = store.entryPath pre c ∧
    store.LeadsBack os s info (store.target os pre ++ [c])
  distinct : (infos.map FileInfo.path).Nodup
  once : ∀ c, store.target os pre ++ [c] ∈ kept →
    infos.countP (fun info => info.path = store.entryPath pre c) = 1

/-- The name has no backslash, something is left of the path without the root, and the
path of the directory, spelled as it is given out, leads to the directory. -/
structure Legible (t : Tree) (pre : String) (c : Name) : Prop where
  noBackslash : '\\' ∉ c
  below : ((store.entry pre c).relative store.root).parts ≠ []
  back : FileTree.resolve os t (store.resolve (makeRelative store.root (store.resolve pre))) =
    .ok (store.target os pre)

/-- The prefix leads to the directory if a kept file is in it, and where it does, every
file in it is legible. -/
structure AllLegible (t : Tree) (pre : String) (kept : List Place) : Prop where
  there : ∀ c, store.target os pre ++ [c] ∈ kept →
    FileTree.resolve os t (store.resolve pre) = .ok (store.target os pre)
  legible : FileTree.resolve os t (store.resolve pre) = .ok (store.target os pre) →
    ∀ c, t.HasFile (store.target os pre ++ [c]) → store.Legible os t pre c

end LocalFileStore

structure Disk where
  tree : Tree
  named : tree.Named

/-- A store at work, with the files that have been put and not deleted. -/
structure Stored where
  session : Session
  kept : List Place

def Stored.start (disk : Disk) : Stored := ⟨⟨disk.tree, []⟩, []⟩

def Stored.handle (store : LocalFileStore) (os : Os) (st : Stored) : Request → Stored
  | .put path data =>
    match store.put os path data st.session with
    | (.ok (), s) => ⟨s, store.target os path :: st.kept⟩
    | (.error _, s) => ⟨s, st.kept⟩
  | .delete path =>
    match store.delete os path st.session with
    | (.ok true, s) => ⟨s, st.kept.filter (· ≠ store.target os path)⟩
    | (_, s) => ⟨s, st.kept⟩
  | r => ⟨(store.handle os st.session r).2, st.kept⟩

def Stored.run (store : LocalFileStore) (os : Os) (disk : Disk) (rs : List Request) : Stored :=
  rs.foldl (Stored.handle store os) (.start disk)

-- ---------------------------------------------------------------------------
-- Spelling
-- ---------------------------------------------------------------------------

section
variable {store : LocalFileStore} {os : Os} {t : Tree} {parts : List Name} {c : Name}

theorem makeRelative_toList (root p : Path) :
    (makeRelative root p).toList = spelled (p.relative root).parts := by
  simp only [makeRelative, Path.relative, spelled, Path.text, String.toList_map,
    String.toList_ofList]
  rfl

theorem spelled_concat (hparts : parts ≠ []) (c : Name) :
    spelled (parts ++ [c]) = spelled parts ++ '/' :: c.map toSlash := by
  induction parts with
  | nil => exact absurd rfl hparts
  | cons x parts ih =>
    cases parts with
    | nil => simp [spelled, toSlash]
    | cons y parts =>
      have hrest := ih (by simp)
      simp only [spelled, List.cons_append, List.intercalate_cons_cons, List.map_append] at hrest ⊢
      rw [hrest]
      simp

theorem spelled_ne_nil (hparts : parts ≠ []) (hlast : parts.getLast? ≠ some []) :
    spelled parts ≠ [] := by
  obtain ⟨ys, c, rfl⟩ := (List.eq_nil_or_concat' parts).resolve_left hparts
  have hc : c ≠ [] := by
    rintro rfl
    simp at hlast
  by_cases hys : ys = []
  · subst hys
    simpa [spelled] using hc
  · rw [spelled_concat hys]
    simp

theorem noBackslash_spelled (parts : List Name) : '\\' ∉ spelled parts := by
  intro h
  obtain ⟨c, -, hc⟩ := List.mem_map.mp h
  unfold toSlash at hc
  split at hc
  · cases hc
  · rename_i hne
    exact hne hc

theorem map_toSlash (h : '\\' ∉ c) : c.map toSlash = c := by
  induction c with
  | nil => rfl
  | cons x c ih =>
    obtain ⟨hx, hc⟩ := List.ne_and_not_mem_of_not_mem_cons h
    rw [List.map_cons, ih hc, toSlash, if_neg (Ne.symm hx)]

theorem map_toSlash_inj {c c' : Name} (hc : '/' ∉ c) (hc' : '/' ∉ c')
    (h : c.map toSlash = c'.map toSlash) : c = c' := by
  induction c generalizing c' with
  | nil => exact (List.map_eq_nil_iff.mp h.symm).symm
  | cons x c ih =>
    cases c' with
    | nil => cases h
    | cons x' c' =>
      simp only [List.map_cons, List.cons.injEq] at h
      obtain ⟨hx, hc⟩ := List.ne_and_not_mem_of_not_mem_cons hc
      obtain ⟨hx', hc'⟩ := List.ne_and_not_mem_of_not_mem_cons hc'
      rw [ih hc hc' h.2]
      congr 1
      have hsame := h.1
      unfold toSlash at hsame
      split at hsame <;> split at hsame <;> simp_all

end

-- ---------------------------------------------------------------------------
-- Paths of entries
-- ---------------------------------------------------------------------------

/-- What a path of an entry opens with, if the path of the directory is `dir`. -/
def Opens (opening dir : List Char) : Prop :=
  opening = [] ∧ dir = [] ∨
    ∃ ys, opening = ys ++ ['/'] ∧ (dir = ys ∧ ys ≠ [] ∨ dir = ys ++ ['/'])

section
variable {store : LocalFileStore} {os : Os} {t : Tree} {opening dir : List Char} {c : Name}

/-- All entries open alike, except for one that is the root as it is written. -/
theorem entryPath_spelled (store : LocalFileStore) (pre : String) : ∃ opening last,
    Opens opening (makeRelative store.root (store.resolve pre)).toList ∧
    ∀ c, IsName c →
      (store.entryPath pre c).toList = opening ++ c.map toSlash ∧
          ((store.entry pre c).relative store.root).parts ≠ [] ∨
        ((store.entry pre c).relative store.root).parts = [] ∧ last = some c := by
  obtain ⟨ys, last, hdir, hentry⟩ := relative_entry (store.resolve pre) store.root
  rw [makeRelative_toList]
  by_cases hys : ys = []
  · subst hys
    refine ⟨[], last, .inl ⟨rfl, ?_⟩, fun c hc => ?_⟩
    · rcases hdir with ⟨hdir, -⟩ | hdir <;> rw [hdir] <;> rfl
    · refine (hentry c hc).imp (fun h => ?_) id
      rw [LocalFileStore.entryPath, makeRelative_toList, LocalFileStore.entry, h]
      exact ⟨by simp [spelled], by simp⟩
  · refine ⟨spelled ys ++ ['/'], last, .inr ⟨spelled ys, rfl, ?_⟩, fun c hc => ?_⟩
    · rcases hdir with ⟨hdir, hlast⟩ | hdir
      · exact .inl ⟨by rw [hdir], spelled_ne_nil hys hlast⟩
      · exact .inr (by rw [hdir, spelled_concat hys]; rfl)
    · refine (hentry c hc).imp (fun h => ?_) id
      rw [LocalFileStore.entryPath, makeRelative_toList, LocalFileStore.entry, h,
        spelled_concat hys]
      exact ⟨by simp, by simp⟩

theorem entryPath_inj {c c' : Name} (hc : IsName c) (hc' : IsName c')
    (h : store.entryPath pre c = store.entryPath pre c') : c = c' := by
  obtain ⟨opening, last, -, hentry⟩ := entryPath_spelled store pre
  have hroot : ∀ {c c'}, IsName c' → ((store.entry pre c).relative store.root).parts = [] →
      store.entryPath pre c = store.entryPath pre c' →
      (store.entryPath pre c').toList ≠ opening ++ c'.map toSlash := by
    intro c c' hc' hnil h hc''
    rw [← h, LocalFileStore.entryPath, makeRelative_toList, hnil] at hc''
    have hempty := (List.append_eq_nil_iff.mp hc''.symm).2
    exact hc'.ne_nil (List.map_eq_nil_iff.mp hempty)
  rcases hentry c hc with ⟨htext, -⟩ | ⟨hnil, hlast⟩
  · rcases hentry c' hc' with ⟨htext', -⟩ | ⟨hnil', -⟩
    · rw [h, htext', List.append_cancel_left_eq] at htext
      exact (map_toSlash_inj hc'.noSlash hc.noSlash htext).symm
    · exact absurd htext (hroot hc hnil' h.symm)
  · rcases hentry c' hc' with ⟨htext', -⟩ | ⟨-, hlast'⟩
    · exact absurd htext' (hroot hc' hnil h)
    · exact Option.some.inj (hlast.symm.trans hlast')

theorem join_parts (root : Path) (a : Bool) (ds : List Name) :
    ∃ a' ws, ∀ es, root.join ⟨a, ds ++ es⟩ = ⟨a', ws ++ es⟩ := by
  cases a with
  | true => exact ⟨true, ds, fun es => rfl⟩
  | false => exact ⟨root.absolute, root.stem ++ ds, fun es => by simp [Path.join, Path.stem]⟩

theorem join_entry {path dirPath : String} (root : Path) (hopens : Opens opening dirPath.toList)
    (hpath : path.toList = opening ++ c) (hc : IsName c) :
    ∃ a ws, root.join (.parse path) = ⟨a, ws ++ [c]⟩ ∧
      (root.join (.parse dirPath) = ⟨a, ws⟩ ∨ root.join (.parse dirPath) = ⟨a, ws ++ [[]]⟩) := by
  have hsplit : c.splitOn '/' = [c] := List.splitOn_eq_singleton hc.noSlash
  rcases hopens with ⟨rfl, hdir⟩ | ⟨ys, rfl, hdir⟩
  · obtain ⟨a, ws, hjoin⟩ := join_parts root false []
    have hhead : c.head? ≠ some '/' := fun h => hc.noSlash (List.mem_of_head? h)
    refine ⟨a, ws, ?_, .inr ?_⟩
    · rw [← hjoin, Path.parse, hpath, List.nil_append, hsplit, decide_eq_false hhead]
      rfl
    · rw [← hjoin, Path.parse, hdir]
      rfl
  · obtain ⟨a, ws, hjoin⟩ :=
      join_parts root (decide ((ys ++ ['/']).head? = some '/')) (ys.splitOn '/')
    refine ⟨a, ws, ?_, ?_⟩
    · rw [← hjoin, Path.parse, hpath, List.append_assoc, List.singleton_append,
        List.splitOn_append_cons_self, hsplit]
      congr 2
      cases ys <;> rfl
    · rcases hdir with ⟨hdir, hne⟩ | hdir
      · left
        rw [← List.append_nil ws, ← hjoin, Path.parse, hdir, List.append_nil]
        congr 2
        cases ys with
        | nil => exact absurd rfl hne
        | cons y ys => rfl
      · right
        rw [← hjoin, Path.parse, hdir, List.splitOn_append_cons_self]
        rfl

theorem getLast_resolve (store : LocalFileStore) (path : String) :
    (store.resolve path).parts.getLast? = (Path.parse path).parts.getLast? := by
  cases habs : (Path.parse path).absolute with
  | true => rw [LocalFileStore.resolve, Path.join, if_pos habs]
  | false => exact getLast_join habs (parse_parts_ne_nil path)

theorem parse_last (h : FileTree.resolve os t (store.resolve path) = .ok (d ++ [c]))
    (hfile : t.HasFile (d ++ [c])) : c ∈ (Path.parse path).parts := by
  obtain ⟨cs, x, hparts⟩ := (List.eq_nil_or_concat' _).resolve_left (resolve_parts_ne_nil path)
  have hlast := getLast_resolve store path
  rw [hparts, last_of_resolve hparts h hfile.not_isDir, List.getLast?_concat] at hlast
  exact List.mem_of_getLast? hlast.symm

theorem spelled_eq_nil (h : spelled parts = []) : parts = [] ∨ parts = [[]] := by
  rcases List.eq_nil_or_concat' parts with hnil | ⟨ys, c, rfl⟩
  · exact .inl hnil
  · by_cases hys : ys = []
    · subst hys
      right
      simpa [spelled] using h
    · rw [spelled_concat hys] at h
      simp at h

/-- The directory's path, as it is given out, names something if the directory is there. -/
theorem dirPath_names (h : FileTree.resolve os t (store.resolve pre) = .ok d) :
    (store.resolve (makeRelative store.root (store.resolve pre))).absolute ∨
      ¬ (store.resolve (makeRelative store.root (store.resolve pre))).isBlank := by
  by_contra hblank
  rw [not_or, not_not, Bool.not_eq_true] at hblank
  obtain ⟨hrel, hblank⟩ := hblank
  have habs := hrel
  rw [LocalFileStore.resolve, absolute_join, Bool.or_eq_false_iff] at habs
  have hnamed : (store.resolve (makeRelative store.root (store.resolve pre))).named = [] := by
    simpa [Path.isBlank] using hblank
  rw [LocalFileStore.resolve, named_join habs.2, List.append_eq_nil_iff] at hnamed
  have hroot : store.root.components = [] := by
    rw [Path.components, habs.1, hnamed.1]
    rfl
  -- nothing is taken off, so the path of the directory is as blank as what is given out
  have hwhole : (store.resolve pre).relative store.root = store.resolve pre := by
    simp [Path.relative, Path.stripPrefix, habs.1, hroot]
  have htext := parse_blank habs.2 hnamed.2
  rw [makeRelative_toList, hwhole] at htext
  have hparts := spelled_eq_nil htext
  have hhere : (store.resolve pre).absolute = false := by
    cases hpre : (Path.parse pre).absolute with
    | false => rw [LocalFileStore.resolve, absolute_join, habs.1, hpre]; rfl
    | true =>
      obtain ⟨y, ys, hsplit⟩ := parse_absolute hpre
      rw [LocalFileStore.resolve, Path.join, if_pos hpre, hsplit] at hparts
      simp at hparts
  have hnowhere : (store.resolve pre).isBlank := by
    rcases hparts with hparts | hparts <;> simp [Path.isBlank, Path.named, hparts]
  rw [FileTree.resolve] at h
  split at h
  · cases h
  · simp [hhere, hnowhere] at h

/-- The path of a file leads back to it if and only if the file is legible. -/
theorem legible_iff (hs : t.Named)
    (hdir : FileTree.resolve os t (store.resolve pre) = .ok (store.target os pre))
    (hfile : t.HasFile (store.target os pre ++ [c])) :
    store.Legible os t pre c ↔
      FileTree.resolve os t (store.resolve (store.entryPath pre c)) =
        .ok (store.target os pre ++ [c]) := by
  obtain ⟨content, modified, hn⟩ := hfile
  have hc : IsName c := hs _ _ hn c (by simp)
  obtain ⟨opening, last, hopens, hentry⟩ := entryPath_spelled store pre
  have hback (hslash : '\\' ∉ c) (hbelow : ((store.entry pre c).relative store.root).parts ≠ []) :
      FileTree.resolve os t (store.resolve (store.entryPath pre c)) =
          .ok (store.target os pre ++ [c]) ↔
        FileTree.resolve os t (store.resolve (makeRelative store.root (store.resolve pre))) =
          .ok (store.target os pre) := by
    rcases hentry c hc with ⟨htext, -⟩ | ⟨hnil, -⟩
    · rw [map_toSlash hslash] at htext
      obtain ⟨a, ws, hpath, hdirPath⟩ := join_entry store.root hopens htext hc
      rw [LocalFileStore.resolve, hpath]
      exact resolve_concat_iff hc hn hdirPath (dirPath_names hdir)
    · exact absurd hnil hbelow
  constructor
  · rintro ⟨hslash, hbelow, h⟩
    exact (hback hslash hbelow).mpr h
  · intro h
    have hlast := parse_last h ⟨content, modified, hn⟩
    have hslash : '\\' ∉ c := by
      intro hmem
      have hpath := (mem_splitOn hlast).2 hmem
      rw [LocalFileStore.entryPath, makeRelative_toList] at hpath
      exact noBackslash_spelled _ hpath
    have hbelow : ((store.entry pre c).relative store.root).parts ≠ [] := by
      intro hnil
      rw [Path.parse, LocalFileStore.entryPath, makeRelative_toList, hnil] at hlast
      exact hc.ne_nil (List.mem_singleton.mp hlast)
    exact ⟨hslash, hbelow, (hback hslash hbelow).mp h⟩

/-- A file whose name and whose directory's path have no backslash is legible, unless it is
what the root's own path names. -/
theorem legible_of_plain {os : Os} {t : Tree} {c : Name} (root pre : String) :
    let store : LocalFileStore := ⟨.parse root⟩
    FileTree.resolve os t (store.resolve pre) = .ok (store.target os pre) →
      t.isDir (store.target os pre) →
      '\\' ∉ ((store.resolve pre).relative store.root).text.toList →
      '\\' ∉ c → ((store.entry pre c).relative store.root).parts ≠ [] →
      store.Legible os t pre c := by
  intro store hdir hd hplain hc hbelow
  have htext : makeRelative store.root (store.resolve pre) =
      ((store.resolve pre).relative store.root).text := by
    rw [Path.text, String.toList_ofList] at hplain
    rw [← String.toList_inj, makeRelative_toList, Path.text, String.toList_ofList]
    exact map_toSlash hplain
  have hreturns := returns_join root pre
  have hnames := dirPath_names hdir
  rw [htext] at hnames
  refine ⟨hc, hbelow, ?_⟩
  rw [htext]
  exact resolve_same hreturns.absolute.symm hreturns.steps.symm hnames hd hdir

end

-- ---------------------------------------------------------------------------
-- What is listed
-- ---------------------------------------------------------------------------

def LocalFileStore.infoOf (store : LocalFileStore) (os : Os) (t : Tree) (pre : String)
    (c : Name) : Option FileInfo :=
  (t.node (store.target os pre ++ [c])).map (fileInfo (store.entryPath pre c))

section
variable {store : LocalFileStore} {os : Os} {s : Session} {t : Tree}

theorem listEntries_ok (hcs : ∀ c ∈ cs, (s.tree.node (store.target os pre ++ [c])).isSome) :
    ∃ s', store.listEntries (store.resolve pre) (store.target os pre) cs s =
      (.ok (cs.filterMap (store.infoOf os s.tree pre)), s') := by
  induction cs generalizing s with
  | nil => exact ⟨s, rfl⟩
  | cons c cs ih =>
    obtain ⟨n, hn⟩ := Option.isSome_iff_exists.mp (hcs c List.mem_cons_self)
    have hentry : entryMetadata (store.target os pre) c s =
        (.ok n, s.touch .stat (store.target os pre ++ [c])) := by
      rw [entryMetadata, hn]
    obtain ⟨s', hs'⟩ := @ih (s.touch .stat (store.target os pre ++ [c])) fun c' hc' =>
      hcs c' (List.mem_cons_of_mem _ hc')
    refine ⟨s', ?_⟩
    rw [LocalFileStore.listEntries, hentry]
    simp only [hs']
    rw [List.filterMap_cons, LocalFileStore.infoOf, hn]
    rfl

theorem list_nowhere (h : FileTree.resolve os s.tree (store.resolve pre) = .error e) :
    store.list os pre s = (.ok [], s) := by
  simp [LocalFileStore.list, FileTree.exists_, FileTree.metadata, h]

theorem exists_of_resolve
    (h : FileTree.resolve os s.tree (store.resolve pre) = .ok (store.target os pre)) :
    FileTree.exists_ os (store.resolve pre) s = (true, s.touch .stat (store.target os pre)) := by
  obtain ⟨n, hn⟩ := Option.isSome_iff_exists.mp (isSome_of_resolve h)
  simp [FileTree.exists_, FileTree.metadata, h, hn]

theorem list_dir (h : FileTree.resolve os s.tree (store.resolve pre) = .ok (store.target os pre))
    (hdir : s.tree.isDir (store.target os pre)) :
    ∃ infos s', store.list os pre s = (.ok infos, s') ∧
      infos.Perm ((s.tree.names (store.target os pre)).filterMap
        (store.infoOf os s.tree pre)) := by
  have hnames : ∀ c ∈ s.tree.names (store.target os pre),
      (s.tree.node (store.target os pre ++ [c])).isSome := fun c hc => Tree.mem_names.mp hc
  obtain ⟨s', hs'⟩ : ∃ s', store.listEntries (store.resolve pre) (store.target os pre)
      (s.tree.names (store.target os pre))
      ((s.touch .stat (store.target os pre)).touch .read (store.target os pre)) =
        (.ok ((s.tree.names (store.target os pre)).filterMap (store.infoOf os s.tree pre)), s') :=
    listEntries_ok hnames
  have hread : readDir os (store.resolve pre) (s.touch .stat (store.target os pre)) =
      (.ok (store.target os pre, s.tree.names (store.target os pre)),
        (s.touch .stat (store.target os pre)).touch .read (store.target os pre)) := by
    simp only [readDir, Session.touch, h, hdir, if_true]
  have hlist : store.list os pre s = (.ok (((s.tree.names (store.target os pre)).filterMap
      (store.infoOf os s.tree pre)).mergeSort fun a b => a.path ≤ b.path), s') := by
    simp only [LocalFileStore.list, exists_of_resolve h, hread, hs']
  exact ⟨_, s', hlist, List.mergeSort_perm _ _⟩

theorem list_file (h : FileTree.resolve os s.tree (store.resolve pre) = .ok (store.target os pre))
    (hdir : ¬ s.tree.isDir (store.target os pre)) :
    ∃ e s', store.list os pre s = (.error e, s') := by
  have hread : readDir os (store.resolve pre) (s.touch .stat (store.target os pre)) =
      (.error .notADirectory, s.touch .stat (store.target os pre)) := by
    simp only [readDir, Session.touch, h, hdir, if_false, Bool.false_eq_true]
  simp [LocalFileStore.list, exists_of_resolve h, hread]

theorem resolve_target (h : FileTree.resolve os t (store.resolve pre) = .ok d) :
    d = store.target os pre := resolve_eq_norm h

theorem mem_listed {info : FileInfo} :
    info ∈ (t.names (store.target os pre)).filterMap (store.infoOf os t pre) ↔
      ∃ c n, t.node (store.target os pre ++ [c]) = some n ∧
        info = fileInfo (store.entryPath pre c) n := by
  simp only [List.mem_filterMap, LocalFileStore.infoOf, Option.map_eq_some_iff, Tree.mem_names]
  constructor
  · rintro ⟨c, -, n, hn, rfl⟩
    exact ⟨c, n, hn, rfl⟩
  · rintro ⟨c, n, hn, rfl⟩
    exact ⟨c, by rw [hn]; rfl, n, hn, rfl⟩

theorem paths_listed {cs : List Name}
    (hcs : ∀ c ∈ cs, (t.node (store.target os pre ++ [c])).isSome) :
    (cs.filterMap (store.infoOf os t pre)).map FileInfo.path = cs.map (store.entryPath pre) := by
  induction cs with
  | nil => rfl
  | cons c cs ih =>
    obtain ⟨n, hn⟩ := Option.isSome_iff_exists.mp (hcs c List.mem_cons_self)
    rw [List.filterMap_cons, LocalFileStore.infoOf, hn]
    simp only [Option.map_some, List.map_cons, fileInfo]
    rw [ih fun c' hc' => hcs c' (List.mem_cons_of_mem _ hc')]

theorem leadsBack_iff {info : FileInfo} (hn : s.tree.node q = some (.file content modified))
    (hinfo : info = fileInfo path (.file content modified)) :
    store.LeadsBack os s info q ↔ FileTree.resolve os s.tree (store.resolve path) = .ok q := by
  subst hinfo
  constructor
  · rintro ⟨-, -, -, -, hexists, -, -⟩
    cases hres : FileTree.resolve os s.tree (store.resolve path) with
    | error e =>
      simp [fileInfo, LocalFileStore.exists_, FileTree.exists_, FileTree.metadata, hres] at hexists
    | ok q' =>
      obtain ⟨n, hn'⟩ := Option.isSome_iff_exists.mp (isSome_of_resolve hres)
      simp [fileInfo, LocalFileStore.exists_, FileTree.exists_, FileTree.metadata, hres, hn',
        Session.touch] at hexists
      rw [hexists]
  · intro h
    refine ⟨content, modified, hn, rfl, ?_, ?_, ?_⟩
    · simp [fileInfo, LocalFileStore.exists_, FileTree.exists_, FileTree.metadata, h, hn]
    · simp [fileInfo, LocalFileStore.metadata, FileTree.metadata, h, hn]
    · simp [fileInfo, LocalFileStore.get, FileTree.read, h, hn]

end

-- ---------------------------------------------------------------------------
-- Runs
-- ---------------------------------------------------------------------------

section
variable {store : LocalFileStore} {os : Os} {s s' : Session}

theorem writeFile_keeps (hroot : store.root.Split) :
    s.Keeps (store.writeFile os path data s).2 := by
  have h := @write_keeps os s (store.resolve path) data (hroot.join (Path.split_parse path))
  unfold LocalFileStore.writeFile
  split <;> rename_i heq <;> rwa [heq] at h

theorem put_keeps (hroot : store.root.Split) : s.Keeps (store.put os path data s).2 := by
  unfold LocalFileStore.put
  split
  · exact writeFile_keeps hroot
  · rename_i parent hparent
    have hparts : ∀ c ∈ parent.parts.reverse, '/' ∉ c := by
      intro c hc
      obtain ⟨rfl, -⟩ := parent_eq_some hparent
      have hnamed := components_named (List.dropLast_subset _ (List.mem_reverse.mp hc))
      exact hroot.join (Path.split_parse path) c (List.mem_filter.mp hnamed).1
    have hdirs : s.Keeps (createDirAll os parent.absolute parent.parts.reverse s).2 :=
      createDirAll_keeps hparts
    split
    · rename_i heq
      rw [heq] at hdirs
      exact hdirs.trans (writeFile_keeps hroot)
    · rename_i heq
      rwa [heq] at hdirs

theorem hasFile_of_put (h : store.put os path data s = (.ok (), s')) :
    s'.tree.HasFile (store.target os path) := by
  have hwrite : ∀ s, store.writeFile os path data s = (.ok (), s') →
      s'.tree.HasFile (store.target os path) := by
    intro s h
    unfold LocalFileStore.writeFile at h
    split at h <;> cases h
    rename_i hw
    exact hasFile_of_write hw
  unfold LocalFileStore.put at h
  split at h
  · exact hwrite s h
  · split at h
    · exact hwrite _ h
    · cases h

/-- What has been put and not deleted is there, and everything has a name. -/
structure Stored.Consistent (st : Stored) : Prop where
  named : st.session.tree.Named
  kept : ∀ q ∈ st.kept, st.session.tree.HasFile q

theorem Stored.Consistent.of_tree {st : Stored} (h : st.Consistent)
    (hs : s.tree = st.session.tree) : Consistent ⟨s, st.kept⟩ := by
  refine ⟨?_, fun q hq => ?_⟩
  · rw [hs]
    exact h.named
  · rw [hs]
    exact h.kept q hq

theorem consistent_put {st : Stored} (hroot : store.root.Split) (h : st.Consistent) :
    (st.handle store os (.put path data)).Consistent := by
  have hkeeps : st.session.Keeps (store.put os path data st.session).2 := put_keeps hroot
  simp only [Stored.handle]
  split
  · rename_i s hput
    rw [hput] at hkeeps
    refine ⟨hkeeps.named h.named, fun q hq => ?_⟩
    rcases List.mem_cons.mp hq with rfl | hq
    · exact hasFile_of_put hput
    · exact hkeeps.files q (h.kept q hq)
  · rename_i hput
    rw [hput] at hkeeps
    exact ⟨hkeeps.named h.named, fun q hq => hkeeps.files q (h.kept q hq)⟩

theorem consistent_delete {st : Stored} (h : st.Consistent) :
    (st.handle store os (.delete path)).Consistent := by
  obtain ⟨r, s, hremove⟩ : ∃ r s, removeFile os (store.resolve path) st.session = (r, s) :=
    ⟨_, _, rfl⟩
  obtain ⟨hfiles, hnamed⟩ := removeFile_keeps hremove
  cases r with
  | ok _ =>
    simp only [Stored.handle, LocalFileStore.delete, hremove]
    refine ⟨hnamed h.named, fun q hq => ?_⟩
    obtain ⟨hq, hne⟩ := List.mem_filter.mp hq
    exact hfiles q (h.kept q hq) (.inl (of_decide_eq_true hne))
  | error e =>
    have hother : ∀ q ∈ st.kept, s.tree.HasFile q := fun q hq =>
      hfiles q (h.kept q hq) (.inr (by simp))
    have hrest : Stored.Consistent ⟨s, st.kept⟩ := ⟨hnamed h.named, hother⟩
    cases e <;> simpa only [Stored.handle, LocalFileStore.delete, hremove] using hrest

theorem consistent_handle {st : Stored} (hroot : store.root.Split) (h : st.Consistent)
    (r : Request) : (st.handle store os r).Consistent := by
  cases r with
  | put path data => exact consistent_put hroot h
  | delete path => exact consistent_delete h
  | get path => exact h.of_tree get_looks.tree
  | exists_ path => exact h.of_tree exists_looks.tree
  | list pre => exact h.of_tree list_looks.tree
  | metadata path => exact h.of_tree metadata_looks'.tree

theorem consistent_run {st : Stored} (hroot : store.root.Split) (h : st.Consistent)
    (rs : List Request) : (rs.foldl (Stored.handle store os) st).Consistent := by
  induction rs generalizing st with
  | nil => exact h
  | cons r rs ih => exact ih (consistent_handle hroot h r)

theorem consistent_start (disk : Disk) : (Stored.start disk).Consistent :=
  ⟨disk.named, fun _ hq => nomatch hq⟩

end

-- ---------------------------------------------------------------------------
-- Listing and looking up
-- ---------------------------------------------------------------------------

section
variable {store : LocalFileStore} {os : Os} {st : Stored} {infos : List FileInfo}

theorem isName_of_node {t : Tree} (h : t.Named) (hn : t.node (d ++ [c]) = some n) : IsName c :=
  h _ _ hn c (by simp)

theorem nodup_listed (h : st.Consistent)
    (hperm : infos.Perm ((st.session.tree.names (store.target os pre)).filterMap
      (store.infoOf os st.session.tree pre))) : (infos.map FileInfo.path).Nodup := by
  have hpaths := hperm.map FileInfo.path
  rw [paths_listed fun c hc => Tree.mem_names.mp hc] at hpaths
  refine hpaths.nodup_iff.mpr (List.Nodup.map_on (fun c hc c' hc' heq => ?_) Tree.nodup_names)
  obtain ⟨n, hn⟩ := Option.isSome_iff_exists.mp (Tree.mem_names.mp hc)
  obtain ⟨n', hn'⟩ := Option.isSome_iff_exists.mp (Tree.mem_names.mp hc')
  exact entryPath_inj (isName_of_node h.named hn) (isName_of_node h.named hn') heq

theorem listed_once (hpaths : (infos.map FileInfo.path).Nodup)
    (hperm : infos.Perm ((st.session.tree.names (store.target os pre)).filterMap
      (store.infoOf os st.session.tree pre)))
    (hfile : st.session.tree.HasFile (store.target os pre ++ [c])) :
    infos.countP (fun info => info.path = store.entryPath pre c) = 1 := by
  obtain ⟨content, modified, hn⟩ := hfile
  have hmem : fileInfo (store.entryPath pre c) (.file content modified) ∈ infos :=
    hperm.mem_iff.mpr (mem_listed.mpr ⟨c, _, hn, rfl⟩)
  have hcount := List.count_eq_one_of_mem hpaths (List.mem_map_of_mem hmem)
  rw [List.count, List.countP_map] at hcount
  rw [← hcount]
  congr 1

theorem listsBack_dir (h : st.Consistent)
    (hres : FileTree.resolve os st.session.tree (store.resolve pre) = .ok (store.target os pre))
    (hperm : infos.Perm ((st.session.tree.names (store.target os pre)).filterMap
      (store.infoOf os st.session.tree pre))) :
    store.ListsBack os st.session pre st.kept infos ↔
      ∀ c, st.session.tree.HasFile (store.target os pre ++ [c]) →
        store.Legible os st.session.tree pre c := by
  constructor
  · rintro ⟨hback, -, -⟩ c hfile
    obtain ⟨content, modified, hn⟩ := hfile
    have hmem : fileInfo (store.entryPath pre c) (.file content modified) ∈ infos :=
      hperm.mem_iff.mpr (mem_listed.mpr ⟨c, _, hn, rfl⟩)
    obtain ⟨c', hpath, content', modified', hn', hinfo, hcalls⟩ := hback _ hmem rfl
    obtain rfl : c = c' :=
      entryPath_inj (isName_of_node h.named hn) (isName_of_node h.named hn') hpath
    exact (legible_iff h.named hres ⟨content, modified, hn⟩).mpr
      ((leadsBack_iff hn rfl).mp ⟨content', modified', hn', hinfo, hcalls⟩)
  · intro hlegible
    have hpaths := nodup_listed h hperm
    refine ⟨fun info hinfo hfile => ?_, hpaths, fun c hkept =>
      listed_once hpaths hperm (h.kept _ hkept)⟩
    obtain ⟨c, n, hn, rfl⟩ := mem_listed.mp (hperm.mem_iff.mp hinfo)
    cases n with
    | dir size modified => cases hfile
    | file content modified =>
      have hfile : st.session.tree.HasFile (store.target os pre ++ [c]) :=
        ⟨content, modified, hn⟩
      exact ⟨c, rfl, (leadsBack_iff hn rfl).mpr
        ((legible_iff h.named hres hfile).mp (hlegible c hfile))⟩

theorem listsBack_iff_allLegible (h : st.Consistent) :
    (∀ infos s', store.list os pre st.session = (.ok infos, s') →
        store.ListsBack os st.session pre st.kept infos) ↔
      store.AllLegible os st.session.tree pre st.kept := by
  have habove {c : Name} (hkept : store.target os pre ++ [c] ∈ st.kept) :
      st.session.tree.isDir (store.target os pre) := by
    obtain ⟨content, modified, hn⟩ := h.kept _ hkept
    exact Tree.isDir_above hn
  cases hres : FileTree.resolve os st.session.tree (store.resolve pre) with
  | error e =>
    rw [list_nowhere hres]
    constructor
    · intro hback
      refine ⟨fun c hkept => ?_, fun hres' => ?_⟩
      · exact absurd ((hback [] _ rfl).once c hkept) (by simp)
      · exact absurd (hres.symm.trans hres') nofun
    · rintro ⟨hthere, -⟩ infos s' heq
      cases heq
      refine ⟨fun info hinfo => (nomatch hinfo), List.nodup_nil, fun c hkept => ?_⟩
      exact absurd (hres.symm.trans (hthere c hkept)) nofun
  | ok d =>
    obtain rfl := resolve_target hres
    by_cases hdir : st.session.tree.isDir (store.target os pre)
    · obtain ⟨infos, s', hlist, hperm⟩ := list_dir hres hdir
      have hback := listsBack_dir h hres hperm
      constructor
      · exact fun hall => ⟨fun _ _ => hres, fun _ => hback.mp (hall infos s' hlist)⟩
      · rintro ⟨-, hlegible⟩ infos' s'' hlist'
        obtain ⟨rfl, rfl⟩ : infos = infos' ∧ s' = s'' := by simpa using hlist.symm.trans hlist'
        exact hback.mpr (hlegible hres)
    · obtain ⟨e, s', hlist⟩ := list_file hres hdir
      constructor
      · refine fun _ => ⟨fun c hkept => absurd (habove hkept) hdir, ?_⟩
        rintro - c ⟨content, modified, hn⟩
        exact absurd (Tree.isDir_above hn) hdir
      · rintro - infos s'' hlist'
        cases hlist.symm.trans hlist'

end

/-- Whatever has been put and deleted, the listed paths lead back to the files if and only
if the files in the directory are legible. -/
theorem lists_back_iff (root : String) (os : Os) (disk : Disk) (rs : List Request)
    (pre : String) :
    let store : LocalFileStore := ⟨.parse root⟩
    let st := Stored.run store os disk rs
    (∀ infos s', store.list os pre st.session = (.ok infos, s') →
        store.ListsBack os st.session pre st.kept infos) ↔
      store.AllLegible os st.session.tree pre st.kept :=
  listsBack_iff_allLegible (consistent_run (Path.split_parse root) (consistent_start disk) rs)

def machineDisk : Disk := ⟨machine, Tree.named_of_entries (by decide)⟩

/-- A file with a backslash in its name is listed under a path that leads nowhere. -/
theorem backslash_listed_as_slash :
    let store : LocalFileStore := ⟨.parse "/srv/files"⟩
    let os : Os := ⟨[], none, 4096⟩
    let st := Stored.run store os machineDisk [.put "a\\b" [1]]
    (store.list os "" st.session).1 = .ok [⟨"a/b", 1, none, none, false⟩] ∧
      (store.get os "a/b" st.session).1 = .error ⟨.fileNotFound, "file not found: 'a/b'"⟩ ∧
      ¬ ∀ infos s', store.list os "" st.session = (.ok infos, s') →
        store.ListsBack os st.session "" st.kept infos := by
  intro store os st
  have hlist : (store.list os "" st.session).1 = .ok [⟨"a/b", 1, none, none, false⟩] := by
    decide +kernel
  have hget : (store.get os "a/b" st.session).1 =
      .error ⟨.fileNotFound, "file not found: 'a/b'"⟩ := by
    decide +kernel
  refine ⟨hlist, hget, fun h => ?_⟩
  obtain ⟨c, -, content, modified, -, -, -, -, hfound⟩ :=
    (h _ _ (Prod.ext hlist rfl)).back _ List.mem_cons_self rfl
  exact absurd (hget.symm.trans (congrArg Prod.fst hfound)) nofun

end Rinfra.FileStore
