import Rinfra.FileStore.Local
import Rinfra.Lib.FileTree.Reach

/-!
# What the local file store reaches

An absolute path and one with enough parent segments lead out of the root
directory. Which paths do not is decided by the path alone, whatever the tree
holds beside the root.
-/

namespace Rinfra.FileStore

open Lib Lib.FileTree

namespace LocalFileStore

variable (store : LocalFileStore) (os : Os)

def rootPlace : Place := norm [] (os.steps store.root)

def target (path : String) : Place := norm [] (os.steps (store.resolve path))

def UnderRoot (q : Place) : Prop := store.rootPlace os <+: q

instance : Decidable (store.UnderRoot os q) :=
  inferInstanceAs (Decidable (store.rootPlace os <+: q))

end LocalFileStore

def Denied : Except AppError Answer → Bool
  | .error _ => true
  | .ok (.found b) => !b
  | .ok (.infos infos) => infos.isEmpty
  | .ok _ => false

/-- A request reaches only what is under the root, and a path that leads
elsewhere finds nothing. -/
structure Confined (store : LocalFileStore) (os : Os) (t : Tree) (r : Request) : Prop where
  inside : ∀ x ∈ (store.handle os ⟨t, []⟩ r).2.touched, store.UnderRoot os x.place
  denied : ¬store.UnderRoot os (store.target os r.path) → Denied (store.handle os ⟨t, []⟩ r).1

/-- The way through the given parts is one that the root's own path takes. -/
def Known (store : LocalFileStore) (os : Os) (p : Path) : Prop :=
  ∀ q ∈ visited [] (os.steps p), q ∈ visited [] (os.steps store.root)

/-- The directories that `put` has to find or to create: the parent, and the
ones on its way from the first that the root's own path does not pass. -/
def ParentStays (store : LocalFileStore) (os : Os) (parent : Path) : Prop :=
  parent.hasNul ∨ ¬parent.absolute ∧ parent.isBlank ∨
    ∀ ds, ds <+: parent.parts → (ds = parent.parts ∨ ¬Known store os ⟨parent.absolute, ds⟩) →
      store.UnderRoot os (norm [] (os.steps ⟨parent.absolute, ds⟩))

/-- The path keeps the request under the root. A directory cannot be deleted, so
`delete` may be given one that the walk to the root or to the path passes. -/
def Stays (store : LocalFileStore) (os : Os) : Request → Prop
  | .put path _ => ∀ parent ∈ (store.resolve path).parent, ParentStays store os parent
  | .delete path => (store.resolve path).hasNul ∨
      store.UnderRoot os (store.target os path) ∨
      store.target os path ∈ visited [] (os.steps store.root) ∨
      store.target os path ∈ visited []
        (os.steps ⟨(store.resolve path).absolute, (store.resolve path).parts.dropLast⟩)
  | .get path | .exists_ path | .list path | .metadata path =>
    (store.resolve path).hasNul ∨ store.UnderRoot os (store.target os path)

-- ---------------------------------------------------------------------------
-- What a request reaches
-- ---------------------------------------------------------------------------

section
variable {store : LocalFileStore} {os : Os} {s : Session} {t : Tree}

theorem listEntries_looks :
    s.Looks (store.listEntries dir d cs s).2 (fun q => ∃ c, q = d ++ [c]) := by
  induction cs generalizing s with
  | nil => exact .refl
  | cons c cs ih =>
    have h := (@entryMetadata_looks s d c).mono fun q hq => (⟨c, hq⟩ : ∃ c, q = d ++ [c])
    rw [LocalFileStore.listEntries]
    split
    · rename_i heq
      rwa [heq] at h
    · rename_i s₁ heq
      rw [heq] at h
      have hrest := h.trans (@ih s₁)
      split <;> rename_i hrec <;> rwa [hrec] at hrest

theorem readDir_place (h : readDir os p s = (.ok (d, names), s')) : d = norm [] (os.steps p) := by
  unfold readDir at h
  split at h
  · cases h
  · rename_i q hq
    split at h <;> cases h
    exact resolve_eq_norm hq

/-- Once the path has been looked up, the listing looks at the directory and its entries. -/
theorem list_looks_from (h : FileTree.exists_ os (store.resolve pre) s = (true, s')) :
    s'.Looks (store.list os pre s).2
      (fun q => q = store.target os pre ∨ ∃ c, q = store.target os pre ++ [c]) := by
  have hread := (@readDir_looks os s' (store.resolve pre)).mono fun q hq =>
    (.inl hq : q = store.target os pre ∨ ∃ c, q = store.target os pre ++ [c])
  unfold LocalFileStore.list
  dsimp only
  rw [h]
  dsimp only
  split
  · rename_i heq
    rwa [heq] at hread
  · rename_i d names s₂ heq
    obtain rfl := readDir_place heq
    rw [heq] at hread
    have hentries := hread.trans ((@listEntries_looks store s₂ (store.resolve pre)
      (store.target os pre) names).mono fun q hq =>
        (.inr hq : q = store.target os pre ∨ ∃ c, q = store.target os pre ++ [c]))
    split <;> rename_i hrec <;> rwa [LocalFileStore.target, hrec] at hentries

theorem list_looks : s.Looks (store.list os pre s).2
    (fun q => q = store.target os pre ∨ ∃ c, q = store.target os pre ++ [c]) := by
  have hexists := (@exists_looks os s (store.resolve pre)).mono fun q hq =>
    (.inl hq : q = store.target os pre ∨ ∃ c, q = store.target os pre ++ [c])
  obtain ⟨found, s', h⟩ : ∃ found s', FileTree.exists_ os (store.resolve pre) s = (found, s') :=
    ⟨_, _, rfl⟩
  rw [h] at hexists
  cases found with
  | true => exact hexists.trans (list_looks_from h)
  | false =>
    unfold LocalFileStore.list
    dsimp only
    rw [h]
    exact hexists

theorem get_looks : s.Looks (store.get os path s).2 (· = store.target os path) := by
  have h := @read_looks os s (store.resolve path)
  unfold LocalFileStore.get
  split <;> rename_i heq <;> rwa [heq] at h

theorem delete_within : Within s (store.delete os path s).2 (· = store.target os path) := by
  have h := @removeFile_within os s (store.resolve path)
  unfold LocalFileStore.delete
  split <;> rename_i heq <;> rwa [heq] at h

theorem metadata_looks' : s.Looks (store.metadata os path s).2 (· = store.target os path) := by
  have h := @metadata_looks os s (store.resolve path)
  unfold LocalFileStore.metadata
  split <;> rename_i heq <;> rwa [heq] at h

-- ---------------------------------------------------------------------------
-- Paths with a NUL
-- ---------------------------------------------------------------------------

theorem resolve_of_nul (h : p.hasNul) : FileTree.resolve os t p = .error .invalidInput :=
  if_pos h

theorem metadata_of_nul (h : p.hasNul) : FileTree.metadata os p s = (.error .invalidInput, s) := by
  simp [FileTree.metadata, resolve_of_nul h]

theorem mkdir_of_nul (h : p.hasNul) : mkdir os p s = (.error .invalidInput, s) := by
  simp [mkdir, locate, h]

theorem unlessDir_of_nul (h : p.hasNul) : unlessDir os e p s = (.error e, s) := by
  simp [unlessDir, isDir, metadata_of_nul h]

theorem createDirAll_of_nul {p : Path} (h : p.hasNul) :
    ∃ e, createDirAll os p.absolute p.parts.reverse s = (.error e, s) := by
  have hparts : p.parts.reverse ≠ [] := by
    rintro hnil
    simp [Path.hasNul, List.reverse_eq_nil_iff.mp hnil] at h
  obtain ⟨c, up, hcs⟩ := List.exists_cons_of_ne_nil hparts
  have hp : (FileTree.Path.mk p.absolute (c :: up).reverse).hasNul := by
    rwa [← hcs, List.reverse_reverse]
  refine ⟨.invalidInput, ?_⟩
  rw [hcs, createDirAll, mkdir_of_nul hp]
  exact unlessDir_of_nul hp

-- ---------------------------------------------------------------------------
-- What is not denied was reached
-- ---------------------------------------------------------------------------

theorem reached_of_removeFile (h : removeFile os p s = (.ok (), s')) :
    s'.Reached (norm [] (os.steps p)) := by
  unfold removeFile at h
  split at h
  · cases h
  · rename_i q hq
    obtain rfl := resolve_eq_norm hq
    split at h
    · cases h
    · split at h <;> cases h
      exact Session.reached_touch _ _ _

theorem reached_of_write (h : FileTree.write os p data s = (.ok (), s')) :
    s'.Reached (norm [] (os.steps p)) := by
  unfold FileTree.write at h
  split at h
  · cases h
  · rename_i hloc
    split at h
    · split at h
      · cases h
      · split at h
        · cases h
        · split at h <;> cases h
          rw [← locate_eq_norm hloc]
          exact Session.reached_touch _ _ _
    · cases h

-- ---------------------------------------------------------------------------
-- Joined paths
-- ---------------------------------------------------------------------------

theorem resolve_parts_ne_nil (path : String) : (store.resolve path).parts ≠ [] := by
  rw [LocalFileStore.resolve, Path.join]
  split
  · exact parse_parts_ne_nil path
  · exact fun h => parse_parts_ne_nil path (List.append_eq_nil_iff.mp h).2

theorem components_concat {p : Path} (h : p.named = up ++ [c]) (hc : c ≠ dot) :
    ∃ ds, p.components = ds ++ [c] ∧ ∀ q, norm q ds = norm q up := by
  have hdots : ∀ (cs : List Name) q, norm q (cs.filter (· ≠ dot)) = norm q cs := fun cs q =>
    norm_filter fun c hc => .inr (by simpa using hc)
  rw [Path.components, h]
  split
  · exact ⟨up.filter (· ≠ dot), by simp [hc], hdots up⟩
  · cases up with
    | nil => exact ⟨[], rfl, fun _ => rfl⟩
    | cons x xs => exact ⟨x :: xs.filter (· ≠ dot), by simp [hc], fun q => hdots xs (move q x)⟩

theorem components_named {p : Path} (h : c ∈ p.components) : c ∈ p.named := by
  rw [Path.components] at h
  split at h
  · exact (List.mem_filter.mp h).1
  · split at h
    · cases h
    · rename_i x xs hx
      rw [hx]
      exact List.mem_cons.mpr ((List.mem_cons.mp h).imp id fun h => (List.mem_filter.mp h).1)

theorem components_ne_nil {p : Path} (h : c ∈ p.components) : c ≠ [] := by
  simpa using (List.mem_filter.mp (components_named h)).2

theorem parent_eq_some {p parent : Path} (h : p.parent = some parent) :
    parent = ⟨p.absolute, p.components.dropLast⟩ ∧ p.components ≠ [] := by
  rw [Path.parent] at h
  split at h
  · cases h
  · rename_i c cs hcs
    cases h
    exact ⟨by rw [hcs], by simp [hcs]⟩

theorem rootPlace_of_blank (hrel : store.root.absolute = false) (h : store.root.named = []) :
    store.rootPlace os = norm [] os.cwd := by
  simp [LocalFileStore.rootPlace, Os.steps, hrel, ← norm_named, h]

theorem rootPlace_of_single (hrel : (store.resolve path).absolute = false)
    (hsingle : (store.resolve path).components = [c])
    (hslash : (store.resolve path).endsWithSlash = false)
    (hnamed : (store.resolve path).named = up ++ [c]) (hc : c ≠ dot) :
    store.rootPlace os = norm [] os.cwd := by
  have hup : up = [] := by
    cases up with
    | nil => rfl
    | cons x xs => simp [Path.components, hrel, hnamed, hc] at hsingle
  have habs := hrel
  rw [LocalFileStore.resolve, absolute_join, Bool.or_eq_false_iff] at habs
  rw [LocalFileStore.resolve, named_join habs.2, hup, List.nil_append] at hnamed
  have hlast : (Path.parse path).named ≠ [] := by
    intro hnil
    rw [Path.endsWithSlash, LocalFileStore.resolve, getLast_join habs.2 (parse_parts_ne_nil path),
      decide_eq_false_iff_not] at hslash
    refine hslash ?_
    have hmem := List.getLast_mem (parse_parts_ne_nil path)
    have hblank := List.filter_eq_nil_iff.mp hnil _ hmem
    rw [List.getLast?_eq_some_getLast (parse_parts_ne_nil path)]
    simpa using hblank
  refine rootPlace_of_blank habs.1 ?_
  rcases List.append_eq_singleton_iff.mp hnamed with h | h
  · exact h.1
  · exact absurd h.2 hlast

-- ---------------------------------------------------------------------------
-- Paths that stay
-- ---------------------------------------------------------------------------

theorem UnderRoot.append (h : store.UnderRoot os q) : store.UnderRoot os (q ++ cs) :=
  h.trans (List.prefix_append q cs)

theorem write_error (h : FileTree.write os p data s = (.error e, s')) : s' = s := by
  unfold FileTree.write at h
  split at h
  · cases h
    rfl
  · split at h
    · split at h
      · cases h
        rfl
      · split at h
        · cases h
          rfl
        · split at h <;> cases h
          rfl
    · cases h
      rfl

theorem write_ok (h : FileTree.write os p data s = (.ok (), s')) :
    ∃ up c, p.named = up ++ [c] ∧ c ≠ dot ∧ p.endsWithSlash = false ∧
      norm [] (os.steps p) = norm [] (os.steps ⟨p.absolute, up⟩) ++ [c] := by
  unfold FileTree.write at h
  split at h
  · cases h
  · rename_i d name hloc
    split at h
    · split at h
      · cases h
      · rename_i c
        split at h
        · cases h
        · rename_i hslash
          rcases locate_eq_ok hloc with ⟨-, -, -, hname⟩ | ⟨up, c', hup, hwalk, hname⟩
          · cases hname
          · have hnorm := locate_eq_norm hloc
            split at hname <;> cases hname
            rename_i hreal
            refine ⟨up, c, hup, fun h => hreal (.inl h), by simpa using hslash, ?_⟩
            rw [← hnorm, walk_eq_norm hwalk]
    · cases h

theorem known_passable {p : Path} (hroot : Passable os t store.root) (h : Known store os p) :
    Passable os t p := fun q hq => hroot q (h q hq)

/-- Once the parent stays under the root, so does what is written. -/
theorem writeFile_stays (hparent : ∀ parent ∈ (store.resolve path).parent,
      ¬parent.absolute ∧ parent.isBlank ∨ store.UnderRoot os (norm [] (os.steps parent))) :
    Within s (store.writeFile os path data s).2 (store.UnderRoot os) := by
  unfold LocalFileStore.writeFile
  split
  · rename_i hw
    have hwithin := @write_within os s (store.resolve path) data
    rw [hw] at hwithin
    obtain ⟨up, c, hnamed, hc, hslash, hnorm⟩ := write_ok hw
    obtain ⟨ds, hds, hup⟩ := components_concat hnamed hc
    refine hwithin.mono ?_
    rintro _ rfl
    have hsteps : norm [] (os.steps ⟨(store.resolve path).absolute, ds⟩) =
        norm [] (os.steps ⟨(store.resolve path).absolute, up⟩) :=
      norm_steps ⟨(store.resolve path).absolute, up⟩ ds hup
    have hp : (store.resolve path).parent = some ⟨(store.resolve path).absolute, ds⟩ := by
      rw [Path.parent]
      split <;> rename_i hcs
      · simp [hds] at hcs
      · rw [← hcs, hds, List.dropLast_concat]
    rw [hnorm]
    rcases hparent _ hp with ⟨hrel, hblank⟩ | hunder
    · have hds' : ds = [] := by
        have hne : ∀ c ∈ ds, c ≠ [] := fun c' hc' =>
          components_ne_nil (p := store.resolve path) (by simp [hds, hc'])
        simpa [Path.isBlank, named_eq hne] using hblank
      have hrel' : (store.resolve path).absolute = false := by simpa using hrel
      have hroot : store.rootPlace os = norm [] os.cwd :=
        rootPlace_of_single hrel' (by simp [hds, hds']) hslash hnamed hc
      rw [← hsteps, hds', LocalFileStore.UnderRoot, hroot]
      simp [Os.steps, hrel']
    · rw [← hsteps]
      exact UnderRoot.append hunder
  · rename_i hw
    rw [write_error hw]
    exact .refl

theorem put_within (hroot : Passable os s.tree store.root)
    (h : Stays store os (.put path data)) :
    Within s (store.put os path data s).2 (store.UnderRoot os) := by
  unfold LocalFileStore.put
  split
  · rename_i hp
    refine writeFile_stays fun parent hparent => ?_
    rw [hp] at hparent
    cases hparent
  · rename_i parent hp
    have hnames : ∀ c ∈ parent.parts.reverse, c ≠ [] := by
      obtain ⟨rfl, -⟩ := parent_eq_some hp
      exact fun c hc => components_ne_nil (List.dropLast_subset _ (List.mem_reverse.mp hc))
    rcases h parent hp with hnul | hstays
    · have hdirs : ∃ e, createDirAll os parent.absolute parent.parts.reverse s = (.error e, s) :=
        createDirAll_of_nul hnul
      obtain ⟨e, he⟩ := hdirs
      rw [he]
      exact .refl
    · have hdirs : Within s (createDirAll os parent.absolute parent.parts.reverse s).2
          (store.UnderRoot os) := by
        rcases hstays with ⟨hrel, hblank⟩ | hstays
        · have hparts : parent.parts = [] := by
            have hne : ∀ c ∈ parent.parts, c ≠ [] := fun c hc =>
              hnames c (List.mem_reverse.mpr hc)
            have hb : (FileTree.Path.mk parent.absolute parent.parts).isBlank := hblank
            simpa [Path.isBlank, named_eq hne] using hb
          simpa [hparts, createDirAll, hrel] using Within.refl
        · refine (createDirAll_within hnames).mono ?_
          rintro _ ⟨up, hsuffix, rfl, hmissing⟩
          refine hstays up.reverse ?_ ?_
          · simpa using List.reverse_prefix.mpr hsuffix
          · refine hmissing.imp (fun h => by simp [h]) fun hwalk hknown => ?_
            exact hwalk _ (walk_of_dirs (known_passable hroot hknown))
      split
      · rename_i s₁ hs₁
        rw [hs₁] at hdirs
        refine hdirs.trans (writeFile_stays fun parent' hp' => ?_)
        rw [hp] at hp'
        cases hp'
        refine hstays.imp id fun hstays => ?_
        exact hstays parent.parts List.prefix_rfl (.inl rfl)
      · rename_i hs₁
        rwa [hs₁] at hdirs

theorem removeFile_of_dir (h : ∀ q, FileTree.resolve os s.tree p = .ok q → s.tree.isDir q) :
    ∃ e, removeFile os p s = (.error e, s) := by
  unfold removeFile
  split
  · exact ⟨_, rfl⟩
  · rename_i q hq
    rw [dif_pos (h q hq)]
    exact ⟨_, rfl⟩

theorem delete_of_error (h : removeFile os (store.resolve path) s = (.error e, s)) :
    (store.delete os path s).2 = s ∧ ∀ b, (store.delete os path s).1 = .ok b → b = false := by
  unfold LocalFileStore.delete
  rw [h]
  cases e <;> simp

theorem reached_of_put (h : store.put os path data s = (.ok (), s')) :
    s'.Reached (store.target os path) := by
  have hwrite : ∀ {s}, store.writeFile os path data s = (.ok (), s') →
      s'.Reached (store.target os path) := by
    intro s h
    unfold LocalFileStore.writeFile at h
    split at h <;> cases h
    rename_i hw
    exact reached_of_write hw
  unfold LocalFileStore.put at h
  split at h
  · exact hwrite h
  · split at h
    · exact hwrite h
    · cases h

theorem list_under (h : store.UnderRoot os (store.target os pre)) :
    Within s (store.list os pre s).2 (store.UnderRoot os) := by
  refine list_looks.within.mono ?_
  rintro q (rfl | ⟨c, rfl⟩)
  · exact h
  · exact UnderRoot.append h

theorem delete_stays (hroot : Passable os t store.root)
    (h : store.target os path ∈ visited [] (os.steps store.root) ∨
      store.target os path ∈ visited []
        (os.steps ⟨(store.resolve path).absolute, (store.resolve path).parts.dropLast⟩)) :
    ∀ q, FileTree.resolve os t (store.resolve path) = .ok q → t.isDir q := by
  intro q hq
  have hnorm := resolve_eq_norm hq
  rcases h with h | h
  · rw [hnorm]
    exact hroot _ h
  · obtain ⟨ds, c, hparts⟩ := (List.eq_nil_or_concat' _).resolve_left (resolve_parts_ne_nil path)
    have hsteps : os.steps (store.resolve path) =
        os.steps ⟨(store.resolve path).absolute, ds⟩ ++ [c] := by
      rw [Os.steps, Os.steps, hparts]
      split
      · rfl
      · exact (List.append_assoc ..).symm
    have hwalk := walk_of_resolve hq
    rw [hsteps] at hwalk
    rw [hparts, List.dropLast_concat] at h
    rw [hnorm]
    exact dirs_of_walk_concat hwalk _ h

theorem confined_of_stays (hroot : Passable os t store.root) (h : Stays store os r) :
    Confined store os t r := by
  cases r with
  | put path data =>
    have hw := put_within (s := ⟨t, []⟩) hroot h
    refine ⟨hw.inside, fun hout => ?_⟩
    cases hput : store.put os path data ⟨t, []⟩ with
    | mk res s' =>
      cases res with
      | error e => simp [LocalFileStore.handle, Reply.map, hput, Except.map, Denied]
      | ok =>
        rw [hput] at hw
        exact absurd (hw.reached (reached_of_put hput)) hout
  | get path =>
    rcases h with hnul | hunder
    · have hget : FileTree.read os (store.resolve path) ⟨t, []⟩ =
          (.error .invalidInput, ⟨t, []⟩) := by
        simp [FileTree.read, resolve_of_nul hnul]
      constructor <;>
        simp [LocalFileStore.handle, Reply.map, LocalFileStore.get, hget, Except.map, Denied]
    · exact ⟨(get_looks.within.mono fun q hq => hq ▸ hunder).inside, fun hout => absurd hunder hout⟩
  | delete path =>
    have herror {e} (he : removeFile os (store.resolve path) ⟨t, []⟩ = (.error e, ⟨t, []⟩)) :
        Confined store os t (.delete path) := by
      obtain ⟨hs, hfalse⟩ := delete_of_error he
      constructor
      · simp [LocalFileStore.handle, Reply.map, hs]
      · intro _
        cases hres : (store.delete os path ⟨t, []⟩).1 with
        | error e => simp [LocalFileStore.handle, Reply.map, hres, Except.map, Denied]
        | ok b => simp [LocalFileStore.handle, Reply.map, hres, Except.map, Denied, hfalse b hres]
    rcases h with hnul | hunder | hdir
    · exact herror (e := .invalidInput) (by simp [removeFile, resolve_of_nul hnul])
    · exact ⟨(delete_within.mono fun q hq => hq ▸ hunder).inside, fun hout => absurd hunder hout⟩
    · obtain ⟨e, he⟩ := removeFile_of_dir (s := ⟨t, []⟩) (delete_stays hroot hdir)
      exact herror he
  | exists_ path =>
    rcases h with hnul | hunder
    · constructor <;> simp [LocalFileStore.handle, Reply.map, LocalFileStore.exists_,
        FileTree.exists_, metadata_of_nul hnul, Except.map, Denied]
    · refine ⟨(exists_looks.within.mono fun q hq => ?_).inside, fun hout => absurd hunder hout⟩
      exact hq ▸ hunder
  | list pre =>
    rcases h with hnul | hunder
    · constructor <;> simp [LocalFileStore.handle, Reply.map, LocalFileStore.list,
        FileTree.exists_, metadata_of_nul hnul, Except.map, Denied]
    · exact ⟨(list_under hunder).inside, fun hout => absurd hunder hout⟩
  | metadata path =>
    rcases h with hnul | hunder
    · constructor <;> simp [LocalFileStore.handle, Reply.map, LocalFileStore.metadata,
        metadata_of_nul hnul, Except.map, Denied]
    · exact ⟨(metadata_looks'.within.mono fun q hq => hq ▸ hunder).inside,
        fun hout => absurd hunder hout⟩

-- ---------------------------------------------------------------------------
-- Paths that do not stay
-- ---------------------------------------------------------------------------

/-- The store keeps the request under its root in every tree that holds it. -/
def Confines (store : LocalFileStore) (os : Os) (r : Request) : Prop :=
  ∀ t, Passable os t store.root → Confined store os t r

theorem list_reached (h : FileTree.exists_ os (store.resolve pre) s = (true, s'))
    (hq : s'.Reached q) : (store.list os pre s).2.Reached q := by
  obtain ⟨x, hx, hq⟩ := List.mem_map.mp hq
  exact List.mem_map.mpr ⟨x, (list_looks_from h).touched hx, hq⟩

theorem target_of_blank (hrel : (store.resolve path).absolute = false)
    (hblank : (store.resolve path).isBlank) : store.UnderRoot os (store.target os path) := by
  have habs := hrel
  rw [LocalFileStore.resolve, absolute_join, Bool.or_eq_false_iff] at habs
  have hnamed : (store.resolve path).named = [] := by simpa [Path.isBlank] using hblank
  have hroot := hnamed
  rw [LocalFileStore.resolve, named_join habs.2, List.append_eq_nil_iff] at hroot
  rw [LocalFileStore.UnderRoot, rootPlace_of_blank habs.1 hroot.1, LocalFileStore.target]
  simp [Os.steps, hrel, ← norm_named, hnamed]

/-- The tree with nothing but the directories on the way to the root and on the
way of the path. -/
def wayTree (store : LocalFileStore) (os : Os) (path : String) : Tree :=
  .along (os.steps store.root) (os.steps (store.resolve path))

theorem wayTree_root : Passable os (wayTree store os path) store.root := fun _ hq =>
  Tree.isDir_along.mpr (.inl hq)

theorem wayTree_metadata (hnul : ¬(store.resolve path).hasNul)
    (hout : ¬store.UnderRoot os (store.target os path)) :
    ∃ n, n.isDir ∧ (wayTree store os path).node (store.target os path) = some n ∧
      FileTree.resolve os (wayTree store os path) (store.resolve path) =
        .ok (store.target os path) := by
  have hpass : Passable os (wayTree store os path) (store.resolve path) := fun q hq =>
    Tree.isDir_along.mpr (.inr hq)
  have hblank : (store.resolve path).absolute ∨ ¬(store.resolve path).isBlank := by
    by_contra h
    rw [not_or, not_not] at h
    exact hout (target_of_blank (by simpa using h.1) h.2)
  obtain ⟨n, hn, hdir⟩ := Tree.isDir_iff.mp (hpass _ norm_mem_visited)
  exact ⟨n, hdir, hn, resolve_of_passable (by simpa using hnul) hblank hpass⟩

theorem not_confined_of_reached (h : (store.handle os ⟨t, []⟩ r).2.Reached q)
    (hout : ¬store.UnderRoot os q) : ¬Confined store os t r := by
  intro hc
  obtain ⟨x, hx, rfl⟩ := List.mem_map.mp h
  exact hout (hc.inside x hx)

theorem lookup_outside (hnul : ¬(store.resolve path).hasNul)
    (hout : ¬store.UnderRoot os (store.target os path))
    (hr : r = .get path ∨ r = .exists_ path ∨ r = .list path ∨ r = .metadata path) :
    ¬Confined store os (wayTree store os path) r := by
  obtain ⟨n, hdir, hn, hresolve⟩ := wayTree_metadata hnul hout
  have hmeta : FileTree.metadata os (store.resolve path) ⟨wayTree store os path, []⟩ =
      (.ok n, Session.touch ⟨wayTree store os path, []⟩ .stat (store.target os path)) := by
    simp [FileTree.metadata, hresolve, hn]
  have hexists : FileTree.exists_ os (store.resolve path) ⟨wayTree store os path, []⟩ =
      (true, Session.touch ⟨wayTree store os path, []⟩ .stat (store.target os path)) := by
    simp [FileTree.exists_, hmeta]
  refine not_confined_of_reached ?_ hout
  rcases hr with rfl | rfl | rfl | rfl
  · cases n with
    | dir size modified =>
      simp [LocalFileStore.handle, Reply.map, LocalFileStore.get, FileTree.read, hresolve, hn,
        Session.reached_touch]
    | file => cases hdir
  · simp [LocalFileStore.handle, Reply.map, LocalFileStore.exists_, hexists,
      Session.reached_touch]
  · exact list_reached hexists (Session.reached_touch _ _ _)
  · simp [LocalFileStore.handle, Reply.map, LocalFileStore.metadata, hmeta,
      Session.reached_touch]

theorem move_of_notMem (h : move (norm [] cs) c ∉ visited [] cs) :
    move (norm [] cs) c = norm [] cs ++ [c] := by
  rw [move] at h ⊢
  split
  · rename_i hblank
    rw [if_pos hblank] at h
    exact absurd norm_mem_visited h
  · rename_i hblank
    rw [if_neg hblank] at h
    split
    · rename_i hdd
      rw [if_pos hdd] at h
      exact absurd (dropLast_mem_visited norm_mem_visited) h
    · rfl

/-- A file outside, beside the directories that the walk needs, is deleted. -/
theorem delete_outside (h : ¬Stays store os (.delete path)) :
    ∃ t, Passable os t store.root ∧ ¬Confined store os t (.delete path) := by
  simp only [Stays, not_or] at h
  obtain ⟨hnul, hout, hroot, hway⟩ := h
  obtain ⟨ds, c, hparts⟩ := (List.eq_nil_or_concat' _).resolve_left (resolve_parts_ne_nil path)
  rw [hparts, List.dropLast_concat] at hway
  have hsteps : os.steps (store.resolve path) =
      os.steps ⟨(store.resolve path).absolute, ds⟩ ++ [c] := steps_concat hparts
  have htarget : store.target os path =
      move (norm [] (os.steps ⟨(store.resolve path).absolute, ds⟩)) c := by
    rw [LocalFileStore.target, hsteps, norm_append, norm_cons, norm_nil]
  have hname : store.target os path =
      norm [] (os.steps ⟨(store.resolve path).absolute, ds⟩) ++ [c] := by
    rw [htarget] at hway ⊢
    exact move_of_notMem hway
  have hdir : (Tree.along (os.steps store.root)
      (os.steps ⟨(store.resolve path).absolute, ds⟩)).isDir
        (norm [] (os.steps ⟨(store.resolve path).absolute, ds⟩)) :=
    Tree.isDir_along.mpr (.inr norm_mem_visited)
  have habsent : ¬(Tree.along (os.steps store.root)
      (os.steps ⟨(store.resolve path).absolute, ds⟩)).isDir
        (norm [] (os.steps ⟨(store.resolve path).absolute, ds⟩) ++ [c]) := by
    rw [← hname, Tree.isDir_along, not_or]
    exact ⟨hroot, hway⟩
  let t := Tree.put _ _ c (.file [] none) hdir fun h => absurd h habsent
  have hkeeps : ∀ q, q ∈ visited [] (os.steps store.root) ∨
      q ∈ visited [] (os.steps ⟨(store.resolve path).absolute, ds⟩) → t.isDir q := fun q hq =>
    Tree.isDir_put_of_isDir hdir _ (Tree.isDir_along.mpr hq)
  have hnode : t.node (store.target os path) = some (.file [] none) := by
    rw [hname]
    exact Tree.node_put.trans (if_pos rfl)
  have hfile : ¬t.isDir (store.target os path) := by
    rw [Tree.isDir_eq, hnode]
    exact Bool.false_ne_true
  have hwalk : walk t [] (os.steps (store.resolve path)) = .ok (store.target os path) := by
    rw [LocalFileStore.target, hsteps]
    refine walk_concat_of_dirs (fun q hq => hkeeps q (.inr hq)) ?_
    rw [← htarget, hnode]
    rfl
  have hblank : (!(store.resolve path).absolute && (store.resolve path).isBlank) = false := by
    rw [Bool.and_eq_false_imp]
    intro hrel
    refine Bool.eq_false_iff.mpr fun hblank => hout ?_
    exact target_of_blank (by simpa using hrel) hblank
  have hresolve : FileTree.resolve os t (store.resolve path) = .ok (store.target os path) := by
    simp [FileTree.resolve, hnul, hblank, hwalk]
  refine ⟨t, fun q hq => hkeeps q (.inl hq), not_confined_of_reached ?_ hout⟩
  have hremove : ∃ s', removeFile os (store.resolve path) ⟨t, []⟩ = (.ok (), s') := by
    simp [removeFile, hresolve, hfile, hnode]
  obtain ⟨s', hs'⟩ := hremove
  have hreached : s'.Reached (store.target os path) := reached_of_removeFile hs'
  simpa [LocalFileStore.handle, Reply.map, LocalFileStore.delete, hs'] using hreached

theorem writeFile_touched : s.touched ⊆ (store.writeFile os path data s).2.touched := by
  have hwrite : s.touched ⊆ (FileTree.write os (store.resolve path) data s).2.touched := by
    unfold FileTree.write
    split
    · exact List.Subset.refl _
    · split
      · split
        · exact List.Subset.refl _
        · split
          · exact List.Subset.refl _
          · split
            · exact List.Subset.refl _
            · exact List.subset_append_left _ _
      · exact List.Subset.refl _
  unfold LocalFileStore.writeFile
  split <;> rename_i heq <;> rwa [heq] at hwrite

def rootTree (store : LocalFileStore) (os : Os) : Tree := .along (os.steps store.root) []

theorem rootTree_isDir : (rootTree store os).isDir q ↔ q ∈ visited [] (os.steps store.root) := by
  rw [rootTree, Tree.isDir_along, or_iff_left_iff_imp]
  intro h
  rw [List.mem_singleton.mp h]
  exact mem_visited_self

theorem rootTree_known {p : Path} : Passable os (rootTree store os) p ↔ Known store os p :=
  forall₂_congr fun _ _ => rootTree_isDir

/-- There `put` reaches every directory that the parent's way has beside the
root's, and the parent. -/
theorem put_outside (h : ¬Stays store os (.put path data)) :
    ¬Confined store os (rootTree store os) (.put path data) := by
  simp only [Stays, ParentStays, not_forall, not_or] at h
  obtain ⟨parent, hparent, hnul, hnonblank, ds, hprefix, hreach, hout⟩ := h
  refine not_confined_of_reached ?_ hout
  obtain ⟨hp, hne⟩ := parent_eq_some hparent
  have habs : parent.absolute = (store.resolve path).absolute := by rw [hp]
  have hnames : ∀ c ∈ parent.parts.reverse, c ≠ [] := by
    rw [hp]
    exact fun c hc => components_ne_nil (List.dropLast_subset _ (List.mem_reverse.mp hc))
  have hbase : Passable os (rootTree store os) ⟨parent.absolute, []⟩ := by
    intro q hq
    rw [rootTree_isDir]
    cases hrel : parent.absolute with
    | true =>
      rw [hrel] at hq
      rw [List.mem_singleton.mp hq]
      exact mem_visited_self
    | false =>
      rw [habs, LocalFileStore.resolve, absolute_join, Bool.or_eq_false_iff] at hrel
      rw [habs, LocalFileStore.resolve, absolute_join, hrel.1, hrel.2] at hq
      simp only [Os.steps, hrel.1, Bool.false_eq_true, ↓reduceIte]
      exact visited_append.mpr (.inl (by simpa [Os.steps] using hq))
  obtain ⟨s', hs', -, -, hlast, hmissing⟩ := createDirAll_reaches (s := ⟨rootTree store os, []⟩)
    Tree.dirsOnly_along hnames (by simpa using hnul) hbase
  have hreached : s'.Reached (norm [] (os.steps ⟨parent.absolute, ds⟩)) := by
    rcases hreach with rfl | hunknown
    · rw [List.reverse_reverse] at hlast
      refine hlast ?_
      by_contra hblank
      rw [not_or, not_not, List.reverse_eq_nil_iff] at hblank
      exact hnonblank ⟨hblank.1, by simp [Path.isBlank, Path.named, hblank.2]⟩
    · have h := hmissing ds.reverse (List.reverse_suffix.mpr hprefix)
      rw [List.reverse_reverse] at h
      exact h fun hpass => hunknown (rootTree_known.mp hpass)
  have hgrows : s'.touched ⊆ (store.put os path data ⟨rootTree store os, []⟩).2.touched := by
    unfold LocalFileStore.put
    rw [hparent]
    dsimp only
    rw [hs']
    exact writeFile_touched
  obtain ⟨x, hx, hq⟩ := List.mem_map.mp hreached
  exact List.mem_map.mpr ⟨x, hgrows hx, hq⟩

theorem stays_of_confines (h : Confines store os r) : Stays store os r := by
  by_contra hstays
  have hlookup {path} (hr : r = .get path ∨ r = .exists_ path ∨ r = .list path ∨ r = .metadata path)
      (hs : ¬((store.resolve path).hasNul ∨ store.UnderRoot os (store.target os path))) :
      False := by
    rw [not_or] at hs
    exact lookup_outside hs.1 hs.2 hr (h _ wayTree_root)
  cases r with
  | put path data => exact put_outside hstays (h _ (rootTree_known.mpr fun _ => id))
  | delete path =>
    obtain ⟨t, hroot, hc⟩ := delete_outside hstays
    exact hc (h t hroot)
  | get path => exact hlookup (.inl rfl) hstays
  | exists_ path => exact hlookup (.inr (.inl rfl)) hstays
  | list path => exact hlookup (.inr (.inr (.inl rfl))) hstays
  | metadata path => exact hlookup (.inr (.inr (.inr rfl))) hstays

end

/-- The store confines a request exactly where its path stays. -/
theorem confines_iff_stays (store : LocalFileStore) (os : Os) (r : Request) :
    Confines store os r ↔ Stays store os r :=
  ⟨stays_of_confines, fun h _ hroot => confined_of_stays hroot h⟩

/-- A machine with a store in `/srv/files` and one file elsewhere. -/
def machine : Tree where
  entries := [
    ([], .dir 4096 none),
    (["srv".toList], .dir 4096 none),
    (["srv".toList, "files".toList], .dir 4096 none),
    (["etc".toList], .dir 4096 none),
    (["etc".toList, "passwd".toList], .file [0x72, 0x6F, 0x6F, 0x74] none)]
  top := by decide
  inside := by decide

theorem absolute_path_leaves_root :
    Passable ⟨[], none, 4096⟩ machine (.parse "/srv/files") ∧
      (LocalFileStore.handle ⟨.parse "/srv/files"⟩ ⟨[], none, 4096⟩ ⟨machine, []⟩
        (.get "/etc/passwd")).1 = .ok (.content [0x72, 0x6F, 0x6F, 0x74]) ∧
      ¬Confined ⟨.parse "/srv/files"⟩ ⟨[], none, 4096⟩ machine (.get "/etc/passwd") := by
  refine ⟨by unfold Passable; decide +kernel, by decide +kernel, fun h => ?_⟩
  have hread : ⟨.read, ["etc".toList, "passwd".toList]⟩ ∈
      (LocalFileStore.handle ⟨.parse "/srv/files"⟩ ⟨[], none, 4096⟩ ⟨machine, []⟩
        (.get "/etc/passwd")).2.touched := by decide +kernel
  exact absurd (h.inside _ hread) (by decide +kernel)

end Rinfra.FileStore
