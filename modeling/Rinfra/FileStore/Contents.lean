import Rinfra.FileStore.Listing
import Rinfra.Lib.FileTree.Contents

/-!
# The local file store is a map

Through any number of requests the files hold what the last writes left, whichever paths
they came by. A path that was once written by is looked up from then on.
-/

namespace Rinfra.FileStore

open Lib Lib.FileTree

-- ---------------------------------------------------------------------------
-- The map
-- ---------------------------------------------------------------------------

section
variable (store : LocalFileStore) (os : Os)

/-- What an answered request makes of the files: only what was put or deleted counts. -/
def recorded (files : Files) : Request × Except AppError Answer → Files
  | (.put path data, .ok _) => Function.update files (store.target os path) (some data)
  | (.delete path, .ok (.found true)) => Function.update files (store.target os path) none
  | _ => files

def converse (s : Session) : List Request → List (Request × Except AppError Answer) × Session
  | [] => ([], s)
  | r :: rs => match store.handle os s r with
    | (answer, s) => match converse s rs with
      | (answers, s) => ((r, answer) :: answers, s)

/-- What every request by a path answers while the file there holds some data. -/
structure Holds (s : Session) (path : String) (data : List UInt8) : Prop where
  get : (store.handle os s (.get path)).1 = .ok (.content data)
  exists_ : (store.handle os s (.exists_ path)).1 = .ok (.found true)
  metadata : ∃ modified, (store.handle os s (.metadata path)).1 =
    .ok (.info ⟨path, data.length, modified, none, false⟩)
  delete : (store.handle os s (.delete path)).1 = .ok (.found true)

/-- No file there is read, and none deleted. -/
structure Lacks (s : Session) (path : String) : Prop where
  get : ∃ e, (store.handle os s (.get path)).1 = .error e
  delete : (store.handle os s (.delete path)).1 ≠ .ok (.found true)

end

variable {store : LocalFileStore} {os : Os} {s s' : Session} {path : String}

-- ---------------------------------------------------------------------------
-- Steps
-- ---------------------------------------------------------------------------

theorem put_ok (h : store.put os path data s = (.ok (), s')) :
    ∃ s₁, s.Turns s₁ s.tree.contents ∧
      FileTree.write os (store.resolve path) data s₁ = (.ok (), s') := by
  have hwrite : ∀ s₁, store.writeFile os path data s₁ = (.ok (), s') →
      FileTree.write os (store.resolve path) data s₁ = (.ok (), s') := by
    intro s₁ h
    unfold LocalFileStore.writeFile at h
    split at h <;> cases h
    assumption
  unfold LocalFileStore.put at h
  split at h
  · exact ⟨s, .refl, hwrite s h⟩
  · rename_i parent hparent
    have hdirs : s.Turns (createDirAll os parent.absolute parent.parts.reverse s).2
        s.tree.contents := createDirAll_turns
    split at h
    · rename_i s₁ heq
      rw [heq] at hdirs
      exact ⟨s₁, hdirs, hwrite s₁ h⟩
    · cases h

theorem put_error (h : store.put os path data s = (.error e, s')) :
    s.Turns s' s.tree.contents := by
  have hwrite : ∀ s₁, store.writeFile os path data s₁ = (.error e, s') → s' = s₁ := by
    intro s₁ h
    unfold LocalFileStore.writeFile at h
    split at h <;> cases h
    rename_i hw
    exact write_error hw
  unfold LocalFileStore.put at h
  split at h
  · rw [hwrite s h]
    exact .refl
  · rename_i parent hparent
    have hdirs : s.Turns (createDirAll os parent.absolute parent.parts.reverse s).2
        s.tree.contents := createDirAll_turns
    split at h
    · rename_i s₁ heq
      rw [heq] at hdirs
      rwa [hwrite s₁ h]
    · rename_i heq
      rw [heq] at hdirs
      cases h
      exact hdirs

theorem delete_turns (h : store.delete os path s = (r, s')) :
    s.Turns s' (if r = .ok true then
      Function.update s.tree.contents (store.target os path) none else s.tree.contents) := by
  unfold LocalFileStore.delete at h
  split at h <;> cases h
  · rename_i hr
    exact removeFile_turns hr
  · rename_i hr
    rw [removeFile_error hr]
    exact .refl
  · rename_i hr
    rw [removeFile_error hr]
    exact .refl

/-- Whatever is asked, the files change as the answer says. -/
theorem handle_turns (h : store.handle os s r = (answer, s')) :
    s.Turns s' (recorded store os s.tree.contents (r, answer)) := by
  cases r with
  | put path data =>
    cases hput : store.put os path data s with
    | mk result s₁ =>
      simp only [LocalFileStore.handle, Reply.map, hput, Prod.mk.injEq] at h
      obtain ⟨rfl, rfl⟩ := h
      cases result with
      | error e => exact put_error hput
      | ok =>
        obtain ⟨s₀, hdirs, hwrite⟩ := put_ok hput
        have hfile := hdirs.trans (write_turns hwrite)
        rwa [hdirs.contents] at hfile
  | delete path =>
    cases hdelete : store.delete os path s with
    | mk result s₁ =>
      simp only [LocalFileStore.handle, Reply.map, hdelete, Prod.mk.injEq] at h
      obtain ⟨rfl, rfl⟩ := h
      have hfile := delete_turns hdelete
      cases result with
      | error e => exact hfile
      | ok found => cases found <;> exact hfile
  | get path =>
    have hlooks := @get_looks store os s path
    cases h
    exact hlooks.turns
  | exists_ path =>
    have hlooks := @exists_looks os s (store.resolve path)
    cases h
    exact hlooks.turns
  | list pre =>
    have hlooks := @list_looks store os s pre
    cases h
    exact hlooks.turns
  | metadata path =>
    have hlooks := @metadata_looks' store os s path
    cases h
    exact hlooks.turns

-- ---------------------------------------------------------------------------
-- Runs
-- ---------------------------------------------------------------------------

theorem converse_turns (h : converse store os s rs = (answers, s')) :
    s.Turns s' (answers.foldl (recorded store os) s.tree.contents) := by
  induction rs generalizing s answers with
  | nil =>
    cases h
    exact .refl
  | cons r rs ih =>
    cases hr : store.handle os s r with
    | mk answer s₁ =>
      cases hrs : converse store os s₁ rs with
      | mk rest s₂ =>
        simp only [converse, hr, hrs, Prod.mk.injEq] at h
        obtain ⟨rfl, rfl⟩ := h
        have hfirst := handle_turns hr
        have hrest := hfirst.trans (ih hrs)
        rwa [hfirst.contents] at hrest

/-- A path that was written by is open from then on. -/
theorem open_of_converse (h : converse store os s rs = (answers, s'))
    (hput : (.put path data, .ok answer) ∈ answers) : Open os s'.tree (store.resolve path) := by
  induction rs generalizing s answers with
  | nil =>
    cases h
    cases hput
  | cons r rs ih =>
    cases hr : store.handle os s r with
    | mk answer₁ s₁ =>
      cases hrs : converse store os s₁ rs with
      | mk rest s₂ =>
        simp only [converse, hr, hrs, Prod.mk.injEq] at h
        obtain ⟨rfl, rfl⟩ := h
        rcases List.mem_cons.mp hput with heq | hmem
        · obtain ⟨rfl, rfl⟩ := Prod.mk.inj heq
          obtain ⟨s₀, hwrite⟩ : ∃ s₀, FileTree.write os (store.resolve path) data s₀ =
              (.ok (), s₁) := by
            cases hp : store.put os path data s with
            | mk result s₂ =>
              simp only [LocalFileStore.handle, Reply.map, hp, Prod.mk.injEq] at hr
              obtain ⟨hok, rfl⟩ := hr
              cases result with
              | error => cases hok
              | ok =>
                obtain ⟨s₀, -, hwrite⟩ := put_ok hp
                exact ⟨s₀, hwrite⟩
          have hrest := converse_turns hrs
          exact ((open_of_write hwrite).of_dirs (write_turns hwrite).dirs).of_dirs hrest.dirs
        · exact ih hrs hmem

-- ---------------------------------------------------------------------------
-- Answers
-- ---------------------------------------------------------------------------

theorem contents_of_get (h : (store.handle os s (.get path)).1 = .ok (.content data)) :
    s.tree.contents (store.target os path) = some data := by
  cases hread : FileTree.read os (store.resolve path) s with
  | mk result s₁ =>
    cases result with
    | error e => cases e <;> simp [LocalFileStore.handle, Reply.map, LocalFileStore.get, hread,
        Except.map] at h
    | ok content =>
      have hsame : content = data := by
        simpa [LocalFileStore.handle, Reply.map, LocalFileStore.get, hread, Except.map] using h
      unfold FileTree.read at hread
      split at hread
      · cases hread
      · rename_i q hq
        obtain rfl := resolve_eq_norm hq
        split at hread <;> cases hread
        rename_i hn
        rw [← hsame]
        exact contents_eq_some.mpr ⟨_, hn⟩

/-- By an open path, the file is read, found, described and deleted. -/
theorem holds_of_open (h : Open os s.tree (store.resolve path))
    (hdata : s.tree.contents (store.target os path) = some data) : Holds store os s path data := by
  obtain ⟨modified, hn⟩ := contents_eq_some.mp hdata
  have hn' : s.tree.node (norm [] (os.steps (store.resolve path))) = _ := hn
  have hr : FileTree.resolve os s.tree (store.resolve path) =
      .ok (norm [] (os.steps (store.resolve path))) := by
    rw [h.resolve, hn']
    rfl
  have hmeta : FileTree.metadata os (store.resolve path) s =
      (.ok (.file data modified), s.touch .stat (norm [] (os.steps (store.resolve path)))) := by
    simp only [FileTree.metadata, hr, hn']
  refine ⟨?_, ?_, ⟨modified, ?_⟩, ?_⟩
  · simp only [LocalFileStore.handle, Reply.map, LocalFileStore.get, FileTree.read, hr, hn']
    rfl
  · simp only [LocalFileStore.handle, Reply.map, LocalFileStore.exists_, FileTree.exists_, hmeta]
    rfl
  · simp only [LocalFileStore.handle, Reply.map, LocalFileStore.metadata, hmeta]
    rfl
  · obtain ⟨s₁, hremove⟩ := removeFile_of_file hr hn'
    simp only [LocalFileStore.handle, Reply.map, LocalFileStore.delete, hremove]
    rfl

theorem lacks_of_none (hnone : s.tree.contents (store.target os path) = none) :
    Lacks store os s path := by
  constructor
  · cases hget : (store.handle os s (.get path)).1 with
    | error e => exact ⟨e, rfl⟩
    | ok answer =>
      obtain ⟨data, rfl⟩ : ∃ data, answer = .content data := by
        have hmap : (store.get os path s).1.map Answer.content = .ok answer := hget
        cases hr : (store.get os path s).1 with
        | error e =>
          rw [hr] at hmap
          cases hmap
        | ok data =>
          rw [hr] at hmap
          cases hmap
          exact ⟨data, rfl⟩
      rw [contents_of_get hget] at hnone
      cases hnone
  · intro h
    cases hremove : removeFile os (store.resolve path) s with
    | mk result s₁ =>
      cases result with
      | error e => cases e <;> simp [LocalFileStore.handle, Reply.map, LocalFileStore.delete,
          hremove, Except.map] at h
      | ok =>
        unfold removeFile at hremove
        split at hremove
        · cases hremove
        · rename_i q hq
          obtain rfl := resolve_eq_norm hq
          split at hremove
          · cases hremove
          · rename_i hdir
            split at hremove
            · cases hremove
            · rename_i n hn
              cases n with
              | dir =>
                rw [Tree.isDir_eq, hn] at hdir
                exact hdir rfl
              | file content modified =>
                rw [LocalFileStore.target, contents_eq_some.mpr ⟨modified, hn⟩] at hnone
                cases hnone

/-- After any requests on any tree, the files hold what the answered writes left there, no
path reads anything else, and every path that was written by finds just that. -/
theorem converse_like_map (store : LocalFileStore) (os : Os) (s : Session) (rs : List Request) :
    let run := converse store os s rs
    let files := run.1.foldl (recorded store os) s.tree.contents
    run.2.tree.contents = files ∧
      ∀ path, (files (store.target os path) = none → Lacks store os run.2 path) ∧
        ∀ data, ((store.handle os run.2 (.get path)).1 = .ok (.content data) →
            files (store.target os path) = some data) ∧
          (files (store.target os path) = some data →
            (∃ x ∈ run.1, ∃ written, x = (.put path written, .ok .done)) →
            Holds store os run.2 path data) := by
  intro run files
  have hturns : s.Turns run.2 files := converse_turns rfl
  refine ⟨hturns.contents, fun path => ⟨fun hnone => ?_, fun data => ⟨fun hget => ?_, ?_⟩⟩⟩
  · rw [← hturns.contents] at hnone
    exact lacks_of_none hnone
  · rw [← hturns.contents]
    exact contents_of_get hget
  · rintro hdata ⟨x, hx, written, rfl⟩
    rw [← hturns.contents] at hdata
    exact holds_of_open (open_of_converse rfl hx) hdata

/-- A note that is written by two of its names, and deleted and written anew in between. -/
def noteRequests : List Request :=
  [.put "notes/a" [1], .put "notes/../notes/a" [2], .delete "./notes/a", .put "notes/a/b" [3],
    .put "notes/./a/../c" [4], .put "notes//c" [5]]

theorem converse_like_map_notes :
    let run := converse ⟨.parse "/srv/files"⟩ ⟨[], none, 4096⟩ ⟨machine, []⟩ noteRequests
    Holds ⟨.parse "/srv/files"⟩ ⟨[], none, 4096⟩ run.2 "notes/./a/../c" [5] ∧
      Lacks ⟨.parse "/srv/files"⟩ ⟨[], none, 4096⟩ run.2 "notes/a" := by
  have h := (converse_like_map ⟨.parse "/srv/files"⟩ ⟨[], none, 4096⟩ ⟨machine, []⟩
    noteRequests).2
  exact ⟨((h "notes/./a/../c").2 [5]).2 (by decide +kernel)
    ⟨(.put "notes/./a/../c" [4], .ok .done), by decide +kernel, [4], rfl⟩,
    (h "notes/a").1 (by decide +kernel)⟩

end Rinfra.FileStore
