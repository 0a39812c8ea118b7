import Mathlib.Logic.Function.Basic
import Rinfra.Lib.FileTree.Keep

/-!
# What the files of a tree hold

Writing a file and removing one change what a single place holds, and no other call
changes any of it. A path that could be written can be looked up from then on, since no
directory goes away.
-/

namespace Rinfra.Lib.FileTree

abbrev Files := Place → Option (List UInt8)

def Node.content : Node → Option (List UInt8)
  | .dir .. => none
  | .file content _ => some content

def Tree.contents (t : Tree) : Files := fun q => (t.node q).bind Node.content

/-- All that is before a path's last part are directories. -/
structure Open (os : Os) (t : Tree) (p : Path) : Prop where
  noNul : p.hasNul = false
  way : ∃ cs c, p.parts = cs ++ [c] ∧ c ≠ [] ∧
    ∀ q ∈ visited [] (os.steps ⟨p.absolute, cs⟩), t.isDir q

/-- No directory goes away, and the files come to hold what is given. -/
structure Session.Turns (s s' : Session) (files : Files) : Prop where
  dirs : ∀ q, s.tree.isDir q → s'.tree.isDir q
  contents : s'.tree.contents = files

variable {os : Os} {s s' s'' : Session} {t : Tree} {p : Path}

theorem Session.Turns.refl : Turns s s s.tree.contents := ⟨fun _ h => h, rfl⟩

theorem Session.Turns.trans (h : Turns s s' files) (h' : Turns s' s'' files') :
    Turns s s'' files' :=
  ⟨fun q hq => h'.dirs q (h.dirs q hq), h'.contents⟩

theorem Session.Turns.after (h : Turns s s' s.tree.contents)
    (h' : Turns s' s'' s'.tree.contents) : Turns s s'' s.tree.contents := by
  have htrans := h.trans h'
  rwa [h.contents] at htrans

theorem Session.Looks.turns (h : Looks s s' Q) : Turns s s' s.tree.contents := by
  refine ⟨fun q => ?_, ?_⟩ <;> rw [h.tree]
  exact fun hq => hq

-- ---------------------------------------------------------------------------
-- Contents
-- ---------------------------------------------------------------------------

theorem contents_eq_some :
    t.contents q = some data ↔ ∃ modified, t.node q = some (.file data modified) := by
  rw [Tree.contents]
  cases t.node q with
  | none => simp
  | some n => cases n <;> simp [Node.content]

theorem contents_put_file (hdir : t.isDir d) (hn : t.isDir (d ++ [c]) → Node.isDir (.file data m)) :
    (Tree.put t d c (.file data m) hdir hn).contents =
      Function.update t.contents (d ++ [c]) (some data) := by
  funext q
  rw [Tree.contents, Tree.node_put, Function.update_apply]
  split <;> rfl

/-- A directory that takes no file's place holds nothing, as its place did. -/
theorem contents_put_dir (hdir : t.isDir d) (hn : t.isDir (d ++ [c]) → Node.isDir (.dir k m))
    (hfree : t.node (d ++ [c]) = none) :
    (Tree.put t d c (.dir k m) hdir hn).contents = t.contents := by
  funext q
  rw [Tree.contents, Tree.node_put]
  split
  · rename_i hq
    rw [hq, Tree.contents, hfree]
    rfl
  · rfl

theorem contents_remove (hfile : ¬ t.isDir place) :
    (Tree.remove t place hfile).contents = Function.update t.contents place none := by
  funext q
  rw [Tree.contents, Tree.node_remove, Function.update_apply]
  split <;> rfl

theorem isDir_remove (hfile : ¬ t.isDir place) (h : t.isDir q) :
    (Tree.remove t place hfile).isDir q := by
  have hne : q ≠ place := by
    rintro rfl
    exact hfile h
  rw [Tree.isDir_eq, Tree.node_remove, if_neg hne]
  exact h

-- ---------------------------------------------------------------------------
-- Calls
-- ---------------------------------------------------------------------------

theorem mkdir_turns : s.Turns (mkdir os p s).2 s.tree.contents := by
  unfold mkdir
  split
  · exact .refl
  · split
    · rename_i hdir
      split
      · exact .refl
      · split
        · exact .refl
        · rename_i hfree
          exact ⟨fun q hq => Tree.isDir_put_of_isDir hdir (fun _ => rfl) hq,
            contents_put_dir hdir (fun _ => rfl) (by simpa using hfree)⟩
    · exact .refl

theorem createDirAll_turns : s.Turns (createDirAll os a cs s).2 s.tree.contents := by
  induction cs generalizing s with
  | nil =>
    rw [createDirAll]
    split
    · exact unlessDir_looks.turns
    · exact .refl
  | cons c up ih =>
    have hfirst := @mkdir_turns os s ⟨a, (c :: up).reverse⟩
    rw [createDirAll]
    split
    · rename_i hm
      rwa [hm] at hfirst
    · rename_i s₁ hm
      rw [hm] at hfirst
      have hup := hfirst.after (@ih s₁)
      split
      · rename_i h
        rwa [h] at hup
      · rename_i s₂ h
        rw [h] at hup
        have hagain := hup.after (@mkdir_turns os s₂ ⟨a, (c :: up).reverse⟩)
        split
        · rename_i hm₂
          rwa [hm₂] at hagain
        · rename_i hm₂
          rw [hm₂] at hagain
          exact hagain.after unlessDir_looks.turns
    · rename_i hm
      rw [hm] at hfirst
      exact hfirst.after unlessDir_looks.turns

theorem write_turns (h : write os p data s = (.ok (), s')) :
    s.Turns s' (Function.update s.tree.contents (norm [] (os.steps p)) (some data)) := by
  unfold write at h
  split at h
  · cases h
  · rename_i hloc
    split at h
    · rename_i hdir
      split at h
      · cases h
      · split at h
        · cases h
        · split at h <;> cases h
          rename_i hc
          rw [← locate_eq_norm hloc]
          exact ⟨fun q hq => Tree.isDir_put_of_isDir hdir (absurd · hc) hq,
            contents_put_file hdir (absurd · hc)⟩
    · cases h

theorem removeFile_turns (h : removeFile os p s = (.ok (), s')) :
    s.Turns s' (Function.update s.tree.contents (norm [] (os.steps p)) none) := by
  unfold removeFile at h
  split at h
  · cases h
  · rename_i q hq
    obtain rfl := resolve_eq_norm hq
    split at h
    · cases h
    · rename_i hdir
      split at h <;> cases h
      exact ⟨fun q hq => isDir_remove hdir hq, contents_remove hdir⟩

theorem removeFile_error (h : removeFile os p s = (.error e, s')) : s' = s := by
  unfold removeFile at h
  split at h
  · cases h
    rfl
  · split at h
    · cases h
      rfl
    · split at h <;> cases h
      rfl

theorem removeFile_of_file (hr : resolve os s.tree p = .ok q)
    (hn : s.tree.node q = some (.file data modified)) :
    ∃ s', removeFile os p s = (.ok (), s') := by
  have hdir : ¬ s.tree.isDir q := by simp [Tree.isDir_eq, hn, Node.isDir]
  unfold removeFile
  rw [hr]
  dsimp only
  rw [dif_neg hdir]
  split
  · rename_i hnone
    rw [hn] at hnone
    cases hnone
  · exact ⟨_, rfl⟩

-- ---------------------------------------------------------------------------
-- Open paths
-- ---------------------------------------------------------------------------

theorem Open.of_dirs (h : Open os t p) (hdirs : ∀ q, t.isDir q → t'.isDir q) : Open os t' p := by
  obtain ⟨cs, c, hparts, hc, hway⟩ := h.way
  exact ⟨h.noNul, cs, c, hparts, hc, fun q hq => hdirs q (hway q hq)⟩

theorem walk_concat_missing (h : ∀ r ∈ visited q cs, t.isDir r)
    (hlast : t.node (move (norm q cs) c) = none) :
    walk t q (cs ++ [c]) = .error .notFound := by
  induction cs generalizing q with
  | nil =>
    have hq : t.isDir q := h q (by simp)
    have hc : t.node (move q c) = none := hlast
    rw [List.nil_append, walk_cons, if_pos hq, hc]
    rfl
  | cons c' cs ih =>
    simp only [visited_cons, List.mem_cons, forall_eq_or_imp] at h
    have hsome := Tree.isSome_of_isDir (h.2 _ mem_visited_self)
    rw [List.cons_append, walk_cons, if_pos h.1, if_pos hsome, ih h.2 hlast]

theorem Open.resolve (h : Open os t p) :
    FileTree.resolve os t p = if (t.node (norm [] (os.steps p))).isSome then
      .ok (norm [] (os.steps p)) else .error .notFound := by
  obtain ⟨cs, c, hparts, hc, hway⟩ := h.way
  have hblank : p.isBlank = false := by
    have hmem : c ∈ p.named := List.mem_filter.mpr ⟨by simp [hparts], by simpa using hc⟩
    simpa [Path.isBlank] using List.ne_nil_of_mem hmem
  simp only [FileTree.resolve, h.noNul, hblank, steps_concat hparts, Bool.and_false,
    Bool.false_eq_true, if_false]
  split
  · rename_i hsome
    exact walk_concat_of_dirs hway (by simpa using hsome)
  · rename_i hnone
    exact walk_concat_missing hway (by simpa using hnone)

theorem open_of_write (h : write os p data s = (.ok (), s')) : Open os s.tree p := by
  obtain ⟨d, c, hloc, hdir, hslash⟩ : ∃ d c, locate os s.tree p = .ok (d, some c) ∧
      s.tree.isDir d ∧ p.endsWithSlash = false := by
    unfold write at h
    split at h
    · cases h
    · rename_i d name hloc
      split at h
      · rename_i hdir
        split at h
        · cases h
        · split at h
          · cases h
          · rename_i hslash
            exact ⟨_, _, hloc, hdir, by simpa using hslash⟩
      · cases h
  have hnul : p.hasNul = false := by
    unfold locate at hloc
    split at hloc
    · cases hloc
    · rename_i hnul
      simpa using hnul
  rcases locate_eq_ok hloc with ⟨-, -, -, hname⟩ | ⟨up, c', hup, hwalk, -⟩
  · cases hname
  · rcases List.eq_nil_or_concat' p.parts with hnil | ⟨cs, x, hparts⟩
    · simp [Path.named, hnil] at hup
    · have hx : x ≠ [] := by simpa [Path.endsWithSlash, hparts] using hslash
      have hcs : cs.filter (· ≠ []) = up := by
        rw [Path.named, hparts, List.filter_append,
          List.filter_cons_of_pos (by simpa using hx)] at hup
        exact (List.append_inj' hup rfl).1
      have hsteps : (os.steps ⟨p.absolute, up⟩).filter isStep =
          (os.steps ⟨p.absolute, cs⟩).filter isStep := by
        have hnamed : (cs.filter (· ≠ [])).filter isStep = cs.filter isStep :=
          filter_isStep (by simp +contextual [isStep]) cs
        rw [hcs] at hnamed
        cases ha : p.absolute <;> simp [Os.steps, hnamed]
      refine ⟨hnul, cs, x, hparts, hx, fun q hq => ?_⟩
      rw [← visited_isStep, ← hsteps, visited_isStep] at hq
      exact ((walk_dir_iff hdir).mp hwalk).1 q hq

end Rinfra.Lib.FileTree
