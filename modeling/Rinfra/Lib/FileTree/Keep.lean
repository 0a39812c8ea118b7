import Rinfra.Lib.FileTree.Text

/-!
# What calls keep

A file stays one, whatever is created or written beside it or into it, until it is
removed; and every object has a name that a file can have.
-/

namespace Rinfra.Lib.FileTree

variable {os : Os} {s s' : Session} {t : Tree}

def Tree.HasFile (t : Tree) (q : Place) : Prop :=
  ∃ content modified, t.node q = some (.file content modified)

theorem Tree.HasFile.not_isDir (h : t.HasFile q) : ¬ t.isDir q := by
  obtain ⟨content, modified, h⟩ := h
  rw [Tree.isDir_eq, h]
  exact Bool.false_ne_true

theorem Tree.named_of_entries (h : ∀ e ∈ t.entries, ∀ c ∈ e.1, IsName c) : t.Named := by
  intro q n hn
  obtain ⟨before, after, heq, -⟩ := List.lookup_eq_some_iff.mp hn
  exact h (q, n) (by rw [heq]; simp)

-- ---------------------------------------------------------------------------
-- Calls
-- ---------------------------------------------------------------------------

/-- Files stay files, and all that is new has a name. -/
structure Session.Keeps (s s' : Session) : Prop where
  files : ∀ q, s.tree.HasFile q → s'.tree.HasFile q
  named : s.tree.Named → s'.tree.Named

theorem Session.Keeps.refl : Keeps s s := ⟨fun _ => id, id⟩

theorem Session.Keeps.trans (h : Keeps s s') (h' : Keeps s' s'') : Keeps s s'' :=
  ⟨fun q hq => h'.files q (h.files q hq), fun hs => h'.named (h.named hs)⟩

theorem Session.Keeps.of_tree (h : s'.tree = s.tree) : Keeps s s' := by
  refine ⟨fun q => ?_, ?_⟩ <;> rw [h] <;> exact id

/-- An object that is put somewhere leaves the files beside it, and is one itself if it is
no directory. -/
theorem Tree.hasFile_put (hdir : t.isDir d) (hn : t.isDir (d ++ [c]) → n.isDir)
    (h : q = d ++ [c] ∧ n.isDir = false ∨ q ≠ d ++ [c] ∧ t.HasFile q) :
    (Tree.put t d c n hdir hn).HasFile q := by
  rcases h with ⟨hq, hfile⟩ | ⟨hq, content, modified, h⟩
  · cases n with
    | dir size modified => cases hfile
    | file content modified => exact ⟨content, modified, Tree.node_put.trans (if_pos hq)⟩
  · exact ⟨content, modified, Tree.node_put.trans ((if_neg hq).trans h)⟩

theorem Tree.Named.put (h : t.Named) (hc : IsName c) (hdir : t.isDir d)
    (hn : t.isDir (d ++ [c]) → n.isDir) : (Tree.put t d c n hdir hn).Named := by
  intro q m hm x hx
  rw [Tree.node_put] at hm
  split at hm
  · rename_i hq
    rw [hq] at hx
    rcases List.mem_append.mp hx with hx | hx
    · obtain ⟨m', hm', -⟩ := Tree.isDir_iff.mp hdir
      exact h d m' hm' x hx
    · rwa [List.mem_singleton.mp hx]
  · exact h q m hm x hx

theorem Tree.node_remove (hfile : ¬ t.isDir p) :
    (Tree.remove t p hfile).node q = if q = p then none else t.node q := by
  split
  · rename_i hq
    rw [hq, Tree.node, Tree.remove, nodeAt, List.lookup_eq_none_iff]
    intro e he
    simpa using Ne.symm (of_decide_eq_true (List.mem_filter.mp he).2)
  · rename_i hq
    exact nodeAt_filter_ne hq

theorem isName_of_locate (hp : p.Split) (h : locate os t p = .ok (d, some c)) : IsName c := by
  have hnul : p.hasNul = false := by
    unfold locate at h
    split at h
    · cases h
    · rename_i hnul
      simpa using hnul
  rcases locate_eq_ok h with ⟨-, -, -, hname⟩ | ⟨up, c', hup, -, hname⟩
  · cases hname
  · split at hname <;> cases hname
    rename_i hreal
    have hmem : c ∈ p.named := by simp [hup]
    obtain ⟨hparts, hne⟩ := List.mem_filter.mp hmem
    rw [not_or] at hreal
    refine ⟨by simpa using hne, hreal.1, hreal.2, hp c hparts, ?_⟩
    simp only [Path.hasNul, List.any_eq_false] at hnul
    simpa using hnul c hparts

theorem mkdir_keeps (hp : p.Split) : s.Keeps (mkdir os p s).2 := by
  unfold mkdir
  split
  · exact .refl
  · rename_i d name hloc
    split
    · rename_i hdir
      split
      · exact .refl
      · rename_i c
        split
        · exact .refl
        · rename_i hfree
          refine ⟨?_, fun hs => hs.put (isName_of_locate hp hloc) hdir fun _ => rfl⟩
          intro q hq
          refine Tree.hasFile_put hdir (fun _ => rfl) (.inr ⟨?_, hq⟩)
          rintro rfl
          obtain ⟨content, modified, hq⟩ := hq
          rw [hq] at hfree
          exact hfree rfl
    · exact .refl

theorem write_keeps (hp : p.Split) : s.Keeps (write os p data s).2 := by
  unfold write
  split
  · exact .refl
  · rename_i d name hloc
    split
    · rename_i hdir
      split
      · exact .refl
      · rename_i c
        split
        · exact .refl
        · split
          · exact .refl
          · rename_i hc
            refine ⟨?_, fun hs => hs.put (isName_of_locate hp hloc) hdir fun h => absurd h hc⟩
            intro q hq
            refine Tree.hasFile_put hdir (fun h => absurd h hc) ?_
            by_cases hsame : q = d ++ [c]
            · exact .inl ⟨hsame, rfl⟩
            · exact .inr ⟨hsame, hq⟩
    · exact .refl

theorem createDirAll_keeps (hp : ∀ c ∈ cs, '/' ∉ c) : s.Keeps (createDirAll os a cs s).2 := by
  induction cs generalizing s with
  | nil =>
    rw [createDirAll]
    split
    · exact .of_tree unlessDir_looks.tree
    · exact .refl
  | cons c up ih =>
    have hsplit : (Path.mk a (c :: up).reverse).Split := fun x hx => hp x (List.mem_reverse.mp hx)
    have hmk : ∀ s : Session, s.Keeps (mkdir os ⟨a, (c :: up).reverse⟩ s).2 := fun _ =>
      mkdir_keeps hsplit
    have hunless : ∀ e (s : Session), s.Keeps (unlessDir os e ⟨a, (c :: up).reverse⟩ s).2 :=
      fun _ _ => .of_tree unlessDir_looks.tree
    have hfirst := hmk s
    rw [createDirAll]
    split
    · rename_i hm
      rwa [hm] at hfirst
    · rename_i s₁ hm
      rw [hm] at hfirst
      have hup := hfirst.trans (@ih s₁ fun x hx => hp x (List.mem_cons_of_mem _ hx))
      split
      · rename_i h
        rwa [h] at hup
      · rename_i s₂ h
        rw [h] at hup
        have hagain := hup.trans (hmk s₂)
        split
        · rename_i hm₂
          rwa [hm₂] at hagain
        · rename_i hm₂
          rw [hm₂] at hagain
          exact hagain.trans (hunless _ _)
    · rename_i hm
      rw [hm] at hfirst
      exact hfirst.trans (hunless _ _)

/-- After a write there is a file. -/
theorem hasFile_of_write (h : write os p data s = (.ok (), s')) :
    s'.tree.HasFile (norm [] (os.steps p)) := by
  unfold write at h
  split at h
  · cases h
  · rename_i d name hloc
    split at h
    · rename_i hdir
      split at h
      · cases h
      · rename_i c
        split at h
        · cases h
        · split at h <;> cases h
          rename_i hc
          rw [← locate_eq_norm hloc]
          exact Tree.hasFile_put hdir (fun h => absurd h hc) (.inl ⟨rfl, rfl⟩)
    · cases h

theorem removeFile_keeps (h : removeFile os p s = (r, s')) :
    (∀ q, s.tree.HasFile q → q ≠ norm [] (os.steps p) ∨ r ≠ .ok () → s'.tree.HasFile q) ∧
      (s.tree.Named → s'.tree.Named) := by
  unfold removeFile at h
  split at h
  · cases h
    exact ⟨fun q hq _ => hq, id⟩
  · rename_i p' hp'
    obtain rfl := resolve_eq_norm hp'
    split at h
    · cases h
      exact ⟨fun q hq _ => hq, id⟩
    · rename_i hdir
      split at h <;> cases h
      · exact ⟨fun q hq _ => hq, id⟩
      · constructor
        · rintro q ⟨content, modified, hq⟩ hother
          have hne : q ≠ norm [] (os.steps p) := hother.resolve_right fun h => h rfl
          exact ⟨content, modified, (Tree.node_remove hdir).trans ((if_neg hne).trans hq)⟩
        · intro hs q n hn
          have hn' := (Tree.node_remove hdir).symm.trans hn
          split at hn'
          · cases hn'
          · exact hs q n hn'

-- ---------------------------------------------------------------------------
-- The names in a directory
-- ---------------------------------------------------------------------------

theorem Tree.mem_names : c ∈ t.names d ↔ (t.node (d ++ [c])).isSome := by
  rw [Tree.names, List.mem_dedup, List.mem_filterMap]
  constructor
  · rintro ⟨e, he, h⟩
    split at h
    · rename_i hd
      have hplace : e.1 = d ++ [c] := by
        obtain ⟨before, hbefore⟩ := List.getLast?_eq_some_iff.mp h
        rw [hbefore, List.dropLast_concat] at hd
        rw [hbefore, hd]
      rw [Tree.node, nodeAt, Option.isSome_iff_ne_none, ne_eq, List.lookup_eq_none_iff]
      intro hnone
      simpa [hplace] using hnone e he
    · cases h
  · intro h
    obtain ⟨n, hn⟩ := Option.isSome_iff_exists.mp h
    obtain ⟨before, after, heq, -⟩ := List.lookup_eq_some_iff.mp hn
    refine ⟨(d ++ [c], n), by rw [heq]; simp, ?_⟩
    simp

theorem Tree.nodup_names : (t.names d).Nodup := List.nodup_dedup _

theorem isSome_of_resolve {p : Path} (h : resolve os t p = .ok q) : (t.node q).isSome := by
  have hwalk := walk_of_resolve h
  have hq := exists_of_walk hwalk (Tree.isSome_of_isDir t.top) _ norm_mem_visited
  rwa [← walk_eq_norm hwalk] at hq

end Rinfra.Lib.FileTree
