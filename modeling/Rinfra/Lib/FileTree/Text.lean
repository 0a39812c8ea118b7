import Rinfra.Lib.FileTree.Relative
import Rinfra.Lib.Lines

/-!
# Paths as they are written

A path is read back from its text. The path of a directory, less the one that it was
joined to, leads from there to the directory again.
-/

namespace Rinfra.Lib.FileTree

variable {root pre path : String}

/-- No separator is left between the parts of a path. -/
def Path.Split (p : Path) : Prop := ∀ c ∈ p.parts, '/' ∉ c

theorem Path.split_parse (path : String) : (Path.parse path).Split := fun _ hc =>
  (mem_splitOn hc).1

theorem Path.Split.join (hp : p.Split) (hq : q.Split) : (Path.join p q).Split := by
  intro c hc
  rw [Path.join] at hc
  split at hc
  · exact hq c hc
  · rcases List.mem_append.mp hc with hc | hc
    · refine hp c ?_
      split at hc
      · exact List.dropLast_subset _ hc
      · exact hc
    · exact hq c hc

theorem parse_absolute (h : (Path.parse path).absolute) :
    ∃ y ys, (Path.parse path).parts = [] :: y :: ys := by
  obtain ⟨xs, hxs⟩ := List.head?_eq_some_iff.mp (of_decide_eq_true h)
  obtain ⟨y, ys, hsplit⟩ := List.exists_cons_of_ne_nil (List.splitOn_ne_nil '/' xs)
  refine ⟨y, ys, ?_⟩
  rw [Path.parse, hxs, List.splitOn_cons_eq_if_modifyHead, if_pos (by simp), hsplit]

theorem parse_blank (habs : (Path.parse path).absolute = false)
    (hnamed : (Path.parse path).named = []) : path.toList = [] := by
  rw [Path.parse, decide_eq_false_iff_not] at habs
  rw [Path.named, Path.parse] at hnamed
  cases htext : path.toList with
  | nil => rfl
  | cons x xs =>
    rw [htext] at habs hnamed
    have hx : x ≠ '/' := by simpa using habs
    obtain ⟨y, ys, hsplit⟩ := List.exists_cons_of_ne_nil (List.splitOn_ne_nil '/' xs)
    rw [List.splitOn_cons_eq_if_modifyHead, if_neg (by simpa using hx), hsplit] at hnamed
    simp at hnamed

theorem text_parse (path : String) : (Path.parse path).text = path := by
  rw [Path.text, Path.parse, List.intercalate_splitOn]
  exact String.ofList_toList

theorem parse_text {p : Path} (hne : p.parts ≠ []) (hp : p.Split) :
    Path.parse p.text = ⟨p.text.toList.head? = some '/', p.parts⟩ := by
  rw [Path.parse, Path.text, String.toList_ofList, List.splitOn_intercalate '/' hp hne]

theorem parse_text_absolute {p : Path} (habs : p.absolute) (hp : p.Split)
    (hparts : p.parts = [] :: y :: ys) : Path.parse p.text = p := by
  have hhead : p.text.toList.head? = some '/' := by
    rw [Path.text, String.toList_ofList, hparts, List.intercalate_cons_cons]
    rfl
  rw [parse_text (by simp [hparts]) hp, hhead, decide_eq_true rfl, ← habs]

theorem parse_text_relative {p : Path} (hp : p.Split) (hhead : p.parts.head? ≠ some []) :
    ∃ zs, Path.parse p.text = ⟨false, zs⟩ ∧ zs.filter isStep = p.parts.filter isStep := by
  by_cases hne : p.parts = []
  · refine ⟨[[]], ?_, by rw [hne]; rfl⟩
    rw [Path.text, hne]
    rfl
  · refine ⟨p.parts, ?_, rfl⟩
    obtain ⟨c, cs, hparts⟩ := List.exists_cons_of_ne_nil hne
    have hc : c ≠ [] := by simpa [hparts] using hhead
    obtain ⟨x, xs, rfl⟩ := List.exists_cons_of_ne_nil hc
    have hx : x ≠ '/' := by
      rintro rfl
      exact hp _ (by rw [hparts]; exact List.mem_cons_self) List.mem_cons_self
    have hfirst : p.text.toList.head? = some x := by
      rw [Path.text, String.toList_ofList, hparts]
      cases cs with
      | nil => simp
      | cons c' cs => rw [List.intercalate_cons_cons]; rfl
    rw [parse_text hne hp, hfirst]
    simp [hx]

theorem components_stem (p : Path) : (Path.mk p.absolute p.stem).components = p.components := by
  have hnamed : (Path.mk p.absolute p.stem).named = p.named := by
    rw [Path.named, Path.named]
    rcases p.parts_stem with ⟨h, -⟩ | h
    · rw [h]
    · rw [h]
      simp
  rw [Path.components, Path.components, hnamed]

theorem stem_absolute (h : (Path.parse root).absolute) :
    ∃ zs, (Path.parse root).stem = [] :: zs := by
  obtain ⟨y, ys, hparts⟩ := parse_absolute h
  rw [Path.stem, hparts]
  split
  · exact ⟨_, List.dropLast_cons_cons⟩
  · exact ⟨_, rfl⟩

theorem join_blank (hrel : (Path.parse root).absolute = false)
    (hcomps : (Path.parse root).components = []) (p : Path) : (Path.parse root).join p = p := by
  have hnamed : (Path.parse root).named = [] := by
    rw [Path.components, if_neg (by simp [hrel])] at hcomps
    split at hcomps
    · assumption
    · cases hcomps
  have hroot : Path.parse root = ⟨false, [[]]⟩ := by
    rw [Path.parse, parse_blank hrel hnamed]
    rfl
  rw [hroot, Path.join]
  split
  · rfl
  · rename_i hp
    cases p
    simp_all

theorem parts_join_absolute (h : (Path.parse root).absolute) (pre : String) :
    ∃ y ys, ((Path.parse root).join (.parse pre)).parts = [] :: y :: ys := by
  cases hpre : (Path.parse pre).absolute with
  | true =>
    rw [Path.join, if_pos hpre]
    exact parse_absolute hpre
  | false =>
    obtain ⟨zs, hstem⟩ := stem_absolute h
    obtain ⟨y, ys, hrest⟩ : ∃ y ys, zs ++ (Path.parse pre).parts = y :: ys :=
      List.exists_cons_of_ne_nil (by simp [parse_parts_ne_nil])
    refine ⟨y, ys, ?_⟩
    rw [← hrest]
    simp only [Path.join, hpre, Bool.false_eq_true, if_false]
    exact congrArg (· ++ (Path.parse pre).parts) hstem

-- ---------------------------------------------------------------------------
-- Less the base, and joined to it again
-- ---------------------------------------------------------------------------

/-- The path, less the base, is read from the base as the same steps. -/
structure Path.Returns (base dir : Path) : Prop where
  absolute : (base.join (.parse (dir.relative base).text)).absolute = dir.absolute
  steps : (base.join (.parse (dir.relative base).text)).parts.filter isStep =
    dir.parts.filter isStep

section
variable {base dir : Path} {first : Bool} {ys : List Name}

theorem returns_of_some (hdir : dir.Split) (habs : dir.absolute = base.absolute)
    (hafter : Path.afterPrefix first dir.parts base.components = some ys)
    (hfirst : first = false ∨ base.components ≠ [])
    (hrel : dir.relative base = ⟨false, ys⟩) : base.Returns dir := by
  have hys : (Path.mk false ys).Split := fun c hc =>
    hdir c ((afterPrefix_suffix hafter).subset hc)
  obtain ⟨zs, hparse, hzs⟩ := parse_text_relative hys (afterPrefix_head hafter hfirst)
  have hback : base.join (.parse (dir.relative base).text) =
      ⟨base.absolute, base.stem ++ zs⟩ := by
    rw [hrel, hparse]
    rfl
  refine ⟨by rw [hback, habs], ?_⟩
  rw [hback, afterPrefix_isStep hafter, List.filter_append, stem_isStep, components_isStep, hzs]

theorem returns_of_whole (hrel : dir.relative base = dir)
    (hread : base.join (.parse dir.text) = dir) : base.Returns dir := by
  constructor <;> rw [hrel, hread]

end

theorem returns_join (root pre : String) :
    (Path.parse root).Returns ((Path.parse root).join (.parse pre)) := by
  generalize hdir : (Path.parse root).join (.parse pre) = dir
  have hsplit : dir.Split := hdir ▸ (Path.split_parse root).join (Path.split_parse pre)
  have hjoin : dir.absolute = ((Path.parse root).absolute || (Path.parse pre).absolute) :=
    hdir ▸ absolute_join
  cases hroot : (Path.parse root).absolute with
  | true =>
    rw [hroot, Bool.true_or] at hjoin
    cases hafter : Path.afterPrefix false dir.parts (Path.parse root).components with
    | some ys =>
      refine returns_of_some hsplit (hjoin.trans hroot.symm) hafter (.inl rfl) ?_
      simp [Path.relative, Path.stripPrefix, hroot, hjoin, hafter]
    | none =>
      refine returns_of_whole (by simp [Path.relative, Path.stripPrefix, hroot, hjoin, hafter]) ?_
      obtain ⟨y, ys, hparts⟩ := parts_join_absolute hroot pre
      rw [hdir] at hparts
      rw [parse_text_absolute hjoin hsplit hparts, Path.join, if_pos hjoin]
  | false =>
    rw [hroot, Bool.false_or] at hjoin
    by_cases hcomps : (Path.parse root).components = []
    · rw [join_blank hroot hcomps] at hdir
      refine returns_of_whole (by simp [Path.relative, Path.stripPrefix, hroot, hcomps]) ?_
      rw [← hdir, text_parse]
      exact join_blank hroot hcomps _
    · cases hpre : (Path.parse pre).absolute with
      | true =>
        rw [Path.join, if_pos hpre] at hdir
        refine returns_of_whole ?_ ?_
        · simp [Path.relative, Path.stripPrefix, hroot, hcomps, hjoin, hpre]
        · rw [← hdir, text_parse]
          exact if_pos hpre
      | false =>
        have hparts : dir.parts = (Path.parse root).stem ++ (Path.parse pre).parts := by
          rw [← hdir, Path.join, if_neg (by simp [hpre])]
          rfl
        have hsome := afterPrefix_join (Path.parse root).stem (Path.parse pre).parts
        rw [← hparts, ← hroot, components_stem] at hsome
        obtain ⟨ys, hafter⟩ := Option.isSome_iff_exists.mp hsome
        refine returns_of_some hsplit (by rw [hjoin, hpre, hroot]) hafter (.inr hcomps) ?_
        simp [Path.relative, Path.stripPrefix, hroot, hcomps, hjoin, hpre, hafter]

end Rinfra.Lib.FileTree
