import Rinfra.Lib.FileTree.Reach

/-!
# Paths of directories and of what is in them

The path of an entry is that of the directory with a name after it. That stays so
when a prefix is taken off both, unless the prefix ends with the very name; and a
walk to the entry is a walk to the directory and a step.
-/

namespace Rinfra.Lib.FileTree

/-- A name that a file can have. -/
structure IsName (c : Name) : Prop where
  ne_nil : c ≠ []
  ne_dot : c ≠ dot
  ne_dotdot : c ≠ dotdot
  noSlash : '/' ∉ c
  noNul : Char.ofNat 0 ∉ c

instance : DecidablePred IsName := fun c =>
  decidable_of_iff (c ≠ [] ∧ c ≠ dot ∧ c ≠ dotdot ∧ '/' ∉ c ∧ Char.ofNat 0 ∉ c)
    ⟨fun ⟨hnil, hdot, hdd, hslash, hnul⟩ => ⟨hnil, hdot, hdd, hslash, hnul⟩,
      fun h => ⟨h.ne_nil, h.ne_dot, h.ne_dotdot, h.noSlash, h.noNul⟩⟩

def Tree.Named (t : Tree) : Prop := ∀ q n, t.node q = some n → ∀ c ∈ q, IsName c

/-- The parts of a path without those that are there for a slash at its end. -/
def Path.stem (p : Path) : List Name :=
  if p.parts.getLast? = some [] then p.parts.dropLast else p.parts

variable {os : Os} {t : Tree} {bs parts : List Name}

-- ---------------------------------------------------------------------------
-- Prefixes
-- ---------------------------------------------------------------------------

theorem Path.join_name (p : Path) (c : Name) : p.join ⟨false, [c]⟩ = ⟨p.absolute, p.stem ++ [c]⟩ :=
  rfl

theorem Path.parts_stem (p : Path) : p.parts = p.stem ∧ p.parts.getLast? ≠ some [] ∨
    p.parts = p.stem ++ [[]] := by
  by_cases hlast : p.parts.getLast? = some []
  · right
    obtain ⟨ps, hps⟩ := List.getLast?_eq_some_iff.mp hlast
    rw [stem, if_pos hlast, hps, List.dropLast_concat]
  · exact .inl ⟨(if_neg hlast).symm, hlast⟩

theorem afterPrefix_concat (hne : c ≠ []) (hdot : c ≠ dot) (first : Bool)
    (parts bs : List Name) :
    (∃ ys, Path.afterPrefix first parts bs = some ys ∧
        Path.afterPrefix first (parts ++ [c]) bs = some (ys ++ [c])) ∨
      Path.afterPrefix first parts bs = none ∧
        (Path.afterPrefix first (parts ++ [c]) bs = none ∨
          Path.afterPrefix first (parts ++ [c]) bs = some [] ∧ bs.getLast? = some c) := by
  induction parts generalizing first bs with
  | nil =>
    cases bs with
    | nil =>
      left
      refine ⟨[], by simp [Path.afterPrefix], ?_⟩
      simp [Path.afterPrefix, hne, hdot]
    | cons b bs =>
      right
      refine ⟨rfl, ?_⟩
      by_cases hsame : c = b
      · subst hsame
        cases bs with
        | nil => exact .inr ⟨by simp [Path.afterPrefix, hne, hdot], rfl⟩
        | cons b' bs => exact .inl (by simp [Path.afterPrefix, hne, hdot])
      · exact .inl (by simp [Path.afterPrefix, hne, hdot, hsame])
  | cons x parts ih =>
    cases bs with
    | nil =>
      left
      refine ⟨_, rfl, ?_⟩
      cases first with
      | true => rfl
      | false =>
        have hkeeps : [c].dropWhile (fun c => decide (c = [] ∨ c = dot)) = [c] := by
          simp [hne, hdot]
        simp only [Path.afterPrefix, Bool.false_eq_true, if_false, Option.some.injEq]
        rw [List.dropWhile_append]
        split
        · rename_i hempty
          rw [List.isEmpty_iff.mp hempty, hkeeps]
          rfl
        · rfl
    | cons b bs =>
      simp only [List.cons_append, Path.afterPrefix]
      split
      · exact ih first (b :: bs)
      · split
        · rcases ih false bs with h | ⟨hnone, h | ⟨hall, hlast⟩⟩
          · exact .inl h
          · exact .inr ⟨hnone, .inl h⟩
          · refine .inr ⟨hnone, .inr ⟨hall, ?_⟩⟩
            cases bs with
            | nil => cases hlast
            | cons b' bs => exact hlast
        · exact .inr ⟨rfl, .inl rfl⟩

theorem afterPrefix_slash (first : Bool) (parts bs : List Name) :
    (∃ ys, Path.afterPrefix first parts bs = some ys ∧
        (Path.afterPrefix first (parts ++ [[]]) bs = some (ys ++ [[]]) ∨
          ys = [] ∧ Path.afterPrefix first (parts ++ [[]]) bs = some [])) ∨
      Path.afterPrefix first parts bs = none ∧
        Path.afterPrefix first (parts ++ [[]]) bs = none := by
  induction parts generalizing first bs with
  | nil =>
    cases bs with
    | nil =>
      cases first with
      | true => exact .inl ⟨[], rfl, .inl rfl⟩
      | false => exact .inl ⟨[], rfl, .inr ⟨rfl, rfl⟩⟩
    | cons b bs => exact .inr ⟨rfl, by simp [Path.afterPrefix]⟩
  | cons x parts ih =>
    cases bs with
    | nil =>
      left
      refine ⟨_, rfl, ?_⟩
      cases first with
      | true => exact .inl rfl
      | false =>
        simp only [Path.afterPrefix, Bool.false_eq_true, if_false, Option.some.injEq]
        rw [List.dropWhile_append]
        split
        · rename_i hempty
          exact .inr ⟨List.isEmpty_iff.mp hempty, rfl⟩
        · exact .inl rfl
    | cons b bs =>
      simp only [List.cons_append, Path.afterPrefix]
      split
      · exact ih first (b :: bs)
      · split
        · exact ih false bs
        · exact .inr ⟨rfl, rfl⟩

def Path.relative (p base : Path) : Path := (p.stripPrefix base).getD p

/-- What is left depends on the parts alone, in one way for all paths from the top and for
all others. -/
theorem relative_parts (base : Path) (absolute : Bool) :
    ∃ first bs, ∀ parts : List Name, (Path.relative ⟨absolute, parts⟩ base).parts =
      (Path.afterPrefix first parts bs).getD parts := by
  by_cases hbase : base.absolute = true
  · cases absolute with
    | true =>
      refine ⟨false, base.components, fun parts => ?_⟩
      simp only [Path.relative, Path.stripPrefix, hbase, if_true]
      cases Path.afterPrefix false parts base.components <;> rfl
    | false => exact ⟨true, [], fun parts => by simp [Path.relative, Path.stripPrefix, hbase,
        Path.afterPrefix]⟩
  · by_cases hempty : base.components = []
    · exact ⟨true, [], fun parts => by simp [Path.relative, Path.stripPrefix, hbase, hempty,
        Path.afterPrefix]⟩
    · cases absolute with
      | true => exact ⟨true, [], fun parts => by simp [Path.relative, Path.stripPrefix, hbase,
          hempty, Path.afterPrefix]⟩
      | false =>
        refine ⟨true, base.components, fun parts => ?_⟩
        simp only [Path.relative, Path.stripPrefix, hbase, hempty, if_false, Bool.false_eq_true]
        cases Path.afterPrefix true parts base.components <;> rfl

theorem afterPrefix_suffix (h : Path.afterPrefix first parts bs = some ys) : ys <:+ parts := by
  induction parts generalizing first bs with
  | nil =>
    cases bs with
    | nil =>
      cases first <;> cases h <;> exact List.suffix_rfl
    | cons b bs => cases h
  | cons x parts ih =>
    cases bs with
    | nil =>
      cases first with
      | true =>
        cases h
        exact List.suffix_rfl
      | false =>
        cases h
        exact List.dropWhile_suffix _
    | cons b bs =>
      simp only [Path.afterPrefix] at h
      split at h
      · exact (ih h).trans (List.suffix_cons x parts)
      · split at h
        · exact (ih h).trans (List.suffix_cons x parts)
        · cases h

/-- What is left of the path of a directory, up to a slash at its end, with the name after
it is what is left of the path of an entry. -/
theorem relative_entry (dir base : Path) : ∃ ys last,
    ((dir.relative base).parts = ys ∧ ys.getLast? ≠ some [] ∨
      (dir.relative base).parts = ys ++ [[]]) ∧
    ∀ c, IsName c → ((dir.join ⟨false, [c]⟩).relative base).parts = ys ++ [c] ∨
      ((dir.join ⟨false, [c]⟩).relative base).parts = [] ∧ last = some c := by
  obtain ⟨first, bs, hparts⟩ := relative_parts base dir.absolute
  refine ⟨(Path.afterPrefix first dir.stem bs).getD dir.stem, bs.getLast?, ?_, ?_⟩
  · have hdir : (dir.relative base).parts =
        (Path.afterPrefix first dir.parts bs).getD dir.parts := hparts dir.parts
    rw [hdir]
    rcases dir.parts_stem with ⟨hstem, hlast⟩ | hstem
    · refine .inl ⟨by rw [hstem], ?_⟩
      rw [← hstem]
      cases hafter : Path.afterPrefix first dir.parts bs with
      | none => exact hlast
      | some ys =>
        obtain ⟨before, heq⟩ := afterPrefix_suffix hafter
        intro hys
        refine hlast ?_
        rw [← heq, List.getLast?_append]
        simp only [Option.getD_some] at hys
        rw [hys]
        rfl
    · rw [hstem]
      rcases afterPrefix_slash first dir.stem bs with ⟨ys, hys, h | ⟨hnil, h⟩⟩ | ⟨hnone, h⟩
      · exact .inr (by rw [hys, h]; rfl)
      · exact .inl (by rw [hys, h, hnil]; simp)
      · exact .inr (by rw [hnone, h]; rfl)
  · intro c hc
    rw [Path.join_name, hparts]
    rcases afterPrefix_concat hc.ne_nil hc.ne_dot first dir.stem bs with
      ⟨ys, hys, h⟩ | ⟨hnone, h | ⟨h, hlast⟩⟩
    · exact .inl (by rw [hys, h]; rfl)
    · exact .inl (by rw [hnone, h]; rfl)
    · exact .inr ⟨by rw [h]; rfl, hlast⟩

-- ---------------------------------------------------------------------------
-- Walks to a directory and to what is in it
-- ---------------------------------------------------------------------------

theorem Tree.isDir_above {n : Node} (h : t.node (d ++ [c]) = some n) : t.isDir d := by
  obtain ⟨before, after, heq, -⟩ := List.lookup_eq_some_iff.mp h
  have hmem : (d ++ [c], n) ∈ t.entries := by
    rw [heq]
    simp
  have habove := t.inside _ hmem (by simp)
  rwa [List.dropLast_concat] at habove

theorem walk_dir_iff (hd : t.isDir d) :
    walk t p cs = .ok d ↔ (∀ q ∈ visited p cs, t.isDir q) ∧ norm p cs = d := by
  constructor
  · intro h
    refine ⟨?_, (walk_eq_norm h).symm⟩
    induction cs generalizing p with
    | nil =>
      cases h
      simpa using hd
    | cons c cs ih =>
      rw [walk_cons] at h
      split at h
      · rename_i hp
        split at h
        · simpa using ⟨hp, ih h⟩
        · cases h
      · cases h
  · rintro ⟨hdirs, rfl⟩
    exact walk_of_dirs hdirs

theorem walk_slash_iff (hd : t.isDir d) : walk t p (cs ++ [[]]) = .ok d ↔ walk t p cs = .ok d := by
  rw [walk_dir_iff hd, walk_dir_iff hd]
  refine and_congr ⟨fun h q hq => h q (visited_append.mpr (.inl hq)), fun h q hq => ?_⟩ (by simp)
  rcases visited_append.mp hq with hq | hq
  · exact h q hq
  · simp only [visited_cons, visited_nil, move_nil, List.mem_cons, List.not_mem_nil, or_false,
      or_self] at hq
    rw [hq]
    exact h _ norm_mem_visited

theorem walk_concat_iff (hc : IsName c) (hn : t.node (d ++ [c]) = some n) :
    walk t [] (cs ++ [c]) = .ok (d ++ [c]) ↔ walk t [] cs = .ok d := by
  have hmove : ∀ p, move p c = p ++ [c] := fun p => move_name hc.ne_nil hc.ne_dot hc.ne_dotdot
  rw [walk_dir_iff (Tree.isDir_above hn)]
  constructor
  · intro h
    refine ⟨dirs_of_walk_concat h, ?_⟩
    have hnorm := walk_eq_norm h
    rw [norm_append, norm_cons, norm_nil, hmove] at hnorm
    exact (List.append_inj_left' hnorm rfl).symm
  · rintro ⟨hdirs, rfl⟩
    rw [walk_concat_of_dirs hdirs (by rw [hmove, hn]; rfl)]
    simp [hmove]

theorem hasNul_append (a : Bool) (ds es : List Name) :
    (Path.mk a (ds ++ es)).hasNul = ((Path.mk a ds).hasNul || (Path.mk a es).hasNul) := by
  simp [Path.hasNul]

theorem hasNul_name (a : Bool) (hc : Char.ofNat 0 ∉ c) : (Path.mk a [c]).hasNul = false := by
  simpa [Path.hasNul] using hc

theorem last_of_resolve {p : Path} (hparts : p.parts = cs ++ [x])
    (h : resolve os t p = .ok (d ++ [c])) (hfile : ¬ t.isDir (d ++ [c])) : x = c := by
  have hwalk := walk_of_resolve h
  rw [steps_concat hparts] at hwalk
  have hdirs := dirs_of_walk_concat hwalk
  have hnorm := walk_eq_norm hwalk
  rw [norm_append, norm_cons, norm_nil, move] at hnorm
  split at hnorm
  · exact absurd (hdirs _ (hnorm ▸ norm_mem_visited)) hfile
  · split at hnorm
    · exact absurd (hdirs _ (hnorm ▸ dropLast_mem_visited norm_mem_visited)) hfile
    · have hlast := congrArg List.getLast? hnorm
      simpa using hlast.symm

/-- The path of a file leads to it if and only if the path of the directory leads to
the directory. -/
theorem resolve_concat_iff {w : List Name} {q : Path} (hc : IsName c)
    (hn : t.node (d ++ [c]) = some n) (hq : q = ⟨a, w⟩ ∨ q = ⟨a, w ++ [[]]⟩)
    (hblank : q.absolute ∨ ¬ q.isBlank) :
    resolve os t ⟨a, w ++ [c]⟩ = .ok (d ++ [c]) ↔ resolve os t q = .ok d := by
  have hdir := Tree.isDir_above hn
  have hnul : (Path.mk a (w ++ [c])).hasNul = q.hasNul := by
    rw [hasNul_append, hasNul_name a hc.noNul, Bool.or_false]
    rcases hq with rfl | rfl
    · rfl
    · rw [hasNul_append, hasNul_name a (by simp), Bool.or_false]
  have hwalk : walk t [] (os.steps ⟨a, w ++ [c]⟩) = .ok (d ++ [c]) ↔
      walk t [] (os.steps q) = .ok d := by
    have hsteps : ∀ c, os.steps ⟨a, w ++ [c]⟩ = os.steps ⟨a, w⟩ ++ [c] := by
      intro c
      simp only [Os.steps]
      split <;> simp
    rw [hsteps, walk_concat_iff hc hn]
    rcases hq with rfl | rfl
    · rfl
    · rw [hsteps, walk_slash_iff hdir]
  have hname : (!a && (Path.mk a (w ++ [c])).isBlank) = false := by
    simp [Path.isBlank, Path.named, hc.ne_nil]
  have hthere : (!q.absolute && q.isBlank) = false := by
    rcases hblank with h | h <;> simp [h]
  rw [resolve, resolve, hnul, hname, hthere]
  split
  · simp
  · exact hwalk

-- ---------------------------------------------------------------------------
-- Parts that are no steps
-- ---------------------------------------------------------------------------

/-- An empty part and a dot stay where they are. -/
def isStep (c : Name) : Bool := c ≠ [] ∧ c ≠ dot

theorem not_isStep : isStep c = false ↔ c = [] ∨ c = dot := by
  rw [isStep, decide_eq_false_iff_not, not_and_or, not_not, not_not]

theorem norm_isStep (cs : List Name) : norm p (cs.filter isStep) = norm p cs :=
  norm_filter fun _ h => not_isStep.mp h

theorem visited_isStep : q ∈ visited p (cs.filter isStep) ↔ q ∈ visited p cs := by
  induction cs generalizing p with
  | nil => rfl
  | cons c cs ih =>
    cases hc : isStep c with
    | true =>
      rw [List.filter_cons_of_pos hc, visited_cons, visited_cons, List.mem_cons, List.mem_cons, ih]
    | false =>
      have hmove : move p c = p := if_pos (not_isStep.mp hc)
      rw [List.filter_cons_of_neg (by simp [hc]), ih, visited_cons, hmove, List.mem_cons]
      exact ⟨.inr, fun h => h.elim (fun hq => hq ▸ mem_visited_self) id⟩

theorem hasNul_isStep (p : Path) :
    p.hasNul = (Path.mk p.absolute (p.parts.filter isStep)).hasNul := by
  rw [Path.hasNul, Path.hasNul, List.any_filter]
  congr 1
  funext c
  cases hc : isStep c with
  | true => rfl
  | false => rcases not_isStep.mp hc with rfl | rfl <;> decide

theorem resolve_same {p q : Path} (habs : p.absolute = q.absolute)
    (hsteps : p.parts.filter isStep = q.parts.filter isStep)
    (hblank : q.absolute ∨ ¬ q.isBlank) (hd : t.isDir d) (h : resolve os t p = .ok d) :
    resolve os t q = .ok d := by
  have hnul : q.hasNul = false := by
    rw [hasNul_isStep, ← habs, ← hsteps, ← hasNul_isStep]
    cases hp : p.hasNul with
    | false => rfl
    | true => simp [resolve, hp] at h
  have hthere : (!q.absolute && q.isBlank) = false := by
    rcases hblank with h | h <;> simp [h]
  have hway : (os.steps p).filter isStep = (os.steps q).filter isStep := by
    simp only [Os.steps, habs]
    split <;> simp [hsteps]
  have hwalk := (walk_dir_iff hd).mp (walk_of_resolve h)
  rw [resolve, hnul, hthere]
  simp only [Bool.false_eq_true, if_false]
  refine (walk_dir_iff hd).mpr ⟨fun r hr => hwalk.1 r ?_, ?_⟩
  · rwa [← visited_isStep, hway, visited_isStep]
  · rw [← norm_isStep, ← hway, norm_isStep]
    exact hwalk.2

theorem filter_isStep {keep : Name → Bool} (h : ∀ c, isStep c = true → keep c = true)
    (cs : List Name) : (cs.filter keep).filter isStep = cs.filter isStep := by
  rw [List.filter_filter]
  refine List.filter_congr fun c _ => ?_
  cases hc : isStep c with
  | true => simp [h c hc]
  | false => rfl

theorem dropWhile_isStep (cs : List Name) :
    (cs.dropWhile fun c => c = [] ∨ c = dot).filter isStep = cs.filter isStep := by
  induction cs with
  | nil => rfl
  | cons c cs ih =>
    by_cases hc : c = [] ∨ c = dot
    · rw [List.dropWhile_cons_of_pos (by simpa using hc), ih,
        List.filter_cons_of_neg (by simp [not_isStep.mpr hc])]
    · rw [List.dropWhile_cons_of_neg (by simpa using hc)]

theorem afterPrefix_isStep (h : Path.afterPrefix first parts bs = some ys) :
    parts.filter isStep = bs.filter isStep ++ ys.filter isStep := by
  induction parts generalizing first bs with
  | nil =>
    cases bs with
    | nil => cases first <;> cases h <;> rfl
    | cons b bs => cases h
  | cons x parts ih =>
    cases bs with
    | nil =>
      cases first with
      | true =>
        cases h
        rfl
      | false =>
        cases h
        exact (dropWhile_isStep _).symm
    | cons b bs =>
      simp only [Path.afterPrefix] at h
      split at h
      · rename_i hskip
        have hx : isStep x = false := not_isStep.mpr (hskip.imp id And.left)
        rw [List.filter_cons_of_neg (by simp [hx])]
        exact ih h
      · split at h
        · rename_i hsame
          rw [hsame, List.filter_cons, List.filter_cons, ih h]
          split <;> rfl
        · cases h

theorem components_isStep (p : Path) : p.components.filter isStep = p.parts.filter isStep := by
  have hnamed : p.named.filter isStep = p.parts.filter isStep :=
    filter_isStep (fun c hc => decide_eq_true (of_decide_eq_true hc).1) p.parts
  have hdots : ∀ cs : List Name, (cs.filter (· ≠ dot)).filter isStep = cs.filter isStep :=
    filter_isStep fun c hc => decide_eq_true (of_decide_eq_true hc).2
  rw [Path.components]
  split
  · rw [hdots, hnamed]
  · split
    · rename_i hnil
      rw [← hnamed, hnil]
    · rename_i c cs hcs
      rw [← hnamed, hcs, List.filter_cons, List.filter_cons, hdots]

theorem stem_isStep (p : Path) : p.stem.filter isStep = p.parts.filter isStep := by
  rcases p.parts_stem with ⟨h, -⟩ | h
  · rw [← h]
  · rw [h, List.filter_append]
    simp [isStep]

theorem afterPrefix_head (h : Path.afterPrefix first parts bs = some ys)
    (hfirst : first = false ∨ bs ≠ []) : ys.head? ≠ some [] := by
  induction parts generalizing first bs with
  | nil =>
    cases bs with
    | nil => cases first <;> cases h <;> simp
    | cons b bs => cases h
  | cons x parts ih =>
    cases bs with
    | nil =>
      cases first with
      | true => simp at hfirst
      | false =>
        cases h
        intro hnil
        simp only [Bool.false_eq_true, if_false] at hnil
        have := List.head?_dropWhile_not (fun c => decide (c = [] ∨ c = dot)) (x :: parts)
        rw [hnil] at this
        simp at this
    | cons b bs =>
      simp only [Path.afterPrefix] at h
      split at h
      · exact ih h (.inr (by simp))
      · split at h
        · exact ih h (.inl rfl)
        · cases h

theorem afterPrefix_join (xs ys : List Name) :
    (Path.afterPrefix true (xs ++ ys) (Path.mk false xs).components).isSome := by
  have hrest : ∀ xs : List Name, (Path.afterPrefix false (xs ++ ys)
      ((xs.filter (· ≠ [])).filter (· ≠ dot))).isSome := by
    intro xs
    induction xs with
    | nil => cases ys <;> rfl
    | cons x xs ih =>
      by_cases hx : x = [] ∨ x = dot
      · have hskip : ((x :: xs).filter (· ≠ [])).filter (· ≠ dot) =
            (xs.filter (· ≠ [])).filter (· ≠ dot) := by
          rcases hx with rfl | rfl <;> rfl
        rw [hskip, List.cons_append]
        cases hbs : (xs.filter (· ≠ [])).filter (· ≠ dot) with
        | nil => rfl
        | cons b bs =>
          rw [hbs] at ih
          rw [Path.afterPrefix, if_pos (hx.imp id fun hdot => ⟨hdot, by simp⟩)]
          exact ih
      · rw [not_or] at hx
        rw [List.filter_cons_of_pos (by simpa using hx.1),
          List.filter_cons_of_pos (by simpa using hx.2), List.cons_append, Path.afterPrefix,
          if_neg (by simp [hx]), if_pos rfl]
        exact ih
  induction xs with
  | nil => cases ys <;> rfl
  | cons x xs ih =>
    by_cases hx : x = []
    · have hskip : (Path.mk false (x :: xs)).components = (Path.mk false xs).components := by
        rw [hx]
        rfl
      rw [hskip, List.cons_append]
      cases hbs : (Path.mk false xs).components with
      | nil => rfl
      | cons b bs =>
        rw [hbs] at ih
        rw [Path.afterPrefix, if_pos (.inl hx)]
        exact ih
    · have hfirst : (Path.mk false (x :: xs)).components =
          x :: (xs.filter (· ≠ [])).filter (· ≠ dot) := by
        simp [Path.components, Path.named, hx]
      rw [hfirst, List.cons_append, Path.afterPrefix, if_neg (by simp [hx]), if_pos rfl]
      exact hrest xs

end Rinfra.Lib.FileTree
