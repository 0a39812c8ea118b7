import Mathlib.Data.List.Induction
import Rinfra.Lib.FileTree

/-!
# What a call reaches

A call reaches the normalisation of its path and nothing else. Creating a
directory with the ones above it also reaches those that were missing.
-/

namespace Rinfra.Lib.FileTree

variable {os : Os} {s : Session} {t : Tree}

-- ---------------------------------------------------------------------------
-- Normalisation
-- ---------------------------------------------------------------------------

@[simp] theorem norm_nil : norm p [] = p := rfl
@[simp] theorem norm_cons : norm p (c :: cs) = norm (move p c) cs := rfl
@[simp] theorem norm_append : norm p (cs ++ ds) = norm (norm p cs) ds := List.foldl_append

@[simp] theorem move_nil : move p [] = p := rfl
@[simp] theorem move_dot : move p dot = p := rfl

theorem move_name (hne : c ≠ []) (hdot : c ≠ dot) (hdd : c ≠ dotdot) : move p c = p ++ [c] := by
  simp [move, hne, hdot, hdd]

theorem norm_filter (h : ∀ c, keep c = false → c = [] ∨ c = dot) :
    norm p (cs.filter keep) = norm p cs := by
  induction cs generalizing p with
  | nil => rfl
  | cons c cs ih =>
    cases hc : keep c with
    | true => rw [List.filter_cons_of_pos hc, norm_cons, norm_cons, ih]
    | false =>
      have hmove : move p c = p := if_pos (h c hc)
      rw [List.filter_cons_of_neg (by simp [hc]), norm_cons, hmove, ih]

theorem norm_named (p : Path) : norm q p.named = norm q p.parts :=
  norm_filter fun c hc => .inl (by simpa using hc)

theorem norm_steps (p : Path) (cs : List Name) (h : ∀ q, norm q cs = norm q p.parts) :
    norm [] (os.steps ⟨p.absolute, cs⟩) = norm [] (os.steps p) := by
  simp only [Os.steps]
  split <;> simp [h]

theorem steps_concat {p : Path} (h : p.parts = ds ++ [c]) :
    os.steps p = os.steps ⟨p.absolute, ds⟩ ++ [c] := by
  rw [Os.steps, Os.steps, h]
  split
  · rfl
  · exact (List.append_assoc ..).symm

-- ---------------------------------------------------------------------------
-- Joined paths
-- ---------------------------------------------------------------------------

theorem named_join {p q : Path} (h : q.absolute = false) :
    (p.join q).named = p.named ++ q.named := by
  simp only [Path.join, h, Bool.false_eq_true, ↓reduceIte, Path.named, List.filter_append]
  congr 1
  split
  · rename_i hlast
    obtain ⟨ps, hps⟩ := List.getLast?_eq_some_iff.mp hlast
    simp [hps]
  · rfl

theorem getLast_join {p q : Path} (h : q.absolute = false) (hq : q.parts ≠ []) :
    (p.join q).parts.getLast? = q.parts.getLast? := by
  simp only [Path.join, h, Bool.false_eq_true, ↓reduceIte, List.getLast?_append]
  cases hlast : q.parts.getLast? with
  | none => exact absurd (List.getLast?_eq_none_iff.mp hlast) hq
  | some c => rfl

theorem absolute_join {p q : Path} : (p.join q).absolute = (p.absolute || q.absolute) := by
  simp only [Path.join]
  split <;> simp_all

theorem parse_parts_ne_nil (path : String) : (Path.parse path).parts ≠ [] :=
  List.splitOn_ne_nil _ _

-- ---------------------------------------------------------------------------
-- Places on the way
-- ---------------------------------------------------------------------------

@[simp] theorem visited_nil : visited p [] = [p] := rfl
@[simp] theorem visited_cons : visited p (c :: cs) = p :: visited (move p c) cs := rfl

theorem mem_visited_self : p ∈ visited p cs := by
  cases cs <;> simp

theorem norm_mem_visited : norm p cs ∈ visited p cs := by
  induction cs generalizing p with
  | nil => simp
  | cons c cs ih => exact List.mem_cons_of_mem _ ih

theorem visited_append :
    q ∈ visited p (cs ++ ds) ↔ q ∈ visited p cs ∨ q ∈ visited (norm p cs) ds := by
  induction cs generalizing p with
  | nil => simpa using fun h : q = p => h ▸ mem_visited_self
  | cons c cs ih => simp [ih, or_assoc]

theorem dropLast_mem_visited (h : q ∈ visited [] cs) : q.dropLast ∈ visited [] cs := by
  induction cs using List.reverseRecOn generalizing q with
  | nil =>
    simp only [visited_nil, List.mem_singleton] at h
    simp [h]
  | append_singleton cs c ih =>
    rw [visited_append] at h ⊢
    rcases h with h | h
    · exact .inl (ih h)
    · left
      simp only [visited_cons, visited_nil, List.mem_cons, List.not_mem_nil, or_false] at h
      have hr : norm [] cs ∈ visited [] cs := norm_mem_visited
      rcases h with rfl | rfl
      · exact ih hr
      · rw [move]
        split
        · exact ih hr
        · split
          · exact ih (ih hr)
          · rwa [List.dropLast_concat]

-- ---------------------------------------------------------------------------
-- Walks
-- ---------------------------------------------------------------------------

theorem walk_cons : walk t p (c :: cs) =
    if t.isDir p then
      if (t.node (move p c)).isSome then walk t (move p c) cs else .error .notFound
    else .error .notADirectory := rfl

theorem walk_eq_norm (h : walk t p cs = .ok q) : q = norm p cs := by
  induction cs generalizing p with
  | nil =>
    cases h
    rfl
  | cons c cs ih =>
    rw [walk_cons] at h
    split at h
    · split at h
      · exact ih h
      · cases h
    · cases h

theorem walk_of_dirs (h : ∀ q ∈ visited p cs, t.isDir q) : walk t p cs = .ok (norm p cs) := by
  induction cs generalizing p with
  | nil => rfl
  | cons c cs ih =>
    simp only [visited_cons, List.mem_cons, forall_eq_or_imp] at h
    have hsome := Tree.isSome_of_isDir (h.2 _ mem_visited_self)
    rw [walk_cons, if_pos h.1, if_pos hsome, ih h.2, norm_cons]

theorem exists_of_walk (h : walk t p cs = .ok q) (hp : (t.node p).isSome) :
    ∀ r ∈ visited p cs, (t.node r).isSome := by
  induction cs generalizing p with
  | nil => simpa using hp
  | cons c cs ih =>
    rw [walk_cons] at h
    split at h
    · split at h
      · rename_i hc
        simpa using ⟨hp, ih h hc⟩
      · cases h
    · cases h

theorem dirs_of_walk_concat (h : walk t p (cs ++ [c]) = .ok q) :
    ∀ r ∈ visited p cs, t.isDir r := by
  induction cs generalizing p with
  | nil =>
    rw [List.nil_append, walk_cons] at h
    split at h
    · rename_i hp
      simpa using hp
    · cases h
  | cons c' cs ih =>
    rw [List.cons_append, walk_cons] at h
    split at h
    · split at h
      · rename_i hp _
        simpa using ⟨hp, ih h⟩
      · cases h
    · cases h

theorem walk_concat_of_dirs (h : ∀ r ∈ visited p cs, t.isDir r)
    (hlast : (t.node (move (norm p cs) c)).isSome) :
    walk t p (cs ++ [c]) = .ok (norm p (cs ++ [c])) := by
  induction cs generalizing p with
  | nil =>
    have hp : t.isDir p := h p (by simp)
    have hc : (t.node (move p c)).isSome := hlast
    rw [List.nil_append, walk_cons, if_pos hp, if_pos hc]
    rfl
  | cons c' cs ih =>
    simp only [visited_cons, List.mem_cons, forall_eq_or_imp] at h
    have hsome := Tree.isSome_of_isDir (h.2 _ mem_visited_self)
    rw [List.cons_append, walk_cons, if_pos h.1, if_pos hsome, ih h.2 hlast, norm_cons]

theorem walk_of_resolve (h : resolve os t p = .ok q) : walk t [] (os.steps p) = .ok q := by
  unfold resolve at h
  split at h
  · cases h
  · split at h
    · cases h
    · exact h

theorem resolve_eq_norm (h : resolve os t p = .ok q) : q = norm [] (os.steps p) :=
  walk_eq_norm (walk_of_resolve h)

/-- What `locate` finds: the directory is the rest of the path, and the name is
the path's last. -/
theorem locate_eq_ok (h : locate os t p = .ok (d, name)) :
    p.named = [] ∧ p.absolute ∧ d = [] ∧ name = none ∨
      ∃ up c, p.named = up ++ [c] ∧ walk t [] (os.steps ⟨p.absolute, up⟩) = .ok d ∧
        name = if c = dot ∨ c = dotdot then none else some c := by
  unfold locate at h
  split at h
  · cases h
  · split at h
    · rename_i hnamed
      split at h <;> cases h
      rename_i habs
      exact .inl ⟨by simpa using hnamed, habs, rfl, rfl⟩
    · rename_i c up hnamed
      have hup : p.named = up.reverse ++ [c] := by simpa using congrArg List.reverse hnamed
      split at h <;> cases h
      rename_i hwalk
      exact .inr ⟨up.reverse, c, hup, hwalk, rfl⟩

theorem locate_eq_norm (h : locate os t p = .ok (d, some c)) :
    d ++ [c] = norm [] (os.steps p) := by
  rcases locate_eq_ok h with ⟨-, -, -, hname⟩ | ⟨up, c', hup, hwalk, hname⟩
  · cases hname
  · split at hname <;> cases hname
    rename_i hreal
    have hmem : c ∈ p.named := by simp [hup]
    have hne : c ≠ [] := by simpa using (List.mem_filter.mp hmem).2
    rw [not_or] at hreal
    rw [← norm_steps p p.named fun q => norm_named p, walk_eq_norm hwalk, hup,
      ← move_name hne hreal.1 hreal.2]
    simp only [Os.steps]
    split <;> simp

-- ---------------------------------------------------------------------------
-- Calls
-- ---------------------------------------------------------------------------

/-- Between the two sessions only the given places are reached. -/
def Within (s s' : Session) (Q : Place → Prop) : Prop :=
  ∀ x ∈ s'.touched, x ∈ s.touched ∨ Q x.place

theorem Within.refl : Within s s Q := fun _ h => .inl h

theorem Within.trans (h : Within s s' Q) (h' : Within s' s'' Q) : Within s s'' Q := fun x hx =>
  (h' x hx).elim (h x) .inr

theorem Within.mono (h : Within s s' Q) (hqr : ∀ p, Q p → R p) : Within s s' R := fun x hx =>
  (h x hx).imp id (hqr _)

theorem Within.touch (hs : s'.touched = s.touched ++ [⟨access, p⟩]) (h : Q p) :
    Within s s' Q := by
  intro x hx
  rcases List.mem_append.mp (hs ▸ hx) with hx | hx
  · exact .inl hx
  · rw [List.mem_singleton.mp hx]
    exact .inr h

theorem Within.inside (h : Within ⟨t, []⟩ s' Q) : ∀ x ∈ s'.touched, Q x.place := by
  intro x hx
  rcases h x hx with hnil | hq
  · cases hnil
  · exact hq

/-- A call that only looks at the given places. -/
structure Session.Looks (s s' : Session) (Q : Place → Prop) : Prop where
  within : Within s s' Q
  tree : s'.tree = s.tree
  touched : s.touched ⊆ s'.touched

theorem Session.Looks.refl : Looks s s Q := ⟨.refl, rfl, List.Subset.refl _⟩

theorem Session.Looks.trans (h : Looks s s' Q) (h' : Looks s' s'' Q) : Looks s s'' Q :=
  ⟨h.within.trans h'.within, h'.tree.trans h.tree,
    List.Subset.trans h.touched h'.touched⟩

theorem Session.Looks.mono (h : Looks s s' Q) (hqr : ∀ p, Q p → R p) : Looks s s' R :=
  ⟨h.within.mono hqr, h.tree, h.touched⟩

theorem Session.looks_touch (h : Q p) : Looks s (s.touch access p) Q :=
  ⟨.touch rfl h, rfl, List.subset_append_left _ _⟩

theorem metadata_looks : s.Looks (metadata os p s).2 (· = norm [] (os.steps p)) := by
  unfold metadata
  split
  · exact .refl
  · rename_i q hq
    split
    · exact .refl
    · exact s.looks_touch (resolve_eq_norm hq)

theorem exists_looks : s.Looks (exists_ os p s).2 (· = norm [] (os.steps p)) := by
  have h := @metadata_looks os s p
  unfold exists_
  split <;> rename_i heq <;> rwa [heq] at h

theorem isDir_looks : s.Looks (isDir os p s).2 (· = norm [] (os.steps p)) := by
  have h := @metadata_looks os s p
  unfold isDir
  split <;> rename_i heq <;> rwa [heq] at h

theorem unlessDir_looks : s.Looks (unlessDir os e p s).2 (· = norm [] (os.steps p)) := by
  have h := @isDir_looks os s p
  unfold unlessDir
  split <;> rename_i heq <;> rwa [heq] at h

theorem read_looks : s.Looks (read os p s).2 (· = norm [] (os.steps p)) := by
  unfold read
  split
  · exact .refl
  · rename_i q hq
    split
    · exact .refl
    · exact s.looks_touch (resolve_eq_norm hq)
    · exact s.looks_touch (resolve_eq_norm hq)

theorem readDir_looks : s.Looks (readDir os p s).2 (· = norm [] (os.steps p)) := by
  unfold readDir
  split
  · exact .refl
  · rename_i q hq
    split
    · exact s.looks_touch (resolve_eq_norm hq)
    · exact .refl

theorem entryMetadata_looks : s.Looks (entryMetadata d c s).2 (· = d ++ [c]) := by
  unfold entryMetadata
  split
  · exact .refl
  · exact s.looks_touch rfl

theorem removeFile_within : Within s (removeFile os p s).2 (· = norm [] (os.steps p)) := by
  unfold removeFile
  split
  · exact .refl
  · rename_i q hq
    split
    · exact .refl
    · split
      · exact .refl
      · exact .touch rfl (resolve_eq_norm hq)

theorem mkdir_within : Within s (mkdir os p s).2 (· = norm [] (os.steps p)) := by
  unfold mkdir
  split
  · exact .refl
  · rename_i hloc
    split
    · split
      · exact .refl
      · split
        · exact .refl
        · exact .touch rfl (locate_eq_norm hloc)
    · exact .refl

theorem write_within : Within s (write os p data s).2 (· = norm [] (os.steps p)) := by
  unfold write
  split
  · exact .refl
  · rename_i hloc
    split
    · split
      · exact .refl
      · split
        · exact .refl
        · split
          · exact .refl
          · exact .touch rfl (locate_eq_norm hloc)
    · exact .refl

-- ---------------------------------------------------------------------------
-- Directories with the ones above them
-- ---------------------------------------------------------------------------

theorem named_eq (h : ∀ c ∈ cs, c ≠ []) : (Path.mk a cs).named = cs := by
  simpa [Path.named, List.filter_eq_self] using h

theorem mkdir_error (h : mkdir os p s = (.error e, s')) : s' = s := by
  unfold mkdir at h
  split at h
  · cases h
    rfl
  · split at h
    · split at h
      · cases h
        rfl
      · split at h <;> cases h
        rfl
    · cases h
      rfl

theorem mkdir_notFound (hnames : ∀ c' ∈ c :: up, c' ≠ [])
    (h : mkdir os ⟨a, (c :: up).reverse⟩ s = (.error .notFound, s')) (r : Place) :
    walk s.tree [] (os.steps ⟨a, up.reverse⟩) ≠ .ok r := by
  intro hwalk
  have hnamed : (Path.mk a (c :: up).reverse).named.reverse = c :: up := by
    rw [named_eq fun c' hc => hnames c' (List.mem_reverse.mp hc), List.reverse_reverse]
  unfold mkdir locate at h
  simp only [hnamed, hwalk] at h
  split at h
  · rename_i hloc
    split at hloc <;> cases hloc
    cases h
  · split at h
    · split at h
      · cases h
      · split at h <;> cases h
    · cases h

/-- The directories that are reached: the last one, and those missing above. -/
def Climbed (os : Os) (a : Bool) (cs : List Name) (t : Tree) (q : Place) : Prop :=
  ∃ up, up <:+ cs ∧ q = norm [] (os.steps ⟨a, up.reverse⟩) ∧
    (up = cs ∨ ∀ r, walk t [] (os.steps ⟨a, up.reverse⟩) ≠ .ok r)

theorem createDirAll_within (hnames : ∀ c ∈ cs, c ≠ []) :
    Within s (createDirAll os a cs s).2 (Climbed os a cs s.tree) := by
  have hself : ∀ (cs : List Name) t q, q = norm [] (os.steps ⟨a, cs.reverse⟩) →
      Climbed os a cs t q := fun cs t q hq => ⟨cs, List.suffix_rfl, hq, .inl rfl⟩
  induction cs generalizing s with
  | nil =>
    rw [createDirAll]
    split
    · rename_i ha
      subst ha
      exact unlessDir_looks.within.mono (hself [] s.tree)
    · exact .refl
  | cons c up ih =>
    have hunless : ∀ {e s'}, Within s' (unlessDir os e ⟨a, (c :: up).reverse⟩ s').2
        (Climbed os a (c :: up) s.tree) := unlessDir_looks.within.mono (hself (c :: up) s.tree)
    have hmk : ∀ s', Within s' (mkdir os ⟨a, (c :: up).reverse⟩ s').2
        (Climbed os a (c :: up) s.tree) := fun s' => mkdir_within.mono (hself (c :: up) s.tree)
    have hfirst := hmk s
    rw [createDirAll]
    split
    · rename_i hm
      rwa [hm] at hfirst
    · rename_i s₁ hm
      obtain rfl := mkdir_error hm
      -- what is missing above the one above is missing above this one too
      have habove : Within s₁ (createDirAll os a up s₁).2 (Climbed os a (c :: up) s₁.tree) := by
        refine (ih fun c' hc => hnames c' (List.mem_cons_of_mem _ hc)).mono ?_
        rintro q ⟨up', hsuffix, hq, hmiss⟩
        refine ⟨up', hsuffix.trans (List.suffix_cons c up), hq, .inr ?_⟩
        rcases hmiss with rfl | hmiss
        · exact mkdir_notFound hnames hm
        · exact hmiss
      split
      · rename_i h
        rwa [h] at habove
      · rename_i s₂ h
        rw [h] at habove
        have hagain := hmk s₂
        split
        · rename_i hm₂
          rw [hm₂] at hagain
          exact habove.trans hagain
        · rename_i hm₂
          rw [hm₂] at hagain
          exact habove.trans (hagain.trans hunless)
    · rename_i hm
      rw [hm] at hfirst
      exact hfirst.trans hunless

-- ---------------------------------------------------------------------------
-- Trees of directories only
-- ---------------------------------------------------------------------------

/-- No file stands in the way of a path. -/
def Tree.DirsOnly (t : Tree) : Prop := ∀ q n, t.node q = some n → n.isDir

theorem Tree.DirsOnly.isDir_iff (hd : t.DirsOnly) : t.isDir q ↔ (t.node q).isSome := by
  constructor
  · exact Tree.isSome_of_isDir
  · intro h
    obtain ⟨n, hn⟩ := Option.isSome_iff_exists.mp h
    exact Tree.isDir_iff.mpr ⟨n, hn, hd q n hn⟩

theorem Tree.DirsOnly.put (hd : t.DirsOnly) (hdir : t.isDir p) (h : n.isDir) :
    (Tree.put t p c n hdir fun _ => h).DirsOnly := by
  intro q m hm
  rw [Tree.node_put] at hm
  split at hm
  · cases hm
    exact h
  · exact hd q m hm

def Passable (os : Os) (t : Tree) (p : Path) : Prop := ∀ q ∈ visited [] (os.steps p), t.isDir q

theorem Tree.DirsOnly.walk_iff (hd : t.DirsOnly) :
    Passable os t p ↔ ∃ r, walk t [] (os.steps p) = .ok r := by
  constructor
  · exact fun h => ⟨_, walk_of_dirs h⟩
  · rintro ⟨r, h⟩ q hq
    exact hd.isDir_iff.mpr (exists_of_walk h (Tree.isSome_of_isDir t.top) q hq)

theorem Tree.DirsOnly.walk_error (hd : t.DirsOnly) (hp : t.isDir p)
    (h : walk t p cs = .error e) : e = .notFound := by
  induction cs generalizing p with
  | nil => cases h
  | cons c cs ih =>
    rw [walk_cons, if_pos hp] at h
    split at h
    · rename_i hc
      exact ih (hd.isDir_iff.mpr hc) h
    · cases h
      rfl

theorem steps_cons (c : Name) (up : List Name) :
    os.steps ⟨a, (c :: up).reverse⟩ = os.steps ⟨a, up.reverse⟩ ++ [c] := by
  simp only [Os.steps]
  split <;> simp

theorem visited_steps_cons (c : Name) (up : List Name) :
    q ∈ visited [] (os.steps ⟨a, (c :: up).reverse⟩) ↔
      q ∈ visited [] (os.steps ⟨a, up.reverse⟩) ∨
        q = move (norm [] (os.steps ⟨a, up.reverse⟩)) c := by
  rw [steps_cons, visited_append]
  simp only [visited_cons, visited_nil, List.mem_cons, List.not_mem_nil, or_false]
  constructor
  · rintro (h | rfl | h)
    · exact .inl h
    · exact .inl norm_mem_visited
    · exact .inr h
  · exact Or.imp id .inr

theorem Passable.of_suffix (hp : Passable os t ⟨a, cs.reverse⟩) (h : up <:+ cs) :
    Passable os t ⟨a, up.reverse⟩ := by
  obtain ⟨pre, rfl⟩ := h
  induction pre with
  | nil => exact hp
  | cons c pre ih => exact ih fun q hq => hp q ((visited_steps_cons c _).mpr (.inl hq))

def Session.Reached (s : Session) (q : Place) : Prop := q ∈ s.touched.map Touch.place

theorem Session.reached_touch (s : Session) (access : Access) (q : Place) :
    (s.touch access q).Reached q := by
  simp [Session.Reached, Session.touch]

theorem Within.reached (h : Within ⟨t, []⟩ s' Q) (hr : s'.Reached q) : Q q := by
  obtain ⟨x, hx, rfl⟩ := List.mem_map.mp hr
  exact h.inside x hx

/-- Along a call the touched objects and the directories only grow. -/
structure Session.Extends (s s' : Session) : Prop where
  touched : s.touched ⊆ s'.touched
  dirs : ∀ q, s.tree.isDir q → s'.tree.isDir q
  only : s'.tree.DirsOnly

theorem Session.Extends.trans (h : Extends s s') (h' : Extends s' s'') : Extends s s'' :=
  ⟨fun _ hq => h'.touched (h.touched hq), fun q hq => h'.dirs q (h.dirs q hq), h'.only⟩

theorem Session.Extends.reached (h : Extends s s') (hq : s.Reached q) : s'.Reached q := by
  obtain ⟨x, hx, hq⟩ := List.mem_map.mp hq
  exact List.mem_map.mpr ⟨x, h.touched hx, hq⟩

theorem nodeAt_dirs (places : List Place) :
    nodeAt (places.map fun q => (q, .dir 0 none)) p =
      if p ∈ places then some (.dir 0 none) else none := by
  induction places with
  | nil => rfl
  | cons q places ih =>
    rw [List.map_cons, nodeAt_cons, ih]
    by_cases h : p = q <;> simp [h]

theorem dirAt_dirs (places : List Place) :
    dirAt (places.map fun q => (q, .dir 0 none)) p ↔ p ∈ places := by
  rw [dirAt, nodeAt_dirs]
  split <;> simp_all [Node.isDir]

/-- The tree that holds the directories on the way of two paths. -/
def Tree.along (cs ds : List Name) : Tree where
  entries := (visited [] cs ++ visited [] ds).map fun q => (q, .dir 0 none)
  top := (dirAt_dirs _).mpr (List.mem_append_left _ mem_visited_self)
  inside := by
    intro e he _
    obtain ⟨q, hq, rfl⟩ := List.mem_map.mp he
    exact (dirAt_dirs _).mpr (List.mem_append.mpr
      ((List.mem_append.mp hq).imp dropLast_mem_visited dropLast_mem_visited))

theorem Tree.isDir_along : (along cs ds).isDir q ↔ q ∈ visited [] cs ∨ q ∈ visited [] ds :=
  (dirAt_dirs _).trans List.mem_append

theorem Tree.dirsOnly_along : (along cs ds).DirsOnly := by
  intro q n hn
  rw [node, along, nodeAt_dirs] at hn
  split at hn <;> cases hn
  rfl

theorem resolve_of_passable (hnul : p.hasNul = false) (hblank : p.absolute ∨ ¬p.isBlank)
    (hp : Passable os t p) : resolve os t p = .ok (norm [] (os.steps p)) := by
  have hhere : (!p.absolute && p.isBlank) = false := by
    rcases hblank with h | h <;> simp [h]
  rw [resolve, if_neg (by simp [hnul]), if_neg (by simp [hhere]), walk_of_dirs hp]

theorem metadata_of_passable (hnul : p.hasNul = false) (hblank : p.absolute ∨ ¬p.isBlank)
    (hp : Passable os s.tree p) :
    ∃ n, n.isDir ∧ metadata os p s = (.ok n, s.touch .stat (norm [] (os.steps p))) := by
  obtain ⟨n, hn, hdir⟩ := Tree.isDir_iff.mp (hp _ norm_mem_visited)
  exact ⟨n, hdir, by simp [metadata, resolve_of_passable hnul hblank hp, hn]⟩

theorem unlessDir_of_passable (hnul : p.hasNul = false) (hblank : p.absolute ∨ ¬p.isBlank)
    (hp : Passable os s.tree p) :
    unlessDir os e p s = (.ok (), s.touch .stat (norm [] (os.steps p))) := by
  obtain ⟨n, hdir, h⟩ := metadata_of_passable hnul hblank hp
  simp [unlessDir, isDir, h, hdir]

section
variable (hd : s.tree.DirsOnly) (hnames : ∀ c' ∈ c :: up, c' ≠ [])
  (hnul : (Path.mk a (c :: up).reverse).hasNul = false)
include hd hnames hnul

theorem mkdir_of_missing (hp : ¬Passable os s.tree ⟨a, up.reverse⟩) :
    mkdir os ⟨a, (c :: up).reverse⟩ s = (.error .notFound, s) := by
  have hnamed : (Path.mk a (c :: up).reverse).named.reverse = c :: up := by
    rw [named_eq fun c' hc => hnames c' (List.mem_reverse.mp hc), List.reverse_reverse]
  cases hwalk : walk s.tree [] (os.steps ⟨a, up.reverse⟩) with
  | ok r => exact absurd (hd.walk_iff.mpr ⟨r, hwalk⟩) hp
  | error e =>
    obtain rfl := hd.walk_error s.tree.top hwalk
    simp only [mkdir, locate, hnul, hnamed, hwalk, Bool.false_eq_true, ↓reduceIte]

/-- The directory is there, or is created, below one that is there. -/
theorem mkdir_of_passable (hp : Passable os s.tree ⟨a, up.reverse⟩) :
    Passable os s.tree ⟨a, (c :: up).reverse⟩ ∧
        mkdir os ⟨a, (c :: up).reverse⟩ s = (.error .alreadyExists, s) ∨
      ∃ s', mkdir os ⟨a, (c :: up).reverse⟩ s = (.ok (), s') ∧ s.Extends s' ∧
        Passable os s'.tree ⟨a, (c :: up).reverse⟩ ∧
        s'.Reached (norm [] (os.steps ⟨a, (c :: up).reverse⟩)) := by
  have hnamed : (Path.mk a (c :: up).reverse).named.reverse = c :: up := by
    rw [named_eq fun c' hc => hnames c' (List.mem_reverse.mp hc), List.reverse_reverse]
  have hne : c ≠ [] := hnames c List.mem_cons_self
  have hup : s.tree.isDir (norm [] (os.steps ⟨a, up.reverse⟩)) := hp _ norm_mem_visited
  have hthere (t : Tree) (hp : Passable os t ⟨a, up.reverse⟩)
      (h : t.isDir (move (norm [] (os.steps ⟨a, up.reverse⟩)) c)) :
      Passable os t ⟨a, (c :: up).reverse⟩ := by
    intro q hq
    rcases (visited_steps_cons c up).mp hq with hq | rfl
    · exact hp q hq
    · exact h
  have hloc : locate os s.tree ⟨a, (c :: up).reverse⟩ =
      .ok (norm [] (os.steps ⟨a, up.reverse⟩), if c = dot ∨ c = dotdot then none else some c) := by
    simp only [locate, hnul, hnamed, walk_of_dirs hp, Bool.false_eq_true, ↓reduceIte]
  by_cases hdots : c = dot ∨ c = dotdot
  · left
    constructor
    · refine hthere _ hp ?_
      rcases hdots with rfl | rfl
      · exact hup
      · exact hp _ (dropLast_mem_visited norm_mem_visited)
    · simp only [mkdir, hloc, if_pos hdots, dif_pos hup]
  · have hmove : move (norm [] (os.steps ⟨a, up.reverse⟩)) c =
        norm [] (os.steps ⟨a, up.reverse⟩) ++ [c] :=
      move_name hne (fun h => hdots (.inl h)) fun h => hdots (.inr h)
    by_cases hsome : (s.tree.node (norm [] (os.steps ⟨a, up.reverse⟩) ++ [c])).isSome
    · left
      constructor
      · refine hthere _ hp ?_
        rw [hmove]
        exact hd.isDir_iff.mpr hsome
      · simp only [mkdir, hloc, if_neg hdots, dif_pos hup, if_pos hsome]
    · right
      simp only [mkdir, hloc, if_neg hdots, dif_pos hup, if_neg hsome]
      refine ⟨_, rfl, ⟨?_, ?_, ?_⟩, hthere _ ?_ ?_, ?_⟩
      · exact List.subset_append_left _ _
      · exact fun q => Tree.isDir_put_of_isDir hup fun _ => rfl
      · exact hd.put hup rfl
      · exact fun q hq => Tree.isDir_put_of_isDir hup (fun _ => rfl) (hp q hq)
      · rw [hmove]
        exact Tree.isDir_put hup rfl
      · rw [steps_cons, norm_append, norm_cons, norm_nil, hmove]
        exact Session.reached_touch _ _ _

end

theorem last_created (hd : s.tree.DirsOnly) (hnames : ∀ c' ∈ c :: up, c' ≠ [])
    (hnul : (Path.mk a (c :: up).reverse).hasNul = false)
    (hp : Passable os s.tree ⟨a, up.reverse⟩) :
    ∃ s', (mkdir os ⟨a, (c :: up).reverse⟩ s = (.ok (), s') ∨
        ∃ s₂, mkdir os ⟨a, (c :: up).reverse⟩ s = (.error .alreadyExists, s₂) ∧
          unlessDir os .alreadyExists ⟨a, (c :: up).reverse⟩ s₂ = (.ok (), s')) ∧
      s.Extends s' ∧ Passable os s'.tree ⟨a, (c :: up).reverse⟩ ∧
      s'.Reached (norm [] (os.steps ⟨a, (c :: up).reverse⟩)) := by
  have hblank : ¬(Path.mk a (c :: up).reverse).isBlank := by
    rw [Path.isBlank, named_eq fun c' hc => hnames c' (List.mem_reverse.mp hc)]
    simp
  rcases mkdir_of_passable hd hnames hnul hp with ⟨hpass, hmk⟩ | ⟨s', hmk, hext, hpass, hreach⟩
  · exact ⟨_, .inr ⟨_, hmk, unlessDir_of_passable hnul (.inr hblank) hpass⟩,
      ⟨List.subset_append_left _ _, fun _ => id, hd⟩, hpass, Session.reached_touch _ _ _⟩
  · exact ⟨s', .inl hmk, hext, hpass, hreach⟩

/-- Where nothing but directories is in the way, a path is created as a whole,
and everything that was missing is reached. -/
theorem createDirAll_reaches (hd : s.tree.DirsOnly) (hnames : ∀ c ∈ cs, c ≠ [])
    (hnul : (Path.mk a cs.reverse).hasNul = false) (hbase : Passable os s.tree ⟨a, []⟩) :
    ∃ s', createDirAll os a cs s = (.ok (), s') ∧ s.Extends s' ∧
      Passable os s'.tree ⟨a, cs.reverse⟩ ∧
      (a ∨ cs ≠ [] → s'.Reached (norm [] (os.steps ⟨a, cs.reverse⟩))) ∧
      ∀ up, up <:+ cs → ¬Passable os s.tree ⟨a, up.reverse⟩ →
        s'.Reached (norm [] (os.steps ⟨a, up.reverse⟩)) := by
  induction cs generalizing s with
  | nil =>
    have hmissing : ∀ s' : Session, ∀ up : List Name, up <:+ [] →
        ¬Passable os s.tree ⟨a, up.reverse⟩ → s'.Reached (norm [] (os.steps ⟨a, up.reverse⟩)) := by
      intro s' up hup hp
      rw [List.suffix_nil.mp hup] at hp
      exact absurd hbase hp
    cases a with
    | false => exact ⟨s, rfl, ⟨List.Subset.refl _, fun _ => id, hd⟩, hbase, by simp, hmissing s⟩
    | true =>
      refine ⟨s.touch .stat [], ?_, ⟨List.subset_append_left _ _, fun _ => id, hd⟩, hbase, ?_,
        hmissing _⟩
      · exact unlessDir_of_passable hnul (.inl rfl) hbase
      · exact fun _ => Session.reached_touch _ _ _
  | cons c up ih =>
    have hnul' : (Path.mk a up.reverse).hasNul = false := by
      simp only [Path.hasNul, List.reverse_cons, List.any_append, Bool.or_eq_false_iff] at hnul
      exact hnul.1
    have hnames' : ∀ c ∈ up, c ≠ [] := fun c' hc => hnames c' (List.mem_cons_of_mem _ hc)
    by_cases hp : Passable os s.tree ⟨a, up.reverse⟩
    · obtain ⟨s', hs', hext, hpass, hreach⟩ := last_created hd hnames hnul hp
      refine ⟨s', ?_, hext, hpass, fun _ => hreach, ?_⟩
      · rcases hs' with hmk | ⟨s₂, hmk, hthere⟩
        · rw [createDirAll, hmk]
        · rw [createDirAll, hmk]
          exact hthere
      · intro up' hsuffix hmissing
        rcases List.suffix_cons_iff.mp hsuffix with rfl | hsuffix
        · exact hreach
        · exact absurd (hp.of_suffix hsuffix) hmissing
    · obtain ⟨s₁, hs₁, hext₁, hpass₁, -, hreach₁⟩ := ih hd hnames' hnul' hbase
      obtain ⟨s', hs', hext, hpass, hreach⟩ := last_created hext₁.only hnames hnul hpass₁
      refine ⟨s', ?_, hext₁.trans hext, hpass, fun _ => hreach, ?_⟩
      · rw [createDirAll, mkdir_of_missing hd hnames hnul hp]
        rcases hs' with hmk | ⟨s₂, hmk, hthere⟩
        · simp only [hs₁, hmk]
        · simp only [hs₁, hmk, hthere]
      · intro up' hsuffix hmissing
        rcases List.suffix_cons_iff.mp hsuffix with rfl | hsuffix
        · exact hreach
        · exact hext.reached (hreach₁ up' hsuffix hmissing)

end Rinfra.Lib.FileTree
