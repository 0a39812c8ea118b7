import Rinfra.Config.Loader
import Rinfra.Config.Order

/-!
# Overrides before and after the defaults

A file's tree takes the overrides as it is, with sections that are left out; a
configuration takes them where every section and setting is there. What the tree
would be read as at a place is kept in step with what the configuration has
there.
-/

namespace Rinfra.Config

open Rinfra.Lib Rinfra.Lib.Json Rinfra.Lib.Overriding

/-- What `serde_yaml` makes of a file, where `v` is the file's tree: a section is a mapping
or null and goes field by field, and a setting is what would be read, if anything. -/
def Parsed (draw : Draw) : Ty → Value → Value → Prop
  | .struct names dflt field, v, w => ∃ fields entry settings,
      (v = .object fields ∨ v = .null ∧ fields = []) ∧
      collect entry names = some settings ∧ w = .object settings ∧
      ∀ name ∈ names, match SortedMap.get name fields with
        | some child => ∃ u, entry name = some u ∧ Parsed draw (field name) child u
        | none => entry name = readField draw (field name) (dflt name) none
  | .free, v, w => w = v
  | ty, v, w => (∀ u, read draw ty v = some u → w = u) ∧ ¬ w.IsObject

/-- What the tree has at a place, if anything, is in step with what the configuration has
there; at the hole the configuration may have any setting. -/
def InStep (draw : Draw) :
    Ty → Default → Option (List String) → Option Value → Value → Prop
  | .struct names dflt field, _, hole, x, y =>
      (∀ v, x = some v → ¬ v.IsObject → children names v = none) ∧
      ∀ fields, x = some (.object fields) ∨ x = none ∧ fields = [] →
        ∃ map, y = .object map ∧ ∀ name ∈ names, ∃ u, SortedMap.get name map = some u ∧
          InStep draw (field name) (dflt name) (enter hole name) (SortedMap.get name fields) u
  | .free, dflt, _, x, y => x = some y ∨ x = none ∧ dflt = .value y
  | ty, dflt, hole, x, y => ¬ y.IsObject ∧
      (hole = some [] ∨ ∀ u, readField draw ty dflt x = some u → read draw ty y = some u)

/-- The path leads into a free part that is not there. -/
def Opens : Ty → Option Value → List String → Prop
  | .struct names _ field, x, name :: rest =>
      name ∈ names ∧ Opens (field name) (x.bind (Value.get? name)) rest
  | .free, none, _ :: _ => True
  | _, _, _ => False

variable {ty : Ty} {dflt : Default} {draw draw' : Draw} {hole hole' : Option (List String)}
  {x : Option Value} {v w y u : Value} {path : List String} {raw : String}
  {l : List (List String × String)}

theorem parsed_plain (h : ty.plain) :
    Parsed draw ty v w ↔ (∀ u, read draw ty v = some u → w = u) ∧ ¬ w.IsObject := by
  cases ty with
  | struct => cases h
  | free => cases h
  | _ => exact Iff.rfl

theorem inStep_plain (h : ty.plain) :
    InStep draw ty dflt hole x y ↔ ¬ y.IsObject ∧
      (hole = some [] ∨ ∀ u, readField draw ty dflt x = some u → read draw ty y = some u) := by
  cases ty with
  | struct => cases h
  | free => cases h
  | _ => exact Iff.rfl

-- ---------------------------------------------------------------------------
-- The beginning
-- ---------------------------------------------------------------------------

theorem inStep_none_plain (h : ty.plain) (hfits : dflt.Fits ty)
    (hdrawn : dflt.isDrawn → hole = some []) (hfill : Filled hole hole' fun _ => draw = draw')
    (hu : readField draw' ty dflt none = some u) : InStep draw ty dflt hole' none u := by
  rw [inStep_plain h]
  cases dflt with
  | required => cases hu
  | value v =>
    cases hu
    refine ⟨read_plain h (hfits.1 draw), .inr fun u hu => ?_⟩
    cases hu
    exact hfits.1 draw
  | drawn =>
    cases hu
    refine ⟨id, ?_⟩
    rcases hfill with rfl | ⟨-, -, -, rfl⟩
    · exact .inl (hdrawn rfl)
    · refine .inr fun u hu => ?_
      cases hu
      rw [show ty = .string from hfits]
      rfl
  | empty =>
    cases ty with
    | struct => cases h
    | _ => cases hfits

theorem inStep_none (hs : ty.Sound) (hflat : ty.flat) (hfits : dflt.Fits ty)
    (hsteady : ty.steady hole) (hdrawn : dflt.isDrawn → hole = some [])
    (hfill : Filled hole hole' fun _ => draw = draw')
    (hu : readField draw' ty dflt none = some u) : InStep draw ty dflt hole' none u := by
  induction ty generalizing dflt hole hole' u with
  | struct names dflt' field ih =>
    obtain ⟨_, settings, ⟨⟩, hsettings, rfl⟩ :=
      read_struct_eq_some.mp (readField_struct hfits trivial hu)
    refine ⟨fun v hv => (nomatch hv), ?_⟩
    rintro fields (hx | ⟨-, rfl⟩)
    · cases hx
    · refine ⟨settings, rfl, fun name hn => ?_⟩
      obtain ⟨hget, hsome⟩ := get_collect hsettings hn
      obtain ⟨u, hu⟩ := Option.isSome_iff_exists.mp hsome
      obtain ⟨hdrawn', hsteady'⟩ := Ty.steady_field hsteady hn
      exact ⟨u, hget.trans hu, ih name (hs name hn).1 (Ty.flat_field hflat hn) (hs name hn).2
        hsteady' hdrawn' (hfill.enter name) hu⟩
  | free =>
    cases dflt with
    | value v =>
      cases hu
      exact .inr ⟨rfl, rfl⟩
    | required => cases hu
    | _ => cases hfits
  | _ => exact inStep_none_plain hflat hfits hdrawn hfill hu

theorem inStep_parsed_plain (hp : ty.plain) (hs : ty.Sound) (hsteady : ty.steady hole)
    (h : Parsed draw' ty v w) : InStep draw ty dflt hole' (some v) w := by
  obtain ⟨hread, hw⟩ := (parsed_plain hp).mp h
  refine (inStep_plain hp).mpr ⟨hw, .inr fun u (hu : read draw ty v = some u) => ?_⟩
  rw [hread u ((read_draw (Ty.steady_plain hp hsteady)).trans hu)]
  exact read_again hs hu

theorem inStep_parsed (hs : ty.Sound) (hflat : ty.flat) (hsteady : ty.steady hole)
    (hfill : Filled hole hole' fun path => (v.at? path).isSome ∨ draw = draw')
    (h : Parsed draw' ty v w) : InStep draw ty dflt hole' (some v) w := by
  induction ty generalizing dflt hole hole' v w with
  | struct names dflt' field ih =>
    obtain ⟨fields, entry, settings, hv, hsettings, rfl, hentry⟩ := h
    refine ⟨fun v' hv' hobj => ?_, fun fields' hfields' => ?_⟩
    · cases hv'
      rcases hv with rfl | ⟨rfl, -⟩
      · exact absurd trivial hobj
      · rfl
    · obtain rfl : v = .object fields' := by
        rcases hfields' with hfields' | ⟨hfields', -⟩
        · exact Option.some.inj hfields'
        · cases hfields'
      obtain rfl : fields' = fields := by
        rcases hv with hv | ⟨hv, -⟩
        · exact Value.object.inj hv
        · cases hv
      refine ⟨settings, rfl, fun name hn => ?_⟩
      obtain ⟨hget, hsome⟩ := get_collect hsettings hn
      obtain ⟨u, hu⟩ := Option.isSome_iff_exists.mp hsome
      obtain ⟨hdrawn', hsteady'⟩ := Ty.steady_field hsteady hn
      refine ⟨u, hget.trans hu, ?_⟩
      have hname := hentry name hn
      cases hchild : SortedMap.get name fields' with
      | some child =>
        rw [hchild] at hname
        obtain ⟨u', hu', hparsed⟩ := hname
        cases hu.symm.trans hu'
        refine ih name (hs name hn).1 (Ty.flat_field hflat hn) hsteady' ?_ hparsed
        refine (hfill.enter name).imp fun rest hgiven => ?_
        simpa only [Value.at?, Value.get?, hchild, Option.bind_some] using hgiven
      | none =>
        rw [hchild] at hname
        refine inStep_none (hs name hn).1 (Ty.flat_field hflat hn) (hs name hn).2 hsteady'
          hdrawn' ?_ (hname.symm.trans hu)
        refine (hfill.enter name).imp fun rest hgiven => ?_
        simpa only [Value.at?, Value.get?, hchild, Option.bind_none, Option.isSome_none,
          Bool.false_eq_true, false_or] using hgiven
  | free => exact .inl (congrArg some h.symm)
  | _ => exact inStep_parsed_plain hflat hs hsteady h

-- ---------------------------------------------------------------------------
-- An override
-- ---------------------------------------------------------------------------

theorem parseEnvValue_ne_null (raw : String) : parseEnvValue raw ≠ .null := by
  rcases parseEnvValue_cases raw with ⟨b, h⟩ | ⟨n, h⟩ | h <;> rw [h] <;> exact Value.noConfusion

theorem children_parseEnvValue (names : List String) (raw : String) :
    children names (parseEnvValue raw) = none := by
  rcases parseEnvValue_cases raw with ⟨b, h⟩ | ⟨n, h⟩ | h <;> rw [h] <;> rfl

theorem below_eq_null {child : Option Value} (h : below child path raw = .null) :
    child = some .null := by
  unfold below at h
  split at h
  · exact absurd h (parseEnvValue_ne_null raw)
  · rename_i hp
    obtain ⟨key, rest, rfl⟩ := List.exists_cons_of_ne_nil hp
    rcases (child.getD (.object [])).object_or_leaf with ⟨fields, hobj⟩ | hleaf
    · rw [hobj, setNested_object] at h
      cases h
    · rw [setNested_leaf hleaf] at h
      cases child with
      | none => cases h
      | some v => exact congrArg some h

/-- Below a setting an override is without effect, or takes it out of its type. -/
theorem setNested_plain (h : ty.plain) (hread : read draw ty (setNested v path raw) = some u) :
    setNested v path raw = v := by
  rcases v.object_or_leaf with ⟨fields, rfl⟩ | hv
  · cases path with
    | nil => exact setNested_nil _ raw
    | cons key rest =>
      rw [setNested_object] at hread ⊢
      obtain ⟨key', heq⟩ := read_plain_object h hread
      have hget := SortedMap.get_insert_self key (below (SortedMap.get key fields) rest raw) fields
      rw [heq, SortedMap.get] at hget
      split at hget
      · have hnull := (Option.some.inj hget).symm
        rw [hnull, SortedMap.insert_get (below_eq_null hnull)]
      · cases hget
  · exact setNested_leaf hv path raw

theorem inStep_below_plain (hp : ty.plain) (h : InStep draw ty dflt hole x y)
    (hfill : Filled hole hole' fun hole => hole = path) :
    InStep draw ty dflt hole' (some (below x path raw)) (below (some y) path raw) := by
  obtain ⟨hy, hread⟩ := (inStep_plain hp).mp h
  rw [inStep_plain hp]
  by_cases hnil : path = []
  · subst hnil
    exact ⟨parseEnvValue_leaf raw, .inr fun u hu => hu⟩
  · have hsame : below (some y) path raw = y := by
      rw [below, if_neg hnil, Option.getD_some, setNested_leaf hy]
    rw [hsame]
    have hstep : (∀ u, readField draw ty dflt x = some u → read draw ty y = some u) →
        ∀ u, readField draw ty dflt (some (below x path raw)) = some u →
          read draw ty y = some u := by
      intro hread u hu
      rw [below, if_neg hnil] at hu
      have hkept := setNested_plain hp hu
      cases x with
      | none => exact absurd hkept (setNested_empty hnil raw)
      | some v =>
        rw [Option.getD_some] at hkept
        exact hread u (by rwa [Option.getD_some, hkept] at hu)
    refine ⟨hy, ?_⟩
    rcases hfill with rfl | ⟨rfl, _, rfl, rfl⟩
    · exact hread.imp_right hstep
    · exact .inr (hstep (hread.resolve_left fun heq => hnil (Option.some.inj heq)))

theorem inStep_below (hflat : ty.flat) (h : InStep draw ty dflt hole x y)
    (hopens : ¬ Opens ty x path)
    (hfill : Filled hole hole' fun hole => hole = path) :
    InStep draw ty dflt hole' (some (below x path raw)) (below (some y) path raw) := by
  induction ty generalizing dflt hole hole' x y path with
  | struct names dflt' field ih =>
    cases path with
    | nil =>
      refine ⟨fun v hv _ => ?_, fun fields hfields => ?_⟩
      · cases hv
        exact children_parseEnvValue names raw
      · rcases hfields with hfields | ⟨hfields, -⟩
        · have hleaf := parseEnvValue_leaf raw
          rw [show parseEnvValue raw = .object fields from Option.some.inj hfields] at hleaf
          exact absurd trivial hleaf
        · cases hfields
    | cons key rest =>
      rcases (x.getD (.object [])).object_or_leaf with ⟨fields, hobj⟩ | hleaf
      · obtain ⟨map, rfl, hmap⟩ := h.2 fields (by
          cases x with
          | none => exact .inr ⟨rfl, (Value.object.inj hobj).symm⟩
          | some v => exact .inl (congrArg some hobj))
        have hget : x.bind (Value.get? key) = SortedMap.get key fields := by
          cases x with
          | none => cases hobj; rfl
          | some v => cases hobj; rfl
        have hx : below x (key :: rest) raw =
            .object (SortedMap.insert key (below (SortedMap.get key fields) rest raw) fields) := by
          rw [below, if_neg (List.cons_ne_nil _ _), hobj, setNested_object]
        have hy : below (some (.object map)) (key :: rest) raw =
            .object (SortedMap.insert key (below (SortedMap.get key map) rest raw) map) := by
          rw [below, if_neg (List.cons_ne_nil _ _), Option.getD_some, setNested_object]
        rw [hx, hy]
        refine ⟨fun v hv hleaf => absurd (show v.IsObject by cases hv; trivial) hleaf, ?_⟩
        rintro fields' (hfields' | ⟨hfields', -⟩)
        · cases hfields'
          refine ⟨_, rfl, fun name hn => ?_⟩
          obtain ⟨u, hu, hstep⟩ := hmap name hn
          by_cases hname : name = key
          · subst hname
            rw [SortedMap.get_insert_self, SortedMap.get_insert_self, hu]
            refine ⟨_, rfl, ih name (Ty.flat_field hflat hn) hstep (fun ho => hopens ?_) ?_⟩
            · exact ⟨hn, hget ▸ ho⟩
            · exact (hfill.enter name).imp fun _ heq => (List.cons.inj heq).2
          · rw [SortedMap.get_insert_of_ne hname, SortedMap.get_insert_of_ne hname]
            obtain hsame | ⟨-, _, -, heq⟩ := hfill.enter name
            · exact ⟨u, hu, hsame ▸ hstep⟩
            · exact absurd (List.cons.inj heq).1 hname
        · cases hfields'
      · -- something other than a section keeps the overrides out
        cases x with
        | none => exact absurd trivial hleaf
        | some v =>
          rw [below, if_neg (List.cons_ne_nil _ _), setNested_leaf hleaf, Option.getD_some]
          refine ⟨fun v' hv' => h.1 v' hv', ?_⟩
          rintro fields (hfields | ⟨hfields, -⟩)
          · cases hfields
            exact absurd trivial hleaf
          · cases hfields
  | free =>
    rcases h with rfl | ⟨rfl, -⟩
    · exact .inl rfl
    · cases path with
      | nil => exact .inl rfl
      | cons key rest => exact absurd trivial hopens
  | _ => exact inStep_below_plain hflat h hfill

-- ---------------------------------------------------------------------------
-- A run of overrides
-- ---------------------------------------------------------------------------

theorem Opens.exists_free (h : Opens ty x path) : ∃ q r, path = q ++ r ∧ r ≠ [] ∧
    ty.at? q = some .free ∧ x.bind (fun v => v.at? q) = none := by
  induction path generalizing ty x with
  | nil => cases ty <;> cases x <;> cases h
  | cons name rest ih =>
    cases ty with
    | struct names dflt field =>
      obtain ⟨hn, hrest⟩ := h
      obtain ⟨q, r, rfl, hr, hat, hnone⟩ := ih hrest
      refine ⟨name :: q, r, rfl, hr, Ty.at?_cons_eq_some.mpr ⟨names, dflt, field, rfl, hn, hat⟩, ?_⟩
      rw [← hnone, Option.bind_assoc]
      rfl
    | free =>
      cases x with
      | none => exact ⟨[], name :: rest, rfl, List.cons_ne_nil _ _, rfl, rfl⟩
      | some v => cases h
    | _ => cases h

theorem at?_setNested_isSome {key : String} (h : (v.at? [key]).isSome) (path : List String)
    (raw : String) : ((setNested v path raw).at? [key]).isSome := by
  rcases v.object_or_leaf with ⟨fields, rfl⟩ | hv
  · cases path with
    | nil => rwa [setNested_nil]
    | cons name rest =>
      rw [setNested_object]
      simp only [Value.at?, Value.get?, Option.bind_fun_some, SortedMap.get_insert] at h ⊢
      split
      · rfl
      · exact h
  · rwa [setNested_leaf hv]

theorem leaf_origin (hu : ¬ u.IsObject) {q : List String} (hne : q ≠ path)
    (h : (setNested v q raw).at? path = some u) : v.at? path = some u := by
  induction path generalizing v q with
  | nil =>
    rcases v.object_or_leaf with ⟨fields, rfl⟩ | hv
    · obtain ⟨key, rest, rfl⟩ := List.exists_cons_of_ne_nil hne
      rw [setNested_object] at h
      cases h
      exact absurd trivial hu
    · rwa [setNested_leaf hv] at h
  | cons key rest ih =>
    rcases v.object_or_leaf with ⟨fields, rfl⟩ | hv
    · cases q with
      | nil => rwa [setNested_nil] at h
      | cons key' q =>
        rw [setNested_object] at h
        simp only [Value.at?, Value.get?, SortedMap.get_insert] at h ⊢
        split at h
        · rename_i heq
          subst heq
          rw [Option.bind_some, below] at h
          split at h
          · -- below the new value there is nothing
            rename_i hq
            have hrest : rest ≠ [] := fun hr => hne (by rw [hq, hr])
            obtain ⟨key', rest', rfl⟩ := List.exists_cons_of_ne_nil hrest
            rcases parseEnvValue_cases raw with ⟨b, hb⟩ | ⟨n, hn⟩ | hs
            · rw [hb] at h; cases h
            · rw [hn] at h; cases h
            · rw [hs] at h; cases h
          · have hchild := ih (fun heq => hne (heq ▸ rfl)) h
            cases hget : SortedMap.get key fields with
            | none =>
              rw [hget] at hchild
              cases rest with
              | nil =>
                cases hchild
                exact absurd trivial hu
              | cons => cases hchild
            | some child =>
              rw [hget] at hchild
              exact hchild
        · exact h
    · rwa [setNested_leaf hv] at h

/-- A leaf stays, unless an override is at its place or on the way to it. -/
theorem leaf_kept (hu : ¬ u.IsObject) {q : List String} (hq : ¬ q <+: path)
    (h : v.at? path = some u) : (setNested v q raw).at? path = some u := by
  induction path generalizing v q with
  | nil =>
    cases h
    rw [setNested_leaf hu]
    rfl
  | cons key rest ih =>
    rcases v.object_or_leaf with ⟨fields, rfl⟩ | hv
    · cases q with
      | nil => exact absurd List.nil_prefix hq
      | cons key' q =>
        rw [setNested_object]
        simp only [Value.at?, Value.get?, SortedMap.get_insert] at h ⊢
        split
        · rename_i heq
          subst heq
          obtain ⟨child, hget, hchild⟩ := Option.bind_eq_some_iff.mp h
          have hq' : ¬ q <+: rest := fun hp => hq ((List.prefix_cons_inj key).mpr hp)
          have hnil : q ≠ [] := fun hnil => hq' (hnil ▸ List.nil_prefix)
          rw [Option.bind_some, below, if_neg hnil, hget, Option.getD_some]
          exact ih hq' hchild
        · exact h
    · rwa [setNested_leaf hv]

theorem assign_leaf (hv : ¬ v.IsObject) (l : List (List String × String)) :
    assign setNested v l = v := by
  induction l with
  | nil => rfl
  | cons e l ih =>
    show assign setNested (setNested v e.1 e.2) l = v
    rw [setNested_leaf hv, ih]

theorem setNested_isObject (hv : v.IsObject) (path : List String) (raw : String) :
    (setNested v path raw).IsObject := by
  rcases v.object_or_leaf with ⟨fields, rfl⟩ | hleaf
  · cases path with
    | nil => rwa [setNested_nil]
    | cons key rest =>
      rw [setNested_object]
      trivial
  · exact absurd hv hleaf

theorem assign_isObject (hv : v.IsObject) (l : List (List String × String)) :
    (assign setNested v l).IsObject := by
  induction l generalizing v with
  | nil => exact hv
  | cons e l ih => exact ih (setNested_isObject hv e.1 e.2)

theorem leaf_assign_origin (hu : ¬ u.IsObject) (hl : ∀ e ∈ l, e.1 ≠ path)
    (h : (assign setNested v l).at? path = some u) : v.at? path = some u := by
  induction l generalizing v with
  | nil => exact h
  | cons e l ih =>
    exact leaf_origin hu (hl e List.mem_cons_self)
      (ih (fun e he => hl e (List.mem_cons_of_mem _ he)) h)

theorem leaf_assign_kept (hu : ¬ u.IsObject) (hl : ∀ e ∈ l, ¬ e.1 <+: path)
    (h : v.at? path = some u) : (assign setNested v l).at? path = some u := by
  induction l generalizing v with
  | nil => exact h
  | cons e l ih =>
    exact ih (fun e he => hl e (List.mem_cons_of_mem _ he))
      (leaf_kept hu (hl e List.mem_cons_self) h)

-- ---------------------------------------------------------------------------
-- The end
-- ---------------------------------------------------------------------------

theorem inStep_read (hs : ty.Sound) (hflat : ty.flat) (hfits : dflt.Fits ty)
    (hsteady : ty.steady hole') (h : InStep draw ty dflt none x y)
    (hread : readField draw ty dflt x = some u) : read draw' ty y = some u := by
  induction ty generalizing dflt hole' x y u with
  | struct names dflt' field ih =>
    obtain ⟨child, settings, hchild, hsettings, rfl⟩ :=
      read_struct_eq_some.mp (readField_struct hfits trivial hread)
    rcases (x.getD (.object [])).object_or_leaf with ⟨fields, hobj⟩ | hleaf
    · obtain ⟨map, rfl, hmap⟩ := h.2 fields (by
        cases x with
        | none => exact .inr ⟨rfl, (Value.object.inj hobj).symm⟩
        | some v => exact .inl (congrArg some hobj))
      rw [hobj] at hchild
      cases hchild
      refine read_struct_eq_some.mpr ⟨_, settings, rfl, collect_again hsettings ?_, rfl⟩
      intro name hn v hv
      obtain ⟨y, hy, hstep⟩ := hmap name hn
      rw [hy]
      exact ih name (hs name hn).1 (Ty.flat_field hflat hn) (hs name hn).2
        (Ty.steady_field hsteady hn).2 hstep hv
    · cases x with
      | none => exact absurd trivial hleaf
      | some v =>
        rw [Option.getD_some, h.1 v rfl hleaf] at hchild
        cases hchild
  | free =>
    rcases h with rfl | ⟨rfl, rfl⟩
    · exact hread
    · exact hread
  | _ =>
    have hy := ((inStep_plain hflat).mp h).2.resolve_left (fun heq => nomatch heq) u hread
    rw [← hy]
    exact read_draw (Ty.steady_plain hflat hsteady)

theorem readField_none_draw (hfits : dflt.Fits ty) (hsteady : ty.steady hole)
    (hdrawn : dflt.isDrawn → hole = some []) (hfill : Filled hole none fun _ => draw = draw') :
    readField draw ty dflt none = readField draw' ty dflt none := by
  rcases hfill with rfl | ⟨-, _, -, rfl⟩
  · cases dflt with
    | drawn => cases hdrawn rfl
    | empty => exact read_draw hsteady
    | _ => rfl
  · rfl

theorem parsed_read (hs : ty.Sound) (hflat : ty.flat) (hsteady : ty.steady hole)
    (hfill : Filled hole none fun path => (v.at? path).isSome ∨ draw = draw')
    (h : Parsed draw' ty v w) (hread : read draw ty v = some u) : w = u := by
  induction ty generalizing hole v w u with
  | struct names dflt' field ih =>
    obtain ⟨fields, entry, settings, hv, hsettings, rfl, hentry⟩ := h
    obtain ⟨child, settings', hchild, hsettings', rfl⟩ := read_struct_eq_some.mp hread
    obtain rfl : v = .object fields := by
      rcases hv with rfl | ⟨rfl, -⟩
      · rfl
      · cases hchild
    cases hchild
    have hsame : collect entry names = some settings' := by
      rw [← hsettings']
      refine collect_congr fun name hn => ?_
      obtain ⟨hdrawn', hsteady'⟩ := Ty.steady_field hsteady hn
      have hname := hentry name hn
      obtain ⟨u, hu⟩ := Option.isSome_iff_exists.mp (get_collect hsettings' hn).2
      cases hget : SortedMap.get name fields with
      | some child =>
        rw [hget] at hname
        simp only [hget] at hu
        obtain ⟨w, hw, hparsed⟩ := hname
        have hfill' : Filled (enter hole name) none fun path =>
            (child.at? path).isSome ∨ draw = draw' := by
          refine (hfill.enter name).imp fun rest hgiven => ?_
          simpa only [Value.at?, Value.get?, hget, Option.bind_some] using hgiven
        simp only [hget, hu, hw,
          ih name (hs name hn).1 (Ty.flat_field hflat hn) hsteady' hfill' hparsed hu]
      | none =>
        rw [hget] at hname
        simp only [hget, hname]
        refine (readField_none_draw (hs name hn).2 hsteady' hdrawn' ?_).symm
        refine (hfill.enter name).imp fun rest hgiven => ?_
        simpa only [Value.at?, Value.get?, hget, Option.bind_none, Option.isSome_none,
          Bool.false_eq_true, false_or] using hgiven
    rw [Option.some.inj (hsettings.symm.trans hsame)]
  | free =>
    cases hread
    exact h
  | _ =>
    refine ((parsed_plain hflat).mp h).1 u ?_
    rw [← hread]
    exact read_draw (Ty.steady_plain hflat hsteady)

theorem parsed_at {ty' : Ty} (hs : ty.Sound) (hentry : ty.fieldAt? path = some (dflt, ty'))
    (h : Parsed draw ty v w) (hnone : v.at? path = none) :
    w.at? path = readField draw ty' dflt none := by
  induction path generalizing ty v w with
  | nil => cases ty <;> cases hentry
  | cons key rest ih =>
    obtain ⟨names, dflt', field, rfl, hkey, hrest⟩ := Ty.fieldAt?_cons_eq_some.mp hentry
    obtain ⟨fields, entry, settings, hv, hsettings, rfl, hparsed⟩ := h
    have hget : v.get? key = SortedMap.get key fields := by
      rcases hv with rfl | ⟨rfl, rfl⟩ <;> rfl
    have hname := hparsed key hkey
    rw [Value.at?, hget] at hnone
    rw [Value.at?, Value.get?, (get_collect hsettings hkey).1]
    cases hchild : SortedMap.get key fields with
    | none =>
      rw [hchild] at hname
      split at hrest
      · rename_i hnil
        subst hnil
        cases hrest
        rw [hname]
        exact Option.bind_fun_some _
      · rename_i hnil
        obtain ⟨u, hu⟩ := Option.isSome_iff_exists.mp (get_collect hsettings hkey).2
        obtain ⟨key', rest', rfl⟩ := List.exists_cons_of_ne_nil hnil
        rw [hu, Option.bind_some]
        exact read_at (hs key hkey).1 hrest not_blocked_empty
          (readField_struct (hs key hkey).2 (Ty.isStruct_of_fieldAt? hrest) (hname.symm.trans hu))
    | some child =>
      rw [hchild] at hname hnone
      obtain ⟨u, hu, hparsed⟩ := hname
      split at hrest
      · rename_i hnil
        subst hnil
        cases hnone
      · rw [hu, Option.bind_some]
        exact ih (hs key hkey).1 hrest hparsed hnone

/-- Where the tree can be read, a setting can be reached in both. -/
theorem inStep_at {dflt' : Default} {ty' : Ty} (hs : ty.Sound) (hfits : dflt.Fits ty)
    (hentry : ty.fieldAt? path = some (dflt', ty')) (hplain : ty'.plain)
    (h : InStep draw ty dflt hole x y) (hread : (readField draw ty dflt x).isSome) :
    ¬ Blocked (x.getD (.object [])) path ∧ ∃ u, y.at? path = some u ∧ ¬ u.IsObject := by
  induction path generalizing ty dflt hole x y with
  | nil => cases ty <;> cases hentry
  | cons key rest ih =>
    obtain ⟨names, dflt'', field, rfl, hkey, hrest⟩ := Ty.fieldAt?_cons_eq_some.mp hentry
    obtain ⟨z, hz⟩ := Option.isSome_iff_exists.mp hread
    obtain ⟨child, settings, hchild, hsettings, rfl⟩ :=
      read_struct_eq_some.mp (readField_struct hfits trivial hz)
    rcases (x.getD (.object [])).object_or_leaf with ⟨fields, hobj⟩ | hleaf
    · obtain ⟨map, rfl, hmap⟩ := h.2 fields (by
        cases x with
        | none => exact .inr ⟨rfl, (Value.object.inj hobj).symm⟩
        | some v => exact .inl (congrArg some hobj))
      rw [hobj] at hchild ⊢
      cases hchild
      obtain ⟨u, hu, hstep⟩ := hmap key hkey
      rw [blocked_object, Value.at?, Value.get?, hu, Option.bind_some]
      split at hrest
      · rename_i hnil
        subst hnil
        cases hrest
        refine ⟨?_, u, rfl, ((inStep_plain hplain).mp hstep).1⟩
        rintro ⟨child, -, hb⟩
        exact not_blocked_nil child hb
      · obtain ⟨hclear, hat⟩ := ih (hs key hkey).1 (hs key hkey).2 hrest hstep
          (get_collect hsettings hkey).2
        refine ⟨?_, hat⟩
        rintro ⟨child, hget, hb⟩
        rw [hget] at hclear
        exact hclear hb
    · cases x with
      | none => exact absurd trivial hleaf
      | some v =>
        rw [Option.getD_some, h.1 v rfl hleaf] at hchild
        cases hchild

end Rinfra.Config
