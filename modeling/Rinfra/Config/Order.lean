import Rinfra.Config.Env

/-!
# The order of the overrides

The system lists the variables of an environment in no particular order. The
tree depends on it only where two variables name one path, such as two names
that differ in their case, and where both can take effect there.
-/

namespace Rinfra.Config

open Rinfra.Lib Rinfra.Lib.Json Rinfra.Lib.Overriding

variable {lower : String → String} {vars vars' : List (String × String)} {value : Value}
  {path : List String}

theorem splitDunder_ne_nil (text : List Char) : splitDunder text ≠ [] := by
  fun_induction splitDunder text <;> simp

theorem envPath_ne_nil {name : String} (h : envPath lower name = some path) : path ≠ [] := by
  simp only [envPath] at h
  split at h
  · split at h
    · cases h
    · rw [← Option.some.inj h]
      simpa using splitDunder_ne_nil _
  · cases h

theorem overrides_ne_nil : ∀ e ∈ overrides lower vars, e.1 ≠ [] := by
  intro e he
  simp only [overrides, List.mem_filterMap, Option.map_eq_some_iff] at he
  obtain ⟨x, -, path, hpath, rfl⟩ := he
  exact envPath_ne_nil hpath

theorem merge_eq_assign (lower : String → String) (vars : List (String × String))
    (value : Value) :
    (mergeEnvIntoValue lower vars value).2 = assign setNested value (overrides lower vars) := rfl

-- ---------------------------------------------------------------------------
-- Paths that cannot be reached
-- ---------------------------------------------------------------------------

/-- An override is without effect exactly where its path is blocked. -/
theorem ignores_iff_blocked (hp : path ≠ []) :
    Ignores setNested value path ↔ Blocked value path := by
  induction path generalizing value with
  | nil => exact absurd rfl hp
  | cons key rest ih =>
    rcases value.object_or_leaf with ⟨map, rfl⟩ | hv
    · rw [blocked_object]
      by_cases hrest : rest = []
      · subst hrest
        refine ⟨fun hi => ?_, fun ⟨child, _, hblocked⟩ => absurd hblocked (not_blocked_nil child)⟩
        have htrue := below_of_eq (hi "true")
        have hfalse := below_of_eq (hi "false")
        exact absurd (Option.some.inj (htrue.symm.trans hfalse)) parseEnvValue_not_constant
      · constructor
        · intro hi
          have hbelow := fun a => below_of_eq (hi a)
          simp only [below, if_neg hrest] at hbelow
          cases hget : SortedMap.get key map with
          | none =>
            rw [hget] at hbelow
            cases hbelow ""
          | some child =>
            rw [hget] at hbelow
            refine ⟨child, rfl, (ih hrest).mp fun a => ?_⟩
            exact (Option.some.inj (hbelow a)).symm
        · rintro ⟨child, hget, hblocked⟩ a
          refine setNested_ignored hrest (fun a => ?_) a
          rw [hget]
          exact (ih hrest).mpr hblocked a
    · exact ⟨fun _ => blocked_leaf hv key rest, fun _ => setNested_leaf hv _⟩

-- ---------------------------------------------------------------------------
-- Orders
-- ---------------------------------------------------------------------------

theorem exists_perm_filterMap {α β : Type} {f : α → Option β} {l₁ l₂ : List β}
    (hp : l₁.Perm l₂) {vars : List α} (h : vars.filterMap f = l₂) :
    ∃ vars' : List α, vars'.Perm vars ∧ vars'.filterMap f = l₁ := by
  induction hp generalizing vars with
  | nil => exact ⟨vars, .refl _, h⟩
  | cons x _ ih =>
    obtain ⟨pre, v, post, rfl, hpre, hv, hpost⟩ := List.filterMap_eq_cons_iff.mp h
    obtain ⟨post', hperm, hpost'⟩ := ih hpost
    refine ⟨pre ++ v :: post', (hperm.cons v).append_left pre, ?_⟩
    rw [List.filterMap_append, List.filterMap_eq_nil_iff.mpr hpre, List.filterMap_cons_some hv,
      hpost', List.nil_append]
  | swap x y l =>
    obtain ⟨pre, v, rest, rfl, hpre, hv, hrest⟩ := List.filterMap_eq_cons_iff.mp h
    obtain ⟨mid, w, post, rfl, hmid, hw, hpost⟩ := List.filterMap_eq_cons_iff.mp hrest
    refine ⟨pre ++ w :: v :: (mid ++ post), ?_, ?_⟩
    · exact (((List.Perm.swap v w _).trans (List.perm_middle.symm.cons v))).append_left pre
    · rw [List.filterMap_append, List.filterMap_eq_nil_iff.mpr hpre, List.filterMap_cons_some hw,
        List.filterMap_cons_some hv, List.filterMap_append, List.filterMap_eq_nil_iff.mpr hmid,
        hpost, List.nil_append, List.nil_append]
  | trans _ _ ih₁ ih₂ =>
    obtain ⟨mid, hmid, hf⟩ := ih₂ h
    obtain ⟨vars', hvars', hf'⟩ := ih₁ hf
    exact ⟨vars', hvars'.trans hmid, hf'⟩

/-- Variables of one path have values of one meaning, unless the path is blocked or
another variable is at a shorter path on the way to it. -/
def Agreeing (lower : String → String) (vars : List (String × String)) (value : Value) : Prop :=
  ∀ x ∈ overrides lower vars, ∀ y ∈ overrides lower vars, x.1 = y.1 →
    parseEnvValue x.2 = parseEnvValue y.2 ∨ Blocked value x.1 ∨
      ∃ z ∈ overrides lower vars, z.1 <+: x.1 ∧ z.1 ≠ x.1

theorem agreeing_iff_agree :
    Agreeing lower vars value ↔ Agree setNested parseEnvValue value (overrides lower vars) := by
  refine forall₂_congr fun x hx => forall₂_congr fun y hy => imp_congr_right fun _ => ?_
  rw [ignores_iff_blocked (overrides_ne_nil x hx), or_comm (a := Blocked _ _)]
  rfl

/-- The tree is the same for every order in which the variables are listed exactly when
they agree. -/
theorem merge_order_independent_iff (lower : String → String) (vars : List (String × String))
    (value : Value) :
    (∀ vars', vars'.Perm vars →
      (mergeEnvIntoValue lower vars' value).2 = (mergeEnvIntoValue lower vars value).2) ↔
    Agreeing lower vars value := by
  rw [agreeing_iff_agree, ← setNested_telling.order_independent_iff overrides_ne_nil]
  constructor
  · intro hvars l' hl'
    obtain ⟨vars', hperm, rfl⟩ := exists_perm_filterMap hl' rfl
    exact hvars vars' hperm
  · intro hl vars' hperm
    exact hl _ (hperm.filterMap _)

/-- Two names that differ in their case, in either order. -/
theorem merge_depends_on_order :
    ¬ ∀ vars', vars'.Perm [("RINFRA_A", "1"), ("RINFRA_a", "2")] →
      (mergeEnvIntoValue asciiLower vars' (.object [])).2 =
        (mergeEnvIntoValue asciiLower [("RINFRA_A", "1"), ("RINFRA_a", "2")] (.object [])).2 := by
  intro h
  have hboth := h [("RINFRA_a", "2"), ("RINFRA_A", "1")] (.swap _ _ _)
  have hone : (mergeEnvIntoValue asciiLower [("RINFRA_a", "2"), ("RINFRA_A", "1")]
      (.object [])).2 = .object [("a", .number (.posInt 1))] := rfl
  have htwo : (mergeEnvIntoValue asciiLower [("RINFRA_A", "1"), ("RINFRA_a", "2")]
      (.object [])).2 = .object [("a", .number (.posInt 2))] := rfl
  rw [hone, htwo] at hboth
  simp at hboth

end Rinfra.Config
