import Mathlib.Data.List.Induction
import Rinfra.Config.Simulation

/-!
# Overrides without effect

When the overrides of a tree leave what is read of it as it was: each of them has
the value that is there, or is kept out by one that has, or goes where nothing
reads.
-/

namespace Rinfra.Config

open Rinfra.Lib Rinfra.Lib.Json Rinfra.Lib.Overriding

variable {ty : Ty} {dflt : Default} {draw draw' : Draw} {x : Option Value} {v w u : Value}
  {l : List (List String × String)} {path : List String} {key name raw : String}

-- ---------------------------------------------------------------------------
-- A tree that stays as it is
-- ---------------------------------------------------------------------------

/-- The last override at each place has the value that is there, or its place cannot be
reached. -/
def Kept (v : Value) (l : List (List String × String)) : Prop :=
  ∀ l₁ e l₂, l = l₁ ++ e :: l₂ → (∀ e' ∈ l₂, e'.1 ≠ e.1) →
    Blocked v e.1 ∨ v.at? e.1 = some (parseEnvValue e.2)

theorem setNested_same (hp : path ≠ []) (h : v.at? path = some (parseEnvValue raw)) :
    setNested v path raw = v := by
  induction path generalizing v with
  | nil => exact absurd rfl hp
  | cons key rest ih =>
    rcases v.object_or_leaf with ⟨fields, rfl⟩ | hv
    · obtain ⟨child, hchild', hchild⟩ := Option.bind_eq_some_iff.mp h
      have hget : SortedMap.get key fields = some child := hchild'
      rw [setNested_object, hget, below]
      split
      · rename_i hnil
        subst hnil
        cases hchild
        rw [SortedMap.insert_get hget]
      · rename_i hnil
        rw [Option.getD_some, ih hnil hchild, SortedMap.insert_get hget]
    · exact setNested_leaf hv _ raw

theorem at?_setNested_self (hp : path ≠ []) (hv : ¬ Blocked v path) :
    (setNested v path raw).at? path = some (parseEnvValue raw) := by
  induction path generalizing v with
  | nil => exact absurd rfl hp
  | cons key rest ih =>
    rcases v.object_or_leaf with ⟨fields, rfl⟩ | hleaf
    · rw [setNested_object, Value.at?, Value.get?, SortedMap.get_insert_self, Option.bind_some,
        below]
      split
      · rename_i hnil
        subst hnil
        rfl
      · rename_i hnil
        refine ih hnil ?_
        cases hget : SortedMap.get key fields with
        | none => exact not_blocked_empty
        | some child => exact fun hb => hv ((blocked_object _ _ _).mpr ⟨child, hget, hb⟩)
    · exact absurd (blocked_leaf hleaf key rest) hv

theorem assign_eq_iff_kept (hl : ∀ e ∈ l, e.1 ≠ []) : assign setNested v l = v ↔ Kept v l := by
  constructor
  · rintro h l₁ e l₂ rfl hlast
    have he : e.1 ≠ [] := hl e (by simp)
    by_cases hblocked : Blocked v e.1
    · exact .inl hblocked
    · -- no other override keeps it out, so its value is there in the end
      have hclear : ¬ Ignores setNested v e.1 := fun hi => hblocked ((ignores_iff_blocked he).mp hi)
      have hshadow : ¬ Shadowed (l₁ ++ e :: l₂) e.1 := fun hs =>
        hclear (h ▸ setNested_telling.ignores_of_shadowed he hl hs)
      have hbefore : ¬ Ignores setNested (assign setNested v l₁) e.1 :=
        setNested_telling.reaches_assign he (fun e' he' => hl e' (by simp [he']))
          (fun ⟨e', he', hs⟩ => hshadow ⟨e', by simp [he'], hs⟩) hclear
      have hput : (setNested (assign setNested v l₁) e.1 e.2).at? e.1 =
          some (parseEnvValue e.2) :=
        at?_setNested_self he fun hb => hbefore ((ignores_iff_blocked he).mpr hb)
      have hend := leaf_assign_kept (parseEnvValue_leaf e.2)
        (fun e' he' hs => hshadow ⟨e', by simp [he'], hs, hlast e' he'⟩) hput
      rw [assign_append] at h
      rw [show assign setNested (setNested (assign setNested v l₁) e.1 e.2) l₂ = v from h] at hend
      exact .inr hend
  · intro hkept
    induction l with
    | nil => rfl
    | cons e l ih =>
      have hrest : assign setNested v l = v :=
        ih (fun e he => hl e (List.mem_cons_of_mem _ he)) fun l₁ e' l₂ heq hlast =>
          hkept (e :: l₁) e' l₂ (by rw [heq]; rfl) hlast
      by_cases hlater : ∃ e' ∈ l, e'.1 = e.1
      · exact (setNested_telling.assign_put (hl e List.mem_cons_self)
          (fun e he => hl e (List.mem_cons_of_mem _ he)) hlater e.2).trans hrest
      · have hsame : setNested v e.1 e.2 = v := by
          rcases hkept [] e l rfl (fun e' he' heq => hlater ⟨e', he', heq⟩) with hb | hat
          · exact (ignores_iff_blocked (hl e List.mem_cons_self)).mpr hb e.2
          · exact setNested_same (hl e List.mem_cons_self) hat
        show assign setNested (setNested v e.1 e.2) l = v
        rw [hsame, hrest]

-- ---------------------------------------------------------------------------
-- What the overrides make of a child
-- ---------------------------------------------------------------------------

/-- One override after the other, where the child may not be there at first. -/
def mergeChild (x : Option Value) (l : List (List String × String)) : Option Value :=
  l.foldl (fun x e => some (below x e.1 e.2)) x

def under (key : String) (l : List (List String × String)) : List (List String × String) :=
  l.filterMap fun e => match e.1 with
    | name :: rest => if name = key then some (rest, e.2) else none
    | [] => none

def lastHere : List (List String × String) → Option String
  | [] => none
  | e :: l => (lastHere l).or (if e.1 = [] then some e.2 else none)

theorem lastHere_eq_none : lastHere l = none ↔ ∀ e ∈ l, e.1 ≠ [] := by
  induction l with
  | nil => simp [lastHere]
  | cons e l ih => simp [lastHere, ih, and_comm]

theorem mergeChild_some (hl : ∀ e ∈ l, e.1 ≠ []) (v : Value) :
    mergeChild (some v) l = some (assign setNested v l) := by
  induction l generalizing v with
  | nil => rfl
  | cons e l ih =>
    have he : below (some v) e.1 e.2 = setNested v e.1 e.2 := by
      rw [below, if_neg (hl e List.mem_cons_self), Option.getD_some]
    show mergeChild (some (below (some v) e.1 e.2)) l = _
    rw [he, ih (fun e he => hl e (List.mem_cons_of_mem _ he))]
    rfl

theorem mergeChild_none {e : List String × String} (hl : ∀ e' ∈ e :: l, e'.1 ≠ []) :
    mergeChild none (e :: l) = some (assign setNested (.object []) (e :: l)) := by
  have he : below none e.1 e.2 = setNested (.object []) e.1 e.2 := by
    rw [below, if_neg (hl e List.mem_cons_self), Option.getD_none]
  show mergeChild (some (below none e.1 e.2)) l = _
  rw [he, mergeChild_some fun e he => hl e (List.mem_cons_of_mem _ he)]
  rfl

theorem mergeChild_getD (hl : ∀ e ∈ l, e.1 ≠ []) (x : Option Value) :
    (mergeChild x l).getD (.object []) = assign setNested (x.getD (.object [])) l := by
  cases x with
  | some v => rw [mergeChild_some hl, Option.getD_some, Option.getD_some]
  | none =>
    cases l with
    | nil => rfl
    | cons e l => rw [mergeChild_none hl, Option.getD_some, Option.getD_none]

theorem mergeChild_here (h : lastHere l = some raw) (x : Option Value) :
    mergeChild x l = some (parseEnvValue raw) := by
  induction l generalizing x with
  | nil => cases h
  | cons e l ih =>
    rw [lastHere] at h
    cases hlast : lastHere l with
    | some raw' =>
      rw [hlast] at h
      cases h
      exact ih hlast _
    | none =>
      rw [hlast, Option.none_or] at h
      obtain ⟨hnil, hraw⟩ := Option.ite_none_right_eq_some.mp h
      cases hraw
      show mergeChild (some (below x e.1 e.2)) l = _
      rw [below, if_pos hnil, mergeChild_some (lastHere_eq_none.mp hlast),
        assign_leaf (parseEnvValue_leaf e.2)]

theorem get_assign (hl : ∀ e ∈ l, e.1 ≠ []) (fields : Fields) : ∃ fields',
    assign setNested (.object fields) l = .object fields' ∧
      ∀ key, SortedMap.get key fields' = mergeChild (SortedMap.get key fields) (under key l) := by
  induction l generalizing fields with
  | nil => exact ⟨fields, rfl, fun key => rfl⟩
  | cons e l ih =>
    obtain ⟨name, rest, hname⟩ := List.exists_cons_of_ne_nil (hl e List.mem_cons_self)
    obtain ⟨fields', hassign, hget⟩ := ih (fun e he => hl e (List.mem_cons_of_mem _ he))
      (SortedMap.insert name (below (SortedMap.get name fields) rest e.2) fields)
    refine ⟨fields', ?_, fun key => ?_⟩
    · show assign setNested (setNested (.object fields) e.1 e.2) l = _
      rw [hname, setNested_object, hassign]
    · rw [hget, SortedMap.get_insert]
      by_cases hkey : key = name
      · subst hkey
        have hunder : under key (e :: l) = (rest, e.2) :: under key l := by
          simp [under, hname]
        rw [if_pos rfl, hunder]
        rfl
      · have hunder : under key (e :: l) = under key l := by
          simp [under, hname, Ne.symm hkey]
        rw [if_neg hkey, hunder]

-- ---------------------------------------------------------------------------
-- What is read stays as it is
-- ---------------------------------------------------------------------------

/-- The overrides of a part leave what is read of it as it was: none is at a section; the
last one at a setting has its value; and others go to settings or parts of the free part
that keep them out. -/
def Idle (draw : Draw) :
    Ty → Default → Option Value → List (List String × String) → Value → Prop
  | .struct names dflt field, _, x, l, w =>
      (∀ e ∈ l, e.1 ≠ []) ∧ (∀ v, x = some v → v.IsObject) ∧
      ∀ name ∈ names, ∃ u, w.get? name = some u ∧
        Idle draw (field name) (dflt name) (x.bind (Value.get? name)) (under name l) u
  | .free, _, x, l, w =>
    match lastHere l, x with
    | some raw, _ => parseEnvValue raw = w
    | none, some v => Kept v l
    | none, none => l = []
  | ty, dflt, x, l, w =>
    match lastHere l with
    | some raw => read draw ty (parseEnvValue raw) = some w
    | none => readField draw ty dflt x = some w ∧ ∀ e ∈ l, ∃ v, x = some v ∧ Blocked v e.1

/-- What a part is parsed to, or has by default. -/
def Given (draw : Draw) (ty : Ty) (dflt : Default) (w : Value) : Option Value → Prop
  | some v => Parsed draw ty v w
  | none => readField draw ty dflt none = some w

theorem idle_plain (h : ty.plain) : Idle draw ty dflt x l w ↔ match lastHere l with
    | some raw => read draw ty (parseEnvValue raw) = some w
    | none => readField draw ty dflt x = some w ∧ ∀ e ∈ l, ∃ v, x = some v ∧ Blocked v e.1 := by
  cases ty with
  | struct => cases h
  | free => cases h
  | _ => exact Iff.rfl

theorem collect_self {entry : String → Option Value} {names : List String} {fields : Fields}
    (h : collect entry names = some fields) :
    collect (fun name => SortedMap.get name fields) names = some fields :=
  collect_again h fun _ hn _ hv => (get_collect h hn).1.trans hv

theorem Given.fields {names : List String} {dflt' : String → Default} {field : String → Ty}
    (h : Given draw' (.struct names dflt' field) .empty w x) : ∃ fields settings,
      (x = some .null ∨ x.getD (.object []) = .object fields) ∧ w = .object settings ∧
      collect (fun name => SortedMap.get name settings) names = some settings ∧
      ∀ name ∈ names, ∃ u, SortedMap.get name settings = some u ∧
        (x ≠ some .null → x.bind (Value.get? name) = SortedMap.get name fields) ∧
        Given draw' (field name) (dflt' name) u (x.bind (Value.get? name)) := by
  cases x with
  | none =>
    obtain ⟨_, settings, ⟨⟩, hsettings, rfl⟩ := read_struct_eq_some.mp h
    refine ⟨[], settings, .inr rfl, rfl, collect_self hsettings, fun name hn => ?_⟩
    obtain ⟨hget, hsome⟩ := get_collect hsettings hn
    obtain ⟨u, hu⟩ := Option.isSome_iff_exists.mp hsome
    exact ⟨u, hget.trans hu, fun _ => rfl, hu⟩
  | some v =>
    obtain ⟨fields, entry, settings, hv, hsettings, rfl, hentry⟩ := h
    refine ⟨fields, settings, ?_, rfl, collect_self hsettings, fun name hn => ?_⟩
    · rcases hv with rfl | ⟨rfl, -⟩
      · exact .inr rfl
      · exact .inl rfl
    · obtain ⟨hget, hsome⟩ := get_collect hsettings hn
      obtain ⟨u, hu⟩ := Option.isSome_iff_exists.mp hsome
      have hchild : (some v).bind (Value.get? name) = SortedMap.get name fields := by
        rcases hv with rfl | ⟨rfl, rfl⟩ <;> rfl
      refine ⟨u, hget.trans hu, fun _ => hchild, ?_⟩
      rw [hchild]
      have hname := hentry name hn
      cases hc : SortedMap.get name fields with
      | some child =>
        rw [hc] at hname
        obtain ⟨u', hu', hparsed⟩ := hname
        cases hu.symm.trans hu'
        exact hparsed
      | none =>
        rw [hc] at hname
        exact hname.symm.trans hu

theorem blocked_of_same (h : ty.plain) (hread : read draw ty v = some u) (hp : path ≠ [])
    (hsame : setNested v path raw = v) : Blocked v path := by
  obtain ⟨key, rest, rfl⟩ := List.exists_cons_of_ne_nil hp
  rcases v.object_or_leaf with ⟨fields, rfl⟩ | hv
  · -- a variant that is written as an object has a null below it
    obtain ⟨name, rfl⟩ := read_plain_object h hread
    have hget := below_of_eq hsame
    rw [SortedMap.get] at hget
    split at hget
    · rename_i hkey
      subst hkey
      have hrest : rest ≠ [] := by
        rintro rfl
        exact parseEnvValue_ne_null raw (Option.some.inj hget).symm
      obtain ⟨key', rest', rfl⟩ := List.exists_cons_of_ne_nil hrest
      exact (blocked_object _ _ _).mpr ⟨.null, if_pos rfl, blocked_leaf id key' rest'⟩
    · cases hget
  · exact blocked_leaf hv key rest

theorem assign_plain (h : ty.plain) (hl : ∀ e ∈ l, e.1 ≠ [])
    (hread : read draw ty (assign setNested v l) = some u) :
    assign setNested v l = v ∧ ∀ e ∈ l, Blocked v e.1 := by
  induction l using List.reverseRecOn with
  | nil => exact ⟨rfl, fun e he => absurd he List.not_mem_nil⟩
  | append_singleton l e ih =>
    have hlast : assign setNested v (l ++ [e]) = setNested (assign setNested v l) e.1 e.2 :=
      assign_append
    rw [hlast] at hread
    have hsame := setNested_plain h hread
    rw [hsame] at hread
    obtain ⟨hv, hblocked⟩ := ih (fun e he => hl e (List.mem_append_left _ he)) hread
    rw [hv] at hsame hread
    refine ⟨by rw [hlast, hv, hsame], fun e' he' => ?_⟩
    rcases List.mem_append.mp he' with he' | he'
    · exact hblocked e' he'
    · cases List.mem_singleton.mp he'
      exact blocked_of_same h hread (hl e (by simp)) hsame

theorem idle_plain_iff (hp : ty.plain) :
    readField draw ty dflt (mergeChild x l) = some w ↔ Idle draw ty dflt x l w := by
  rw [idle_plain hp]
  cases hlast : lastHere l with
  | some raw => rw [mergeChild_here hlast, readField]
  | none =>
    have hl := lastHere_eq_none.mp hlast
    cases x with
    | some v =>
      rw [mergeChild_some hl]
      constructor
      · intro hread
        obtain ⟨hv, hblocked⟩ := assign_plain hp hl hread
        rw [hv] at hread
        exact ⟨hread, fun e he => ⟨v, rfl, hblocked e he⟩⟩
      · rintro ⟨hread, hblocked⟩
        rw [(assign_eq_iff_kept hl).mpr]
        · exact hread
        · rintro l₁ e l₂ rfl -
          obtain ⟨v', hv', hb⟩ := hblocked e (by simp)
          cases hv'
          exact .inl hb
    | none =>
      cases l with
      | nil => exact ⟨fun hread => ⟨hread, fun e he => absurd he List.not_mem_nil⟩, fun h => h.1⟩
      | cons e l =>
        constructor
        · intro hread
          rw [mergeChild_none hl] at hread
          exact absurd ((assign_plain hp hl hread).2 e List.mem_cons_self) not_blocked_empty
        · rintro ⟨-, hblocked⟩
          obtain ⟨v, hv, -⟩ := hblocked e List.mem_cons_self
          cases hv

theorem idle_free_iff (hgiven : Given draw' .free (.value .null) w x) :
    readField draw .free (.value .null) (mergeChild x l) = some w ↔
      Idle draw .free (.value .null) x l w := by
  unfold Idle
  cases hlast : lastHere l with
  | some raw =>
    rw [mergeChild_here hlast]
    exact Option.some_inj
  | none =>
    have hl := lastHere_eq_none.mp hlast
    cases x with
    | some v =>
      rw [mergeChild_some hl, show w = v from hgiven]
      exact Option.some_inj.trans (assign_eq_iff_kept hl)
    | none =>
      cases hgiven
      cases l with
      | nil => exact ⟨fun _ => rfl, fun _ => rfl⟩
      | cons e l =>
        refine ⟨fun hread => ?_, fun h => nomatch h⟩
        rw [mergeChild_none hl] at hread
        have hobj : (assign setNested (.object []) (e :: l)).IsObject :=
          assign_isObject (v := .object []) trivial _
        rw [Option.some.inj hread] at hobj
        cases hobj

/-- What is read with the overrides is what was there exactly when they are idle. -/
theorem idle_iff (hs : ty.Sound) (hflat : ty.flat) (hfits : dflt.Fits ty)
    (hnull : ty = .free → dflt = .value .null) (hgiven : Given draw' ty dflt w x) :
    readField draw ty dflt (mergeChild x l) = some w ↔ Idle draw ty dflt x l w := by
  induction ty generalizing dflt x l w with
  | struct names dflt' field ih =>
    rw [hfits.eq_empty trivial] at hgiven ⊢
    obtain ⟨fields, settings, hx, rfl, hself, hentry⟩ := hgiven.fields
    rw [readField_empty]
    constructor
    · intro hread
      have hl : ∀ e ∈ l, e.1 ≠ [] := by
        refine lastHere_eq_none.mp (Option.eq_none_iff_forall_ne_some.mpr fun raw hraw => ?_)
        rw [mergeChild_here hraw, Option.getD_some] at hread
        obtain ⟨child, -, hchild, -⟩ := read_struct_eq_some.mp hread
        rw [children_parseEnvValue] at hchild
        cases hchild
      rw [mergeChild_getD hl] at hread
      have hnull : x ≠ some .null := by
        rintro rfl
        rw [Option.getD_some, assign_leaf id] at hread
        cases hread
      have hobj := hx.resolve_left hnull
      obtain ⟨fields', hassign, hget⟩ := get_assign hl fields
      rw [hobj, hassign] at hread
      obtain ⟨_, _, ⟨⟩, hsettings, ⟨⟩⟩ := read_struct_eq_some.mp hread
      refine ⟨hl, fun v hv => ?_, fun name hn => ?_⟩
      · subst hv
        rw [show v = .object fields from hobj]
        trivial
      · obtain ⟨u, hu, hchild, hgiven⟩ := hentry name hn
        refine ⟨u, hu, (ih name (hs name hn).1 (Ty.flat_field hflat hn) (hs name hn).2
          (Ty.flat_null hflat hn) hgiven).mp ?_⟩
        rw [hchild hnull, ← hget name, ← hu, (get_collect hsettings hn).1]
    · rintro ⟨hl, hsection, hidle⟩
      have hnull : x ≠ some .null := fun heq => hsection .null heq
      have hobj := hx.resolve_left hnull
      obtain ⟨fields', hassign, hget⟩ := get_assign hl fields
      rw [mergeChild_getD hl, hobj, hassign]
      refine read_struct_eq_some.mpr ⟨_, settings, rfl, collect_again hself ?_, rfl⟩
      intro name hn v hv
      obtain ⟨u, hu, hchild, hgiven⟩ := hentry name hn
      obtain ⟨u', hu', hidle⟩ := hidle name hn
      cases hu.symm.trans hv
      cases hu'.symm.trans hu
      rw [hget name, ← hchild hnull]
      exact (ih name (hs name hn).1 (Ty.flat_field hflat hn) (hs name hn).2
        (Ty.flat_null hflat hn) hgiven).mpr hidle
  | free =>
    rw [hnull rfl] at hgiven ⊢
    exact idle_free_iff hgiven
  | _ => exact idle_plain_iff hflat

end Rinfra.Config
