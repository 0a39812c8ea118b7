import Rinfra.Lib.Json
import Rinfra.Lib.Overriding

/-!
# Overrides from the environment

The variables whose names begin with `RINFRA_` are merged into a tree, one after
the other, in the order in which the system lists them. A name is a path, with
`__` between its segments, in lower case: how a letter is lowered is a
parameter, since it takes the Unicode tables.
-/

namespace Rinfra.Config

open Rinfra.Lib Rinfra.Lib.Json

/-- `to_lowercase` on the letters that matter for `true` and `false`: no other
character becomes one of theirs. -/
def asciiLower (text : String) : String := String.ofList (text.toList.map Char.toLower)

/-- `parse_env_value`: a bool, then a `u64`, then a finite `f64`, then a string. -/
def parseEnvValue (raw : String) : Value :=
  if asciiLower raw = "true" then .bool true
  else if asciiLower raw = "false" then .bool false
  else match parseU64 raw.toList with
    | some n => .number (.posInt n)
    | none =>
      match parseF64 raw.toList with
      | some x => .number (.float x)
      | none => .string raw

def setNested (root : Value) (path : List String) (raw : String) : Value :=
  match path with
  | [] => root
  | [key] =>
    match root with
    | .object map => .object (SortedMap.insert key (parseEnvValue raw) map)
    | _ => root
  | key :: rest =>
    match root with
    | .object map =>
      let child := (SortedMap.get key map).getD (.object [])
      .object (SortedMap.insert key (setNested child rest raw) map)
    | _ => root

def splitDunder : List Char → List (List Char)
  | [] => [[]]
  | '_' :: '_' :: rest => [] :: splitDunder rest
  | c :: rest =>
    match splitDunder rest with
    | segment :: segments => (c :: segment) :: segments
    | [] => [[c]]

def envPath (lower : String → String) (name : String) : Option (List String) :=
  let key := "RINFRA_".toList
  if key.isPrefixOf name.toList then
    let stripped := name.toList.drop key.length
    if stripped = [] then none
    else some ((splitDunder stripped).map fun segment => lower (String.ofList segment))
  else none

def overrides (lower : String → String) (vars : List (String × String)) :
    List (List String × String) :=
  vars.filterMap fun (name, raw) => (envPath lower name).map fun path => (path, raw)

/-- The number of overrides and the tree with them. -/
def mergeEnvIntoValue (lower : String → String) (vars : List (String × String)) (value : Value) :
    Nat × Value :=
  ((overrides lower vars).length,
    (overrides lower vars).foldl (fun value e => setNested value e.1 e.2) value)

-- ---------------------------------------------------------------------------
-- Overrides as assignments
-- ---------------------------------------------------------------------------

def below (child : Option Value) (rest : List String) (raw : String) : Value :=
  if rest = [] then parseEnvValue raw else setNested (child.getD (.object [])) rest raw

theorem setNested_object (map : Fields) (key : String) (rest : List String) (raw : String) :
    setNested (.object map) (key :: rest) raw =
      .object (SortedMap.insert key (below (SortedMap.get key map) rest raw) map) := by
  cases rest with
  | nil => rfl
  | cons key' rest => rfl

theorem setNested_leaf {v : Value} (h : ¬ v.IsObject) (path : List String) (raw : String) :
    setNested v path raw = v := by
  cases v with
  | object map => exact absurd trivial h
  | _ =>
    cases path with
    | nil => rfl
    | cons key rest => cases rest <;> rfl

theorem setNested_nil (v : Value) (raw : String) : setNested v [] raw = v := by
  cases v <;> rfl

theorem parseEnvValue_cases (raw : String) : (∃ b, parseEnvValue raw = .bool b) ∨
    (∃ n, parseEnvValue raw = .number n) ∨ parseEnvValue raw = .string raw := by
  unfold parseEnvValue
  split
  · exact .inl ⟨_, rfl⟩
  · split
    · exact .inl ⟨_, rfl⟩
    · split
      · exact .inr (.inl ⟨_, rfl⟩)
      · split
        · exact .inr (.inl ⟨_, rfl⟩)
        · exact .inr (.inr rfl)

theorem parseEnvValue_leaf (raw : String) : ¬ (parseEnvValue raw).IsObject := by
  rcases parseEnvValue_cases raw with ⟨b, h⟩ | ⟨n, h⟩ | h <;> rw [h] <;> exact id

theorem below_below {p q : List String} {a b : String} (hpq : p <+: q)
    (ih : p ≠ [] → ∀ v, setNested (setNested v q b) p a = setNested v p a)
    (child : Option Value) : below (some (below child q b)) p a = below child p a := by
  unfold below
  split
  · rfl
  · rename_i hp
    have hq : q ≠ [] := fun hq => hp (List.prefix_nil.mp (hq ▸ hpq))
    rw [if_neg hq, Option.getD_some, ih hp]

theorem setNested_absorb (v : Value) (p q : List String) (a b : String) (hp : p ≠ [])
    (hpq : p <+: q) : setNested (setNested v q b) p a = setNested v p a := by
  induction p generalizing v q with
  | nil => exact absurd rfl hp
  | cons k p ih =>
    obtain ⟨q, rfl, hshort⟩ := List.cons_prefix_iff.mp hpq
    rcases v.object_or_leaf with ⟨map, rfl⟩ | hv
    · rw [setNested_object, setNested_object, setNested_object, SortedMap.get_insert_self,
        SortedMap.insert_insert, below_below hshort fun hne v => ih v q hne hshort]
    · rw [setNested_leaf hv]

theorem setNested_block (v : Value) (p q : List String) (a b : String) (hp : p ≠ [])
    (hpq : p <+: q) (hne : p ≠ q) : setNested (setNested v p a) q b = setNested v p a := by
  induction p generalizing v q with
  | nil => exact absurd rfl hp
  | cons k p ih =>
    obtain ⟨q, rfl, hshort⟩ := List.cons_prefix_iff.mp hpq
    have hne' : p ≠ q := fun heq => hne (heq ▸ rfl)
    have hq : q ≠ [] := fun hq => hne' ((List.prefix_nil.mp (hq ▸ hshort)).trans hq.symm)
    rcases v.object_or_leaf with ⟨map, rfl⟩ | hv
    · have hbelow : ∀ child, below (some (below child p a)) q b = below child p a := by
        intro child
        simp only [below, if_neg hq, Option.getD_some]
        split
        · exact setNested_leaf (parseEnvValue_leaf a) q b
        · rename_i hp
          exact ih _ q hp hshort hne'
      rw [setNested_object, setNested_object, SortedMap.get_insert_self,
        SortedMap.insert_insert, hbelow]
    · rw [setNested_leaf hv, setNested_leaf hv]

theorem setNested_comm (v : Value) (p q : List String) (a b : String) (hpq : ¬ p <+: q)
    (hqp : ¬ q <+: p) : setNested (setNested v q b) p a = setNested (setNested v p a) q b := by
  induction p generalizing v q with
  | nil => exact absurd (List.nil_prefix) hpq
  | cons k p ih =>
    cases q with
    | nil => exact absurd (List.nil_prefix) hqp
    | cons k' q =>
      rcases v.object_or_leaf with ⟨map, rfl⟩ | hv
      · simp only [setNested_object]
        by_cases hk : k = k'
        · subst hk
          replace hpq : ¬ p <+: q := fun h => hpq ((List.prefix_cons_inj k).mpr h)
          replace hqp : ¬ q <+: p := fun h => hqp ((List.prefix_cons_inj k).mpr h)
          have hp : p ≠ [] := fun hp => hpq (hp ▸ List.nil_prefix)
          have hq : q ≠ [] := fun hq => hqp (hq ▸ List.nil_prefix)
          simp only [SortedMap.get_insert_self, SortedMap.insert_insert, below, if_neg hp,
            if_neg hq, Option.getD_some]
          rw [ih _ q hpq hqp]
        · rw [SortedMap.get_insert_of_ne hk, SortedMap.get_insert_of_ne (Ne.symm hk),
            SortedMap.insert_comm hk]
      · simp only [setNested_leaf hv]

theorem setNested_congr (v : Value) (p : List String) (a b : String)
    (h : parseEnvValue a = parseEnvValue b) : setNested v p a = setNested v p b := by
  induction p generalizing v with
  | nil => rw [setNested_nil, setNested_nil]
  | cons k p ih =>
    rcases v.object_or_leaf with ⟨map, rfl⟩ | hv
    · simp only [setNested_object, below]
      split
      · rw [h]
      · rw [ih]
    · rw [setNested_leaf hv, setNested_leaf hv]

theorem setNested_empty {p : List String} (hp : p ≠ []) (a : String) :
    setNested (.object []) p a ≠ .object [] := by
  obtain ⟨k, p, rfl⟩ := List.exists_cons_of_ne_nil hp
  rw [setNested_object]
  exact fun h => List.cons_ne_nil _ _ (Value.object.inj h)

/-- Below a child that ignores them, assignments do nothing: the child is there. -/
theorem setNested_ignored {map : Fields} {k : String} {p : List String} (hp : p ≠ [])
    (hi : ∀ a, setNested ((SortedMap.get k map).getD (.object [])) p a =
      (SortedMap.get k map).getD (.object [])) (a : String) :
    setNested (.object map) (k :: p) a = .object map := by
  cases hget : SortedMap.get k map with
  | none =>
    rw [hget] at hi
    exact absurd (hi a) (setNested_empty hp a)
  | some w =>
    rw [hget] at hi
    rw [setNested_object, hget, below, if_neg hp, hi a, Option.getD_some,
      SortedMap.insert_get hget]

theorem below_of_eq {map : Fields} {k : String} {p : List String} {a : String} {map' : Fields}
    (h : setNested (.object map) (k :: p) a = .object map') :
    SortedMap.get k map' = some (below (SortedMap.get k map) p a) := by
  rw [setNested_object] at h
  rw [← Value.object.inj h, SortedMap.get_insert_self]

theorem setNested_tells (v : Value) (p : List String) (a b : String) (hp : p ≠ [])
    (h : setNested v p a = setNested v p b) :
    parseEnvValue a = parseEnvValue b ∨ ∀ c, setNested v p c = v := by
  induction p generalizing v with
  | nil => exact absurd rfl hp
  | cons k p ih =>
    rcases v.object_or_leaf with ⟨map, rfl⟩ | hv
    · rw [setNested_object map k p b] at h
      have hbelow := (below_of_eq h).symm
      rw [SortedMap.get_insert_self] at hbelow
      replace hbelow := Option.some.inj hbelow
      unfold below at hbelow
      split at hbelow
      · exact .inl hbelow
      · rename_i hp
        exact (ih _ hp hbelow).imp_right (setNested_ignored hp)
    · exact .inr (setNested_leaf hv _)

theorem parseEnvValue_not_constant : parseEnvValue "true" ≠ parseEnvValue "false" := by
  have htrue : parseEnvValue "true" = .bool true := rfl
  have hfalse : parseEnvValue "false" = .bool false := rfl
  rw [htrue, hfalse]
  exact fun h => Bool.noConfusion (Value.bool.inj h)

theorem setNested_reaches (v : Value) (p q : List String) (b : String) (hp : p ≠ [])
    (hq : q ≠ []) (hshort : ¬ (q <+: p ∧ q ≠ p))
    (hi : ∀ a, setNested (setNested v q b) p a = setNested v q b) (a : String) :
    setNested v p a = v := by
  induction p generalizing v q a with
  | nil => exact absurd rfl hp
  | cons k p ih =>
    obtain ⟨k', q, rfl⟩ := List.exists_cons_of_ne_nil hq
    rcases v.object_or_leaf with ⟨map, rfl⟩ | hv
    · rw [setNested_object map k' q b] at hi
      have hbelow := fun a => below_of_eq (hi a)
      by_cases hk : k = k'
      · subst hk
        simp only [SortedMap.get_insert_self, Option.some.injEq] at hbelow
        by_cases hp : p = []
        · -- the last key takes any value
          simp only [below, if_pos hp] at hbelow
          exact absurd ((hbelow "true").symm.trans (hbelow "false")) parseEnvValue_not_constant
        · have hq : q ≠ [] := fun hq => hshort (by subst hq; simp [Ne.symm hp])
          simp only [below, if_neg hp, if_neg hq, Option.getD_some] at hbelow
          have hshort' : ¬ (q <+: p ∧ q ≠ p) := fun hs =>
            hshort ⟨(List.prefix_cons_inj k).mpr hs.1, fun h => hs.2 (List.cons.inj h).2⟩
          exact setNested_ignored hp (fun c => ih _ q hp hq hshort' (fun a => (hbelow a).symm) c) a
      · simp only [SortedMap.get_insert_of_ne hk] at hbelow
        rw [setNested_object, SortedMap.insert_get (hbelow a)]
    · exact setNested_leaf hv _ _

/-- The overrides as assignments to the places of a tree. -/
theorem setNested_telling : Telling setNested parseEnvValue where
  absorb v p q a b hp hpq := setNested_absorb v p q a b hp hpq
  block v p q a b hp hpq hne := setNested_block v p q a b hp hpq hne
  comm v p q a b hpq hqp := setNested_comm v p q a b hpq hqp
  congr v p a b h := setNested_congr v p a b h
  tells v p a b hp h := setNested_tells v p a b hp h
  reaches v p q b hp hq hs hi a := setNested_reaches v p q b hp hq hs hi a

end Rinfra.Config
