import Mathlib.Logic.Function.Basic
import Mathlib.Order.Lattice
import Std.Data.ExtTreeMap.Lemmas

/-!
# Leases

A table of leases gives each key a holder's token and the instant the lease
ends. A lease is in force strictly before that instant; afterwards the entry
may still be there, but nobody holds the key.

The three operations are the ones of a lock with a time to live. Their results
depend only on the leases in force (`SameLeases`), so two tables that store
expired entries differently cannot be told apart, and they commute with an
injective renaming of the tokens.
-/

namespace Rinfra.Lib

def Leases (κ τ ι : Type) := κ → Option (τ × ι)

namespace Leases

section
variable {κ τ ι : Type} [LinearOrder ι]

def empty : Leases κ τ ι := fun _ => none

/-- The token `k` is leased to at `now`. -/
def holder (l : Leases κ τ ι) (now : ι) (k : κ) : Option τ :=
  (l k).bind fun e => if now < e.2 then some e.1 else none

theorem holder_eq_some {l : Leases κ τ ι} :
    l.holder now k = some tok ↔ ∃ until_, l k = some (tok, until_) ∧ now < until_ := by
  simp only [holder, Option.bind_eq_some_iff, Option.ite_none_right_eq_some, Option.some.injEq,
    Prod.exists]
  constructor
  · rintro ⟨t, u, h, hlt, rfl⟩
    exact ⟨u, h, hlt⟩
  · rintro ⟨u, h, hlt⟩
    exact ⟨tok, u, h, hlt, rfl⟩

theorem holder_eq_none {l : Leases κ τ ι} :
    l.holder now k = none ↔ ∀ e, l k = some e → e.2 ≤ now := by
  simp [holder, Option.bind_eq_none_iff]

theorem holder_unique {l : Leases κ τ ι} (h : l.holder now k = some a)
    (h' : l.holder now k = some b) : a = b := Option.some.inj (h.symm.trans h')

-- ---------------------------------------------------------------------------
-- Tables that cannot be told apart
-- ---------------------------------------------------------------------------

/-- The two tables have the same leases in force from `now` on. -/
def SameLeases (now : ι) (l l' : Leases κ τ ι) : Prop :=
  ∀ k tok until_, now < until_ → (l k = some (tok, until_) ↔ l' k = some (tok, until_))

variable {l l' : Leases κ τ ι}

theorem SameLeases.refl (now : ι) (l : Leases κ τ ι) : SameLeases now l l := fun _ _ _ _ => Iff.rfl

theorem SameLeases.trans {l'' : Leases κ τ ι} (h : SameLeases now l l')
    (h' : SameLeases now l' l'') : SameLeases now l l'' :=
  fun k tok u hu => (h k tok u hu).trans (h' k tok u hu)

theorem SameLeases.mono (h : SameLeases now l l') (hle : now ≤ later) : SameLeases later l l' :=
  fun k tok u hu => h k tok u (lt_of_le_of_lt hle hu)

theorem SameLeases.holder (h : SameLeases now l l') (k : κ) : l.holder now k = l'.holder now k := by
  apply Option.ext
  intro tok
  rw [holder_eq_some, holder_eq_some]
  constructor
  · rintro ⟨u, hk, hlt⟩
    exact ⟨u, (h k tok u hlt).mp hk, hlt⟩
  · rintro ⟨u, hk, hlt⟩
    exact ⟨u, (h k tok u hlt).mpr hk, hlt⟩

end

-- ---------------------------------------------------------------------------
-- Operations
-- ---------------------------------------------------------------------------

section
variable {κ τ ι : Type} [DecidableEq κ]

def set (l : Leases κ τ ι) (k : κ) (e : Option (τ × ι)) : Leases κ τ ι := Function.update l k e

@[simp] theorem set_self {l : Leases κ τ ι} : l.set k e k = e := by
  unfold set
  exact Function.update_self k e l

@[simp] theorem set_of_ne {l : Leases κ τ ι} (h : k' ≠ k) : l.set k e k' = l k' := by
  unfold set
  exact Function.update_of_ne h e l

variable [LinearOrder ι]

def grant (l : Leases κ τ ι) (now : ι) (k : κ) (tok : τ) (until_ : ι) : Bool × Leases κ τ ι :=
  if l.holder now k = none then (true, l.set k (some (tok, until_))) else (false, l)

variable [DecidableEq τ]

def release (l : Leases κ τ ι) (now : ι) (k : κ) (tok : τ) : Bool × Leases κ τ ι :=
  if l.holder now k = some tok then (true, l.set k none) else (false, l)

def extend (l : Leases κ τ ι) (now : ι) (k : κ) (tok : τ) (until_ : ι) : Bool × Leases κ τ ι :=
  if l.holder now k = some tok then (true, l.set k (some (tok, until_))) else (false, l)

variable {l l' : Leases κ τ ι}

omit [DecidableEq τ] in
theorem SameLeases.set (h : SameLeases now l l') (k : κ) (e : Option (τ × ι)) :
    SameLeases now (l.set k e) (l'.set k e) := by
  intro k' tok u hu
  by_cases hk : k' = k
  · subst hk
    simp
  · simpa [hk] using h k' tok u hu

omit [DecidableEq τ] in
theorem SameLeases.drop (h : l.holder now k = none) : SameLeases now (l.set k none) l := by
  intro k' tok u hu
  by_cases hk : k' = k
  · subst hk
    simp only [set_self, reduceCtorEq, false_iff]
    intro hl
    exact absurd (holder_eq_none.mp h _ hl) (not_le.mpr hu)
  · simp [hk]

omit [DecidableEq τ] in
theorem SameLeases.grant (h : SameLeases now l l') (k : κ) (tok : τ) (u : ι) :
    (l.grant now k tok u).1 = (l'.grant now k tok u).1 ∧
      SameLeases now (l.grant now k tok u).2 (l'.grant now k tok u).2 := by
  simp only [Leases.grant, h.holder k]
  split
  · exact ⟨rfl, h.set k _⟩
  · exact ⟨rfl, h⟩

theorem SameLeases.release (h : SameLeases now l l') (k : κ) (tok : τ) :
    (l.release now k tok).1 = (l'.release now k tok).1 ∧
      SameLeases now (l.release now k tok).2 (l'.release now k tok).2 := by
  simp only [Leases.release, h.holder k]
  split
  · exact ⟨rfl, h.set k _⟩
  · exact ⟨rfl, h⟩

theorem SameLeases.extend (h : SameLeases now l l') (k : κ) (tok : τ) (u : ι) :
    (l.extend now k tok u).1 = (l'.extend now k tok u).1 ∧
      SameLeases now (l.extend now k tok u).2 (l'.extend now k tok u).2 := by
  simp only [Leases.extend, h.holder k]
  split
  · exact ⟨rfl, h.set k _⟩
  · exact ⟨rfl, h⟩

end

-- ---------------------------------------------------------------------------
-- Tables that lose entries
-- ---------------------------------------------------------------------------

section
variable {κ τ ι : Type} [LinearOrder ι] {l l' : Leases κ τ ι}

/-- Every lease of the first table is one of the second. -/
def Sub (l l' : Leases κ τ ι) : Prop := ∀ k e, l k = some e → l' k = some e

/-- The key is not leased to this token beyond `bound`. -/
def EndsBy (l : Leases κ τ ι) (k : κ) (tok : τ) (bound : ι) : Prop :=
  ∀ until_, l k = some (tok, until_) → until_ ≤ bound

omit [LinearOrder ι] in
theorem Sub.refl (l : Leases κ τ ι) : l.Sub l := fun _ _ h => h

theorem EndsBy.sub (h : l'.EndsBy k tok bound) (hsub : l.Sub l') : l.EndsBy k tok bound :=
  fun until_ hk => h until_ (hsub k _ hk)

theorem EndsBy.lt (h : l.EndsBy k tok bound) (hk : l.holder now k = some tok) : now < bound := by
  obtain ⟨until_, hl, hlt⟩ := holder_eq_some.mp hk
  exact hlt.trans_le (h until_ hl)

theorem EndsBy.set [DecidableEq κ] (h : l.EndsBy k tok bound)
    (hnew : k' = k → ∀ until_, e = some (tok, until_) → until_ ≤ bound) :
    (l.set k' e).EndsBy k tok bound := by
  intro until_ hk
  by_cases hkk : k = k'
  · subst hkk
    exact hnew rfl until_ (set_self.symm.trans hk)
  · exact h until_ ((set_of_ne hkk).symm.trans hk)

theorem EndsBy.erase [DecidableEq κ] (h : l.EndsBy k tok bound) :
    (l.set k' none).EndsBy k tok bound :=
  h.set fun _ _ hnone => nomatch hnone

/-- A new entry replaces the old one, whatever that was. -/
theorem EndsBy.of_set [DecidableEq κ] {until_ : ι} (hle : until_ ≤ bound) :
    (l.set k (some (tok, until_))).EndsBy k tok bound := by
  rintro u hk
  cases set_self.symm.trans hk
  exact hle

end

-- ---------------------------------------------------------------------------
-- Tables kept in a map
-- ---------------------------------------------------------------------------

section
variable {κ τ ι α : Type} {cmp : κ → κ → Ordering} [Std.TransCmp cmp] [Std.LawfulEqCmp cmp]

/-- The leases whose entries a map keeps, as `f` reads them. -/
def ofMap (f : α → τ × ι) (m : Std.ExtTreeMap κ α cmp) : Leases κ τ ι := fun k => m[k]?.map f

variable {f : α → τ × ι} {m : Std.ExtTreeMap κ α cmp} [DecidableEq κ]

theorem ofMap_insert : ofMap f (m.insert k a) = (ofMap f m).set k (some (f a)) := by
  funext k'
  by_cases h : k' = k
  · subst h
    simp [ofMap]
  · rw [set_of_ne h]
    simp [ofMap, Std.ExtTreeMap.getElem?_insert, Ne.symm h]

theorem ofMap_erase : ofMap f (m.erase k) = (ofMap f m).set k none := by
  funext k'
  by_cases h : k' = k
  · subst h
    simp [ofMap]
  · rw [set_of_ne h]
    simp [ofMap, Std.ExtTreeMap.getElem?_erase, Ne.symm h]

end

-- ---------------------------------------------------------------------------
-- Renaming the tokens
-- ---------------------------------------------------------------------------

section
variable {κ τ τ' ι : Type}

def rename (f : τ → τ') (l : Leases κ τ ι) : Leases κ τ' ι :=
  fun k => (l k).map fun e => (f e.1, e.2)

variable {f : τ → τ'} {l : Leases κ τ ι}

variable [DecidableEq κ]

theorem set_rename : (l.rename f).set k (e.map fun e => (f e.1, e.2)) = (l.set k e).rename f := by
  funext k'
  by_cases h : k' = k
  · subst h
    rw [set_self]
    simp [rename]
  · rw [set_of_ne h]
    simp [rename, h]

variable [LinearOrder ι]

omit [DecidableEq κ] in
theorem holder_rename : (l.rename f).holder now k = (l.holder now k).map f := by
  simp only [holder, rename]
  cases l k with
  | none => rfl
  | some e =>
    simp only [Option.map_some, Option.bind_some]
    split <;> rfl

theorem grant_rename :
    (l.rename f).grant now k (f tok) u =
      ((l.grant now k tok u).1, (l.grant now k tok u).2.rename f) := by
  have hset : (l.rename f).set k (some (f tok, u)) = (l.set k (some (tok, u))).rename f :=
    set_rename (e := some (tok, u))
  simp only [grant, holder_rename, Option.map_eq_none_iff, hset]
  split <;> rfl

variable [DecidableEq τ] [DecidableEq τ']

theorem release_rename (hf : Function.Injective f) :
    (l.rename f).release now k (f tok) =
      ((l.release now k tok).1, (l.release now k tok).2.rename f) := by
  have hset : (l.rename f).set k none = (l.set k none).rename f := set_rename (e := none)
  have hhold : (l.holder now k).map f = some (f tok) ↔ l.holder now k = some tok := by
    rw [← Option.map_some, (Option.map_injective hf).eq_iff]
  simp only [release, holder_rename, hhold, hset]
  split <;> rfl

theorem extend_rename (hf : Function.Injective f) :
    (l.rename f).extend now k (f tok) u =
      ((l.extend now k tok u).1, (l.extend now k tok u).2.rename f) := by
  have hset : (l.rename f).set k (some (f tok, u)) = (l.set k (some (tok, u))).rename f :=
    set_rename (e := some (tok, u))
  have hhold : (l.holder now k).map f = some (f tok) ↔ l.holder now k = some tok := by
    rw [← Option.map_some, (Option.map_injective hf).eq_iff]
  simp only [extend, holder_rename, hhold, hset]
  split <;> rfl

end

-- ---------------------------------------------------------------------------
-- Looking at some of the keys
-- ---------------------------------------------------------------------------

section
variable {κ κ' τ ι : Type}

def comap (f : κ' → κ) (l : Leases κ τ ι) : Leases κ' τ ι := fun k => l (f k)

variable {f : κ' → κ} {l l' : Leases κ τ ι}

theorem set_comap [DecidableEq κ] [DecidableEq κ'] (hf : Function.Injective f) :
    (l.set (f k) e).comap f = (l.comap f).set k e := by
  funext k'
  by_cases h : k' = k
  · subst h
    simp [comap]
  · have hne : f k' ≠ f k := fun heq => h (hf heq)
    simp [comap, h, hne]

variable [LinearOrder ι]

theorem holder_comap : (l.comap f).holder now k = l.holder now (f k) := rfl

theorem SameLeases.comap (h : SameLeases now l l') (f : κ' → κ) :
    SameLeases now (l.comap f) (l'.comap f) := fun k => h (f k)

end

end Leases

end Rinfra.Lib
