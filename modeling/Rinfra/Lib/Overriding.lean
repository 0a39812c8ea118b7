import Mathlib.Data.List.Basic

/-!
# Assignments to the places of a tree

A place is a path, and an assignment puts a leaf there, whatever the tree has at
the path or below it. Where a path goes through a leaf, an assignment does
nothing. So of two assignments the one with the shorter path wins, in either
order, and only two with the same path can be told apart by their order.
-/

namespace Rinfra.Lib

/-- The laws of an assignment, for paths that are not empty. -/
structure Overriding {κ α τ : Type} (put : τ → List κ → α → τ) : Prop where
  absorb : ∀ t p q a b, p ≠ [] → p <+: q → put (put t q b) p a = put t p a
  block : ∀ t p q a b, p ≠ [] → p <+: q → p ≠ q → put (put t p a) q b = put t p a
  comm : ∀ t p q a b, ¬ p <+: q → ¬ q <+: p → put (put t q b) p a = put (put t p a) q b

/-- Values that differ make trees that differ, unless the place cannot be reached;
and only a shorter path can make it unreachable. -/
structure Telling {κ α β τ : Type} (put : τ → List κ → α → τ) (value : α → β) : Prop extends
    Overriding put where
  congr : ∀ t p a b, value a = value b → put t p a = put t p b
  tells : ∀ t p a b, p ≠ [] → put t p a = put t p b → value a = value b ∨ ∀ c, put t p c = t
  reaches : ∀ t p q b, p ≠ [] → q ≠ [] → ¬ (q <+: p ∧ q ≠ p) →
    (∀ a, put (put t q b) p a = put t q b) → ∀ a, put t p a = t

namespace Overriding

section
variable {κ α τ : Type} (put : τ → List κ → α → τ)

def assign (t : τ) (l : List (List κ × α)) : τ := l.foldl (fun t e => put t e.1 e.2) t

def Ignores (t : τ) (p : List κ) : Prop := ∀ a, put t p a = t

/-- Some assignment of the list is at a place on the way to `p`. -/
def Shadowed (l : List (List κ × α)) (p : List κ) : Prop := ∃ e ∈ l, e.1 <+: p ∧ e.1 ≠ p

/-- The two trees differ at most in what an assignment at the path replaces. -/
def Same (p : List κ) (t u : τ) : Prop := ∀ a, put t p a = put u p a

variable {put} {t u : τ} {p q : List κ} {l l' : List (List κ × α)} (h : Overriding put)

theorem assign_append : assign put t (l ++ l') = assign put (assign put t l) l' :=
  List.foldl_append ..

include h

theorem ignores_below (hp : p ≠ []) (hi : Ignores put t p) (hpq : p <+: q) : Ignores put t q := by
  by_cases hne : p = q
  · exact hne ▸ hi
  · intro b
    calc put t q b = put (put t p b) q b := by rw [hi b]
      _ = put t p b := h.block t p q b b hp hpq hne
      _ = t := hi b

theorem ignores_put (hp : p ≠ []) (hq : q ≠ []) (hi : Ignores put t p) (b : α) :
    Ignores put (put t q b) p := by
  intro a
  by_cases hqp : q <+: p
  · by_cases heq : q = p
    · subst heq
      rw [hi b, hi a]
    · exact h.block t q p b a hq hqp heq
  · by_cases hpq : p <+: q
    · rw [h.ignores_below hp hi hpq b, hi a]
    · rw [h.comm t p q a b hpq hqp, hi a]

theorem ignores_assign (hp : p ≠ []) (hl : ∀ e ∈ l, e.1 ≠ []) (hi : Ignores put t p) :
    Ignores put (assign put t l) p := by
  induction l generalizing t with
  | nil => exact hi
  | cons e l ih =>
    exact ih (fun e he => hl e (List.mem_cons_of_mem _ he))
      (h.ignores_put hp (hl e List.mem_cons_self) hi e.2)

theorem same_put (hp : p ≠ []) (hq : q ≠ []) (hs : Same put p t u) (b : α) :
    Same put p (put t q b) (put u q b) := by
  intro a
  by_cases hpq : p <+: q
  · rw [h.absorb t p q a b hp hpq, h.absorb u p q a b hp hpq, hs a]
  · by_cases hqp : q <+: p
    · -- the shorter path replaces what the trees differ in
      have hput : put t q b = put u q b := by
        rw [← h.absorb t q p b b hq hqp, ← h.absorb u q p b b hq hqp, hs b]
      rw [hput]
    · rw [h.comm t p q a b hpq hqp, h.comm u p q a b hpq hqp, hs a]

theorem same_assign (hp : p ≠ []) (hl : ∀ e ∈ l, e.1 ≠ []) (hs : Same put p t u)
    (hmem : ∃ e ∈ l, e.1 = p) : assign put t l = assign put u l := by
  induction l generalizing t u with
  | nil => simp at hmem
  | cons e l ih =>
    by_cases he : e.1 = p
    · have hput : put t e.1 e.2 = put u e.1 e.2 := he ▸ hs e.2
      simp only [assign, List.foldl_cons, hput]
    · refine ih (fun e he => hl e (List.mem_cons_of_mem _ he))
        (h.same_put hp (hl e List.mem_cons_self) hs e.2) ?_
      obtain ⟨e', he', heq⟩ := hmem
      rcases List.mem_cons.mp he' with rfl | he'
      · exact absurd heq he
      · exact ⟨e', he', heq⟩

theorem assign_put (hp : p ≠ []) (hl : ∀ e ∈ l, e.1 ≠ []) (hmem : ∃ e ∈ l, e.1 = p) (a : α) :
    assign put (put t p a) l = assign put t l :=
  h.same_assign hp hl (fun b => h.absorb t p p b a hp (List.prefix_refl p)) hmem

theorem ignores_of_shadowed (hp : p ≠ []) (hl : ∀ e ∈ l, e.1 ≠ []) (hs : Shadowed l p) :
    Ignores put (assign put t l) p := by
  obtain ⟨e, he, hshort, hne⟩ := hs
  obtain ⟨l₁, l₂, rfl⟩ := List.append_of_mem he
  rw [assign_append]
  show Ignores put (assign put (put _ e.1 e.2) l₂) p
  refine h.ignores_assign hp (fun e he => hl e (by simp [he])) ?_
  exact fun b => h.block _ e.1 p e.2 b (hl e he) hshort hne

/-- An assignment that is ignored, or shadowed by another one, can be left out. -/
theorem assign_drop {e : List κ × α} {l₁ l₂ : List (List κ × α)} (he : e.1 ≠ [])
    (hl : ∀ e ∈ l₁ ++ l₂, e.1 ≠ []) (hidle : Shadowed (l₁ ++ l₂) e.1 ∨ Ignores put t e.1) :
    assign put t (l₁ ++ e :: l₂) = assign put t (l₁ ++ l₂) := by
  have hl₁ : ∀ e ∈ l₁, e.1 ≠ [] := fun e he => hl e (List.mem_append_left _ he)
  have hl₂ : ∀ e ∈ l₂, e.1 ≠ [] := fun e he => hl e (List.mem_append_right _ he)
  rw [assign_append, assign_append]
  rcases hidle with ⟨e', he', hshort, hne⟩ | hi
  · rcases List.mem_append.mp he' with he' | he'
    · exact congrArg (assign put · l₂) (h.ignores_of_shadowed he hl₁ ⟨e', he', hshort, hne⟩ e.2)
    · refine h.same_assign (hl₂ e' he') hl₂ ?_ ⟨e', he', rfl⟩
      exact fun a => h.absorb _ e'.1 e.1 a e.2 (hl₂ e' he') hshort
  · exact congrArg (assign put · l₂) (h.ignores_assign he hl₁ hi e.2)

theorem assign_last (hp : p ≠ []) (hl : ∀ e ∈ l, e.1 ≠ []) (hs : ∀ e ∈ l, ¬ e.1 <+: p) (a : α) :
    assign put (put t p a) l = put (assign put t l) p a := by
  induction l generalizing t with
  | nil => rfl
  | cons e l ih =>
    have he : e.1 ≠ [] := hl e List.mem_cons_self
    have ih := fun t => @ih t (fun e he => hl e (List.mem_cons_of_mem _ he))
      fun e he => hs e (List.mem_cons_of_mem _ he)
    show assign put (put (put t p a) e.1 e.2) l = put (assign put (put t e.1 e.2) l) p a
    rw [← ih]
    by_cases hpe : p <+: e.1
    · have hne : p ≠ e.1 := fun heq => hs e List.mem_cons_self (heq ▸ List.prefix_refl _)
      rw [h.block t p e.1 a e.2 hp hpe hne, h.absorb t p e.1 a e.2 hp hpe]
    · rw [h.comm t p e.1 a e.2 hpe (hs e List.mem_cons_self)]

-- ---------------------------------------------------------------------------
-- Orders
-- ---------------------------------------------------------------------------

omit h in
/-- Of the shorter paths on the way, the shortest is not shadowed itself. -/
theorem Shadowed.exists_unshadowed (hs : Shadowed l p) :
    ∃ e ∈ l, e.1 <+: p ∧ e.1 ≠ p ∧ ¬ Shadowed l e.1 := by
  induction hn : p.length using Nat.strongRecOn generalizing p with
  | ind n ih =>
    obtain ⟨e, he, hshort, hne⟩ := hs
    by_cases hse : Shadowed l e.1
    · have hlt : e.1.length < n := by
        rw [← hn]
        exact Nat.lt_of_le_of_ne hshort.length_le fun heq => hne (hshort.eq_of_length heq)
      obtain ⟨e', he', hshort', hne', hs'⟩ := ih e.1.length hlt hse rfl
      refine ⟨e', he', hshort'.trans hshort, fun heq => hne' ?_, hs'⟩
      exact hshort'.eq_of_length_le (heq ▸ hshort.length_le)
    · exact ⟨e, he, hshort, hne, hse⟩

/-- The assignment is neither ignored nor shadowed. -/
def Effective (put : τ → List κ → α → τ) (t : τ) (l : List (List κ × α)) (e : List κ × α) : Prop :=
  ¬ Shadowed l e.1 ∧ ¬ Ignores put t e.1

open Classical in
noncomputable def effective (put : τ → List κ → α → τ) (t : τ) (l : List (List κ × α)) :
    List (List κ × α) :=
  l.filter fun e => Effective put t l e

omit h in
theorem mem_effective {e : List κ × α} :
    e ∈ effective put t l ↔ e ∈ l ∧ Effective put t l e := by
  simp [effective]

open Classical in
theorem assign_effective (hl : ∀ e ∈ l, e.1 ≠ []) :
    assign put t (effective put t l) = assign put t l := by
  -- the list is gone through from the left, and what is effective is still there
  have hgo : ∀ l₂ l₁ : List (List κ × α), (∀ e ∈ l₁ ++ l₂, e ∈ l) →
      (∀ e ∈ l, Effective put t l e → e ∈ l₁ ++ l₂) →
      assign put t (l₁ ++ l₂.filter fun e => Effective put t l e) = assign put t (l₁ ++ l₂) := by
    intro l₂
    induction l₂ with
    | nil => exact fun _ _ _ => rfl
    | cons e l₂ ih =>
      intro l₁ hsub hall
      by_cases he : Effective put t l e
      · have := ih (l₁ ++ [e]) (by simpa using hsub) (by simpa using hall)
        simpa [he] using this
      · have hmem : e ∈ l := hsub e (by simp)
        have hother : ∀ e' ∈ l, Effective put t l e' → e' ∈ l₁ ++ l₂ := by
          intro e' hl' he'
          have hne : e' ≠ e := fun heq => he (heq ▸ he')
          simpa [hne] using hall e' hl' he'
        have hidle : Shadowed (l₁ ++ l₂) e.1 ∨ Ignores put t e.1 := by
          by_cases hi : Ignores put t e.1
          · exact .inr hi
          · have hs : Shadowed l e.1 := by
              by_contra hs
              exact he ⟨hs, hi⟩
            obtain ⟨e', he', hshort, hne, hs'⟩ := hs.exists_unshadowed
            have hi' : ¬ Ignores put t e'.1 :=
              fun hi' => hi (h.ignores_below (hl e' he') hi' hshort)
            exact .inl ⟨e', hother e' he' ⟨hs', hi'⟩, hshort, hne⟩
        have hsub' : ∀ e' ∈ l₁ ++ l₂, e' ∈ l := fun e' he' => hsub e' (by
          rcases List.mem_append.mp he' with he' | he' <;> simp [he'])
        rw [List.filter_cons_of_neg (by simpa using he), ih l₁ hsub' hother,
          h.assign_drop (hl e hmem) (fun e' he' => hl e' (hsub' e' he')) hidle]
  exact hgo l [] (fun _ he => he) fun _ he _ => he

end

/-- The values at one place agree, unless nothing can be assigned there. -/
def Agree (put : τ → List κ → α → τ) (value : α → β) (t : τ) (l : List (List κ × α)) : Prop :=
  ∀ x ∈ l, ∀ y ∈ l, x.1 = y.1 → value x.2 = value y.2 ∨ Shadowed l x.1 ∨ Ignores put t x.1

end Overriding

namespace Telling

open Overriding

variable {κ α β τ : Type} {put : τ → List κ → α → τ} {value : α → β} {t : τ}
  {l l' : List (List κ × α)} (h : Telling put value)

include h

open Classical in
theorem assign_perm (hl : ∀ e ∈ l, e.1 ≠ []) (hagree : Agree put value t l) (hp : l'.Perm l) :
    assign put t l' = assign put t l := by
  have hshadowed : ∀ p, Shadowed l' p ↔ Shadowed l p := by
    intro p
    simp only [Shadowed, hp.mem_iff]
  have heffective : (effective put t l').Perm (effective put t l) := by
    have hpred : effective put t l' = l'.filter fun e => Effective put t l e :=
      List.filter_congr fun e _ => decide_eq_decide.mpr (by simp only [Effective, hshadowed])
    rw [hpred]
    exact hp.filter _
  rw [← h.assign_effective fun e he => hl e (hp.mem_iff.mp he), ← h.assign_effective hl]
  refine heffective.foldl_eq' (fun x hx y hy z => ?_) t
  obtain ⟨hx, hsx, hix⟩ := mem_effective.mp (heffective.mem_iff.mp hx)
  obtain ⟨hy, hsy, -⟩ := mem_effective.mp (heffective.mem_iff.mp hy)
  by_cases hxy : x.1 = y.1
  · have hvalue : value x.2 = value y.2 :=
      (hagree x hx y hy hxy).resolve_right fun hidle => hidle.elim hsx hix
    rw [hxy, h.absorb _ _ _ _ _ (hl y hy) (List.prefix_refl _),
      h.absorb _ _ _ _ _ (hl y hy) (List.prefix_refl _), h.congr z y.1 x.2 y.2 hvalue]
  · -- neither path is on the way to the other
    exact (h.comm z x.1 y.1 x.2 y.2 (fun hshort => hsy ⟨x, hx, hshort, hxy⟩)
      fun hshort => hsx ⟨y, hy, hshort, Ne.symm hxy⟩).symm

theorem reaches_assign {p : List κ} (hp : p ≠ []) (hl : ∀ e ∈ l, e.1 ≠ [])
    (hs : ¬ Shadowed l p) (hi : ¬ Ignores put t p) : ¬ Ignores put (assign put t l) p := by
  induction l generalizing t with
  | nil => exact hi
  | cons e l ih =>
    refine ih (fun e he => hl e (List.mem_cons_of_mem _ he))
      (fun ⟨e', he', hshort⟩ => hs ⟨e', List.mem_cons_of_mem _ he', hshort⟩) fun hi' => hi ?_
    exact h.reaches t p e.1 e.2 hp (hl e List.mem_cons_self)
      (fun hshort => hs ⟨e, List.mem_cons_self, hshort⟩) hi'

/-- The order of the assignments does not matter exactly when the values agree. -/
theorem order_independent_iff (hl : ∀ e ∈ l, e.1 ≠ []) :
    (∀ l', l'.Perm l → assign put t l' = assign put t l) ↔ Agree put value t l := by
  refine ⟨fun hperm x hx y hy hxy => ?_, fun hagree l' hp => h.assign_perm hl hagree hp⟩
  by_contra hnot
  simp only [not_or] at hnot
  obtain ⟨hvalue, hs, hi⟩ := hnot
  have hne : x ≠ y := fun heq => hvalue (heq ▸ rfl)
  -- all the others first, and then the two in either order
  obtain ⟨rest, hrest⟩ : ∃ rest, l.Perm (rest ++ [x, y]) := by
    obtain ⟨a, b, rfl⟩ := List.append_of_mem hx
    have hy' : y ∈ a ++ b := by simpa [Ne.symm hne] using hy
    obtain ⟨c, d, hcd⟩ := List.append_of_mem hy'
    refine ⟨c ++ d, List.perm_middle.trans ?_⟩
    rw [hcd]
    exact (List.perm_middle.cons x).trans (List.perm_append_comm : ([x, y] ++ (c ++ d)).Perm _)
  have hboth : assign put (assign put t rest) [x, y] = assign put (assign put t rest) [y, x] := by
    rw [← assign_append, ← assign_append, hperm _ hrest.symm]
    exact (hperm _ (((List.Perm.swap x y []).append_left rest).trans hrest.symm)).symm
  have hmem : ∀ e ∈ rest, e ∈ l := fun e he => hrest.mem_iff.mpr (by simp [he])
  have hreach : ¬ Ignores put (assign put t rest) x.1 :=
    h.reaches_assign (hl x hx) (fun e he => hl e (hmem e he))
      (fun ⟨e, he, hshort⟩ => hs ⟨e, hmem e he, hshort⟩) hi
  have hboth : put (put (assign put t rest) x.1 x.2) y.1 y.2 =
    put (put (assign put t rest) y.1 y.2) x.1 x.2 := hboth
  rw [← hxy, h.absorb _ _ _ _ _ (hl x hx) (List.prefix_refl _),
    h.absorb _ _ _ _ _ (hl x hx) (List.prefix_refl _)] at hboth
  rcases h.tells _ _ _ _ (hl x hx) hboth with heq | hignores
  · exact hvalue heq.symm
  · exact hreach hignores

end Telling

end Rinfra.Lib
