/-!
# Runs of event-driven systems

A system is a partial function `step : σ → ε → Option σ`: the state after an
event, or `none` where the event cannot happen. A run is a list of events, so
every interleaving of the parties of a system is one list.

`Always` speaks of every state of a run, `Guarded` of every step of it. The
two rules below are the ones the proofs use: a step that keeps an invariant
keeps it along a run, and where a guard is exactly what one step needs to keep
a property, guarded runs are exactly those that have it throughout.
-/

namespace Rinfra.Lib

/-- The system whose events have an effect wherever they are enabled. -/
def actions {σ ε : Type} (enabled : σ → ε → Prop) (effect : σ → ε → σ)
    [∀ s e, Decidable (enabled s e)] (s : σ) (e : ε) : Option σ :=
  if enabled s e then some (effect s e) else none

theorem actions_eq_some {σ ε : Type} {enabled : σ → ε → Prop} {effect : σ → ε → σ}
    [∀ s e, Decidable (enabled s e)] {s s' : σ} {e : ε} :
    actions enabled effect s e = some s' ↔ enabled s e ∧ effect s e = s' := by
  rw [actions]
  split
  · rename_i h
    rw [Option.some.injEq]
    exact (and_iff_right h).symm
  · rename_i h
    exact iff_of_false nofun fun h' => h h'.1

section
variable {σ ε : Type} (step : σ → ε → Option σ)

def run : σ → List ε → Option σ
  | s, [] => some s
  | s, e :: es => (step s e).bind fun s' => run s' es

/-- Every state the run passes through, the first and the last included. -/
def Always (P : σ → Prop) : σ → List ε → Prop
  | s, [] => P s
  | s, e :: es => P s ∧ ∀ s', step s e = some s' → Always P s' es

/-- Every step the run takes is allowed in the state it is taken in. -/
def Guarded (G : σ → ε → Prop) : σ → List ε → Prop
  | _, [] => True
  | s, e :: es => ∀ s', step s e = some s' → G s e ∧ Guarded G s' es

def Reachable (init s : σ) : Prop := ∃ es, run step init es = some s

/-- Reachable by a run that keeps to the guard. -/
def Reaches (G : σ → ε → Prop) (s t : σ) : Prop :=
  ∃ es, Guarded step G s es ∧ run step s es = some t

variable {step} {P Q I : σ → Prop} {Q' : ε → Prop} {G H : σ → ε → Prop}

theorem run_cons :
    run step s (e :: es) = some t ↔ ∃ s', step s e = some s' ∧ run step s' es = some t := by
  simp [run, Option.bind_eq_some_iff]

theorem guarded_cons (h : step s e = some s') :
    Guarded step G s (e :: es) ↔ G s e ∧ Guarded step G s' es := by
  simp [Guarded, h]

instance Always.decidable [DecidablePred P] :
    (s : σ) → (es : List ε) → Decidable (Always step P s es)
  | s, [] => inferInstanceAs (Decidable (P s))
  | s, e :: es =>
    match h : step s e with
    | none => decidable_of_iff (P s) (by simp [Always, h])
    | some s' =>
      have := Always.decidable s' es
      decidable_of_iff (P s ∧ Always step P s' es) (by simp [Always, h])

instance Guarded.decidable [∀ s e, Decidable (G s e)] :
    (s : σ) → (es : List ε) → Decidable (Guarded step G s es)
  | _, [] => .isTrue trivial
  | s, e :: es =>
    match h : step s e with
    | none => .isTrue (by simp [Guarded, h])
    | some s' =>
      have := Guarded.decidable s' es
      decidable_of_iff (G s e ∧ Guarded step G s' es) (by simp [Guarded, h])

theorem run_append :
    run step s (es ++ fs) = (run step s es).bind fun s' => run step s' fs := by
  induction es generalizing s with
  | nil => rfl
  | cons e es ih => cases h : step s e <;> simp [run, h, ih]

theorem run_concat :
    run step s (es ++ [e]) = some t ↔ ∃ s', run step s es = some s' ∧ step s' e = some t := by
  simp [run_append, run, Option.bind_eq_some_iff]

-- ---------------------------------------------------------------------------
-- Invariants
-- ---------------------------------------------------------------------------

theorem run_invariant (h : P s) (hstep : ∀ s e s', P s → step s e = some s' → P s')
    (hr : run step s es = some t) : P t := by
  induction es generalizing s with
  | nil => cases hr; exact h
  | cons e es ih =>
    obtain ⟨s', hs, hr⟩ := run_cons.mp hr
    exact ih (hstep s e s' h hs) hr

/-- An invariant that ties the state to the events so far. -/
theorem run_history_invariant {H : List ε → σ → Prop} (fs : List ε) (h : H fs s)
    (hstep : ∀ fs s e s', H fs s → step s e = some s' → H (fs ++ [e]) s')
    (hr : run step s es = some t) : H (fs ++ es) t := by
  induction es generalizing fs s with
  | nil =>
    cases hr
    rwa [List.append_nil]
  | cons e es ih =>
    obtain ⟨s', hs, hr⟩ := run_cons.mp hr
    rw [List.append_cons]
    exact ih _ (hstep fs s e s' h hs) hr

/-- The next event of one party finds what the others leave alone as it was. -/
theorem run_next {α : Type} {mine : ε → Bool} {obs : σ → α}
    (hothers : ∀ s e s', mine e = false → step s e = some s' → obs s' = obs s)
    (hr : run step s es = some t) :
    es.filter mine = [] ∨ ∃ e fs s₁ s₂, es.filter mine = e :: fs.filter mine ∧
      mine e = true ∧ obs s₁ = obs s ∧ step s₁ e = some s₂ ∧ run step s₂ fs = some t := by
  induction es generalizing s with
  | nil => exact .inl rfl
  | cons e es ih =>
    obtain ⟨s', hs, hr⟩ := run_cons.mp hr
    cases he : mine e with
    | true => exact .inr ⟨e, es, s, s', List.filter_cons_of_pos he, he, rfl, hs, hr⟩
    | false =>
      rw [List.filter_cons_of_neg (by simp [he])]
      rcases ih hr with hnone | ⟨e', fs, s₁, s₂, hfilter, hmine, hobs, hs', hr'⟩
      · exact .inl hnone
      · exact .inr ⟨e', fs, s₁, s₂, hfilter, hmine, hobs.trans (hothers s e s' he hs), hs', hr'⟩

theorem Reachable.invariant (h : Reachable step s t) (hi : P s)
    (hstep : ∀ s e s', P s → step s e = some s' → P s') : P t := by
  obtain ⟨es, hr⟩ := h
  exact run_invariant hi hstep hr

theorem always_of_step (h : P s) (hstep : ∀ s e s', P s → step s e = some s' → P s') :
    Always step P s es := by
  induction es generalizing s with
  | nil => exact h
  | cons e es ih => exact ⟨h, fun s' hs => ih (hstep s e s' h hs)⟩

theorem Guarded.invariant (hg : Guarded step G s es) (h : P s)
    (hstep : ∀ s e s', P s → G s e → step s e = some s' → P s') : Always step P s es := by
  induction es generalizing s with
  | nil => exact h
  | cons e es ih =>
    refine ⟨h, fun s' hs => ?_⟩
    obtain ⟨he, hg⟩ := hg s' hs
    exact ih hg (hstep s e s' h he hs)

/-- Under an invariant that a guard keeps, another guard follows. -/
theorem Guarded.imp (hg : Guarded step G s es) (h : I s)
    (hstep : ∀ s e s', I s → G s e → step s e = some s' → I s')
    (himp : ∀ s e s', I s → G s e → step s e = some s' → H s e) : Guarded step H s es := by
  induction es generalizing s with
  | nil => trivial
  | cons e es ih =>
    intro s' hs
    obtain ⟨he, hg⟩ := hg s' hs
    exact ⟨himp s e s' h he hs, ih hg (hstep s e s' h he hs)⟩

theorem Guarded.and_all (hg : Guarded step G s es) (hq : ∀ e ∈ es, Q' e) :
    Guarded step (fun s e => G s e ∧ Q' e) s es := by
  induction es generalizing s with
  | nil => trivial
  | cons e es ih =>
    intro s' hs
    obtain ⟨he, hg⟩ := hg s' hs
    exact ⟨⟨he, hq e List.mem_cons_self⟩, ih hg fun e' h => hq e' (List.mem_cons_of_mem _ h)⟩

theorem Always.head (h : Always step P s es) : P s := by
  cases es with
  | nil => exact h
  | cons e es => exact h.1

theorem Always.last (h : Always step P s es) (hr : run step s es = some t) : P t := by
  induction es generalizing s with
  | nil => cases hr; exact h
  | cons e es ih =>
    obtain ⟨s', hs, hr⟩ := run_cons.mp hr
    exact ih (h.2 s' hs) hr

theorem Always.and (h : Always step P s es) (h' : Always step Q s es) :
    Always step (fun s => P s ∧ Q s) s es := by
  induction es generalizing s with
  | nil => exact ⟨h, h'⟩
  | cons e es ih => exact ⟨⟨h.1, h'.1⟩, fun s' hs => ih (h.2 s' hs) (h'.2 s' hs)⟩

/-- An invariant whose step needs what holds throughout the run. -/
theorem Always.run_invariant (h : Always step P s es) (hi : I s)
    (hstep : ∀ s e s', I s → P s → P s' → step s e = some s' → I s')
    (hr : run step s es = some t) : I t := by
  induction es generalizing s with
  | nil => cases hr; exact hi
  | cons e es ih =>
    obtain ⟨s', hs, hr⟩ := run_cons.mp hr
    exact ih (h.2 s' hs) (hstep s e s' hi h.1 (h.2 s' hs).head hs) hr

theorem Always.mono (h : Always step P s es) (hpq : ∀ s, P s → Q s) : Always step Q s es := by
  induction es generalizing s with
  | nil => exact hpq s h
  | cons e es ih => exact ⟨hpq s h.1, fun s' hs => ih (h.2 s' hs)⟩

/-- Where, in runs that keep to `H` and under an invariant that lasts as long as
`P`, a step keeps `P` exactly when the guard allows it, the runs that satisfy
`P` throughout are exactly the guarded ones. -/
theorem Guarded.always_iff (hh : Guarded step H s es) (hi : I s) (hp : P s)
    (hinv : ∀ s e s', I s → P s → H s e → step s e = some s' → P s' → I s')
    (hstep : ∀ s e s', I s → P s → H s e → step s e = some s' → (P s' ↔ G s e)) :
    Always step P s es ↔ Guarded step G s es := by
  induction es generalizing s with
  | nil => exact ⟨fun _ => trivial, fun _ => hp⟩
  | cons e es ih =>
    constructor
    · rintro ⟨_, hall⟩ s' hs
      obtain ⟨he, hh⟩ := hh s' hs
      have hp' : P s' := (hall s' hs).head
      refine ⟨(hstep s e s' hi hp he hs).mp hp', ?_⟩
      exact (ih hh (hinv s e s' hi hp he hs hp') hp').mp (hall s' hs)
    · intro hg
      refine ⟨hp, fun s' hs => ?_⟩
      obtain ⟨he, hh⟩ := hh s' hs
      obtain ⟨hge, hg⟩ := hg s' hs
      have hp' : P s' := (hstep s e s' hi hp he hs).mpr hge
      exact (ih hh (hinv s e s' hi hp he hs hp') hp').mpr hg

theorem Guarded.of_forall (h : ∀ s e, G s e) : Guarded step G s es := by
  induction es generalizing s with
  | nil => trivial
  | cons e es ih => exact fun s' _ => ⟨h s e, ih⟩

theorem Guarded.append (hg : Guarded step G s es) (hr : run step s es = some t)
    (hg' : Guarded step G t fs) : Guarded step G s (es ++ fs) := by
  induction es generalizing s with
  | nil =>
    cases hr
    exact hg'
  | cons e es ih =>
    obtain ⟨s', hs, hr⟩ := run_cons.mp hr
    obtain ⟨he, hg⟩ := (guarded_cons hs).mp hg
    exact (guarded_cons hs).mpr ⟨he, ih hg hr⟩

theorem Reaches.refl (s : σ) : Reaches step G s s := ⟨[], trivial, rfl⟩

theorem Reaches.single (hg : G s e) (h : step s e = some t) : Reaches step G s t :=
  ⟨[e], (guarded_cons h).mpr ⟨hg, trivial⟩, run_cons.mpr ⟨t, h, rfl⟩⟩

theorem Reaches.trans (h : Reaches step G s t) (h' : Reaches step G t u) :
    Reaches step G s u := by
  obtain ⟨es, hg, hr⟩ := h
  obtain ⟨fs, hg', hr'⟩ := h'
  exact ⟨es ++ fs, hg.append hr hg', by rw [run_append, hr, Option.bind_some, hr']⟩

theorem Reaches.invariant (h : Reaches step G s t) (hi : I s)
    (hstep : ∀ s e s', I s → G s e → step s e = some s' → I s') : I t := by
  obtain ⟨es, hg, hr⟩ := h
  exact (hg.invariant hi hstep).last hr

/-- The same in all runs. -/
theorem always_iff_guarded (hi : I s) (hp : P s)
    (hinv : ∀ s e s', I s → P s → step s e = some s' → P s' → I s')
    (hstep : ∀ s e s', I s → P s → step s e = some s' → (P s' ↔ G s e)) :
    Always step P s es ↔ Guarded step G s es :=
  Guarded.always_iff (H := fun _ _ => True) (.of_forall fun _ _ => trivial) hi hp
    (fun s e s' hi hp _ => hinv s e s' hi hp) fun s e s' hi hp _ => hstep s e s' hi hp

end

end Rinfra.Lib
