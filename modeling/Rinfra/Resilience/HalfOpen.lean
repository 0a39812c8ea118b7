import Mathlib.Data.Finset.Card
import Rinfra.Resilience.WithCircuitBreaker

/-!
# Probes of a half-open breaker

A half-open breaker admits every request, and only the outcomes it records take
it out of that state. So how many requests probe a recovering backend at once is
left to the load.
-/

namespace Rinfra.Resilience

open Rinfra.Lib CircuitBreaker

section
variable {T : Type}

/-- The call was admitted in the current half-open period and is not over. While
the breaker is half open its period is the one that began last, so the number
tells. -/
def World.Probing (w : World T) (c : Nat) : Prop :=
  w.admittedIn c = w.period ∧ (w.calls c).inFlight = true

/-- A half-open breaker has no more probes than it takes to close it. -/
def Limited (b : Breaker) (w : World T) : Prop :=
  w.inner.status = .halfOpen → ∀ probes : Finset Nat, (∀ c ∈ probes, w.Probing c) →
    probes.card ≤ max 1 b.config.successThreshold

/-- A request comes to a half-open breaker only while there is room for a probe. -/
def Offered (b : Breaker) (w : World T) : Event T → Prop
  | .enter _ _ => w.inner.status = .halfOpen → ∀ probes : Finset Nat,
      (∀ c ∈ probes, w.Probing c) → probes.card < max 1 b.config.successThreshold
  | _ => True

variable {b : Breaker} {w w' : World T}

theorem Limited.mono (h : Limited b w)
    (hstatus : w'.inner.status = .halfOpen → w.inner.status = .halfOpen)
    (hprobing : ∀ c, w'.Probing c → w.Probing c) : Limited b w' := by
  intro hhalf probes hprobes
  exact h (hstatus hhalf) probes fun c hc => hprobing c (hprobes c hc)

theorem limited_of_single (h : ∀ d, w.Probing d → d = c) : Limited b w := by
  intro _ probes hprobes
  have hone : probes.card ≤ 1 := by
    rw [Finset.card_le_one]
    intro d hd e he
    rw [h d (hprobes d hd), h e (hprobes e he)]
  exact hone.trans (le_max_left _ _)

theorem Inv.lazy_cases (hi : Inv b w) (now : Nat) :
    w.setInner (maybeTransitionHalfOpen b.config w.inner now) = w ∨
      w.inner.status ≠ .halfOpen ∧
        ∀ c, (w.setInner (maybeTransitionHalfOpen b.config w.inner now)).admittedIn c ≠
          (w.setInner (maybeTransitionHalfOpen b.config w.inner now)).period := by
  rcases maybeTransitionHalfOpen_cases b.config w.inner now with heq | ⟨ho, heq⟩ <;> rw [heq]
  · exact .inl setInner_self
  · have hne : w.inner.status ≠ .halfOpen := by simp [ho]
    rw [setInner_enter hne rfl]
    refine .inr ⟨hne, fun c => ?_⟩
    have hle := hi.admitted_le c
    simp only
    omega

theorem Limited.lazy (h : Limited b w) (hi : Inv b w) (now : Nat) :
    Limited b (w.setInner (maybeTransitionHalfOpen b.config w.inner now)) := by
  rcases hi.lazy_cases now with hsame | ⟨-, hnone⟩
  · rw [hsame]
    exact h
  · exact limited_of_single (c := 0) fun d hd => absurd hd.1 (hnone d)

theorem Limited.setCall (h : Limited b w)
    (hf : p.inFlight = true → (w.calls c).inFlight = true) : Limited b (w.setCall c p) := by
  refine h.mono id fun d hd => ⟨hd.1, ?_⟩
  have hflight : (Function.update w.calls c p d).inFlight = true := hd.2
  by_cases hdc : d = c
  · subst hdc
    exact hf (by simpa using hflight)
  · simpa [hdc] using hflight

/-- A half-open breaker admits the request, whatever is in flight. -/
theorem enter_halfOpen (hs : step b w (.enter c now) = some w')
    (hhalf : w.inner.status = .halfOpen) :
    ¬ w.Probing c ∧ w'.inner.status = .halfOpen ∧ ∀ d, w'.Probing d ↔ d = c ∨ w.Probing d := by
  have hlazy : maybeTransitionHalfOpen b.config w.inner now = w.inner :=
    maybeTransitionHalfOpen_of_ne (by simp [hhalf])
  have hadmits : (allowRequest b.config w.inner now).1 = true := by
    simp [allowRequest, hlazy, hhalf]
  have hself : World.setInner { w with clock := now } w.inner = { w with clock := now } :=
    setInner_self
  cases goes hs with
  | rejected hidle ht hok =>
    have ht := tick_some ht
    subst ht
    simp [hadmits] at hok
  | admitted hidle ht hok =>
    have ht := tick_some ht
    subst ht
    simp only [hlazy, hself]
    refine ⟨fun hc => by simp [World.Probing, hidle, Phase.inFlight] at hc, hhalf, fun d => ?_⟩
    by_cases hdc : d = c
    · subst hdc
      simp [World.Probing, World.setCall, World.noteAdmission, Phase.inFlight]
    · simp [World.Probing, World.setCall, World.noteAdmission, hdc]

theorem limited_enter_iff (hi : Inv b w) (hs : step b w (.enter c now) = some w') :
    Limited b w' ↔ Offered b w (.enter c now) := by
  by_cases hhalf : w.inner.status = .halfOpen
  · obtain ⟨hnot, hhalf', hprobing⟩ := enter_halfOpen hs hhalf
    constructor
    · intro h _ probes hprobes
      have hmem : c ∉ probes := fun hc => hnot (hprobes c hc)
      have hcard := h hhalf' (insert c probes) fun d hd => by
        rw [hprobing]
        exact (Finset.mem_insert.mp hd).imp_right (hprobes d)
      rw [Finset.card_insert_of_notMem hmem] at hcard
      omega
    · intro h _ probes hprobes
      have hold := h hhalf (probes.erase c) fun d hd => by
        obtain ⟨hne, hd⟩ := Finset.mem_erase.mp hd
        exact ((hprobing d).mp (hprobes d hd)).resolve_left hne
      have hcard := Finset.pred_card_le_card_erase (s := probes) (a := c)
      omega
  · refine iff_of_true ?_ fun h => absurd h hhalf
    obtain ⟨hidle, w₁, ok, ht, rfl⟩ := step_enter hs
    have hi₁ := hi.tick ht
    have ht := tick_some ht
    subst ht
    rcases hi₁.lazy_cases now with hsame | ⟨-, hnone⟩
    · intro hhalf'
      rw [hsame] at hhalf'
      cases ok <;> exact absurd hhalf' hhalf
    · -- a new period begins with this probe
      apply limited_of_single
      intro d hd
      by_contra hdc
      cases ok with
      | true => exact hnone d ((Function.update_of_ne hdc ..).symm.trans hd.1)
      | false => exact hnone d hd.1

theorem Limited.succeed (h : Limited b w) (hs : step b w (.succeed c val) = some w') :
    Limited b w' := by
  obtain ⟨hrun, inner, hr, rfl⟩ := step_succeed hs
  have hhalf : inner.status = .halfOpen → w.inner.status = .halfOpen := by
    intro hhalf
    rcases recordSuccess_cases hr with ⟨hs, -⟩ | ⟨hs, -⟩ | ⟨-, heq⟩
    · exact hs
    · exact hs
    · rwa [← heq]
  have hnote : Limited b ((w.noteSuccess c).setInner inner) := by
    have hsame : (w.noteSuccess c).inner = w.inner := by
      unfold World.noteSuccess
      split <;> rfl
    rw [setInner_stay (by
      by_cases hi : inner.status = .halfOpen
      · exact .inl (by rw [hsame]; exact hhalf hi)
      · exact .inr hi)]
    refine h.mono hhalf fun d hd => ?_
    unfold World.noteSuccess at hd
    split at hd <;> exact hd
  exact hnote.setCall (by simp [Phase.inFlight])

theorem Limited.other (h : Limited b w) (hi : Inv b w)
    (henter : ∀ c now, e ≠ .enter c now) (hsucc : ∀ c val, e ≠ .succeed c val)
    (hs : step b w e = some w') : Limited b w' := by
  obtain ⟨w₁, w₂, hw₁, hw₂, hw'⟩ := step_other henter hsucc hs
  have h₁ : Limited b w₁ ∧ Inv b w₁ ∧ w₁.calls = w.calls := by
    rcases hw₁ with rfl | ⟨now, ht⟩
    · exact ⟨h, hi, rfl⟩
    · have hi₁ := hi.tick ht
      have ht := tick_some ht
      subst ht
      exact ⟨h, hi₁, rfl⟩
  obtain ⟨h₁, hi₁, hcalls₁⟩ := h₁
  have h₂ : Limited b w₂ ∧ w₂.calls = w.calls := by
    rcases hw₂ with rfl | ⟨now, rfl⟩ | ⟨inner, now, hr, rfl⟩
    · exact ⟨h₁, hcalls₁⟩
    · exact ⟨h₁.lazy hi₁ now, by rw [setInner_calls, hcalls₁]⟩
    · refine ⟨fun hhalf => ?_, by rw [setInner_calls, hcalls₁]⟩
      rw [setInner_inner] at hhalf
      exact absurd hhalf (recordFailure_status hr).1
  rcases hw' with rfl | ⟨c, p, hflight, -, rfl⟩
  · exact h₂.1
  · exact h₂.1.setCall fun _ => by rw [h₂.2, hflight]

/-- The probes of a half-open breaker stay within the limit exactly in the runs
in which a request comes to it only while fewer are in flight: the breaker
itself turns none away. -/
theorem limited_iff_offered (b : Breaker) (es : List (Event T)) :
    Always (step b) (Limited b) (World.init T) es ↔
      Guarded (step b) (Offered b) (World.init T) es := by
  have hstart : Limited b (World.init T) := by
    intro hhalf
    simp [World.init, CircuitBreaker.new] at hhalf
  refine always_iff_guarded (I := Inv b) (.init b) hstart (fun w e w' hi _ hs _ => hi.step hs) ?_
  intro w e w' hi h hs
  cases e with
  | enter c now => exact limited_enter_iff hi hs
  | succeed c val => exact iff_of_true (h.succeed hs) trivial
  | fail | recordFailure | readNewState | drop | observe =>
    exact iff_of_true (h.other hi (by simp) (by simp) hs) trivial

end

/-- One success closes this breaker, and two requests probe it at once. -/
theorem two_probes_in_flight :
    ∃ w, run (step quickBreaker) (World.init Unit)
        (probing ++ [.enter 3 (1 + fromSecs 60)]) = some w ∧
      w.inner.status = .halfOpen ∧ w.Probing 2 ∧ w.Probing 3 ∧ ¬ Limited quickBreaker w := by
  have hrun : ∃ w, run (step quickBreaker) (World.init Unit)
      (probing ++ [.enter 3 (1 + fromSecs 60)]) = some w ∧
      w.inner.status = .halfOpen ∧ w.Probing 2 ∧ w.Probing 3 := by
    refine ⟨_, rfl, ?_⟩
    unfold World.Probing
    decide
  obtain ⟨w, hw, hhalf, htwo, hthree⟩ := hrun
  refine ⟨w, hw, hhalf, htwo, hthree, fun h => ?_⟩
  have hcard := h hhalf {2, 3} (by simp [htwo, hthree])
  exact absurd hcard (by decide)

end Rinfra.Resilience
