import Mathlib.Algebra.Order.Field.Basic
import Mathlib.Data.List.Pairwise
import Mathlib.Tactic.Linarith
import Mathlib.Tactic.Ring

/-!
# Metering

A machine answers calls one after the other; a call comes with the time it is
made at. A meter grants some of the calls. If a potential pays for each grant,
gains no more than `rate` a second and stays within its bounds, then it bounds
the grants of every window of time.

The potential of a token bucket is what it holds: `refill`.
-/

namespace Rinfra.Lib

-- ---------------------------------------------------------------------------
-- Machines that answer
-- ---------------------------------------------------------------------------

section
variable {σ ε α τ : Type} (step : σ → ε → α × σ)

def answers : σ → List ε → List (ε × α)
  | _, [] => []
  | s, e :: es => (e, (step s e).1) :: answers (step s e).2 es

def after : σ → List ε → σ
  | s, [] => s
  | s, e :: es => after (step s e).2 es

variable {step}

theorem after_invariant {P : σ → Prop} (h : P s) (hstep : ∀ s e, P s → P (step s e).2) :
    P (after step s es) := by
  induction es generalizing s with
  | nil => exact h
  | cons e es ih => exact ih (hstep s e h)

/-- Calls that are answered from one part of the state and leave it alone
otherwise are answered as if there were no others. -/
theorem answers_filter (obs : σ → τ) (mine : ε → Bool)
    (hothers : ∀ s e, mine e = false → obs (step s e).2 = obs s)
    (hmine : ∀ s s' e, mine e = true → obs s = obs s' →
      (step s e).1 = (step s' e).1 ∧ obs (step s e).2 = obs (step s' e).2)
    (h : obs s = obs s') :
    (answers step s es).filter (fun a => mine a.1) = answers step s' (es.filter mine) := by
  induction es generalizing s s' with
  | nil => rfl
  | cons e es ih =>
    cases he : mine e with
    | false =>
      rw [answers, List.filter_cons_of_neg (by simp [he]), List.filter_cons_of_neg (by simp [he])]
      exact ih ((hothers s e he).trans h)
    | true =>
      obtain ⟨hanswer, hobs⟩ := hmine s s' e he h
      rw [answers, List.filter_cons_of_pos (by exact he), List.filter_cons_of_pos he, answers,
        hanswer, ih hobs]

theorem mem_of_answers (h : (e, answer) ∈ answers step s es) : e ∈ es := by
  induction es generalizing s with
  | nil => cases h
  | cons e' es ih =>
    rcases List.mem_cons.mp h with heq | h
    · cases heq
      exact List.mem_cons_self
    · exact List.mem_cons_of_mem _ (ih h)

end

-- ---------------------------------------------------------------------------
-- Grants within a window
-- ---------------------------------------------------------------------------

section
variable {σ ε α K : Type} [Field K] [LinearOrder K] [IsStrictOrderedRing K]

def granted (step : σ → ε → α × σ) (time : ε → K) (grants : ε × α → Bool) (start stop : K)
    (s : σ) (es : List ε) : Nat :=
  (answers step s es).countP fun a => grants a ∧ start ≤ time a.1 ∧ time a.1 ≤ stop

/-- A call within the window pays for its grant with potential, and potential
grows with time by no more than the rate. -/
structure Metered (step : σ → ε → α × σ) (time : ε → K) (grants : ε × α → Bool)
    (potential : σ → K → K) (rate bound : K) (Inv : σ → Prop) (Counts : ε → Prop) : Prop where
  inv : ∀ s e, Inv s → Inv (step s e).2
  nonneg : ∀ s t, Inv s → 0 ≤ potential s t
  le_bound : ∀ s t, Inv s → potential s t ≤ bound
  wait : ∀ s t u, Inv s → t ≤ u → potential s u ≤ potential s t + rate * (u - t)
  pays : ∀ s e, Inv s → Counts e → grants (e, (step s e).1) = true →
    potential (step s e).2 (time e) + 1 ≤ potential s (time e)
  keeps : ∀ s e, Inv s → Counts e → potential (step s e).2 (time e) ≤ potential s (time e)

variable {step : σ → ε → α × σ} {time : ε → K} {grants : ε × α → Bool}
  {potential : σ → K → K} {rate bound start stop : K} {Inv : σ → Prop} {Counts : ε → Prop}

omit [Field K] [IsStrictOrderedRing K] in
theorem granted_cons :
    granted step time grants start stop s (e :: es) =
      granted step time grants start stop (step s e).2 es +
        if grants (e, (step s e).1) ∧ start ≤ time e ∧ time e ≤ stop then 1 else 0 := by
  simp [granted, answers, List.countP_cons]

/-- From a time on, there are no more grants than the potential then and what it
gains until the end. -/
theorem Metered.granted_from
    (h : Metered step time grants potential rate bound Inv Counts) (hrate : 0 ≤ rate) (hi : Inv s)
    (hsorted : es.Pairwise fun e e' => time e ≤ time e') (hfrom : ∀ e ∈ es, t ≤ time e)
    (hstart : start ≤ t) (hstop : t ≤ stop)
    (hcounts : ∀ e ∈ es, start ≤ time e → time e ≤ stop → Counts e) :
    (granted step time grants start stop s es : K) ≤ potential s t + rate * (stop - t) := by
  induction es generalizing s t with
  | nil =>
    have hnonneg := add_nonneg (h.nonneg s t hi) (mul_nonneg hrate (sub_nonneg.mpr hstop))
    simpa [granted, answers] using hnonneg
  | cons e es ih =>
    obtain ⟨hle, hsorted⟩ := List.pairwise_cons.mp hsorted
    have ht : t ≤ time e := hfrom e List.mem_cons_self
    have hcounts' : ∀ e' ∈ es, start ≤ time e' → time e' ≤ stop → Counts e' :=
      fun e' he' => hcounts e' (List.mem_cons_of_mem _ he')
    by_cases he : time e ≤ stop
    · have hcount : Counts e := hcounts e List.mem_cons_self (hstart.trans ht) he
      have hrest := ih (h.inv s e hi) hsorted hle (hstart.trans ht) he hcounts'
      have hwait := h.wait s t (time e) hi ht
      have hrate' : rate * (time e - t) + rate * (stop - time e) = rate * (stop - t) := by ring
      rw [granted_cons]
      push_cast
      split
      · rename_i hgrant
        have hpays := h.pays s e hi hcount hgrant.1
        linarith
      · have hkeeps := h.keeps s e hi hcount
        linarith
    · -- nothing that comes later is in the window either
      have hnone : granted step time grants start stop (step s e).2 es = 0 := by
        rw [granted, List.countP_eq_zero]
        rintro ⟨e', answer⟩ hmem hgrant
        simp only [decide_eq_true_eq] at hgrant
        exact he ((hle e' (mem_of_answers hmem)).trans hgrant.2.2)
      have hnonneg := add_nonneg (h.nonneg s t hi) (mul_nonneg hrate (sub_nonneg.mpr hstop))
      rw [granted_cons, hnone, if_neg fun hgrant => he hgrant.2.2]
      simpa using hnonneg

/-- A window has no more grants than the bound and what the potential gains
while it lasts. -/
theorem Metered.granted_le
    (h : Metered step time grants potential rate bound Inv Counts) (hrate : 0 ≤ rate) (hi : Inv s)
    (hsorted : es.Pairwise fun e e' => time e ≤ time e') (hwindow : start ≤ stop)
    (hcounts : ∀ e ∈ es, start ≤ time e → time e ≤ stop → Counts e) :
    (granted step time grants start stop s es : K) ≤ bound + rate * (stop - start) := by
  induction es generalizing s with
  | nil =>
    have hbound := h.le_bound s start hi
    have hfrom := h.granted_from hrate hi hsorted (by simp) le_rfl hwindow hcounts
    linarith
  | cons e es ih =>
    by_cases he : start ≤ time e
    · have hall : ∀ e' ∈ e :: es, start ≤ time e' := by
        intro e' he'
        rcases List.mem_cons.mp he' with rfl | he'
        · exact he
        · exact he.trans (List.rel_of_pairwise_cons hsorted he')
      have hbound := h.le_bound s start hi
      have hfrom := h.granted_from hrate hi hsorted hall le_rfl hwindow hcounts
      linarith
    · rw [granted_cons, if_neg fun hgrant => he hgrant.2.1, Nat.add_zero]
      exact ih (h.inv s e hi) hsorted.of_cons fun e' he' => hcounts e' (List.mem_cons_of_mem _ he')

-- ---------------------------------------------------------------------------
-- Token buckets
-- ---------------------------------------------------------------------------

/-- What a bucket with `level` tokens holds some time later. -/
def refill (bound rate level wait : K) : K := min (level + wait * rate) bound

variable {level wait wait' more : K}

omit [IsStrictOrderedRing K] in
theorem refill_le : refill bound rate level wait ≤ bound := min_le_right _ _

theorem refill_nonneg (hbound : 0 ≤ bound) (hrate : 0 ≤ rate) (hlevel : 0 ≤ level)
    (hwait : 0 ≤ wait) : 0 ≤ refill bound rate level wait :=
  le_min (add_nonneg hlevel (mul_nonneg hwait hrate)) hbound

theorem le_refill (hrate : 0 ≤ rate) (hlevel : level ≤ bound) (hwait : 0 ≤ wait) :
    level ≤ refill bound rate level wait :=
  le_min (le_add_of_nonneg_right (mul_nonneg hwait hrate)) hlevel

omit [IsStrictOrderedRing K] in
@[simp] theorem refill_zero (hlevel : level ≤ bound) : refill bound rate level 0 = level := by
  simp [refill, hlevel]

theorem refill_full (hrate : 0 ≤ rate) (hwait : 0 ≤ wait) :
    refill bound rate bound wait = bound :=
  le_antisymm refill_le (le_refill hrate le_rfl hwait)

theorem refill_add (hrate : 0 ≤ rate) (hmore : 0 ≤ more) (hwait : wait' ≤ wait + more) :
    refill bound rate level wait' ≤ refill bound rate level wait + rate * more := by
  have hgain : wait' * rate ≤ (wait + more) * rate := mul_le_mul_of_nonneg_right hwait hrate
  rw [refill, refill, ← min_add_add_right]
  apply le_min
  · apply (min_le_left _ _).trans
    linarith [hgain, mul_comm rate more, add_mul wait more rate]
  · apply (min_le_right _ _).trans
    exact le_add_of_nonneg_right (mul_nonneg hrate hmore)

end

end Rinfra.Lib
