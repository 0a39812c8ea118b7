import Mathlib.Data.List.Nodup
import Mathlib.Data.List.Perm.Basic
import Mathlib.Logic.Function.Basic

/-!
# Listing a map

A map from keys to values that have their keys in them, and a list of its values.
Which list it is, is left open: two lists of one map are permutations.
-/

namespace Rinfra.Lib

variable {κ τ : Type} {key : τ → κ} {m : κ → Option τ} {ts us : List τ}

/-- The values of the map, each of them once. -/
structure Lists (key : τ → κ) (m : κ → Option τ) (ts : List τ) : Prop where
  nodup : (ts.map key).Nodup
  mem : ∀ k t, m k = some t ↔ t ∈ ts ∧ key t = k

def those (m : κ → Option τ) (p : τ → Bool) (k : κ) : Option τ := (m k).filter p

@[simp] theorem those_true (m : κ → Option τ) : those m (fun _ => true) = m := by
  funext k
  rw [those]
  cases m k <;> rfl

namespace Lists

theorem nil : Lists key (fun _ => none) [] := ⟨.nil, by simp⟩

theorem perm (h : Lists key m ts) (hperm : us.Perm ts) : Lists key m us where
  nodup := (hperm.map key).nodup_iff.mpr h.nodup
  mem k t := by rw [h.mem, hperm.mem_iff]

theorem unique (h : Lists key m ts) (h' : Lists key m us) : ts.Perm us := by
  rw [List.perm_ext_iff_of_nodup (.of_map key h.nodup) (.of_map key h'.nodup)]
  intro t
  have hts := h.mem (key t) t
  have hus := h'.mem (key t) t
  simp only [and_true] at hts hus
  rw [← hts, hus]

theorem filter (h : Lists key m ts) (p : τ → Bool) : Lists key (those m p) (ts.filter p) where
  nodup := (List.filter_sublist.map key).nodup h.nodup
  mem k t := by
    rw [those, Option.filter_eq_some_iff, h.mem, List.mem_filter]
    tauto

theorem insert [DecidableEq κ] (h : Lists key m ts) {t : τ} (hnew : m (key t) = none) :
    Lists key (Function.update m (key t) (some t)) (t :: ts) where
  nodup := by
    have hout : ∀ u ∈ ts, key u ≠ key t := by
      intro u hu heq
      have hmem := (h.mem (key t) u).mpr ⟨hu, heq⟩
      rw [hnew] at hmem
      cases hmem
    simpa using ⟨hout, h.nodup⟩
  mem k u := by
    by_cases hk : k = key t
    · subst hk
      have hout : ¬ (u ∈ ts ∧ key u = key t) := by
        rw [← h.mem, hnew]
        nofun
      simp only [Function.update_self, Option.some.injEq, List.mem_cons]
      constructor
      · rintro rfl
        exact ⟨.inl rfl, rfl⟩
      · rintro ⟨rfl | hu, hkey⟩
        · rfl
        · exact absurd ⟨hu, hkey⟩ hout
    · simp only [Function.update_of_ne hk, h.mem, List.mem_cons]
      constructor
      · rintro ⟨hu, rfl⟩
        exact ⟨.inr hu, rfl⟩
      · rintro ⟨rfl | hu, rfl⟩
        · exact absurd rfl hk
        · exact ⟨hu, rfl⟩

theorem filter_key [DecidableEq κ] (h : Lists key m ts) (k : κ) :
    ts.filter (fun t => key t = k) = (m k).toList := by
  have hlists := h.filter fun t => key t = k
  cases hk : m k with
  | none =>
    rw [Option.toList_none, List.filter_eq_nil_iff]
    intro t ht heq
    have hmem := (h.mem k t).mpr ⟨ht, by simpa using heq⟩
    rw [hk] at hmem
    cases hmem
  | some u =>
    have hu := (h.mem k u).mp hk
    have hone : Lists key (those m fun t => key t = k) [u] := by
      refine ⟨List.nodup_singleton _, fun j t => ?_⟩
      rw [hlists.mem, List.mem_filter, List.mem_singleton]
      constructor
      · rintro ⟨⟨ht, htk⟩, hj⟩
        have hmem := (h.mem k t).mpr ⟨ht, by simpa using htk⟩
        rw [hk] at hmem
        cases hmem
        exact ⟨rfl, hj⟩
      · rintro ⟨rfl, hj⟩
        exact ⟨⟨hu.1, by simpa using hu.2⟩, hj⟩
    exact List.perm_singleton.mp (hlists.unique hone)

theorem erase [DecidableEq κ] (h : Lists key m ts) (k : κ) :
    Lists key (Function.update m k none) (ts.filter fun t => key t ≠ k) := by
  have hthose : those m (fun t => key t ≠ k) = Function.update m k none := by
    funext j
    have hkey : ∀ t, m j = some t → key t = j := fun t ht => ((h.mem j t).mp ht).2
    by_cases hj : j = k
    · subst hj
      cases ht : m j with
      | none => simp [those, ht]
      | some t => simp [those, ht, hkey t ht]
    · cases ht : m j with
      | none => simp [those, ht, hj]
      | some t => simp [those, ht, hkey t ht, hj]
  rw [← hthose]
  exact h.filter _

theorem split [DecidableEq κ] (h : Lists key m ts) {u : τ} (hu : m k = some u) :
    ∃ others, ts.Perm (u :: others) ∧ Lists key (Function.update m k none) others := by
  refine ⟨_, ?_, h.erase k⟩
  have hparts := List.filter_append_perm (fun t => decide (key t = k)) ts
  rw [h.filter_key, hu] at hparts
  simpa using hparts.symm

end Lists

end Rinfra.Lib
