import Mathlib.Logic.Function.Basic

/-!
# Indexes of a growing list

An index gives for a key a position of a list. Elements are only appended, and the key
of a new one is made to point at it, whatever it pointed at before. So an index
never points outside the list or at an element with another key, and an element is found
until another of its key is appended.
-/

namespace Rinfra.Lib

section
variable {α κ : Type} (key : α → κ)

/-- Where the index points, there is an element with that key. -/
def Points (index : κ → Option Nat) (xs : List α) : Prop :=
  ∀ k, ∀ i ∈ index k, ∃ x, xs[i]? = some x ∧ key x = k

def pointed (index : κ → Option Nat) (xs : List α) (k : κ) : Option α :=
  (index k).bind fun i => xs[i]?

/-- The key of a new element points at it. -/
def pushIndex [DecidableEq κ] (index : κ → Option Nat) (xs : List α) (x : α) : κ → Option Nat :=
  Function.update index (key x) (some xs.length)

variable {key} {index : κ → Option Nat} {xs : List α} {x y : α}

theorem Points.nil : Points key (fun _ => none) [] := fun _ _ hi => nomatch hi

theorem Points.lt_length (h : Points key index xs) (hi : i ∈ index k) : i < xs.length := by
  obtain ⟨x, hx, -⟩ := h k i hi
  exact (List.getElem?_eq_some_iff.mp hx).1

theorem Points.key_eq (h : Points key index xs) (hx : pointed index xs k = some x) :
    key x = k := by
  obtain ⟨i, hi, hget⟩ := Option.bind_eq_some_iff.mp hx
  obtain ⟨y, hy, hkey⟩ := h k i hi
  obtain rfl := Option.some.inj (hget.symm.trans hy)
  exact hkey

theorem Points.isSome_iff (h : Points key index xs) :
    (index k).isSome ↔ ∃ x, pointed index xs k = some x := by
  constructor
  · intro hsome
    obtain ⟨i, hi⟩ := Option.isSome_iff_exists.mp hsome
    obtain ⟨x, hx, -⟩ := h k i hi
    exact ⟨x, Option.bind_eq_some_iff.mpr ⟨i, hi, hx⟩⟩
  · rintro ⟨x, hx⟩
    obtain ⟨i, hi, -⟩ := Option.bind_eq_some_iff.mp hx
    exact Option.isSome_iff_exists.mpr ⟨i, hi⟩

variable [DecidableEq κ]

theorem Points.push (h : Points key index xs) (x : α) :
    Points key (pushIndex key index xs x) (xs ++ [x]) := by
  intro k i hi
  by_cases hk : k = key x
  · rw [hk, pushIndex, Function.update_self] at hi
    obtain rfl := Option.some.inj hi
    exact ⟨x, List.getElem?_concat_length, hk.symm⟩
  · rw [pushIndex, Function.update_of_ne hk] at hi
    obtain ⟨y, hy, hkey⟩ := h k i hi
    have hlt : i < xs.length := h.lt_length hi
    exact ⟨y, (List.getElem?_append_left hlt).trans hy, hkey⟩

theorem pointed_push_self :
    pointed (pushIndex key index xs x) (xs ++ [x]) (key x) = some x := by
  simp [pointed, pushIndex]

theorem Points.pointed_push_of_ne (h : Points key index xs) (hk : k ≠ key x) :
    pointed (pushIndex key index xs x) (xs ++ [x]) k = pointed index xs k := by
  unfold pointed pushIndex
  rw [Function.update_of_ne hk]
  cases hi : index k with
  | none => rfl
  | some i => exact List.getElem?_append_left (h.lt_length hi)

/-- A new element hides those that have its key. -/
theorem Points.pointed_push_iff (h : Points key index xs) (hne : y ≠ x)
    (hy : pointed index xs (key y) = some y) :
    pointed (pushIndex key index xs x) (xs ++ [x]) (key y) = some y ↔ key y ≠ key x := by
  constructor
  · intro hfound hkey
    rw [hkey, pointed_push_self] at hfound
    exact hne (Option.some.inj hfound).symm
  · exact fun hkey => (h.pointed_push_of_ne hkey).trans hy

end

end Rinfra.Lib
