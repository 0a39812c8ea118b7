/-!
# Lists whose entries change in place

The parties of a system in a list, each with its own place: what is counted of them,
and who is among them, when one entry is replaced.
-/

namespace Rinfra.Lib

section
variable {α : Type} {l : List α} {i : Nat} {a b : α}

theorem countP_set_add (p : α → Bool) (h : l[i]? = some a) :
    (l.set i b).countP p + (if p a then 1 else 0) = l.countP p + if p b then 1 else 0 := by
  obtain ⟨hi, hget⟩ := List.getElem?_eq_some_iff.mp h
  rw [List.countP_set hi, hget]
  cases hp : p a with
  | false => rfl
  | true =>
    have hpos : 0 < l.countP p := List.countP_pos_iff.mpr ⟨a, List.mem_of_getElem? h, hp⟩
    simp only [if_true]
    omega

theorem countP_set_same (p : α → Bool) (h : l[i]? = some a) (hp : p b = p a) :
    (l.set i b).countP p = l.countP p := by
  have hadd := countP_set_add (b := b) p h
  rw [hp] at hadd
  exact Nat.add_right_cancel hadd

theorem mem_set_of_ne {x : α} (h : l[i]? = some a) (hmem : x ∈ l) (hne : x ≠ a) :
    x ∈ l.set i b := by
  obtain ⟨j, hj⟩ := List.mem_iff_getElem?.mp hmem
  have hij : i ≠ j := by
    rintro rfl
    exact hne (Option.some.inj (hj.symm.trans h))
  refine List.mem_of_getElem? (i := j) ?_
  rw [List.getElem?_set_ne hij]
  exact hj

theorem mem_set_self (h : l[i]? = some a) : b ∈ l.set i b := by
  obtain ⟨hi, -⟩ := List.getElem?_eq_some_iff.mp h
  exact List.mem_set hi b

end

end Rinfra.Lib
