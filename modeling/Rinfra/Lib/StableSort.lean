import Mathlib.Data.List.Nodup
import Mathlib.Order.Lattice

/-!
# Sorting by a key

The sort is stable: elements of one key stay in the order they are given in. So it
depends on that order exactly where two elements share a key, and there sorting the
other way round is not the reverse either.
-/

namespace Rinfra.Lib

section
variable {α κ : Type} [LinearOrder κ]

def sortByKey (key : α → κ) (l : List α) : List α :=
  l.mergeSort fun a b => decide (key a ≤ key b)

def reverseKey (key : α → κ) (a : α) : κᵒᵈ := OrderDual.toDual (key a)

variable {key : α → κ} {l l' : List α}

theorem sortByKey_perm (key : α → κ) (l : List α) : (sortByKey key l).Perm l :=
  List.mergeSort_perm ..

variable (key) in
theorem keyLE_trans (a b c : α) (hab : decide (key a ≤ key b) = true)
    (hbc : decide (key b ≤ key c) = true) : decide (key a ≤ key c) = true :=
  decide_eq_true ((of_decide_eq_true hab).trans (of_decide_eq_true hbc))

variable (key) in
theorem keyLE_total (a b : α) :
    (decide (key a ≤ key b) || decide (key b ≤ key a)) = true := by
  simpa using le_total (key a) (key b)

theorem sortByKey_ascending (key : α → κ) (l : List α) :
    (sortByKey key l).Pairwise fun a b => key a ≤ key b := by
  simpa [sortByKey] using List.pairwise_mergeSort (keyLE_trans key) (keyLE_total key) l

/-- Elements of one key stay in their order. -/
theorem filter_sortByKey (key : α → κ) (l : List α) (k : κ) :
    (sortByKey key l).filter (key · = k) = l.filter (key · = k) := by
  have hequal : (l.filter (key · = k)).Pairwise fun a b => decide (key a ≤ key b) = true := by
    refine List.pairwise_of_forall_mem_list fun a ha b hb => ?_
    simp only [List.mem_filter, decide_eq_true_eq] at ha hb ⊢
    exact (ha.2.trans hb.2.symm).le
  have hsub := List.sublist_mergeSort (keyLE_trans key) (keyLE_total key) hequal List.filter_sublist
  have hfilter := hsub.filter (key · = k)
  rw [List.filter_filter] at hfilter
  simp only [Bool.and_self] at hfilter
  exact (hfilter.eq_of_length ((sortByKey_perm key l).filter _).length_eq.symm).symm

-- ---------------------------------------------------------------------------
-- Keys that differ
-- ---------------------------------------------------------------------------

theorem eq_of_ascending (hkeys : (l.map key).Nodup) (hperm : l.Perm l')
    (h : l.Pairwise fun a b => key a ≤ key b) (h' : l'.Pairwise fun a b => key a ≤ key b) :
    l = l' := by
  refine List.Perm.eq_of_pairwise (fun a b ha hb hab hba => ?_) h h' hperm
  exact List.inj_on_of_nodup_map hkeys ha (hperm.mem_iff.mpr hb) (le_antisymm hab hba)

theorem nodup_sortByKey (hkeys : (l.map key).Nodup) : ((sortByKey key l).map key).Nodup :=
  ((sortByKey_perm key l).map key).nodup_iff.mpr hkeys

theorem sortByKey_congr (hkeys : (l.map key).Nodup) (hperm : l'.Perm l) :
    sortByKey key l' = sortByKey key l := by
  have hkeys' : (l'.map key).Nodup := (hperm.map key).nodup_iff.mpr hkeys
  have hsorted : (sortByKey key l').Perm (sortByKey key l) :=
    ((sortByKey_perm key l').trans hperm).trans (sortByKey_perm key l).symm
  exact eq_of_ascending (nodup_sortByKey hkeys') hsorted (sortByKey_ascending key l')
    (sortByKey_ascending key l)

theorem sortByKey_reverseKey (hkeys : (l.map key).Nodup) :
    sortByKey (reverseKey key) l = (sortByKey key l).reverse := by
  have hperm : (sortByKey (reverseKey key) l).Perm (sortByKey key l).reverse :=
    (sortByKey_perm _ l).trans ((List.reverse_perm _).trans (sortByKey_perm key l)).symm
  have hkeys' : (l.map (reverseKey key)).Nodup := hkeys
  exact eq_of_ascending (nodup_sortByKey hkeys') hperm (sortByKey_ascending _ l)
    (List.pairwise_reverse.mpr (sortByKey_ascending key l))

-- ---------------------------------------------------------------------------
-- Keys that do not differ
-- ---------------------------------------------------------------------------

theorem length_le_one_of_reverse_eq (hl : l.Nodup) (h : l.reverse = l) : l.length ≤ 1 := by
  by_contra hlen
  have hfirst : l.reverse[0]? = l[l.length - 1]? := by
    rw [List.getElem?_reverse (by omega)]
    rfl
  rw [h] at hfirst
  have hsame : 0 = l.length - 1 := (List.getElem?_inj (by omega) hl).mp hfirst
  omega

theorem nodup_keys_of_reverse (hl : l.Nodup)
    (h : ∀ k, (l.filter (key · = k)).reverse = l.filter (key · = k)) : (l.map key).Nodup := by
  refine (List.nodup_map_iff_inj_on hl).mpr fun a ha b hb hkey => ?_
  have hlen := length_le_one_of_reverse_eq (hl.filter _) (h (key b))
  have hmem : ∀ x ∈ l, key x = key b → x ∈ l.filter (key · = key b) :=
    fun x hx hk => List.mem_filter.mpr ⟨hx, decide_eq_true hk⟩
  obtain ⟨i, hi, hgeti⟩ := List.getElem_of_mem (hmem a ha hkey)
  obtain ⟨j, hj, hgetj⟩ := List.getElem_of_mem (hmem b hb rfl)
  obtain rfl : i = j := by omega
  exact hgeti.symm.trans hgetj

/-- The sort does not depend on the order of the elements exactly where their keys
differ. -/
theorem sortByKey_determined_iff (hl : l.Nodup) :
    (∀ l₁ l₂ : List α, l₁.Perm l → l₂.Perm l → sortByKey key l₁ = sortByKey key l₂) ↔
      (l.map key).Nodup := by
  constructor
  · refine fun h => nodup_keys_of_reverse hl fun k => ?_
    rw [← List.filter_reverse, ← filter_sortByKey key l.reverse, ← filter_sortByKey key l,
      h l.reverse l (List.reverse_perm l) (.refl l)]
  · exact fun hkeys l₁ l₂ h₁ h₂ =>
      (sortByKey_congr hkeys h₁).trans (sortByKey_congr hkeys h₂).symm

theorem sortByKey_mirrored_iff (hl : l.Nodup) :
    sortByKey (reverseKey key) l = (sortByKey key l).reverse ↔ (l.map key).Nodup := by
  constructor
  · refine fun h => nodup_keys_of_reverse hl fun k => ?_
    have hrev := filter_sortByKey (reverseKey key) l (OrderDual.toDual k)
    simp only [reverseKey, OrderDual.toDual_inj] at hrev
    rw [← filter_sortByKey key l, ← List.filter_reverse, ← h]
    exact hrev.trans (filter_sortByKey key l k).symm
  · exact sortByKey_reverseKey

end

end Rinfra.Lib
