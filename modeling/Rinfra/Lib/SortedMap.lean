import Mathlib.Data.List.Induction
import Mathlib.Data.List.Nodup
import Mathlib.Order.Basic
import Mathlib.Order.Defs.LinearOrder
import Mathlib.Order.Lattice
import Mathlib.Tactic.WLOG

/-!
# Maps as sorted lists of entries

An insertion replaces the entry of its key, or goes before the first larger key.
Insertions at different keys can be swapped, whatever the list is, so the laws
below need no invariant.
-/

namespace Rinfra.Lib.SortedMap

open scoped List

variable {κ α : Type} [LinearOrder κ] {k k' m : κ} {l rest : List (κ × α)}

def get (k : κ) : List (κ × α) → Option α
  | [] => none
  | (k', v) :: rest => if k = k' then some v else get k rest

def insert (k : κ) (v : α) : List (κ × α) → List (κ × α)
  | [] => [(k, v)]
  | (k', v') :: rest =>
    if k = k' then (k, v) :: rest
    else if k < k' ∧ (get k rest).isNone then (k, v) :: (k', v') :: rest
    else (k', v') :: insert k v rest

@[simp] theorem get_nil (k : κ) : get k ([] : List (κ × α)) = none := rfl

@[simp] theorem insert_nil (k : κ) (v : α) : insert k v [] = [(k, v)] := rfl

theorem insert_cons (k : κ) (v u : α) (m : κ) (rest : List (κ × α)) :
    insert k v ((m, u) :: rest) =
      if k = m then (k, v) :: rest
      else if k < m ∧ (get k rest).isNone then (k, v) :: (m, u) :: rest
      else (m, u) :: insert k v rest := rfl

theorem insert_same (k : κ) (v u : α) (rest : List (κ × α)) :
    insert k v ((k, u) :: rest) = (k, v) :: rest := if_pos rfl

theorem insert_here (hne : k ≠ m) (h : k < m ∧ (get k rest).isNone) (v u : α) :
    insert k v ((m, u) :: rest) = (k, v) :: (m, u) :: rest := by
  rw [insert_cons, if_neg hne, if_pos h]

theorem insert_later (hne : k ≠ m) (h : ¬ (k < m ∧ (get k rest).isNone)) (v u : α) :
    insert k v ((m, u) :: rest) = (m, u) :: insert k v rest := by
  rw [insert_cons, if_neg hne, if_neg h]

theorem get_cons_ne (hne : k ≠ m) (u : α) (rest : List (κ × α)) :
    get k ((m, u) :: rest) = get k rest := if_neg hne

@[simp] theorem get_cons_self (k : κ) (v : α) (rest : List (κ × α)) :
    get k ((k, v) :: rest) = some v := if_pos rfl

@[simp] theorem get_insert_self (k : κ) (v : α) (l : List (κ × α)) :
    get k (insert k v l) = some v := by
  induction l with
  | nil => simp
  | cons e rest ih =>
    obtain ⟨m, u⟩ := e
    rw [insert_cons]
    split
    · simp
    · split
      · simp
      · rename_i hne _
        rw [get_cons_ne hne, ih]

theorem get_insert_of_ne (h : k' ≠ k) (v : α) (l : List (κ × α)) :
    get k' (insert k v l) = get k' l := by
  induction l with
  | nil => simp [get_cons_ne h]
  | cons e rest ih =>
    obtain ⟨m, u⟩ := e
    rw [insert_cons]
    split
    · rename_i heq
      subst heq
      rw [get_cons_ne h, get_cons_ne h]
    · split
      · rw [get_cons_ne h]
      · by_cases hm : k' = m
        · rw [hm, get_cons_self, get_cons_self]
        · rw [get_cons_ne hm, get_cons_ne hm, ih]

theorem get_insert (k k' : κ) (v : α) (l : List (κ × α)) :
    get k' (insert k v l) = if k' = k then some v else get k' l := by
  split
  · rename_i h
    rw [h, get_insert_self]
  · rename_i h
    exact get_insert_of_ne h v l

theorem insert_perm_of_none (h : get k l = none) (v : α) : insert k v l ~ (k, v) :: l := by
  induction l with
  | nil => exact .refl _
  | cons e rest ih =>
    obtain ⟨m, u⟩ := e
    by_cases hm : k = m
    · simp [hm] at h
    · rw [get_cons_ne hm] at h
      by_cases hc : k < m ∧ (get k rest).isNone
      · rw [insert_here hm hc]
      · rw [insert_later hm hc]
        exact ((ih h).cons _).trans (.swap _ _ _)

theorem mem_insert {e : κ × α} {v : α} (h : e ∈ insert k v l) : e = (k, v) ∨ e ∈ l := by
  induction l with
  | nil => simpa using h
  | cons e' rest ih =>
    obtain ⟨m, u⟩ := e'
    rw [insert_cons] at h
    split at h
    · exact (List.mem_cons.mp h).imp_right (List.mem_cons_of_mem _)
    · split at h
      · exact List.mem_cons.mp h
      · rcases List.mem_cons.mp h with rfl | h
        · exact .inr List.mem_cons_self
        · exact (ih h).imp_right (List.mem_cons_of_mem _)

def ofList (entries : List (κ × α)) : List (κ × α) :=
  entries.foldl (fun l e => insert e.1 e.2 l) []

theorem foldl_insert_perm {entries : List (κ × α)} (hnodup : (entries.map Prod.fst).Nodup)
    (hnew : ∀ e ∈ entries, get e.1 l = none) :
    entries.foldl (fun l e => insert e.1 e.2 l) l ~ entries ++ l := by
  induction entries generalizing l with
  | nil => exact .refl _
  | cons e entries ih =>
    simp only [List.map_cons, List.nodup_cons, List.mem_map, not_exists, not_and] at hnodup
    simp only [List.forall_mem_cons] at hnew
    have hrest : ∀ e' ∈ entries, get e'.1 (insert e.1 e.2 l) = none := by
      intro e' he'
      rw [get_insert_of_ne (hnodup.1 e' he')]
      exact hnew.2 e' he'
    exact (ih hnodup.2 hrest).trans
      (((insert_perm_of_none hnew.1 e.2).append_left entries).trans List.perm_middle)

theorem ofList_perm {entries : List (κ × α)} (hnodup : (entries.map Prod.fst).Nodup) :
    ofList entries ~ entries := by
  simpa [ofList] using foldl_insert_perm (l := []) hnodup fun _ _ => rfl

theorem insert_perm_of_some (h : get k l = some u) (v : α) :
    ∃ rest, l ~ (k, u) :: rest ∧ insert k v l ~ (k, v) :: rest := by
  induction l with
  | nil => cases h
  | cons e rest ih =>
    obtain ⟨m, u'⟩ := e
    by_cases hm : k = m
    · subst hm
      rw [get_cons_self] at h
      obtain rfl := Option.some.inj h
      exact ⟨rest, .refl _, by rw [insert_same]⟩
    · rw [get_cons_ne hm] at h
      obtain ⟨rest', hold, hnew⟩ := ih h
      rw [insert_later hm (by simp [h])]
      exact ⟨(m, u') :: rest', (hold.cons _).trans (.swap _ _ _),
        (hnew.cons _).trans (.swap _ _ _)⟩

theorem insert_get (h : get k l = some v) : insert k v l = l := by
  induction l with
  | nil => cases h
  | cons e rest ih =>
    obtain ⟨m, u⟩ := e
    by_cases hm : k = m
    · subst hm
      rw [get_cons_self] at h
      rw [insert_same, Option.some.inj h]
    · rw [get_cons_ne hm] at h
      rw [insert_later hm (by simp [h]), ih h]

@[simp] theorem insert_insert (k : κ) (v v' : α) (l : List (κ × α)) :
    insert k v (insert k v' l) = insert k v l := by
  induction l with
  | nil => simp [insert_same]
  | cons e rest ih =>
    obtain ⟨m, u⟩ := e
    by_cases hm : k = m
    · subst hm
      simp only [insert_same]
    · by_cases hc : k < m ∧ (get k rest).isNone
      · rw [insert_here hm hc, insert_here hm hc, insert_same]
      · rw [insert_later hm hc, insert_later hm hc, insert_later hm (by simp), ih]

theorem insert_comm (h : k ≠ k') (v v' : α) (l : List (κ × α)) :
    insert k v (insert k' v' l) = insert k' v' (insert k v l) := by
  wlog hlt : k < k' generalizing k k' v v'
  · exact (this h.symm v' v (lt_of_le_of_ne (not_lt.mp hlt) h.symm)).symm
  have hgt : ¬ k' < k := lt_asymm hlt
  induction l with
  | nil => simp [insert_cons, h, h.symm, hlt, hgt]
  | cons e rest ih =>
    obtain ⟨m, u⟩ := e
    have hk : ∀ l : List (κ × α), (get k (insert k' v' l)).isNone = (get k l).isNone :=
      fun l => by rw [get_insert_of_ne h]
    have hk' : ∀ l : List (κ × α), (get k' (insert k v l)).isNone = (get k' l).isNone :=
      fun l => by rw [get_insert_of_ne h.symm]
    have hback : ∀ rest : List (κ × α),
        insert k' v' ((k, v) :: rest) = (k, v) :: insert k' v' rest :=
      fun rest => insert_later h.symm (fun hc => hgt hc.1) v' v
    by_cases hm : k = m
    · subst hm
      rw [insert_later h.symm (fun hc => hgt hc.1), insert_same, insert_same, hback]
    by_cases hm' : k' = m
    · subst hm'
      rw [insert_same]
      by_cases hc : k < k' ∧ (get k rest).isNone
      · rw [insert_here h hc, insert_here h hc, hback, insert_same]
      · rw [insert_later h hc, insert_later h hc, insert_same]
    by_cases hc : k < m ∧ (get k rest).isNone
    · rw [insert_here hm hc, hback]
      by_cases hc' : k' < m ∧ (get k' rest).isNone
      · rw [insert_here hm' hc', insert_here h ⟨hlt, by rw [get_cons_ne hm]; exact hc.2⟩]
      · rw [insert_later hm' hc', insert_here hm (by rwa [hk])]
    · rw [insert_later hm hc]
      by_cases hc' : k' < m ∧ (get k' rest).isNone
      · -- `k` is smaller than `m` too, so its entry comes later
        have hsome : ¬ (get k rest).isNone := fun hnone => hc ⟨hlt.trans hc'.1, hnone⟩
        have hlater : ¬ (k < k' ∧ (get k ((m, u) :: rest)).isNone) := by
          rw [get_cons_ne hm]
          exact fun hc => hsome hc.2
        rw [insert_here hm' hc', insert_later h hlater, insert_later hm hc,
          insert_here hm' (by rwa [hk'])]
      · rw [insert_later hm' hc', insert_later hm (by rwa [hk]), insert_later hm' (by rwa [hk']),
          ih]

-- ---------------------------------------------------------------------------
-- Lists of entries
-- ---------------------------------------------------------------------------

section
variable {entries : List (κ × α)}

theorem ofList_append (entries : List (κ × α)) (e : κ × α) :
    ofList (entries ++ [e]) = insert e.1 e.2 (ofList entries) := by
  simp [ofList]

/-- The last entry of a key is the one that is kept. -/
theorem get_ofList_append (entries : List (κ × α)) (e : κ × α) (k : κ) :
    get k (ofList (entries ++ [e])) = if k = e.1 then some e.2 else get k (ofList entries) := by
  rw [ofList_append, get_insert]

theorem mem_of_get_ofList {v : α} (h : get k (ofList entries) = some v) : (k, v) ∈ entries := by
  induction entries using List.reverseRecOn with
  | nil => cases h
  | append_singleton entries e ih =>
    rw [get_ofList_append] at h
    split at h
    · rename_i heq
      obtain rfl := Option.some.inj h
      exact List.mem_append_right _ (by simp [heq])
    · exact List.mem_append_left _ (ih h)

theorem get_ofList_eq_none : get k (ofList entries) = none ↔ k ∉ entries.map Prod.fst := by
  induction entries using List.reverseRecOn with
  | nil => simp [ofList]
  | append_singleton entries e ih =>
    rw [get_ofList_append]
    split
    · rename_i heq
      simp [heq]
    · rename_i hne
      rw [ih]
      simp [hne]

theorem get_ofList_of_mem {v : α} (hnodup : (entries.map Prod.fst).Nodup)
    (hmem : (k, v) ∈ entries) : get k (ofList entries) = some v := by
  cases hget : get k (ofList entries) with
  | none => exact absurd (List.mem_map_of_mem hmem) (get_ofList_eq_none.mp hget)
  | some u =>
    have hsame := List.inj_on_of_nodup_map hnodup (mem_of_get_ofList hget) hmem rfl
    rw [(Prod.mk.inj hsame).2]

theorem length_insert (k : κ) (v : α) (l : List (κ × α)) :
    (insert k v l).length = l.length + if get k l = none then 1 else 0 := by
  cases hget : get k l with
  | none => simp [(insert_perm_of_none hget v).length_eq]
  | some u =>
    obtain ⟨rest, hold, hnew⟩ := insert_perm_of_some hget v
    simp [hold.length_eq, hnew.length_eq]

/-- There are as many entries as were put in if and only if none was replaced. -/
theorem length_ofList_iff :
    (ofList entries).length ≤ entries.length ∧
      ((ofList entries).length = entries.length ↔ (entries.map Prod.fst).Nodup) := by
  induction entries using List.reverseRecOn with
  | nil => simp [ofList]
  | append_singleton entries e ih =>
    obtain ⟨hle, hiff⟩ := ih
    have hnodup : ((entries ++ [e]).map Prod.fst).Nodup ↔
        (entries.map Prod.fst).Nodup ∧ e.1 ∉ entries.map Prod.fst := by
      rw [List.map_append, List.map_singleton, List.nodup_append_comm, List.singleton_append,
        List.nodup_cons, and_comm]
    rw [hnodup, ← hiff, ← get_ofList_eq_none, ofList_append, length_insert, List.length_append,
      List.length_singleton]
    split
    · rename_i hnew
      simp [hnew, hle]
    · rename_i hold
      simp only [hold, and_false, iff_false, Nat.add_zero]
      omega

end

end Rinfra.Lib.SortedMap
