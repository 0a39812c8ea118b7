/-!
# Streams of lines

A line ends with its terminator, and both sides of a pipe read up to the next
one. What a stream that ends with its only terminator has as its first line
does not depend on how the stream is cut.
-/

namespace Rinfra.Lib

section
variable {β : Type} [DecidableEq β] {nl : β} {bs line rest xs ys : List β}

def takeLine (nl : β) : List β → Option (List β × List β)
  | [] => none
  | b :: bs =>
    if b = nl then some ([], bs)
    else (takeLine nl bs).map fun (line, rest) => (b :: line, rest)

@[simp] theorem takeLine_nil : takeLine nl [] = none := rfl

theorem takeLine_cons : takeLine nl (b :: bs) =
    if b = nl then some ([], bs)
    else (takeLine nl bs).map fun (line, rest) => (b :: line, rest) := rfl

theorem takeLine_eq_some :
    takeLine nl bs = some (line, rest) ↔ bs = line ++ nl :: rest ∧ nl ∉ line := by
  induction bs generalizing line with
  | nil => simp
  | cons b bs ih =>
    cases line with
    | nil =>
      by_cases hb : b = nl
      · simp [takeLine_cons, hb]
      · simp [takeLine_cons, hb]
    | cons b' line =>
      by_cases hb : b = nl
      · simp only [takeLine_cons, if_pos hb, List.cons_append, List.cons.injEq, List.mem_cons,
          not_or]
        constructor
        · rintro ⟨⟩
        · rintro ⟨⟨rfl, -⟩, hne, -⟩
          exact absurd hb.symm hne
      · simp only [takeLine_cons, if_neg hb, Option.map_eq_some_iff, Prod.exists, Prod.mk.injEq,
          List.cons.injEq, List.cons_append, List.mem_cons, not_or]
        constructor
        · rintro ⟨l, r, h, ⟨rfl, rfl⟩, rfl⟩
          obtain ⟨rfl, hl⟩ := ih.mp h
          exact ⟨⟨rfl, rfl⟩, Ne.symm hb, hl⟩
        · rintro ⟨⟨rfl, hbs⟩, -, hl⟩
          exact ⟨line, rest, ih.mpr ⟨hbs, hl⟩, ⟨rfl, rfl⟩, rfl⟩

theorem takeLine_line (h : nl ∉ line) : takeLine nl (line ++ nl :: rest) = some (line, rest) := by
  rw [takeLine_eq_some]
  exact ⟨rfl, h⟩

theorem takeLine_eq_none : takeLine nl bs = none ↔ nl ∉ bs := by
  induction bs with
  | nil => simp
  | cons b bs ih =>
    by_cases hb : b = nl
    · simp [takeLine_cons, hb]
    · simp [takeLine_cons, hb, ih, Ne.symm hb]

theorem takeLine_append (h : takeLine nl xs = some (line, rest)) (ys : List β) :
    takeLine nl (xs ++ ys) = some (line, rest ++ ys) := by
  rw [takeLine_eq_some] at h
  obtain ⟨rfl, hl⟩ := h
  rw [List.append_assoc, List.cons_append]
  exact takeLine_line hl

theorem takeLine_rest (h : takeLine nl bs = some (line, rest)) :
    rest = bs.drop (line.length + 1) := by
  rw [takeLine_eq_some] at h
  obtain ⟨rfl, -⟩ := h
  simp

theorem takeLine_take (h : takeLine nl (bs.take n) = some (line, rest)) :
    takeLine nl bs = some (line, bs.drop (line.length + 1)) := by
  have hbs := takeLine_append h (bs.drop n)
  rw [List.take_append_drop] at hbs
  rwa [takeLine_rest hbs] at hbs

theorem takeLine_append_left (hxs : nl ∉ xs) (h : takeLine nl ys = some (line, rest)) :
    takeLine nl (xs ++ ys) = some (xs ++ line, rest) := by
  rw [takeLine_eq_some] at h
  obtain ⟨rfl, hl⟩ := h
  rw [← List.append_assoc]
  exact takeLine_line (by simp [hxs, hl])

/-- The start of a stream whose only terminator is its last byte has no line but
the whole stream. -/
theorem takeLine_whole (hl : nl ∉ line) (h : takeLine nl xs = some (bs, rest))
    (hxs : xs ++ ys = line ++ [nl]) : bs = line ∧ rest = [] ∧ ys = [] := by
  have hline : takeLine nl (line ++ [nl]) = some (line, []) := takeLine_line hl
  rw [← hxs, takeLine_append h] at hline
  simpa using hline

end

-- ---------------------------------------------------------------------------
-- Pieces between separators
-- ---------------------------------------------------------------------------

theorem mem_splitOn {β : Type} [BEq β] [LawfulBEq β] {c : β} {piece text : List β}
    (h : piece ∈ text.splitOn c) : c ∉ piece ∧ piece ⊆ text := by
  induction text generalizing piece with
  | nil => simp_all
  | cons x text ih =>
    rw [List.splitOn_cons_eq_if_modifyHead] at h
    split at h
    · rcases List.mem_cons.mp h with rfl | h
      · simp
      · exact ⟨(ih h).1, List.Subset.trans (ih h).2 (List.subset_cons_self x text)⟩
    · rename_i hx
      obtain ⟨first, rest, hsplit⟩ := List.exists_cons_of_ne_nil (List.splitOn_ne_nil c text)
      rw [hsplit, List.modifyHead_cons] at h
      rw [hsplit] at ih
      rcases List.mem_cons.mp h with rfl | h
      · obtain ⟨hfirst, hsub⟩ := ih List.mem_cons_self
        refine ⟨?_, List.cons_subset_cons x hsub⟩
        rw [List.mem_cons, not_or]
        exact ⟨fun hcx => hx (beq_iff_eq.mpr hcx.symm), hfirst⟩
      · obtain ⟨hpiece, hsub⟩ := ih (List.mem_cons_of_mem _ h)
        exact ⟨hpiece, List.Subset.trans hsub (List.subset_cons_self x text)⟩

end Rinfra.Lib
