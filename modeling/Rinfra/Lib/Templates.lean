import Mathlib.Data.List.Nodup

/-!
# Templates

A template is text with named holes, a name between braces. To fill the holes at
once is one thing, to replace the text of one hole after another in what the
replacements have left is another. The characters of a text are marked here, where
a hole of the template begins, so that a replacement can be told that is of
something else.
-/

namespace Rinfra.Lib

inductive Piece
  | lit (c : Char)
  | hole (name : List Char)
  deriving DecidableEq, Repr

def bracketed (name : List Char) : List Char := '{' :: (name ++ ['}'])

/-- What comes after an opening brace: the name, if the next brace closes. -/
def nameAt : List Char → Option (List Char)
  | [] => none
  | c :: cs =>
    if c = '}' then some []
    else if c = '{' then none
    else (nameAt cs).map (c :: ·)

/-- The pieces of a text, without the first characters, which belong to the hole
before. -/
def piecesFrom : Nat → List Char → List Piece
  | _, [] => []
  | skip + 1, _ :: cs => piecesFrom skip cs
  | 0, c :: cs =>
    match if c = '{' then nameAt cs else none with
    | some name => .hole name :: piecesFrom (name.length + 1) cs
    | none => .lit c :: piecesFrom 0 cs

def pieces (s : List Char) : List Piece := piecesFrom 0 s

def Piece.text : Piece → List Char
  | .lit c => [c]
  | .hole name => bracketed name

def textOf (ps : List Piece) : List Char := ps.flatMap Piece.text

/-- Holes that have a value are filled, the others stay. -/
def Piece.fill (value : List Char → Option (List Char)) : Piece → List Piece
  | .lit c => [.lit c]
  | .hole name =>
    match value name with
    | some v => v.map .lit
    | none => [.hole name]

/-- All holes are filled at once. -/
def substitute (value : List Char → Option (List Char)) (s : List Char) : List Char :=
  textOf ((pieces s).flatMap (Piece.fill value))

-- ---------------------------------------------------------------------------
-- Replacing
-- ---------------------------------------------------------------------------

section
variable {α : Type} (char : α → Char) (pattern : List Char)

/-- The text with every occurrence of the pattern replaced, from left to right. The
first characters belong to the occurrence before. -/
def replaceFrom (value : List α) : Nat → List α → List α
  | _, [] => []
  | skip + 1, _ :: cs => replaceFrom value skip cs
  | 0, c :: cs =>
    if pattern.isPrefixOf ((c :: cs).map char) then
      value ++ replaceFrom value (pattern.length - 1) cs
    else c :: replaceFrom value 0 cs

/-- The characters at which the occurrences begin that are replaced. -/
def foundFrom : Nat → List α → List α
  | _, [] => []
  | skip + 1, _ :: cs => foundFrom skip cs
  | 0, c :: cs =>
    if pattern.isPrefixOf ((c :: cs).map char) then c :: foundFrom (pattern.length - 1) cs
    else foundFrom 0 cs

def occurrences : List Char → Nat
  | [] => 0
  | c :: cs => (if pattern.isPrefixOf (c :: cs) then 1 else 0) + occurrences cs

def startsIn : List Char → List Char → Nat
  | [], _ => 0
  | c :: cs, rest =>
    (if pattern.isPrefixOf (c :: (cs ++ rest)) then 1 else 0) + startsIn cs rest

end

def replace (s pattern value : List Char) : List Char := replaceFrom id pattern value 0 s

/-- A character, and the name of the hole that begins with it. -/
abbrev Marked := Char × Option (List Char)

def unmarked (s : List Char) : List Marked := s.map fun c => (c, none)

def Piece.marked : Piece → List Marked
  | .lit c => unmarked [c]
  | .hole name => ('{', some name) :: unmarked (name ++ ['}'])

def markedOf (ps : List Piece) : List Marked := ps.flatMap Piece.marked

/-- Only holes of this name are replaced. -/
def AllOwn (name : List Char) (m : List Marked) : Prop :=
  ∀ c ∈ foundFrom Prod.fst (bracketed name) 0 m, c.2 = some name

def replaceMarked (m : List Marked) (entry : List Char × List Char) : List Marked :=
  replaceFrom Prod.fst (bracketed entry.1) (unmarked entry.2) 0 m

/-- Along a row of replacements only holes are replaced. -/
def OnlyHoles : List (List Char × List Char) → List Marked → Prop
  | [], _ => True
  | entry :: entries, m => AllOwn entry.1 m ∧ OnlyHoles entries (replaceMarked m entry)

def valueOf (entries : List (List Char × List Char)) (done : List (List Char))
    (name : List Char) : Option (List Char) :=
  if name ∈ done then entries.lookup name else none

def filled (entries : List (List Char × List Char)) (done : List (List Char)) (ps : List Piece) :
    List Piece :=
  ps.flatMap (Piece.fill (valueOf entries done))

/-- Whichever values are put in, the name of another is not in braces anywhere but in
the holes of that name. -/
def NoneMade (entries : List (List Char × List Char)) (ps : List Piece) : Prop :=
  ∀ done, ∀ entry ∈ entries, entry.1 ∉ done →
    occurrences (bracketed entry.1) (textOf (filled entries done ps)) =
      ps.count (.hole entry.1)

def Braceless (ps : List Piece) : Prop :=
  ∀ name, .hole name ∈ ps → '{' ∉ name ∧ '}' ∉ name

instance (name : List Char) : DecidablePred (AllOwn name) := fun m =>
  inferInstanceAs (Decidable (∀ c ∈ foundFrom Prod.fst (bracketed name) 0 m, c.2 = some name))

instance OnlyHoles.decidable :
    (entries : List (List Char × List Char)) → DecidablePred (OnlyHoles entries)
  | [], _ => .isTrue trivial
  | entry :: entries, m =>
    have := OnlyHoles.decidable entries (replaceMarked m entry)
    inferInstanceAs (Decidable (AllOwn entry.1 m ∧ _))

-- ---------------------------------------------------------------------------
-- Pieces
-- ---------------------------------------------------------------------------

theorem nameAt_eq_some (h : nameAt cs = some name) :
    (∃ rest, cs = name ++ '}' :: rest) ∧ '{' ∉ name ∧ '}' ∉ name := by
  induction cs generalizing name with
  | nil => cases h
  | cons c cs ih =>
    simp only [nameAt] at h
    split at h
    · rename_i hclose
      cases h
      exact ⟨⟨cs, by rw [hclose]; rfl⟩, by simp⟩
    · split at h
      · cases h
      · rename_i hclose hopen
        obtain ⟨name', hname, rfl⟩ := Option.map_eq_some_iff.mp h
        obtain ⟨⟨rest, hrest⟩, hnot, hnot'⟩ := ih hname
        refine ⟨⟨rest, by rw [hrest]; rfl⟩, ?_⟩
        simpa [Ne.symm hopen, Ne.symm hclose] using ⟨hnot, hnot'⟩

theorem textOf_piecesFrom (skip : Nat) (s : List Char) :
    textOf (piecesFrom skip s) = s.drop skip := by
  induction s generalizing skip with
  | nil => simp [piecesFrom, textOf]
  | cons c cs ih =>
    cases skip with
    | succ skip => exact ih skip
    | zero =>
      simp only [piecesFrom]
      split
      · rename_i name hname
        split at hname
        · rename_i hopen
          obtain ⟨⟨rest, rfl⟩, -⟩ := nameAt_eq_some hname
          have hrest := ih (name.length + 1)
          rw [← List.drop_drop, List.drop_left] at hrest
          simp only [textOf, List.flatMap_cons] at hrest ⊢
          rw [hrest, hopen]
          simp [Piece.text, bracketed]
        · cases hname
      · have hrest := ih 0
        simp only [textOf, List.flatMap_cons] at hrest ⊢
        rw [hrest]
        rfl

theorem textOf_pieces (s : List Char) : textOf (pieces s) = s := textOf_piecesFrom 0 s

theorem braceless_piecesFrom (skip : Nat) (s : List Char) : Braceless (piecesFrom skip s) := by
  induction s generalizing skip with
  | nil => exact fun name hmem => absurd hmem List.not_mem_nil
  | cons c cs ih =>
    cases skip with
    | succ skip => exact ih skip
    | zero =>
      intro name hmem
      simp only [piecesFrom] at hmem
      split at hmem
      · rename_i name' hname
        rcases List.mem_cons.mp hmem with heq | hmem
        · cases heq
          split at hname
          · exact (nameAt_eq_some hname).2
          · cases hname
        · exact ih _ name hmem
      · rcases List.mem_cons.mp hmem with heq | hmem
        · cases heq
        · exact ih _ name hmem

theorem braceless_pieces (s : List Char) : Braceless (pieces s) := braceless_piecesFrom 0 s

-- ---------------------------------------------------------------------------
-- Marks
-- ---------------------------------------------------------------------------

section
variable {name : List Char} {m : List Marked} {ps : List Piece}

theorem unmarked_map (s : List Char) : (unmarked s).map Prod.fst = s := by
  simp [unmarked, Function.comp_def]

theorem marked_text (p : Piece) : p.marked.map Prod.fst = p.text := by
  cases p with
  | lit c => rfl
  | hole name => simp [Piece.marked, Piece.text, bracketed, unmarked_map]

theorem markedOf_text (ps : List Piece) : (markedOf ps).map Prod.fst = textOf ps := by
  simp only [markedOf, textOf, List.map_flatMap, marked_text]

theorem textOf_lits (s : List Char) : textOf (s.map .lit) = s := by
  induction s with
  | nil => rfl
  | cons c cs ih => exact congrArg (c :: ·) ih

theorem textOf_append (ps qs : List Piece) : textOf (ps ++ qs) = textOf ps ++ textOf qs :=
  List.flatMap_append

theorem markedOf_lits (s : List Char) : markedOf (s.map .lit) = unmarked s := by
  induction s with
  | nil => rfl
  | cons c cs ih => exact congrArg ((c, none) :: ·) ih

theorem markedOf_append (ps qs : List Piece) : markedOf (ps ++ qs) = markedOf ps ++ markedOf qs :=
  List.flatMap_append

theorem replaceFrom_skip {α : Type} (char : α → Char) (pattern : List Char) (value u r : List α) :
    replaceFrom char pattern value u.length (u ++ r) = replaceFrom char pattern value 0 r := by
  induction u with
  | nil => rfl
  | cons c u ih => exact ih

theorem foundFrom_skip {α : Type} (char : α → Char) (pattern : List Char) (u r : List α) :
    foundFrom char pattern u.length (u ++ r) = foundFrom char pattern 0 r := by
  induction u with
  | nil => rfl
  | cons c u ih => exact ih

theorem replaceFrom_map {α : Type} (char : α → Char) (pattern : List Char) (value : List α)
    (skip : Nat) (l : List α) :
    (replaceFrom char pattern value skip l).map char =
      replaceFrom id pattern (value.map char) skip (l.map char) := by
  induction l generalizing skip with
  | nil => simp [replaceFrom]
  | cons c l ih =>
    cases skip with
    | succ skip => exact ih skip
    | zero =>
      simp only [replaceFrom, List.map_cons, List.map_id, id_eq]
      split
      · rw [List.map_append, ih]
      · rw [List.map_cons, ih]

theorem replaceMarked_text (m : List Marked) (entry : List Char × List Char) :
    (replaceMarked m entry).map Prod.fst =
      replace (m.map Prod.fst) (bracketed entry.1) entry.2 := by
  rw [replaceMarked, replaceFrom_map, unmarked_map, replace]

theorem foldl_replaceMarked_text (entries : List (List Char × List Char)) (m : List Marked) :
    (entries.foldl replaceMarked m).map Prod.fst =
      entries.foldl (fun s entry => replace s (bracketed entry.1) entry.2) (m.map Prod.fst) := by
  induction entries generalizing m with
  | nil => rfl
  | cons entry entries ih => rw [List.foldl_cons, ih, replaceMarked_text, List.foldl_cons]

-- ---------------------------------------------------------------------------
-- One replacement
-- ---------------------------------------------------------------------------

theorem startsIn_eq_zero {u : List Char} (h : '{' ∉ u) (r : List Char) :
    startsIn (bracketed name) u r = 0 := by
  induction u with
  | nil => rfl
  | cons c u ih =>
    obtain ⟨hc, hu⟩ := List.ne_and_not_mem_of_not_mem_cons h
    have hnot : (bracketed name).isPrefixOf (c :: (u ++ r)) = false := by
      simp [bracketed, List.isPrefixOf, hc]
    rw [startsIn, hnot, ih hu]
    rfl

theorem occurrences_append (pattern u r : List Char) :
    occurrences pattern (u ++ r) = startsIn pattern u r + occurrences pattern r := by
  induction u with
  | nil => simp [startsIn]
  | cons c u ih => rw [List.cons_append, occurrences, startsIn, ih, Nat.add_assoc]

theorem allOwn_unmarked (name u : List Char) (r : List Marked) :
    AllOwn name (unmarked u ++ r) ↔
      startsIn (bracketed name) u (r.map Prod.fst) = 0 ∧ AllOwn name r := by
  induction u with
  | nil => simp [unmarked, startsIn]
  | cons c u ih =>
    have htext : ((unmarked (c :: u)) ++ r).map Prod.fst = c :: (u ++ r.map Prod.fst) := by
      rw [List.map_append, unmarked_map]
      rfl
    have hcons : unmarked (c :: u) ++ r = (c, none) :: (unmarked u ++ r) := rfl
    rw [startsIn, ← htext, hcons, AllOwn, foundFrom]
    split
    · refine iff_of_false (fun h => ?_) (by omega)
      exact absurd (h _ List.mem_cons_self) (by simp)
    · rw [Nat.zero_add]
      exact ih

theorem replaceFrom_unmarked (value : List Marked) {u : List Char} {r : List Marked}
    (h : startsIn (bracketed name) u (r.map Prod.fst) = 0) :
    replaceFrom Prod.fst (bracketed name) value 0 (unmarked u ++ r) =
      unmarked u ++ replaceFrom Prod.fst (bracketed name) value 0 r := by
  induction u with
  | nil => rfl
  | cons c u ih =>
    have htext : ((unmarked (c :: u)) ++ r).map Prod.fst = c :: (u ++ r.map Prod.fst) := by
      rw [List.map_append, unmarked_map]
      rfl
    have hcons : unmarked (c :: u) ++ r = (c, none) :: (unmarked u ++ r) := rfl
    rw [startsIn, ← htext] at h
    have hnot : ¬ (bracketed name).isPrefixOf ((unmarked (c :: u) ++ r).map Prod.fst) = true := by
      intro hfound
      rw [if_pos hfound] at h
      omega
    rw [hcons, replaceFrom, ← hcons, if_neg hnot, ih (Nat.eq_zero_of_add_eq_zero_left h)]
    rfl

theorem prefix_bracketed (name r : List Char) :
    (bracketed name).isPrefixOf (bracketed name ++ r) = true :=
  List.isPrefixOf_iff_prefix.mpr (List.prefix_append _ _)

theorem markedOf_hole (name : List Char) (ps : List Piece) :
    markedOf (.hole name :: ps) =
      ('{', some name) :: (unmarked (name ++ ['}']) ++ markedOf ps) := rfl

theorem textOf_hole (name : List Char) (ps : List Piece) :
    textOf (.hole name :: ps) = bracketed name ++ textOf ps := rfl

theorem markedOf_hole_text (name : List Char) (ps : List Piece) :
    (('{', some name) :: (unmarked (name ++ ['}']) ++ markedOf ps)).map Prod.fst =
      bracketed name ++ textOf ps := by
  rw [← markedOf_hole, markedOf_text, textOf_hole]

theorem length_unmarked (name : List Char) :
    (bracketed name).length - 1 = (unmarked (name ++ ['}'])).length := by
  simp [bracketed, unmarked]

theorem brace_notMem_rest (h : '{' ∉ name) : '{' ∉ name ++ ['}'] := by
  simpa using h

theorem allOwn_hole_self :
    AllOwn name (markedOf (.hole name :: ps)) ↔ AllOwn name (markedOf ps) := by
  rw [markedOf_hole, AllOwn, foundFrom, markedOf_hole_text, if_pos (prefix_bracketed name _),
    length_unmarked, foundFrom_skip]
  simp [AllOwn]

theorem replaceMarked_hole_self (v : List Char) :
    replaceMarked (markedOf (.hole name :: ps)) (name, v) =
      unmarked v ++ replaceMarked (markedOf ps) (name, v) := by
  rw [markedOf_hole, replaceMarked, replaceFrom, markedOf_hole_text,
    if_pos (prefix_bracketed name _), length_unmarked, replaceFrom_skip, replaceMarked]

theorem occurrences_hole (name : List Char) {other : List Char} (ps : List Piece)
    (h : '{' ∉ other) :
    occurrences (bracketed name) (textOf (.hole other :: ps)) =
      (if (bracketed name).isPrefixOf (textOf (.hole other :: ps)) then 1 else 0) +
        occurrences (bracketed name) (textOf ps) := by
  have htext : textOf (.hole other :: ps) = '{' :: (other ++ ['}'] ++ textOf ps) := rfl
  rw [htext, occurrences, occurrences_append, startsIn_eq_zero (brace_notMem_rest h), Nat.zero_add]

theorem allOwn_hole {other : List Char} (hne : other ≠ name) (h : '{' ∉ other) :
    AllOwn name (markedOf (.hole other :: ps)) ↔
      ¬ (bracketed name).isPrefixOf (textOf (.hole other :: ps)) ∧
        AllOwn name (markedOf ps) := by
  rw [markedOf_hole, AllOwn, foundFrom, markedOf_hole_text, ← textOf_hole]
  split
  · rename_i hfound
    refine iff_of_false (fun hown => ?_) fun hnot => hnot.1 hfound
    exact hne (Option.some.inj (hown _ List.mem_cons_self))
  · rename_i hfound
    have hrest := allOwn_unmarked name (other ++ ['}']) (markedOf ps)
    rw [startsIn_eq_zero (brace_notMem_rest h)] at hrest
    exact hrest.trans (by simp [hfound])

theorem replaceMarked_hole {other : List Char} (v : List Char) (h : '{' ∉ other)
    (hnot : ¬ (bracketed name).isPrefixOf (textOf (.hole other :: ps))) :
    replaceMarked (markedOf (.hole other :: ps)) (name, v) =
      markedOf [.hole other] ++ replaceMarked (markedOf ps) (name, v) := by
  rw [markedOf_hole, replaceMarked, replaceFrom, markedOf_hole_text, ← textOf_hole, if_neg hnot,
    replaceFrom_unmarked _ (startsIn_eq_zero (brace_notMem_rest h) _), replaceMarked]
  simp [markedOf, Piece.marked]

theorem Braceless.tail {p : Piece} (h : Braceless (p :: ps)) : Braceless ps :=
  fun name hmem => h name (List.mem_cons_of_mem _ hmem)

/-- The text has the name in braces at least as often as it has holes of the name. If
it does not have it more often, only holes are replaced. -/
theorem allOwn_iff_occurrences (name : List Char) (hb : Braceless ps) :
    ps.count (.hole name) ≤ occurrences (bracketed name) (textOf ps) ∧
      (AllOwn name (markedOf ps) ↔
        occurrences (bracketed name) (textOf ps) = ps.count (.hole name)) := by
  induction ps with
  | nil => simp [textOf, occurrences, AllOwn, markedOf, foundFrom]
  | cons p ps ih =>
    obtain ⟨hle, hiff⟩ := ih hb.tail
    cases p with
    | lit c =>
      have hcount : (Piece.lit c :: ps).count (.hole name) = ps.count (.hole name) :=
        List.count_cons_of_ne (by simp)
      have htext : textOf (.lit c :: ps) = [c] ++ textOf ps := rfl
      have hmarked : markedOf (.lit c :: ps) = unmarked [c] ++ markedOf ps := rfl
      rw [hcount, htext, occurrences_append, hmarked, allOwn_unmarked, markedOf_text, hiff]
      omega
    | hole other =>
      have hother : '{' ∉ other := (hb other List.mem_cons_self).1
      rw [occurrences_hole name ps hother]
      by_cases hsame : other = name
      · subst hsame
        rw [allOwn_hole_self, hiff, textOf_hole, if_pos (prefix_bracketed other _),
          List.count_cons_self]
        omega
      · rw [allOwn_hole hsame hother, hiff, List.count_cons_of_ne (by simpa using hsame)]
        split
        · rename_i hfound
          simp only [hfound, not_true, false_and, false_iff]
          omega
        · rename_i hfound
          rw [Nat.zero_add]
          exact ⟨hle, and_iff_right hfound⟩

/-- Where only holes are replaced, they are filled. -/
theorem replaceMarked_own (hb : Braceless ps) (v : List Char) (h : AllOwn name (markedOf ps)) :
    replaceMarked (markedOf ps) (name, v) =
      markedOf (ps.flatMap (Piece.fill fun n => if n = name then some v else none)) := by
  induction ps with
  | nil => rfl
  | cons p ps ih =>
    rw [List.flatMap_cons, markedOf_append]
    cases p with
    | lit c =>
      have hmarked : markedOf (.lit c :: ps) = unmarked [c] ++ markedOf ps := rfl
      rw [hmarked] at h ⊢
      obtain ⟨hnone, hrest⟩ := (allOwn_unmarked _ _ _).mp h
      rw [← ih hb.tail hrest]
      exact replaceFrom_unmarked _ hnone
    | hole other =>
      have hother : '{' ∉ other := (hb other List.mem_cons_self).1
      by_cases hsame : other = name
      · subst hsame
        rw [← ih hb.tail (allOwn_hole_self.mp h), replaceMarked_hole_self]
        simp [Piece.fill, markedOf_lits]
      · obtain ⟨hnot, hrest⟩ := (allOwn_hole hsame hother).mp h
        rw [← ih hb.tail hrest, replaceMarked_hole v hother hnot]
        simp [Piece.fill, hsame]

-- ---------------------------------------------------------------------------
-- A row of replacements
-- ---------------------------------------------------------------------------

variable {entries order : List (List Char × List Char)} {done : List (List Char)}

theorem braceless_fill (hb : Braceless ps) (value : List Char → Option (List Char)) :
    Braceless (ps.flatMap (Piece.fill value)) := by
  intro name hmem
  obtain ⟨p, hp, hmem⟩ := List.mem_flatMap.mp hmem
  cases p with
  | lit c => simp [Piece.fill] at hmem
  | hole other =>
    simp only [Piece.fill] at hmem
    split at hmem
    · simp at hmem
    · cases List.mem_singleton.mp hmem
      exact hb name hp

theorem count_fill {value : List Char → Option (List Char)} (h : value name = none) :
    (ps.flatMap (Piece.fill value)).count (.hole name) = ps.count (.hole name) := by
  induction ps with
  | nil => rfl
  | cons p ps ih =>
    rw [List.flatMap_cons, List.count_append, ih]
    cases p with
    | lit c => simp [Piece.fill]
    | hole other =>
      by_cases hsame : other = name
      · subst hsame
        simp [Piece.fill, h, Nat.add_comm]
      · rw [List.count_cons_of_ne (by simpa using hsame)]
        have hnone : (Piece.fill value (.hole other)).count (.hole name) = 0 := by
          simp only [Piece.fill]
          split
          · exact List.count_eq_zero.mpr (by simp)
          · exact List.count_eq_zero.mpr (by simpa using Ne.symm hsame)
        rw [hnone, Nat.zero_add]

theorem fill_fill {v : List Char} (hname : name ∉ done) (hv : entries.lookup name = some v) :
    (filled entries done ps).flatMap (Piece.fill fun n => if n = name then some v else none) =
      filled entries (name :: done) ps := by
  rw [filled, filled, List.flatMap_assoc]
  refine List.flatMap_congr fun p _ => ?_
  cases p with
  | lit c => rfl
  | hole other =>
    simp only [Piece.fill, valueOf, List.mem_cons]
    by_cases hsame : other = name
    · subst hsame
      simp [hname, hv, Piece.fill]
    · by_cases hdone : other ∈ done
      · simp only [hdone, hsame, if_true, or_true]
        cases entries.lookup other with
        | none => simp [Piece.fill, hsame]
        | some w =>
          have hlits : w.flatMap (fun c => [Piece.lit c]) = w.map .lit := List.map_eq_flatMap.symm
          simpa [Piece.fill, List.flatMap_map] using hlits
      · simp [hdone, hsame, Piece.fill]

theorem lookup_of_mem {v : List Char} (hnodup : (entries.map Prod.fst).Nodup)
    (hmem : (name, v) ∈ entries) : entries.lookup name = some v := by
  induction entries with
  | nil => cases hmem
  | cons entry entries ih =>
    obtain ⟨hnot, hnodup⟩ := List.nodup_cons.mp hnodup
    rcases List.mem_cons.mp hmem with rfl | hmem
    · exact List.lookup_cons_self
    · have hne : name ≠ entry.1 := by
        rintro rfl
        exact hnot (List.mem_map.mpr ⟨_, hmem, rfl⟩)
      rw [List.lookup_cons, beq_false_of_ne hne]
      exact ih hnodup hmem

theorem onlyHoles_append {first second : List (List Char × List Char)} :
    OnlyHoles (first ++ second) m ↔
      OnlyHoles first m ∧ OnlyHoles second (first.foldl replaceMarked m) := by
  induction first generalizing m with
  | nil => simp [OnlyHoles]
  | cons entry first ih => simp only [List.cons_append, OnlyHoles, List.foldl_cons, ih, and_assoc]

theorem filled_congr {done' : List (List Char)}
    (h : ∀ n, entries.lookup n ≠ none → (n ∈ done ↔ n ∈ done')) (ps : List Piece) :
    filled entries done ps = filled entries done' ps := by
  have hvalue : valueOf entries done = valueOf entries done' := by
    funext n
    by_cases hnone : entries.lookup n = none
    · simp [valueOf, hnone]
    · simp [valueOf, h n hnone]
  rw [filled, filled, hvalue]

theorem filled_nil (entries : List (List Char × List Char)) (ps : List Piece) :
    filled entries [] ps = ps := by
  induction ps with
  | nil => rfl
  | cons p ps ih =>
    rw [filled] at ih ⊢
    rw [List.flatMap_cons, ih]
    cases p <;> rfl

theorem replaceMarked_filled {entry : List Char × List Char} (hb : Braceless ps)
    (hnew : entry.1 ∉ done) (hentry : entries.lookup entry.1 = some entry.2)
    (hown : AllOwn entry.1 (markedOf (filled entries done ps))) :
    replaceMarked (markedOf (filled entries done ps)) entry =
      markedOf (filled entries (entry.1 :: done) ps) := by
  rw [← fill_fill hnew hentry]
  exact replaceMarked_own (braceless_fill hb _) entry.2 hown

theorem new_of_cons {entry : List Char × List Char} (hnot : entry.1 ∉ order.map Prod.fst)
    (hnew : ∀ e ∈ entry :: order, e.1 ∉ done) : ∀ e ∈ order, e.1 ∉ entry.1 :: done := by
  intro e hmem hdone
  rcases List.mem_cons.mp hdone with heq | hdone
  · exact hnot (List.mem_map.mpr ⟨e, hmem, heq⟩)
  · exact hnew e (List.mem_cons_of_mem _ hmem) hdone

theorem foldl_replaceMarked (hb : Braceless ps) (hnodup : (order.map Prod.fst).Nodup)
    (hentries : ∀ entry ∈ order, entries.lookup entry.1 = some entry.2)
    (hnew : ∀ entry ∈ order, entry.1 ∉ done)
    (h : OnlyHoles order (markedOf (filled entries done ps))) :
    order.foldl replaceMarked (markedOf (filled entries done ps)) =
      markedOf (filled entries ((order.map Prod.fst).reverse ++ done) ps) := by
  induction order generalizing done with
  | nil => rfl
  | cons entry order ih =>
    obtain ⟨hnot, hnodup⟩ := List.nodup_cons.mp hnodup
    obtain ⟨hown, h⟩ := h
    have hstep := replaceMarked_filled hb (hnew entry List.mem_cons_self)
      (hentries entry List.mem_cons_self) hown
    rw [hstep] at h
    rw [List.foldl_cons, hstep, ih hnodup
      (fun e hmem => hentries e (List.mem_cons_of_mem _ hmem)) (new_of_cons hnot hnew) h]
    simp

theorem allOwn_filled (hb : Braceless ps) (hnone : name ∉ done) :
    AllOwn name (markedOf (filled entries done ps)) ↔
      occurrences (bracketed name) (textOf (filled entries done ps)) = ps.count (.hole name) := by
  have hcount : (filled entries done ps).count (.hole name) = ps.count (.hole name) :=
    count_fill (by simp [valueOf, hnone])
  have hiff := (allOwn_iff_occurrences name (braceless_fill hb (valueOf entries done))).2
  rw [← hcount]
  exact hiff

theorem onlyHoles_of_noneMade (done : List (List Char)) (hb : Braceless ps)
    (hnodup : (order.map Prod.fst).Nodup)
    (hentries : ∀ entry ∈ order, entry ∈ entries ∧ entries.lookup entry.1 = some entry.2)
    (hnew : ∀ entry ∈ order, entry.1 ∉ done) (h : NoneMade entries ps) :
    OnlyHoles order (markedOf (filled entries done ps)) := by
  induction order generalizing done with
  | nil => trivial
  | cons entry order ih =>
    obtain ⟨hnot, hnodup⟩ := List.nodup_cons.mp hnodup
    obtain ⟨hmem, hlookup⟩ := hentries entry List.mem_cons_self
    have hfresh := hnew entry List.mem_cons_self
    have hown := (allOwn_filled hb hfresh).mpr (h done entry hmem hfresh)
    refine ⟨hown, ?_⟩
    rw [replaceMarked_filled hb hfresh hlookup hown]
    exact ih _ hnodup (fun e hmem => hentries e (List.mem_cons_of_mem _ hmem))
      (new_of_cons hnot hnew)

/-- In no order anything but holes is replaced, if and only if the values make no
hole of another name. -/
theorem onlyHoles_iff (hb : Braceless ps) (hnodup : (entries.map Prod.fst).Nodup) :
    (∀ order, order.Perm entries → OnlyHoles order (markedOf ps)) ↔ NoneMade entries ps := by
  have hlookup : ∀ entry ∈ entries, entries.lookup entry.1 = some entry.2 :=
    fun entry hmem => lookup_of_mem hnodup hmem
  constructor
  · intro h done entry hmem hnew
    -- the names that are done first, then this one, then the others
    let first := entries.filter fun e => e.1 ∈ done
    let rest := entries.filter fun e => ¬ e.1 ∈ done
    have hrest : entry ∈ rest := List.mem_filter.mpr ⟨hmem, by simpa using hnew⟩
    have hperm : (first ++ entry :: rest.erase entry).Perm entries :=
      ((List.perm_cons_erase hrest).symm.append_left first).trans
        (by simpa [first, rest] using
          List.filter_append_perm (fun e => decide (e.1 ∈ done)) entries)
    obtain ⟨hfirst, hown, -⟩ := onlyHoles_append.mp (h _ hperm)
    rw [← filled_nil entries ps] at hfirst hown
    have hsub : (first.map Prod.fst).Nodup :=
      hnodup.sublist (List.filter_sublist.map Prod.fst)
    rw [foldl_replaceMarked hb hsub
      (fun e hmem => hlookup e (List.mem_filter.mp hmem).1) (by simp) hfirst] at hown
    have hsame : filled entries ((first.map Prod.fst).reverse ++ []) ps =
        filled entries done ps := by
      refine filled_congr (fun n hn => ?_) ps
      obtain ⟨v, hv⟩ := Option.ne_none_iff_exists'.mp hn
      obtain ⟨before, after, rfl, -⟩ := List.lookup_eq_some_iff.mp hv
      simp only [List.append_nil, List.mem_reverse, List.mem_map]
      constructor
      · rintro ⟨e, hmem, rfl⟩
        simpa using (List.mem_filter.mp hmem).2
      · intro hdone
        exact ⟨(n, v), List.mem_filter.mpr ⟨by simp, by simpa using hdone⟩, rfl⟩
    rw [hsame] at hown
    exact (allOwn_filled hb hnew).mp hown
  · intro h order hperm
    have hkeys : (order.map Prod.fst).Nodup := (hperm.map Prod.fst).nodup_iff.mpr hnodup
    have hall := onlyHoles_of_noneMade [] hb hkeys
      (fun e hmem => ⟨hperm.mem_iff.mp hmem, hlookup e (hperm.mem_iff.mp hmem)⟩) (by simp) h
    rwa [filled_nil] at hall

/-- The names one after another do what filling the holes at once does, where they
replace only holes. -/
theorem foldl_replace_eq (hnodup : (entries.map Prod.fst).Nodup) (hperm : order.Perm entries)
    {s : List Char} (h : OnlyHoles order (markedOf (pieces s))) :
    order.foldl (fun s entry => replace s (bracketed entry.1) entry.2) s =
      substitute (fun n => entries.lookup n) s := by
  have hkeys : (order.map Prod.fst).Nodup := (hperm.map Prod.fst).nodup_iff.mpr hnodup
  rw [← filled_nil entries (pieces s)] at h
  have hlast := foldl_replaceMarked (braceless_pieces s) hkeys
    (fun e hmem => lookup_of_mem hnodup (hperm.mem_iff.mp hmem)) (by simp) h
  rw [filled_nil] at hlast
  have htext := foldl_replaceMarked_text order (markedOf (pieces s))
  rw [hlast, markedOf_text, markedOf_text, textOf_pieces] at htext
  rw [← htext, substitute, filled]
  have hvalue : valueOf entries ((order.map Prod.fst).reverse ++ []) =
      fun n => entries.lookup n := by
    funext n
    simp only [valueOf]
    split
    · rfl
    · rename_i hnot
      refine (List.lookup_eq_none_iff.mpr fun e hmem => ?_).symm
      have hne : n ≠ e.1 := by
        rintro rfl
        exact hnot (by simpa using ⟨e.2, hperm.mem_iff.mpr hmem⟩)
      simpa using hne
  rw [hvalue]

theorem prefix_hole_iff {other r : List Char} (hname : '}' ∉ name) (hother : '}' ∉ other) :
    (bracketed name).isPrefixOf (bracketed other ++ r) = true ↔ other = name := by
  constructor
  · intro h
    obtain ⟨rest, hrest⟩ := List.isPrefixOf_iff_prefix.mp h
    simp only [bracketed, List.cons_append, List.append_assoc, List.nil_append,
      List.cons.injEq, true_and] at hrest
    rcases List.append_eq_append_iff.mp hrest with ⟨a, rfl, ha⟩ | ⟨a, rfl, ha⟩
    · cases a with
      | nil => simp
      | cons c a =>
        cases ha
        exact absurd (by simp) hother
    · cases a with
      | nil => simp
      | cons c a =>
        cases ha
        exact absurd (by simp) hname
  · rintro rfl
    exact prefix_bracketed other r

/-- Values without opening braces make no holes in a template whose opening braces
are those of its holes. -/
theorem noneMade_of_braceless (hb : Braceless ps) (hlit : .lit '{' ∉ ps)
    (hvalues : ∀ entry ∈ entries, '}' ∉ entry.1 ∧ '{' ∉ entry.2) : NoneMade entries ps := by
  intro done entry hmem hnew
  have hname := (hvalues entry hmem).1
  induction ps with
  | nil => rfl
  | cons p ps ih =>
    obtain ⟨hp, hlit⟩ := List.ne_and_not_mem_of_not_mem_cons hlit
    have hrest := ih hb.tail hlit
    cases p with
    | lit c =>
      have hc : '{' ∉ [c] := by simpa using fun h => hp (congrArg Piece.lit h)
      rw [List.count_cons_of_ne (by simp), ← hrest]
      exact (occurrences_append _ [c] _).trans (by rw [startsIn_eq_zero hc, Nat.zero_add]; rfl)
    | hole other =>
      obtain ⟨hopen, hclose⟩ := hb other List.mem_cons_self
      rw [filled, List.flatMap_cons, Piece.fill]
      split
      · rename_i v hvalue
        have hdone : other ∈ done := by
          by_contra hnot
          simp [valueOf, hnot] at hvalue
        rw [valueOf, if_pos hdone] at hvalue
        obtain ⟨before, after, rfl, -⟩ := List.lookup_eq_some_iff.mp hvalue
        have hv : '{' ∉ v := (hvalues (other, v) (by simp)).2
        have hne : other ≠ entry.1 := fun heq => hnew (heq ▸ hdone)
        rw [textOf_append, textOf_lits, occurrences_append, startsIn_eq_zero hv, Nat.zero_add,
          List.count_cons_of_ne (by simpa using hne)]
        exact hrest
      · have hsplit := occurrences_hole entry.1 (filled entries done ps) hopen
        rw [textOf_hole] at hsplit
        rw [List.singleton_append, ← filled, textOf_hole, hsplit, hrest, List.count_cons,
          Nat.add_comm]
        congr 1
        simp only [prefix_hole_iff hname hclose, beq_iff_eq, Piece.hole.injEq]

end

end Rinfra.Lib
