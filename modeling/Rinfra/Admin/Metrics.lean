import Mathlib.Data.List.Perm.Lattice
import Mathlib.Data.List.Lex
import Mathlib.Data.Char
import Rinfra.Core.Str
import Rinfra.Lib.Double
import Rinfra.Lib.Lines
import Rinfra.Lib.SortedMap

/-!
# Metrics in the admin interface

`parse_prometheus_text` reads the exposition text line by line and keeps the
samples under the names of their metrics. A line is cut at the first braces, at
every comma and at the first `=` of a pair. A slice that is out of range panics,
which is `none` here.
-/

namespace Rinfra.Admin

open Lib List

/-- Sorted by key; the source has a hash map. -/
abbrev LabelMap := List (List Char × List Char)

structure MetricValue where
  labels : LabelMap
  value : Double
  deriving DecidableEq, Repr

structure MetricEntry where
  name : List Char
  metricType : List Char
  help : List Char
  values : List MetricValue
  deriving DecidableEq, Repr

def slice (text : List Char) (start stop : Nat) : Option (List Char) :=
  if start ≤ stop ∧ stop ≤ text.length then some ((text.take stop).drop start) else none

def insertPair (labels : LabelMap) (pair : List Char) : LabelMap :=
  let pair := trim pair
  match pair.idxOf? '=' with
  | some eq =>
    SortedMap.insert (trim (pair.take eq)) (trimMatches '"' (trim (pair.drop (eq + 1)))) labels
  | none => labels

def parseMetricLine (line : List Char) : Option (List Char × MetricValue) :=
  match line.idxOf? '{' with
  | some braceStart => do
    let name := line.take braceStart
    let braceEnd := (line.idxOf? '}').getD line.length
    let labelStr ← slice line (braceStart + 1) braceEnd
    let labels := (labelStr.splitOn ',').foldl insertPair []
    let valueStr := trim (← slice line (braceEnd + 1) line.length)
    return (name, ⟨labels, (parseDouble valueStr).getD (.ofInt 0)⟩)
  | none =>
    let parts := (line.splitOnP isWhitespace).filter (· ≠ [])
    some (parts.head?.getD [], ⟨[], (parts[1]?.bind parseDouble).getD (.ofInt 0)⟩)

def stripSuffix (suffix text : List Char) : Option (List Char) :=
  if suffix.isSuffixOf text then some (text.take (text.length - suffix.length)) else none

def baseName (metricName : List Char) : List Char :=
  (stripSuffix "_total".toList metricName <|> stripSuffix "_bucket".toList metricName <|>
    stripSuffix "_sum".toList metricName <|> stripSuffix "_count".toList metricName).getD metricName

/-- The value goes to the first entry of the name, or to a new entry at the end. -/
def addValue (fresh : MetricEntry) (value : MetricValue) : List MetricEntry → List MetricEntry
  | [] => [{ fresh with values := [value] }]
  | e :: rest =>
    if e.name = fresh.name then { e with values := e.values ++ [value] } :: rest
    else e :: addValue fresh value rest

structure ParseState where
  entries : List MetricEntry := []
  currentHelp : List Char := []
  currentType : List Char := []
  currentName : List Char := []

def parseLine (s : ParseState) (line : List Char) : Option ParseState :=
  let line := trim line
  if line = [] then some s
  else if "# HELP ".toList.isPrefixOf line then
    let rest := line.drop 7
    match rest.idxOf? ' ' with
    | some idx => some { s with currentName := rest.take idx, currentHelp := rest.drop (idx + 1) }
    | none => some { s with currentName := rest, currentHelp := [] }
  else if "# TYPE ".toList.isPrefixOf line then
    let rest := line.drop 7
    match rest.idxOf? ' ' with
    | some idx => some { s with currentType := rest.drop (idx + 1) }
    | none => some s
  else if line.head? ≠ some '#' then do
    let (metricName, value) ← parseMetricLine line
    let base := baseName metricName
    let lookupName :=
      if base = s.currentName ∨ metricName = s.currentName then s.currentName else base
    let fresh : MetricEntry :=
      { name := lookupName
        metricType := if lookupName = s.currentName then s.currentType else "unknown".toList
        help := if lookupName = s.currentName then s.currentHelp else []
        values := [] }
    return { s with entries := addValue fresh value s.entries }
  else some s

def parsePrometheusText (text : List Char) : Option (List MetricEntry) :=
  ((lines text).foldlM parseLine {}).map ParseState.entries

/-- The type of a metric is known from its help text on. -/
example : parsePrometheusText "# TYPE up gauge\nup\x7bjob=\"api\"\x7d 1\n".toList =
    some [⟨"up".toList, "unknown".toList, [], [⟨[("job".toList, "api".toList)], .ofInt 1⟩]⟩] := by
  decide +kernel

-- ---------------------------------------------------------------------------
-- What a text is read as
-- ---------------------------------------------------------------------------

def sampleLines (ls : List (List Char)) : List (List Char) :=
  (ls.map trim).filter fun line => line ≠ [] ∧ line.head? ≠ some '#'

def readValue (line : List Char) : Option MetricValue := (parseMetricLine line).map Prod.snd

def values (entries : List MetricEntry) : List MetricValue := entries.flatMap MetricEntry.values

variable {s s' : ParseState} {ls : List (List Char)} {line text : List Char}

theorem values_addValue (fresh : MetricEntry) (value : MetricValue) (entries : List MetricEntry) :
    values (addValue fresh value entries) ~ values entries ++ [value] := by
  induction entries with
  | nil => exact .refl _
  | cons e rest ih =>
    unfold addValue
    split
    · simp only [values, flatMap_cons, append_assoc]
      exact perm_append_comm.append_left _
    · simpa only [values, flatMap_cons, append_assoc] using ih.append_left e.values

theorem head?_of_isPrefixOf {c : Char} {pre : List Char} (h : (c :: pre).isPrefixOf line = true) :
    line.head? = some c := by
  obtain ⟨rest, rfl⟩ := isPrefixOf_iff_prefix.mp h
  rfl

theorem parseLine_comment (h : sampleLines [line] = []) (s : ParseState) :
    ∃ s', parseLine s line = some s' ∧ s'.entries = s.entries := by
  simp only [sampleLines, map_cons, map_nil, filter_eq_nil_iff, mem_singleton, forall_eq,
    decide_eq_true_eq, not_and, Decidable.not_not] at h
  simp only [parseLine]
  split
  · exact ⟨s, rfl, rfl⟩
  · rename_i hne
    split
    · split <;> exact ⟨_, rfl, rfl⟩
    · split
      · split <;> exact ⟨_, rfl, rfl⟩
      · rw [if_neg (not_not_intro (h hne))]
        exact ⟨s, rfl, rfl⟩

theorem parseLine_sample (h : sampleLines [line] ≠ []) (s : ParseState) :
    sampleLines [line] = [trim line] ∧
    ((readValue (trim line) = none ∧ parseLine s line = none) ∨
      ∃ value s', readValue (trim line) = some value ∧ parseLine s line = some s' ∧
        values s'.entries ~ values s.entries ++ [value]) := by
  have hsample : trim line ≠ [] ∧ (trim line).head? ≠ some '#' := by
    by_contra hnot
    exact h (by simp only [sampleLines, map_cons, map_nil, filter_cons, hnot]; rfl)
  refine ⟨by simp [sampleLines, hsample], ?_⟩
  have hHelp : ¬ "# HELP ".toList.isPrefixOf (trim line) :=
    fun hp => hsample.2 (head?_of_isPrefixOf hp)
  have hType : ¬ "# TYPE ".toList.isPrefixOf (trim line) :=
    fun hp => hsample.2 (head?_of_isPrefixOf hp)
  simp only [parseLine, if_neg hsample.1, if_neg hHelp, if_neg hType, if_pos hsample.2, readValue]
  cases hp : parseMetricLine (trim line) with
  | none => exact .inl ⟨rfl, rfl⟩
  | some r => exact .inr ⟨r.2, _, rfl, rfl, values_addValue _ _ _⟩

theorem sampleLines_append (ls ls' : List (List Char)) :
    sampleLines (ls ++ ls') = sampleLines ls ++ sampleLines ls' := by
  simp [sampleLines]

theorem sampleLines_cons (line : List Char) (ls : List (List Char)) :
    sampleLines (line :: ls) = sampleLines [line] ++ sampleLines ls :=
  sampleLines_append [line] ls

theorem run_isSome (s : ParseState) (ls : List (List Char)) :
    (ls.foldlM parseLine s).isSome ↔ ∀ line ∈ sampleLines ls, (readValue line).isSome := by
  induction ls generalizing s with
  | nil => simp [sampleLines]
  | cons line ls ih =>
    rw [sampleLines_cons, foldlM_cons]
    by_cases hline : sampleLines [line] = []
    · obtain ⟨s', hs', -⟩ := parseLine_comment hline s
      simp [hs', hline, ih]
    · obtain ⟨hone, ⟨hnone, hpanic⟩ | ⟨value, s', hvalue, hs', -⟩⟩ := parseLine_sample hline s
      · simp [hone, hnone, hpanic]
      · simp [hone, hvalue, hs', ih]

theorem run_values (h : ls.foldlM parseLine s = some s') :
    values s'.entries ~ values s.entries ++ (sampleLines ls).filterMap readValue := by
  induction ls generalizing s with
  | nil =>
    obtain rfl := Option.some.inj h
    simp [sampleLines]
  | cons line ls ih =>
    rw [sampleLines_cons, filterMap_append]
    rw [foldlM_cons] at h
    by_cases hline : sampleLines [line] = []
    · obtain ⟨s₁, hs₁, hentries⟩ := parseLine_comment hline s
      rw [hs₁] at h
      simpa [hline, hentries] using ih h
    · obtain ⟨hone, ⟨-, hpanic⟩ | ⟨value, s₁, hvalue, hs₁, hvalues⟩⟩ := parseLine_sample hline s
      · simp [hpanic] at h
      · rw [hs₁] at h
        have hone' : (sampleLines [line]).filterMap readValue = [value] := by simp [hone, hvalue]
        rw [hone', ← append_assoc]
        exact (ih h).trans (hvalues.append_right _)

theorem parse_isSome (text : List Char) : (parsePrometheusText text).isSome ↔
    ∀ line ∈ sampleLines (lines text), (readValue line).isSome := by
  rw [parsePrometheusText, Option.isSome_map, run_isSome]

theorem parse_values {entries : List MetricEntry} (h : parsePrometheusText text = some entries) :
    values entries ~ (sampleLines (lines text)).filterMap readValue := by
  obtain ⟨s', hs', rfl⟩ := Option.map_eq_some_iff.mp h
  simpa [values] using run_values hs'

-- ---------------------------------------------------------------------------
-- What no line is read as
-- ---------------------------------------------------------------------------

theorem foldl_insertPair_notMem {c : Char} {pairs : List (List Char)} {m : LabelMap}
    (hpairs : ∀ pair ∈ pairs, c ∉ pair) (hm : ∀ l ∈ m, c ∉ l.2) :
    ∀ l ∈ pairs.foldl insertPair m, c ∉ l.2 := by
  induction pairs generalizing m with
  | nil => exact hm
  | cons pair pairs ih =>
    simp only [forall_mem_cons] at hpairs
    refine ih hpairs.2 fun l hl => ?_
    unfold insertPair at hl
    simp only at hl
    split at hl
    · rcases SortedMap.mem_insert hl with rfl | hl
      · intro hc
        have hpair := ((trim_sublist _).subset ((trimMatches_sublist _ _).subset hc))
        exact hpairs.1 ((trim_sublist _).subset (mem_of_mem_drop hpair))
      · exact hm l hl
    · exact hm l hl

theorem braces_of_parse {start : Nat} {r : List Char × MetricValue}
    (hopen : line.idxOf? '{' = some start) (h : parseMetricLine line = some r) :
    ∃ stop, line.idxOf? '}' = some stop ∧ start < stop ∧
      r.2.labels = (((line.take stop).drop (start + 1)).splitOn ',').foldl insertPair [] := by
  simp only [parseMetricLine, hopen] at h
  cases hclose : line.idxOf? '}' with
  | none =>
    have hout : slice line (line.length + 1) line.length = none := by simp [slice]
    simp [hclose, hout] at h
  | some stop =>
    simp only [hclose, Option.getD_some, slice] at h
    split at h
    · rename_i hle
      split at h
      · obtain rfl := Option.some.inj h
        exact ⟨stop, rfl, hle.1, rfl⟩
      · cases h
    · cases h

/-- Neither a comma nor a closing brace is ever read as part of a value. -/
theorem notMem_of_read {v : MetricValue} (h : readValue line = some v) :
    ∀ l ∈ v.labels, ',' ∉ l.2 ∧ '}' ∉ l.2 := by
  obtain ⟨r, hr, rfl⟩ := Option.map_eq_some_iff.mp h
  cases hopen : line.idxOf? '{' with
  | none =>
    simp only [parseMetricLine, hopen, Option.some.injEq] at hr
    simp [← hr]
  | some start =>
    obtain ⟨stop, hclose, -, hlabels⟩ := braces_of_parse hopen hr
    rw [hlabels]
    have hstop : '}' ∉ line.take stop := by
      intro hmem
      obtain ⟨hlt, -, hbefore⟩ := idxOf?_eq_some_iff.mp hclose
      obtain ⟨j, hj, hget⟩ := mem_iff_getElem.mp hmem
      rw [length_take] at hj
      exact hbefore j (by omega) (by simpa using hget)
    intro l hl
    have hempty (c : Char) : ∀ l ∈ ([] : LabelMap), c ∉ l.2 := by simp
    refine ⟨foldl_insertPair_notMem (fun pair hp => (mem_splitOn hp).1) (hempty _) l hl,
      foldl_insertPair_notMem (fun pair hp hc => hstop ?_) (hempty _) l hl⟩
    exact mem_of_mem_drop ((mem_splitOn hp).2 hc)

/-- A line panics when it has an opening brace and its first closing one does
not come after it. -/
theorem readValue_isSome (line : List Char) : (readValue line).isSome ↔
    ∀ start, line.idxOf? '{' = some start → ∃ stop, line.idxOf? '}' = some stop ∧ start < stop := by
  rw [readValue, Option.isSome_map]
  constructor
  · intro h start hopen
    obtain ⟨r, hr⟩ := Option.isSome_iff_exists.mp h
    obtain ⟨stop, hclose, hlt, -⟩ := braces_of_parse hopen hr
    exact ⟨stop, hclose, hlt⟩
  · intro h
    cases hopen : line.idxOf? '{' with
    | none => simp [parseMetricLine, hopen]
    | some start =>
      obtain ⟨stop, hclose, hlt⟩ := h start hopen
      obtain ⟨hle, -⟩ := idxOf?_eq_some_iff.mp hclose
      have hlabels : start + 1 ≤ stop ∧ stop ≤ line.length := by omega
      have hvalue : stop + 1 ≤ line.length := by omega
      simp [parseMetricLine, hopen, hclose, slice, hlabels, hvalue]

end Rinfra.Admin
