import Rinfra.Admin.Metrics
import Rinfra.Lib.Exposition

/-!
# Samples that come back

An exposition that is rendered and then read by `parse_prometheus_text`. Its
sample lines are its samples; each is cut at the right places unless a value has
a comma or a closing brace, and then comes back as it was unless a value needs
escaping, which the parser does not undo.
-/

namespace Rinfra.Admin

open Lib Exposition List

variable {line : List Char}

-- ---------------------------------------------------------------------------
-- The lines of an exposition
-- ---------------------------------------------------------------------------

theorem Name.not_isWhitespace {n : Name} {c : Char} (h : c ∈ n.text) : isWhitespace c = false := by
  have := n.visible h
  exact isWhitespace_of_visible (by omega) (by omega)

theorem Numeral.not_isWhitespace {x : Numeral} {c : Char} (h : c ∈ x.text) :
    isWhitespace c = false := by
  have := x.visible h
  exact isWhitespace_of_visible (by omega) (by omega)

theorem sampleLines_comment {f : Family} (h : line ∈ f.comments) :
    sampleLines [stripReturn line] = [] := by
  have hline : ∃ rest, line = '#' :: ' ' :: rest := by
    simp only [Family.comments, mem_append, Option.mem_toList, Option.map_eq_some_iff,
      mem_singleton] at h
    rcases h with ⟨help, -, rfl⟩ | rfl <;> exact ⟨_, rfl⟩
  obtain ⟨rest, rfl⟩ := hline
  have hstrip : ∃ rest', stripReturn ('#' :: ' ' :: rest) = '#' :: rest' := by
    unfold stripReturn
    split <;> exact ⟨_, rfl⟩
  obtain ⟨rest', hrest⟩ := hstrip
  have hhead := head?_trim (c := '#') (by decide) rest'
  simp [sampleLines, hrest, hhead]

theorem sampleLines_sample (s : Sample) : sampleLines [stripReturn s.text] = [s.text] := by
  have hvalue := s.value.text_ne_nil
  have hfirst : s.name.first ∈ s.name.text := by simp [Name.text]
  have hstrip : stripReturn s.text = s.text := by
    have := stripReturn_append (s.name.text ++ labelsText s.labels ++ [' ']) hvalue
      fun h => absurd (Numeral.visible h).1 (by decide)
    simpa [Sample.text] using this
  have hend : s.text.getLast? = some (s.value.text.getLast hvalue) := by
    rw [← getLast?_eq_some_getLast hvalue, Sample.text, append_cons, ← append_assoc,
      getLast?_append_of_ne_nil _ hvalue]
  have htrim : trim s.text = s.text :=
    trim_eq_self (Name.not_isWhitespace hfirst) (Numeral.not_isWhitespace (getLast_mem hvalue)) rfl
      hend
  have hhash : s.text.head? ≠ some '#' := by
    intro h
    have hchar : s.name.first = '#' := Option.some.inj h
    rw [hchar] at hfirst
    exact Name.notMem (by decide) (by decide) hfirst
  have hne : s.text ≠ [] := by simp [Sample.text, Name.text]
  simp [sampleLines, hstrip, htrim, hhash, hne]

theorem sampleLines_eq_flatMap (ls : List (List Char)) :
    sampleLines ls = ls.flatMap fun line => sampleLines [line] := by
  induction ls with
  | nil => rfl
  | cons line ls ih => rw [sampleLines_cons, ih, flatMap_cons]

theorem sampleLines_samples (ss : List Sample) :
    sampleLines ((ss.map Sample.text).map stripReturn) = ss.map Sample.text := by
  rw [sampleLines_eq_flatMap, map_map, flatMap_map]
  simp [sampleLines_sample, map_eq_flatMap]

theorem sampleLines_blocks (blocks : List Block) :
    sampleLines (lines (renderBlocks blocks)) =
      ((blocks.map Block.family).flatMap Family.samples).map Sample.text := by
  have hblock (b : Block) :
      sampleLines (b.lines.map stripReturn) = b.family.samples.map Sample.text := by
    have hcomments : sampleLines (b.comments.map stripReturn) = [] := by
      rw [sampleLines_eq_flatMap, flatMap_map, flatMap_eq_nil_iff]
      exact fun line hline => sampleLines_comment (Block.mem_comments.mp hline)
    have hblank : sampleLines ((if b.spaced then [[]] else []).map stripReturn) = [] := by
      cases b.spaced <;> rfl
    rw [Block.lines, map_append, map_append, sampleLines_append, sampleLines_append, hcomments,
      sampleLines_samples, hblank, nil_append, append_nil]
  rw [renderBlocks, lines_flatMap]
  · induction blocks with
    | nil => rfl
    | cons b blocks ih =>
      rw [flatMap_cons, map_append, sampleLines_append, hblock, ih, map_cons, flatMap_cons,
        map_append]
  · intro line hline
    obtain ⟨b, -, hb⟩ := mem_flatMap.mp hline
    exact Block.lineFeed_notMem_lines hb

theorem sampleLines_render (families : List Family) :
    sampleLines (lines (render families)) =
      (families.flatMap Family.samples).map Sample.text := by
  rw [← renderBlocks_render, sampleLines_blocks, map_map]
  congr 2
  exact map_id' families

-- ---------------------------------------------------------------------------
-- What a sample is read as
-- ---------------------------------------------------------------------------

def mapLabels (f : List Char → List Char) (s : Sample) : LabelMap :=
  SortedMap.ofList (s.labels.map fun l => (l.1.text, f l.2))

def meant (s : Sample) : MetricValue := ⟨mapLabels id s, s.value.value⟩

/-- The parser does not undo the escaping. -/
def readLabel (value : List Char) : List Char := trimMatches '"' (escape value)

theorem mapLabels_perm (f : List Char → List Char) (s : Sample) :
    mapLabels f s ~ s.labels.map fun l => (l.1.text, f l.2) := by
  refine SortedMap.ofList_perm ?_
  rw [map_map]
  exact s.distinct

theorem insertPair_labelText (m : LabelMap) (l : Name × List Char) :
    insertPair m (labelText l) = SortedMap.insert l.1.text (readLabel l.2) m := by
  have hlast (cs : List Char) : ('"' :: (cs ++ ['"'])).getLast? = some '"' :=
    getLast?_concat (l := '"' :: cs)
  have htrim : trim (labelText l) = labelText l := by
    refine trim_eq_self (c := l.1.first) (d := '"') ?_ (by decide) rfl ?_
    · exact Name.not_isWhitespace (n := l.1) (by simp [Name.text])
    · rw [labelText, append_cons, getLast?_append_of_ne_nil _ (by simp), hlast]
  have hfind : (labelText l).idxOf? '=' = some l.1.text.length :=
    idxOf?_append_cons (Name.notMem (by decide) (by decide)) _
  have hname : trim l.1.text = l.1.text := trim_visible fun c hc => Name.not_isWhitespace hc
  have hquoted : trim ('"' :: (escape l.2 ++ ['"'])) = '"' :: (escape l.2 ++ ['"']) :=
    trim_eq_self (c := '"') (d := '"') (by decide) (by decide) rfl (hlast _)
  simp only [insertPair, htrim, hfind]
  simp [labelText, hname, hquoted, trimMatches_quoted, readLabel]

theorem notMem_labelText {c : Char} {l : Name × List Char} (hc : c ∈ [',', '}'])
    (h : c ∉ l.2) : c ∉ labelText l := by
  have hname : c ∉ l.1.text := by
    simp only [mem_cons, not_mem_nil, or_false] at hc
    rcases hc with rfl | rfl <;> exact Name.notMem (by decide) (by decide)
  have hvalue : c ∉ escape l.2 := by
    intro hmem
    rcases mem_escape hmem with rfl | rfl | hmem
    · revert hc; decide
    · revert hc; decide
    · exact h hmem.1
  have hsigns : c ≠ '=' ∧ c ≠ '"' := by
    simp only [mem_cons, not_mem_nil, or_false] at hc
    rcases hc with rfl | rfl <;> decide
  simp [labelText, hname, hvalue, hsigns]

theorem slice_append {pre mid post text : List Char} (h : text = pre ++ (mid ++ post)) :
    slice text pre.length (pre.length + mid.length) = some mid := by
  subst h
  rw [slice, if_pos (by simp)]
  simp [take_append]

theorem foldl_insertPair (s : Sample) :
    (s.labels.map labelText).foldl insertPair [] = mapLabels readLabel s := by
  rw [mapLabels, SortedMap.ofList, foldl_map, foldl_map]
  congr 1
  funext m l
  exact insertPair_labelText m l

theorem parseMetricLine_bare (s : Sample) (h : s.labels = []) :
    parseMetricLine s.text = some (s.name.text, ⟨mapLabels readLabel s, s.value.value⟩) := by
  have htext : s.text = s.name.text ++ ' ' :: s.value.text := by
    simp [Sample.text, labelsText, h]
  have hbrace : s.text.idxOf? '{' = none := by
    have hname : '{' ∉ s.name.text := Name.notMem (by decide) (by decide)
    have hvalue : '{' ∉ s.value.text := fun hc => absurd (Numeral.visible hc).2 (by decide)
    simp [idxOf?_eq_none_iff, htext, hname, hvalue]
  have hparts : (s.text.splitOnP isWhitespace).filter (· ≠ []) = [s.name.text, s.value.text] := by
    rw [htext, splitOnP_append_cons_of_forall_mem (fun c hc => Name.not_isWhitespace hc) ' ' rfl,
      splitOnP_eq_singleton fun c hc => Numeral.not_isWhitespace hc]
    simp [Name.text, s.value.text_ne_nil]
  simp only [parseMetricLine, hbrace, hparts]
  simp [s.value.reads, mapLabels, h, SortedMap.ofList]

/-- Where no value has a comma or a closing brace, a sample is cut at the right places. -/
theorem parseMetricLine_text (s : Sample) (h : ∀ l ∈ s.labels, ',' ∉ l.2 ∧ '}' ∉ l.2) :
    parseMetricLine s.text = some (s.name.text, ⟨mapLabels readLabel s, s.value.value⟩) := by
  by_cases hlabels : s.labels = []
  · exact parseMetricLine_bare s hlabels
  · obtain ⟨pairs, hpairs⟩ : ∃ pairs, pairs = [','].intercalate (s.labels.map labelText) := ⟨_, rfl⟩
    have htext : s.text =
        s.name.text ++ '{' :: (pairs ++ '}' :: ' ' :: s.value.text) := by
      simp [Sample.text, labelsText, hlabels, hpairs]
    have hopen : s.text.idxOf? '{' = some s.name.text.length := by
      rw [htext]
      exact idxOf?_append_cons (Name.notMem (by decide) (by decide)) _
    have hclose : s.text.idxOf? '}' = some (s.name.text.length + 1 + pairs.length) := by
      have hname : '}' ∉ s.name.text := Name.notMem (by decide) (by decide)
      have hmem : '}' ∉ pairs := by
        intro hmem
        rcases mem_intercalate (hpairs ▸ hmem) with hc | ⟨l, hl, hc⟩
        · cases hc
        · obtain ⟨label, hlabel, rfl⟩ := mem_map.mp hl
          exact notMem_labelText (by simp) (h label hlabel).2 hc
      have hbefore : '}' ∉ s.name.text ++ '{' :: pairs := by simp [hname, hmem]
      rw [htext, ← cons_append, ← append_assoc, idxOf?_append_cons hbefore]
      simp only [length_append, length_cons]
      congr 1
      omega
    have hlabelStr : slice s.text (s.name.text.length + 1)
        (s.name.text.length + 1 + pairs.length) = some pairs := by
      have hparts : s.text = (s.name.text ++ ['{']) ++ (pairs ++ '}' :: ' ' :: s.value.text) := by
        simp [htext]
      simpa using slice_append hparts
    have hvalueStr : slice s.text (s.name.text.length + 1 + pairs.length + 1) s.text.length =
        some (' ' :: s.value.text) := by
      have hparts : s.text =
          (s.name.text ++ '{' :: (pairs ++ ['}'])) ++ (' ' :: s.value.text ++ []) := by
        simp [htext]
      have hlength : s.text.length =
          s.name.text.length + (pairs.length + 1 + 1) + (s.value.text.length + 1) := by
        simp [htext]
        omega
      rw [hlength]
      simpa [Nat.add_assoc, Nat.add_comm 1] using slice_append hparts
    have hsplit : pairs.splitOn ',' = s.labels.map labelText := by
      rw [hpairs, splitOn_intercalate]
      · intro l hl
        obtain ⟨label, hlabel, rfl⟩ := mem_map.mp hl
        exact notMem_labelText (by simp) (h label hlabel).1
      · simpa using hlabels
    have hspace : trim (' ' :: s.value.text) = s.value.text :=
      trim_visible fun c hc => Numeral.not_isWhitespace hc
    simp only [parseMetricLine, hopen, hclose, Option.getD_some, hlabelStr, hvalueStr]
    simp [htext, hsplit, foldl_insertPair, hspace, s.value.reads]

-- ---------------------------------------------------------------------------
-- What survives
-- ---------------------------------------------------------------------------

/-- The labels and the value of each sample are among the entries, and no others. -/
def Returned (families : List Family) : Prop :=
  ∃ entries, parsePrometheusText (render families) = some entries ∧
    values entries ~ (families.flatMap Family.samples).map meant

/-- A value that needs no escaping and has nothing that a line is cut at. -/
def PlainValue (value : List Char) : Prop :=
  ∀ c ∈ value, isEscaped c = false ∧ c ≠ ',' ∧ c ≠ '}'

def Plain (families : List Family) : Prop :=
  ∀ s ∈ families.flatMap Family.samples, ∀ l ∈ s.labels, PlainValue l.2

def valueText (vs : List MetricValue) : List Char :=
  vs.flatMap fun v => v.labels.flatMap Prod.snd

theorem count_readLabel (value : List Char) :
    (readLabel value).count '\\' = value.count '\\' + value.countP isEscaped := by
  rw [readLabel, count_trimMatches (by decide), count_escape]

theorem readLabel_plain {value : List Char} (h : ∀ c ∈ value, isEscaped c = false) :
    readLabel value = value := by
  rw [readLabel, escape_eq_self h]
  exact trimMatches_eq_self fun hq => absurd (h _ hq) (by decide)

theorem mapLabels_plain {s : Sample} (h : ∀ l ∈ s.labels, ∀ c ∈ l.2, isEscaped c = false) :
    mapLabels readLabel s = mapLabels id s := by
  have hlabels : s.labels.map (fun l => (l.1.text, readLabel l.2)) =
      s.labels.map fun l => (l.1.text, id l.2) :=
    map_congr_left fun l hl => by rw [readLabel_plain (h l hl), id]
  rw [mapLabels, hlabels, mapLabels]

theorem valueText_mapLabels (f : List Char → List Char) (x : Sample → Double)
    (ss : List Sample) :
    valueText (ss.map fun s => ⟨mapLabels f s, x s⟩) ~
      ss.flatMap fun s => s.labels.flatMap fun l => f l.2 := by
  induction ss with
  | nil => exact .refl _
  | cons s ss ih =>
    have hs := (mapLabels_perm f s).flatMap_right Prod.snd
    rw [flatMap_map] at hs
    exact hs.append ih

theorem count_flatMap_readLabel (labels : List (Name × List Char)) :
    (labels.flatMap fun l => readLabel l.2).count '\\' =
      (labels.flatMap Prod.snd).count '\\' + (labels.flatMap Prod.snd).countP isEscaped := by
  induction labels with
  | nil => rfl
  | cons l labels ih =>
    simp only [flatMap_cons, count_append, countP_append, ih, count_readLabel]
    omega

theorem count_samples (ss : List Sample) :
    (ss.flatMap fun s => s.labels.flatMap fun l => readLabel l.2).count '\\' =
      (ss.flatMap fun s => s.labels.flatMap Prod.snd).count '\\' +
        (ss.flatMap fun s => s.labels.flatMap Prod.snd).countP isEscaped := by
  induction ss with
  | nil => rfl
  | cons s ss ih =>
    simp only [flatMap_cons, count_append, countP_append, ih, count_flatMap_readLabel]
    omega

/-- Samples that are cut at the right places come back as themselves only where
nothing in them is escaped: reading them adds a backslash for each such character. -/
theorem read_perm_iff (ss : List Sample) :
    ss.map (fun s => ⟨mapLabels readLabel s, s.value.value⟩) ~ ss.map meant ↔
      ∀ s ∈ ss, ∀ l ∈ s.labels, ∀ c ∈ l.2, isEscaped c = false := by
  constructor
  · intro h
    have htext := h.flatMap_right fun v => v.labels.flatMap Prod.snd
    have hread := valueText_mapLabels readLabel (·.value.value) ss
    have hmeant := valueText_mapLabels id (·.value.value) ss
    have hcount := ((hread.symm.trans htext).trans hmeant).count_eq '\\'
    simp only [id] at hcount
    rw [count_samples, Nat.add_eq_left, countP_eq_zero] at hcount
    intro s hs l hl c hc
    simpa using hcount c (mem_flatMap.mpr ⟨s, hs, mem_flatMap.mpr ⟨l, hl, hc⟩⟩)
  · intro h
    have heq : ss.map (fun s => ⟨mapLabels readLabel s, s.value.value⟩) = ss.map meant :=
      map_congr_left fun s hs => by rw [meant, mapLabels_plain (h s hs)]
    rw [heq]

theorem values_render {ss : List Sample} (h : ∀ s ∈ ss, ∀ l ∈ s.labels, ',' ∉ l.2 ∧ '}' ∉ l.2) :
    (ss.map Sample.text).filterMap readValue =
      ss.map fun s => ⟨mapLabels readLabel s, s.value.value⟩ := by
  rw [filterMap_map, ← filterMap_eq_map]
  refine filterMap_congr fun s hs => ?_
  simp [readValue, parseMetricLine_text s (h s hs)]

/-- In a text whose sample lines are the given samples, their labels and values are kept
if and only if they are plain. -/
theorem values_iff_plain {text : List Char} {ss : List Sample}
    (hlines : sampleLines (lines text) = ss.map Sample.text) :
    (∃ entries, parsePrometheusText text = some entries ∧ values entries ~ ss.map meant) ↔
      ∀ s ∈ ss, ∀ l ∈ s.labels, PlainValue l.2 := by
  constructor
  · rintro ⟨entries, hparse, hvalues⟩
    have hread := parse_values hparse
    rw [hlines] at hread
    -- a comma or a closing brace would have to be read off some line
    have hwhole : ∀ s ∈ ss, ∀ l ∈ s.labels, ',' ∉ l.2 ∧ '}' ∉ l.2 := by
      intro s hs l hl
      have hmem := (hvalues.symm.trans hread).subset (mem_map_of_mem (f := meant) hs)
      obtain ⟨line, -, hline⟩ := mem_filterMap.mp hmem
      refine notMem_of_read hline (l.1.text, l.2) ?_
      exact (mapLabels_perm id s).symm.subset (mem_map_of_mem (f := fun l => (l.1.text, id l.2)) hl)
    rw [values_render hwhole] at hread
    have hescaped := (read_perm_iff ss).mp (hread.symm.trans hvalues)
    intro s hs l hl c hc
    refine ⟨hescaped s hs l hl c hc, ?_, ?_⟩
    · rintro rfl
      exact (hwhole s hs l hl).1 hc
    · rintro rfl
      exact (hwhole s hs l hl).2 hc
  · intro hplain
    have hwhole : ∀ s ∈ ss, ∀ l ∈ s.labels, ',' ∉ l.2 ∧ '}' ∉ l.2 := fun s hs l hl =>
      ⟨fun hc => (hplain s hs l hl _ hc).2.1 rfl, fun hc => (hplain s hs l hl _ hc).2.2 rfl⟩
    have hsome : (parsePrometheusText text).isSome := by
      rw [parse_isSome, hlines]
      intro line hline
      obtain ⟨s, hs, rfl⟩ := mem_map.mp hline
      simp [readValue, parseMetricLine_text s (hwhole s hs)]
    obtain ⟨entries, hparse⟩ := Option.isSome_iff_exists.mp hsome
    refine ⟨entries, hparse, ?_⟩
    have hread := parse_values hparse
    rw [hlines, values_render hwhole] at hread
    exact hread.trans ((read_perm_iff ss).mpr fun s hs l hl c hc => (hplain s hs l hl c hc).1)

theorem returned_iff_plain (families : List Family) : Returned families ↔ Plain families :=
  values_iff_plain (sampleLines_render families)

/-- Metrics survive the parser when no value of a label has a quote, a backslash, a
line feed, a comma or a closing brace, and only then; a text is parsed without a
panic when the first brace of every sample line is an opening one that is closed. -/
theorem metrics_survive_iff (families : List Family) (text : List Char) :
    (Returned families ↔ Plain families) ∧
      ((parsePrometheusText text).isSome ↔
        ∀ line ∈ sampleLines (lines text), ∀ start, line.idxOf? '{' = some start →
          ∃ stop, line.idxOf? '}' = some stop ∧ start < stop) := by
  refine ⟨returned_iff_plain families, ?_⟩
  rw [parse_isSome]
  exact forall₂_congr fun line _ => readValue_isSome line

/-- A request that the middleware counts under the template of its route. -/
def routeRequests : Family where
  name := ⟨'h', "ttp_requests_total".toList, by decide, by decide⟩
  help := none
  type := .counter
  samples := [
    { name := ⟨'h', "ttp_requests_total".toList, by decide, by decide⟩
      labels := [
        (⟨'m', "ethod".toList, by decide, by decide⟩, "GET".toList),
        (⟨'p', "ath".toList, by decide, by decide⟩, "/users/{id}".toList),
        (⟨'s', "tatus".toList, by decide, by decide⟩, "200".toList)]
      distinct := by decide
      value := ⟨['1'], .ofInt 1, by decide, by decide +kernel⟩ }]

/-- The path loses its brace, and the status and the count are lost. -/
example : (parsePrometheusText (render [routeRequests])).map values =
    some [⟨[("method".toList, "GET".toList), ("path".toList, "/users/\x7bid".toList)],
      .ofInt 0⟩] := by
  decide +kernel

theorem route_template_is_cut :
    ¬ Returned [routeRequests] ∧ parsePrometheusText "\x7d\x7b".toList = none := by
  constructor
  · intro h
    have hbrace := (returned_iff_plain _).mp h _ (.head _) _ (.tail _ (.head _)) '}' (by decide)
    exact hbrace.2.2 rfl
  · decide +kernel

end Rinfra.Admin
