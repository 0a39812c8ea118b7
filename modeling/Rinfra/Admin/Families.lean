import Rinfra.Admin.Exposition

/-!
# Families that come back

What `parse_prometheus_text` makes of the families of an exposition. It knows the name
of a family from its help text on; a family without one is read under the name of
another, or with no type.
-/

namespace Rinfra.Admin

open Lib Exposition List

def suffixes : List (List Char) :=
  ["_total".toList, "_bucket".toList, "_sum".toList, "_count".toList]

def Belongs (f : Family) (s : Sample) : Prop :=
  s.name.text = f.name.text ∨ ∃ suffix ∈ suffixes, s.name.text = f.name.text ++ suffix

def entryWith (f : Family) (values : List MetricValue) : MetricEntry :=
  ⟨f.name.text, f.type.text, f.help.getD [], values⟩

def entryOf (f : Family) : MetricEntry := entryWith f (f.samples.map meant)

/-- There is one entry for each family, with its type, its help text and its samples, and
no other. -/
def FamiliesKept (blocks : List Block) : Prop :=
  ∃ entries, parsePrometheusText (renderBlocks blocks) = some entries ∧
    entries ~ (blocks.map Block.family).map entryOf

/-- A help text that is written as it is and not trimmed. -/
def PlainHelp (help : List Char) : Prop :=
  (∀ c ∈ help, c ≠ '\\' ∧ c ≠ '\n') ∧ ∀ c, help.getLast? = some c → isWhitespace c = false

/-- Each family has a name, samples and a help text of its own. -/
structure Headed (families : List Family) : Prop where
  distinct : (families.map fun f => f.name.text).Nodup
  sampled : ∀ f ∈ families, f.samples ≠ []
  own : ∀ f ∈ families, ∀ s ∈ f.samples, Belongs f s
  helped : ∀ f ∈ families, ∃ help, f.help = some help ∧ PlainHelp help
  plain : Plain families

-- ---------------------------------------------------------------------------
-- Names of samples
-- ---------------------------------------------------------------------------

section
variable {suffix suffix' name text : List Char}

theorem stripSuffix_eq_some : stripSuffix suffix text = some name ↔ text = name ++ suffix := by
  unfold stripSuffix
  split
  · rename_i h
    obtain ⟨front, rfl⟩ := isSuffixOf_iff_suffix.mp h
    simp
  · rename_i h
    refine ⟨nofun, fun htext => absurd ?_ h⟩
    exact isSuffixOf_iff_suffix.mpr ⟨name, htext.symm⟩

theorem stripSuffix_append (h : suffix ∈ suffixes) (h' : suffix' ∈ suffixes) :
    stripSuffix suffix (name ++ suffix') = if suffix = suffix' then some name else none := by
  have hdiffer : ∀ a ∈ suffixes, ∀ b ∈ suffixes, a <:+ b → a = b := by decide
  split
  · rename_i heq
    rw [stripSuffix_eq_some, heq]
  · rename_i hne
    rw [Option.eq_none_iff_forall_not_mem]
    intro front hfront
    have htext := stripSuffix_eq_some.mp hfront
    have hsame : suffix <:+ suffix' ∨ suffix' <:+ suffix :=
      suffix_or_suffix_of_suffix ⟨front, htext.symm⟩ (suffix_append name suffix')
    rcases hsame with hsame | hsame
    · exact hne (hdiffer _ h _ h' hsame)
    · exact hne (hdiffer _ h' _ h hsame).symm

theorem baseName_append (h : suffix ∈ suffixes) : baseName (name ++ suffix) = name := by
  have hstrip : ∀ a ∈ suffixes, stripSuffix a (name ++ suffix) =
      if a = suffix then some name else none := fun a ha => stripSuffix_append ha h
  unfold baseName
  rw [hstrip _ (by decide), hstrip _ (by decide), hstrip _ (by decide), hstrip _ (by decide)]
  simp only [suffixes, mem_cons, not_mem_nil, or_false] at h
  rcases h with rfl | rfl | rfl | rfl <;> simp

theorem baseName_eq (text : List Char) :
    baseName text = (suffixes.findSome? (stripSuffix · text)).getD text := by
  simp only [baseName, suffixes, findSome?_cons, findSome?_nil]
  cases stripSuffix "_total".toList text with
  | some name => rfl
  | none =>
    cases stripSuffix "_bucket".toList text with
    | some name => rfl
    | none =>
      cases stripSuffix "_sum".toList text with
      | some name => rfl
      | none => cases stripSuffix "_count".toList text <;> rfl

theorem baseName_cases (text : List Char) :
    baseName text = text ∨ ∃ suffix ∈ suffixes, text = baseName text ++ suffix := by
  rw [baseName_eq]
  cases h : suffixes.findSome? (stripSuffix · text) with
  | none => exact .inl rfl
  | some name =>
    obtain ⟨suffix, hs, hname⟩ := exists_of_findSome?_eq_some h
    exact .inr ⟨suffix, hs, stripSuffix_eq_some.mp hname⟩

theorem belongs_iff {f : Family} {s : Sample} :
    Belongs f s ↔ baseName s.name.text = f.name.text ∨ s.name.text = f.name.text := by
  constructor
  · rintro (h | ⟨suffix, hs, h⟩)
    · exact .inr h
    · exact .inl (by rw [h, baseName_append hs])
  · rintro (h | h)
    · rw [Belongs, ← h]
      exact (baseName_cases s.name.text).imp Eq.symm id
    · exact .inl h

end

-- ---------------------------------------------------------------------------
-- Help texts
-- ---------------------------------------------------------------------------

/-- A help text as it is read: what is escaped stays so. -/
def readHelp (help : List Char) : List Char := trimEnd (escapeHelp help)

theorem readHelp_eq_self {help : List Char} : readHelp help = help ↔ PlainHelp help := by
  constructor
  · intro h
    have hcount := congrArg (count '\\') h
    rw [readHelp, count_trimEnd (by decide), count_escapeHelp, Nat.add_eq_left,
      countP_eq_zero] at hcount
    refine ⟨fun c hc => ?_, fun c hc => ?_⟩
    · simpa using hcount c hc
    · rw [← h, readHelp] at hc
      exact getLast?_trimEnd hc
  · rintro ⟨hchars, hlast⟩
    rw [readHelp, escapeHelp_eq_self hchars, trimEnd_eq_self hlast]

-- ---------------------------------------------------------------------------
-- Lines of a family
-- ---------------------------------------------------------------------------

def ParseState.fresh (s : ParseState) (metricName : List Char) : MetricEntry :=
  let base := baseName metricName
  let lookupName :=
    if base = s.currentName ∨ metricName = s.currentName then s.currentName else base
  { name := lookupName
    metricType := if lookupName = s.currentName then s.currentType else "unknown".toList
    help := if lookupName = s.currentName then s.currentHelp else []
    values := [] }

def ParseState.add (s : ParseState) (x : Sample) : ParseState :=
  { s with entries := addValue (s.fresh x.name.text) (meant x) s.entries }

def ParseState.enter (s : ParseState) (f : Family) : ParseState :=
  match f.help with
  | some help => { s with
      currentName := f.name.text
      currentHelp := readHelp help
      currentType := f.type.text }
  | none => { s with currentType := f.type.text }

def ParseState.readFamily (s : ParseState) (f : Family) : ParseState :=
  f.samples.foldl ParseState.add (s.enter f)

section
variable {s : ParseState} {f : Family} {x : Sample} {families : List Family} {help : List Char}

theorem name_last (n : Name) : ∃ d, n.text.getLast? = some d ∧ isWhitespace d = false := by
  have hne : n.text ≠ [] := by simp [Name.text]
  exact ⟨_, getLast?_eq_some_getLast hne, Name.not_isWhitespace (getLast_mem hne)⟩

theorem parseLine_help (s : ParseState) (f : Family) (help : List Char) :
    parseLine s (stripReturn ("# HELP ".toList ++ (f.name.text ++ ' ' :: escapeHelp help))) =
      some { s with currentName := f.name.text, currentHelp := readHelp help } := by
  obtain ⟨d, hlast, hd⟩ := name_last f.name
  have hname : ' ' ∉ f.name.text := Name.notMem (by decide) (by decide)
  have htrim : trim (stripReturn ("# HELP ".toList ++ (f.name.text ++ ' ' :: escapeHelp help))) =
      "# HELP ".toList ++ (f.name.text ++ trimEnd (' ' :: escapeHelp help)) := by
    rw [← append_assoc, ← append_assoc]
    refine trim_stripReturn (c := '#') (by decide) hd rfl ?_ _
    rw [getLast?_append_of_ne_nil _ (by simp [Name.text]), hlast]
  have hprefix (rest : List Char) : "# HELP ".toList.isPrefixOf ("# HELP ".toList ++ rest) :=
    isPrefixOf_iff_prefix.mpr (prefix_append _ _)
  have hrest (rest : List Char) : ("# HELP ".toList ++ rest).drop 7 = rest :=
    drop_left' rfl
  simp only [parseLine, htrim, hprefix, hrest, if_true]
  rw [if_neg (by simp), trimEnd_cons_space (by decide)]
  by_cases hblank : trimEnd (escapeHelp help) = []
  · rw [if_pos hblank, append_nil, idxOf?_eq_none_iff.mpr hname]
    simp only [readHelp, hblank]
  · rw [if_neg hblank, idxOf?_append_cons hname]
    simp [readHelp]

theorem parseLine_type (s : ParseState) (f : Family) :
    parseLine s (stripReturn ("# TYPE ".toList ++ (f.name.text ++ ' ' :: f.type.text))) =
      some { s with currentType := f.type.text } := by
  obtain ⟨front, d, htype, hd⟩ :
      ∃ front d, f.type.text = front ++ [d] ∧ isWhitespace d = false := by
    cases f.type
    · exact ⟨"counte".toList, 'r', rfl, by decide⟩
    · exact ⟨"gaug".toList, 'e', rfl, by decide⟩
    · exact ⟨"histogra".toList, 'm', rfl, by decide⟩
    · exact ⟨"summar".toList, 'y', rfl, by decide⟩
    · exact ⟨"untype".toList, 'd', rfl, by decide⟩
  have hname : ' ' ∉ f.name.text := Name.notMem (by decide) (by decide)
  have htrim : trim (stripReturn ("# TYPE ".toList ++ (f.name.text ++ ' ' :: f.type.text))) =
      "# TYPE ".toList ++ (f.name.text ++ ' ' :: f.type.text) := by
    have hlast : ("# TYPE ".toList ++ (f.name.text ++ ' ' :: f.type.text)).getLast? = some d := by
      rw [htype, ← cons_append, ← append_assoc, ← append_assoc, getLast?_concat]
    have h := trim_stripReturn (c := '#') (by decide) hd rfl hlast []
    simpa [trimEnd] using h
  have hprefix (rest : List Char) : "# TYPE ".toList.isPrefixOf ("# TYPE ".toList ++ rest) :=
    isPrefixOf_iff_prefix.mpr (prefix_append _ _)
  have hrest (rest : List Char) : ("# TYPE ".toList ++ rest).drop 7 = rest :=
    drop_left' rfl
  have hhelp (rest : List Char) :
      "# HELP ".toList.isPrefixOf ("# TYPE ".toList ++ rest) = false := rfl
  simp only [parseLine, htrim, hprefix, hrest, hhelp, if_true]
  rw [if_neg (by simp), idxOf?_append_cons hname]
  simp

theorem parseLine_sample_text (s : ParseState) (x : Sample)
    (hx : ∀ l ∈ x.labels, PlainValue l.2) :
    parseLine s (stripReturn x.text) = some (s.add x) := by
  have hlines := sampleLines_sample x
  have hmem : x.text ∈ sampleLines [stripReturn x.text] := by simp [hlines]
  have hsample : x.text ≠ [] ∧ x.text.head? ≠ some '#' := of_decide_eq_true (mem_filter.mp hmem).2
  have htrim : trim (stripReturn x.text) = x.text := by
    have hone := (parseLine_sample (ne_nil_of_mem hmem) s).1
    rw [hlines] at hone
    exact (cons.inj hone).1.symm
  have hHelp : ¬ "# HELP ".toList.isPrefixOf x.text := fun h => hsample.2 (head?_of_isPrefixOf h)
  have hType : ¬ "# TYPE ".toList.isPrefixOf x.text := fun h => hsample.2 (head?_of_isPrefixOf h)
  have hwhole : ∀ l ∈ x.labels, ',' ∉ l.2 ∧ '}' ∉ l.2 := fun l hl =>
    ⟨fun hc => (hx l hl _ hc).2.1 rfl, fun hc => (hx l hl _ hc).2.2 rfl⟩
  have hlabels : mapLabels readLabel x = mapLabels id x :=
    mapLabels_plain fun l hl c hc => (hx l hl c hc).1
  simp only [parseLine, htrim, if_neg hsample.1, if_neg hHelp, if_neg hType, if_pos hsample.2,
    parseMetricLine_text x hwhole, hlabels]
  rfl

theorem run_samples {xs : List Sample} (s : ParseState)
    (hxs : ∀ x ∈ xs, ∀ l ∈ x.labels, PlainValue l.2) :
    ((xs.map Sample.text).map stripReturn).foldlM parseLine s = some (xs.foldl .add s) := by
  induction xs generalizing s with
  | nil => rfl
  | cons x xs ih =>
    simp only [forall_mem_cons] at hxs
    rw [map_cons, map_cons, foldlM_cons, parseLine_sample_text s x hxs.1]
    exact ih _ hxs.2

theorem run_comments (s : ParseState) (b : Block) :
    (b.comments.map stripReturn).foldlM parseLine s = some (s.enter b.family) := by
  unfold Block.comments Family.comments ParseState.enter
  cases b.family.help with
  | none =>
    simp only [Option.map_none, Option.toList_none, nil_append, reverse_singleton, ite_self,
      map_cons, map_nil, foldlM_cons, foldlM_nil]
    rw [parseLine_type]
    rfl
  | some help =>
    simp only [Option.map_some, Option.toList_some, singleton_append]
    split
    · simp only [reverse_cons, reverse_nil, nil_append, singleton_append, map_cons, map_nil,
        foldlM_cons, foldlM_nil]
      rw [parseLine_type]
      simp only [Option.bind_eq_bind, Option.bind_some]
      rw [parseLine_help]
      rfl
    · simp only [map_cons, map_nil, foldlM_cons, foldlM_nil]
      rw [parseLine_help]
      simp only [Option.bind_eq_bind, Option.bind_some]
      rw [parseLine_type]
      rfl

theorem run_block (s : ParseState) (b : Block)
    (hb : ∀ x ∈ b.family.samples, ∀ l ∈ x.labels, PlainValue l.2) :
    (b.lines.map stripReturn).foldlM parseLine s = some (s.readFamily b.family) := by
  rw [Block.lines, map_append, map_append, foldlM_append, foldlM_append, run_comments]
  simp only [Option.bind_eq_bind, Option.bind_some]
  rw [run_samples _ hb]
  cases b.spaced <;> rfl

theorem run_blocks {blocks : List Block} (s : ParseState)
    (h : Plain (blocks.map Block.family)) :
    ((blocks.flatMap Block.lines).map stripReturn).foldlM parseLine s =
      some ((blocks.map Block.family).foldl .readFamily s) := by
  induction blocks generalizing s with
  | nil => rfl
  | cons b blocks ih =>
    simp only [Plain, map_cons, flatMap_cons, mem_append, or_imp, forall_and] at h
    rw [flatMap_cons, map_append, foldlM_append, run_block s b h.1]
    exact ih _ h.2

theorem parse_renderBlocks {blocks : List Block} (h : Plain (blocks.map Block.family)) :
    parsePrometheusText (renderBlocks blocks) =
      some ((blocks.map Block.family).foldl ParseState.readFamily {}).entries := by
  rw [parsePrometheusText, renderBlocks, lines_flatMap, run_blocks _ h]
  · rfl
  · intro line hline
    obtain ⟨b, -, hb⟩ := mem_flatMap.mp hline
    exact Block.lineFeed_notMem_lines hb

-- ---------------------------------------------------------------------------
-- Where a value goes
-- ---------------------------------------------------------------------------

theorem addValue_cases (fresh : MetricEntry) (v : MetricValue) (entries : List MetricEntry) :
    fresh.name ∉ entries.map MetricEntry.name ∧
        addValue fresh v entries = entries ++ [{ fresh with values := [v] }] ∨
      ∃ before e after, entries = before ++ e :: after ∧ e.name = fresh.name ∧
        addValue fresh v entries = before ++ { e with values := e.values ++ [v] } :: after := by
  induction entries with
  | nil => exact .inl ⟨not_mem_nil, rfl⟩
  | cons e rest ih =>
    rw [addValue]
    by_cases he : e.name = fresh.name
    · exact .inr ⟨[], e, rest, rfl, he, if_pos he⟩
    · rw [if_neg he]
      rcases ih with ⟨hnew, h⟩ | ⟨before, e', after, rfl, hname, h⟩
      · exact .inl ⟨by simpa [Ne.symm he] using hnew, by rw [h]; rfl⟩
      · exact .inr ⟨e :: before, e', after, rfl, hname, by rw [h]; rfl⟩

theorem addValue_append {fresh : MetricEntry} {entries : List MetricEntry}
    (h : fresh.name ∉ entries.map MetricEntry.name) (v : MetricValue) (rest : List MetricEntry) :
    addValue fresh v (entries ++ rest) = entries ++ addValue fresh v rest := by
  induction entries with
  | nil => rfl
  | cons e entries ih =>
    simp only [map_cons, mem_cons, not_or] at h
    rw [cons_append, addValue, if_neg (Ne.symm h.1), ih h.2, cons_append]

def FromFamily (families : List Family) (name help : List Char) : Prop :=
  ∃ f ∈ families, ∃ text, f.help = some text ∧ name = f.name.text ∧ help = readHelp text

/-- An entry that has a type is for a family with a help text. -/
structure Sound (families : List Family) (s : ParseState) : Prop where
  current : s.currentName = [] ∨ FromFamily families s.currentName s.currentHelp
  filled : ∀ e ∈ s.entries, e.values ≠ []
  made : ∀ e ∈ s.entries, e.metricType = "unknown".toList ∨ e.name = [] ∨
    FromFamily families e.name e.help
  distinct : (s.entries.map MetricEntry.name).Nodup

theorem Sound.enter (h : Sound families s) (hf : f ∈ families) : Sound families (s.enter f) := by
  unfold ParseState.enter
  cases hhelp : f.help with
  | some help => exact ⟨.inr ⟨f, hf, help, hhelp, rfl, rfl⟩, h.filled, h.made, h.distinct⟩
  | none => exact ⟨h.current, h.filled, h.made, h.distinct⟩

theorem Sound.fresh (h : Sound families s) (metricName : List Char) :
    (s.fresh metricName).metricType = "unknown".toList ∨ (s.fresh metricName).name = [] ∨
      FromFamily families (s.fresh metricName).name (s.fresh metricName).help := by
  simp only [ParseState.fresh]
  generalize (if baseName metricName = s.currentName ∨ metricName = s.currentName then
    s.currentName else baseName metricName) = lookupName
  by_cases hlookup : lookupName = s.currentName
  · subst hlookup
    simp only [if_true]
    exact .inr h.current
  · exact .inl (if_neg hlookup)

theorem Sound.add (h : Sound families s) (x : Sample) : Sound families (s.add x) := by
  have hfresh := h.fresh x.name.text
  unfold ParseState.add
  rcases addValue_cases (s.fresh x.name.text) (meant x) s.entries with
    ⟨hnew, heq⟩ | ⟨before, e, after, hentries, hname, heq⟩
  · refine ⟨h.current, ?_, ?_, ?_⟩ <;> simp only [heq]
    · simp only [forall_mem_append, forall_mem_singleton]
      exact ⟨h.filled, by simp⟩
    · simp only [forall_mem_append, forall_mem_singleton]
      exact ⟨h.made, hfresh⟩
    · rw [map_append, nodup_append]
      refine ⟨h.distinct, nodup_singleton _, ?_⟩
      rintro a ha b hb rfl
      exact hnew (mem_singleton.mp hb ▸ ha)
  · have hfilled := h.filled
    have hmade := h.made
    have hdistinct := h.distinct
    rw [hentries] at hfilled hmade hdistinct
    simp only [forall_mem_append, forall_mem_cons] at hfilled hmade
    refine ⟨h.current, ?_, ?_, ?_⟩ <;> simp only [heq]
    · simp only [forall_mem_append, forall_mem_cons]
      exact ⟨hfilled.1, by simp, hfilled.2.2⟩
    · simp only [forall_mem_append, forall_mem_cons]
      exact ⟨hmade.1, hmade.2.1, hmade.2.2⟩
    · simpa using hdistinct

theorem Sound.readFamily (h : Sound families s) (hf : f ∈ families) :
    Sound families (s.readFamily f) := by
  have hsamples (s : ParseState) (xs : List Sample) (hs : Sound families s) :
      Sound families (xs.foldl .add s) := by
    induction xs generalizing s with
    | nil => exact hs
    | cons x xs ih => exact ih _ (hs.add x)
  exact hsamples _ _ (h.enter hf)

theorem Sound.run {fs : List Family} (h : Sound families s) (hfs : fs ⊆ families) :
    Sound families (fs.foldl .readFamily s) := by
  induction fs generalizing s with
  | nil => exact h
  | cons f fs ih =>
    rw [cons_subset] at hfs
    exact ih (h.readFamily hfs.1) hfs.2

theorem sound_start (families : List Family) : Sound families {} :=
  ⟨.inl rfl, by simp, by simp, nodup_nil⟩

-- ---------------------------------------------------------------------------
-- Samples of other names
-- ---------------------------------------------------------------------------

/-- An entry has no type, or more values than the family of its name. -/
def Spoiled (families : List Family) (entries : List MetricEntry) : Prop :=
  ∃ e ∈ entries, e.metricType = "unknown".toList ∨
    ∃ f ∈ families, e.name = f.name.text ∧ f.samples.length < e.values.length

theorem Spoiled.added {entries : List MetricEntry} (h : Spoiled families entries)
    (fresh : MetricEntry) (v : MetricValue) : Spoiled families (addValue fresh v entries) := by
  obtain ⟨e, he, hbad⟩ := h
  rcases addValue_cases fresh v entries with ⟨-, heq⟩ | ⟨before, e', after, hentries, -, heq⟩
  · exact ⟨e, by simp [heq, he], hbad⟩
  · rw [hentries, mem_append, mem_cons] at he
    by_cases hsame : e = e'
    · subst hsame
      have hgrown : { e with values := e.values ++ [v] } ∈ addValue fresh v entries := by
        rw [heq]
        exact mem_append_right _ mem_cons_self
      refine ⟨_, hgrown, hbad.imp id ?_⟩
      rintro ⟨f, hf, hname, hlength⟩
      refine ⟨f, hf, hname, ?_⟩
      rw [length_append]
      omega
    · refine ⟨e, ?_, hbad⟩
      rw [heq, mem_append, mem_cons]
      exact he.imp id fun he => .inr (he.resolve_left hsame)

theorem Spoiled.foldl {xs : List Sample} (h : Spoiled families s.entries) :
    Spoiled families (xs.foldl ParseState.add s).entries := by
  induction xs generalizing s with
  | nil => exact h
  | cons x xs ih => exact ih (h.added _ _)

theorem Spoiled.run {fs : List Family} (h : Spoiled families s.entries) :
    Spoiled families (fs.foldl ParseState.readFamily s).entries := by
  induction fs generalizing s with
  | nil => exact h
  | cons f fs ih =>
    have henter : (s.enter f).entries = s.entries := by
      unfold ParseState.enter
      split <;> rfl
    exact ih (Spoiled.foldl (henter ▸ h))

theorem type_known (t : MetricType) : t.text ≠ "unknown".toList := by
  cases t <;> decide

theorem not_spoiled {entries : List MetricEntry}
    (hdistinct : (families.map fun f => f.name.text).Nodup)
    (h : entries ~ families.map entryOf) : ¬ Spoiled families entries := by
  rintro ⟨e, he, hbad⟩
  obtain ⟨f, hf, rfl⟩ := mem_map.mp (h.mem_iff.mp he)
  rcases hbad with htype | ⟨f', hf', hname, hlength⟩
  · exact type_known _ htype
  · obtain rfl := inj_on_of_nodup_map hdistinct hf hf' hname
    rw [entryOf, entryWith, length_map] at hlength
    exact absurd hlength (Nat.lt_irrefl _)

/-- Within a family with a help text that is read as it is. -/
structure At (f : Family) (s : ParseState) : Prop where
  name : s.currentName = f.name.text
  type : s.currentType = f.type.text
  help : s.currentHelp = f.help.getD []

theorem At.own (h : At f s) (hx : Belongs f x) :
    s.fresh x.name.text = entryWith f [] := by
  have hlookup := belongs_iff.mp hx
  rw [← h.name] at hlookup
  simp only [ParseState.fresh, if_pos hlookup]
  rw [if_pos trivial, if_pos trivial, h.name, h.type, h.help]
  rfl

theorem At.foreign (h : At f s) (hx : ¬ Belongs f x) :
    (s.fresh x.name.text).name ≠ f.name.text ∧
      (s.fresh x.name.text).metricType = "unknown".toList := by
  rw [belongs_iff, ← h.name] at hx
  have hbase : baseName x.name.text ≠ s.currentName := fun heq => hx (.inl heq)
  simp only [ParseState.fresh, if_neg hx, if_neg hbase, ← h.name]
  exact ⟨hbase, trivial⟩

/-- The entries of the families before, and that of the family with its first values. -/
def own (before : List Family) (f : Family) (vs : List MetricValue) : List MetricEntry :=
  before.map entryOf ++ if vs = [] then [] else [entryWith f vs]

theorem addValue_own {before : List Family} (hnew : f.name.text ∉ before.map fun f => f.name.text)
    (v : MetricValue) (vs : List MetricValue) :
    addValue (entryWith f []) v (own before f vs) = own before f (vs ++ [v]) := by
  have hnames : (entryWith f []).name ∉ (before.map entryOf).map MetricEntry.name := by
    rw [map_map]
    exact hnew
  rw [own, addValue_append hnames, own]
  by_cases hvs : vs = []
  · simp [hvs, addValue, entryWith]
  · simp [hvs, addValue, entryWith]

theorem run_own {before : List Family} {xs : List Sample}
    (hnew : f.name.text ∉ before.map fun f => f.name.text) (h : At f s)
    (hentries : s.entries = own before f vs) (hxs : ∀ x ∈ xs, Belongs f x) :
    (xs.foldl ParseState.add s).entries = own before f (vs ++ xs.map meant) := by
  induction xs generalizing s vs with
  | nil => simpa using hentries
  | cons x xs ih =>
    simp only [forall_mem_cons] at hxs
    have hstep : (s.add x).entries = own before f (vs ++ [meant x]) := by
      simp only [ParseState.add, h.own hxs.1, hentries, addValue_own hnew]
    simpa using @ih (s.add x) (vs ++ [meant x]) ⟨h.name, h.type, h.help⟩ hstep hxs.2

theorem spoiled_of_foreign {before : List Family} {xs : List Sample}
    (hbefore : before ⊆ families) (hnew : f.name.text ∉ before.map fun f => f.name.text)
    (h : At f s) (hentries : s.entries = own before f vs) (hxs : ¬ ∀ x ∈ xs, Belongs f x) :
    Spoiled families (xs.foldl ParseState.add s).entries := by
  induction xs generalizing s vs with
  | nil => exact absurd (by simp) hxs
  | cons x xs ih =>
    by_cases hx : Belongs f x
    · have hstep : (s.add x).entries = own before f (vs ++ [meant x]) := by
        simp only [ParseState.add, h.own hx, hentries, addValue_own hnew]
      exact ih ⟨h.name, h.type, h.help⟩ hstep fun hrest => hxs (forall_mem_cons.mpr ⟨hx, hrest⟩)
    · obtain ⟨hname, htype⟩ := h.foreign hx
      rw [foldl_cons]
      refine Spoiled.foldl ?_
      simp only [ParseState.add, hentries]
      rcases addValue_cases (s.fresh x.name.text) (meant x) (own before f vs) with
        ⟨-, heq⟩ | ⟨front, e, back, hown, hsame, heq⟩
      · refine ⟨{ s.fresh x.name.text with values := [meant x] }, ?_, .inl htype⟩
        rw [heq]
        exact mem_append_right _ (mem_singleton_self _)
      · have he : e ∈ own before f vs := by
          rw [hown]
          exact mem_append_right _ mem_cons_self
        rw [own, mem_append] at he
        rcases he with he | he
        · obtain ⟨g, hg, rfl⟩ := mem_map.mp he
          refine ⟨{ entryOf g with values := (entryOf g).values ++ [meant x] }, ?_, .inr
            ⟨g, hbefore hg, rfl, ?_⟩⟩
          · rw [heq]
            exact mem_append_right _ mem_cons_self
          · simp [entryOf, entryWith]
        · split at he
          · cases he
          · rw [mem_singleton.mp he] at hsame
            exact absurd hsame.symm hname

/-- With a name, samples and a help text for each family, the entries are those of the
families until a sample has another name. -/
theorem run_headed {before fs : List Family} (hfamilies : before ++ fs = families)
    (hdistinct : (families.map fun f => f.name.text).Nodup)
    (hsampled : ∀ f ∈ fs, f.samples ≠ [])
    (hhelped : ∀ f ∈ fs, ∃ help, f.help = some help ∧ PlainHelp help)
    (hentries : s.entries = before.map entryOf) :
    (∀ f ∈ fs, ∀ x ∈ f.samples, Belongs f x) ∧
        (fs.foldl ParseState.readFamily s).entries = families.map entryOf ∨
      ¬ (∀ f ∈ fs, ∀ x ∈ f.samples, Belongs f x) ∧
        Spoiled families (fs.foldl ParseState.readFamily s).entries := by
  induction fs generalizing before s with
  | nil =>
    rw [append_nil] at hfamilies
    exact .inl ⟨by simp, by rw [← hfamilies, foldl_nil, hentries]⟩
  | cons f fs ih =>
    simp only [forall_mem_cons] at hsampled hhelped ⊢
    obtain ⟨help, hhelp, hplain⟩ := hhelped.1
    have hat : At f (s.enter f) := by
      unfold ParseState.enter
      rw [hhelp]
      exact ⟨rfl, rfl, by rw [hhelp]; exact readHelp_eq_self.mpr hplain⟩
    have hown : (s.enter f).entries = own before f [] := by
      unfold ParseState.enter own
      rw [hhelp]
      simpa using hentries
    have hnew : f.name.text ∉ before.map fun f => f.name.text := by
      rw [← hfamilies, map_append, map_cons, nodup_append] at hdistinct
      exact fun hmem => hdistinct.2.2 _ hmem _ mem_cons_self rfl
    have hbefore : before ⊆ families := by
      rw [← hfamilies]
      exact subset_append_left _ _
    by_cases hbelongs : ∀ x ∈ f.samples, Belongs f x
    · have hread : (s.readFamily f).entries = (before ++ [f]).map entryOf := by
        rw [ParseState.readFamily, run_own hnew hat hown hbelongs]
        simp [own, hsampled.1, entryOf]
      have hrest : (before ++ [f]) ++ fs = families := by simpa using hfamilies
      exact (ih hrest hsampled.2 hhelped.2 hread).imp (fun h => ⟨⟨hbelongs, h.1⟩, h.2⟩)
        fun h => ⟨fun hall => h.1 hall.2, h.2⟩
    · refine .inr ⟨fun hall => hbelongs hall.1, ?_⟩
      rw [foldl_cons]
      exact Spoiled.run (spoiled_of_foreign hbefore hnew hat hown hbelongs)

end

-- ---------------------------------------------------------------------------
-- What is kept
-- ---------------------------------------------------------------------------

section
variable {blocks : List Block}

theorem plain_of_kept (h : FamiliesKept blocks) : Plain (blocks.map Block.family) := by
  obtain ⟨entries, hparse, hentries⟩ := h
  refine (values_iff_plain (sampleLines_blocks blocks)).mp ⟨entries, hparse, ?_⟩
  have hvalues := hentries.flatMap_right MetricEntry.values
  rw [flatMap_map] at hvalues
  rwa [map_flatMap]

theorem headed_of_kept (h : FamiliesKept blocks) : Headed (blocks.map Block.family) := by
  have hplain := plain_of_kept h
  obtain ⟨entries, hparse, hentries⟩ := h
  rw [parse_renderBlocks hplain, Option.some.injEq] at hparse
  generalize blocks.map Block.family = families at hplain hparse hentries ⊢
  subst hparse
  have hsound := (sound_start families).run (Subset.refl families)
  have hdistinct : (families.map fun f => f.name.text).Nodup := by
    have hnames := (hentries.map MetricEntry.name).nodup_iff.mp hsound.distinct
    rwa [map_map] at hnames
  have hmem := fun f hf => hentries.mem_iff.mpr (mem_map_of_mem (a := f) hf)
  have hsampled : ∀ f ∈ families, f.samples ≠ [] := by
    intro f hf hnil
    exact hsound.filled _ (hmem f hf) (by rw [entryOf, entryWith, hnil]; rfl)
  have hhelped : ∀ f ∈ families, ∃ help, f.help = some help ∧ PlainHelp help := by
    intro f hf
    rcases hsound.made _ (hmem f hf) with htype | hname | ⟨g, hg, help, hhelp, hname, htext⟩
    · exact absurd htype (type_known _)
    · exact absurd hname (by simp [entryOf, entryWith, Name.text])
    · obtain rfl := inj_on_of_nodup_map hdistinct hf hg hname
      refine ⟨help, hhelp, readHelp_eq_self.mp ?_⟩
      rw [← htext, entryOf, entryWith, hhelp]
      rfl
  refine ⟨hdistinct, hsampled, ?_, hhelped, hplain⟩
  rcases run_headed (nil_append families) hdistinct hsampled hhelped (s := {}) rfl with
    ⟨hown, -⟩ | ⟨-, hspoiled⟩
  · exact hown
  · exact absurd hspoiled (not_spoiled hdistinct hentries)

theorem kept_of_headed (h : Headed (blocks.map Block.family)) : FamiliesKept blocks := by
  refine ⟨_, parse_renderBlocks h.plain, ?_⟩
  rcases run_headed (nil_append _) h.distinct h.sampled h.helped (s := {}) rfl with
    ⟨-, hentries⟩ | ⟨hforeign, -⟩
  · rw [hentries]
  · exact absurd h.own hforeign

end

/-- Families keep their types, help texts and samples if and only if each has a help text of
its own, with samples of its name. -/
theorem families_kept_iff (blocks : List Block) :
    FamiliesKept blocks ↔ Headed (blocks.map Block.family) :=
  ⟨headed_of_kept, kept_of_headed⟩

def single (name : Name) (type : MetricType) (value : Numeral) : Block :=
  ⟨⟨name, none, type, [⟨name, [], nodup_nil, value⟩]⟩, false, true⟩

/-- A gauge and a counter whose names differ by a suffix. -/
def jobs : List Block :=
  [single ⟨'j', "obs".toList, by decide, by decide⟩ .gauge
      ⟨['3'], .ofInt 3, by decide, by decide +kernel⟩,
    single ⟨'j', "obs_total".toList, by decide, by decide⟩ .counter
      ⟨['7'], .ofInt 7, by decide, by decide +kernel⟩]

theorem families_merged :
    parsePrometheusText (renderBlocks jobs) =
        some [⟨"jobs".toList, "unknown".toList, [], [⟨[], .ofInt 3⟩, ⟨[], .ofInt 7⟩]⟩] ∧
      ¬ FamiliesKept jobs := by
  refine ⟨by decide +kernel, fun h => ?_⟩
  obtain ⟨help, hhelp, -⟩ := (headed_of_kept h).helped _ mem_cons_self
  cases hhelp

end Rinfra.Admin
