import Rinfra.Core.Str
import Rinfra.Lib.Double

/-!
# The text format of metrics

Families of samples, and the exposition text that they are written as: lines
that begin with `#` for the help text and the type of a family, then one line
for each sample. A label's value is any text; backslashes, quotes and line feeds
in it are escaped.
-/

namespace Rinfra.Lib.Exposition

def isNameStart (c : Char) : Bool := c.isAlpha || c == '_' || c == ':'

/-- The name of a metric or of a label; that of a label has no colon. -/
structure Name where
  first : Char
  rest : List Char
  start : isNameStart first = true
  others : (rest.all fun c => isNameStart c || c.isDigit) = true

def Name.text (n : Name) : List Char := n.first :: n.rest

structure Numeral where
  text : List Char
  value : Double
  plain : (text.all fun c => c.isAlphanum || ['+', '-', '.'].contains c) = true
  reads : parseDouble text = some value

structure Sample where
  name : Name
  labels : List (Name × List Char)
  distinct : (labels.map fun l => l.1.text).Nodup
  value : Numeral

inductive MetricType
  | counter
  | gauge
  | histogram
  | summary
  | untyped
  deriving DecidableEq, Repr

def MetricType.text : MetricType → List Char
  | counter => "counter".toList
  | gauge => "gauge".toList
  | histogram => "histogram".toList
  | summary => "summary".toList
  | untyped => "untyped".toList

structure Family where
  name : Name
  help : Option (List Char)
  type : MetricType
  samples : List Sample

-- ---------------------------------------------------------------------------
-- The text
-- ---------------------------------------------------------------------------

def isEscaped (c : Char) : Bool := c == '\\' || c == '"' || c == '\n'

def escapeChar (c : Char) : List Char :=
  if isEscaped c then ['\\', if c = '\n' then 'n' else c] else [c]

def escape (value : List Char) : List Char := value.flatMap escapeChar

/-- Quotes are not escaped in a help text. -/
def escapeHelp (help : List Char) : List Char :=
  help.flatMap fun c => if c = '"' then [c] else escapeChar c

def labelText (label : Name × List Char) : List Char :=
  label.1.text ++ '=' :: '"' :: (escape label.2 ++ ['"'])

def labelsText (labels : List (Name × List Char)) : List Char :=
  if labels = [] then [] else '{' :: ([','].intercalate (labels.map labelText) ++ ['}'])

def Sample.text (s : Sample) : List Char :=
  s.name.text ++ (labelsText s.labels ++ ' ' :: s.value.text)

def Family.comments (f : Family) : List (List Char) :=
  (f.help.map fun help =>
      "# HELP ".toList ++ (f.name.text ++ ' ' :: escapeHelp help)).toList ++
    ["# TYPE ".toList ++ (f.name.text ++ ' ' :: f.type.text)]

def Family.lines (f : Family) : List (List Char) := f.comments ++ f.samples.map Sample.text ++ [[]]

def render (families : List Family) : List Char :=
  (families.flatMap Family.lines).flatMap (· ++ ['\n'])

/-- A family as it stands in a text: the help text comes before the type or after it, and an
empty line ends the family or does not. -/
structure Block where
  family : Family
  helpLast : Bool
  spaced : Bool

def Block.comments (b : Block) : List (List Char) :=
  if b.helpLast then b.family.comments.reverse else b.family.comments

def Block.lines (b : Block) : List (List Char) :=
  b.comments ++ b.family.samples.map Sample.text ++ if b.spaced then [[]] else []

def renderBlocks (blocks : List Block) : List Char :=
  (blocks.flatMap Block.lines).flatMap (· ++ ['\n'])

theorem renderBlocks_render (families : List Family) :
    renderBlocks (families.map fun f => ⟨f, false, true⟩) = render families := by
  rw [renderBlocks, render, List.flatMap_map]
  rfl

variable {c d : Char} {value : List Char}

-- ---------------------------------------------------------------------------
-- The characters of a name, a number and an escaped text
-- ---------------------------------------------------------------------------

theorem Name.mem_text {n : Name} (h : c ∈ n.text) : isNameStart c = true ∨ c.isDigit = true := by
  rcases List.mem_cons.mp h with rfl | h
  · exact .inl n.start
  · simpa using List.all_eq_true.mp n.others c h

theorem Name.notMem {n : Name} (hstart : isNameStart c = false) (hdigit : c.isDigit = false) :
    c ∉ n.text := by
  intro h
  rcases Name.mem_text h with h | h
  · rw [h] at hstart
    cases hstart
  · rw [h] at hdigit
    cases hdigit

theorem visible_of_isAlphanum (h : c.isAlphanum = true) : 48 ≤ c.toNat ∧ c.toNat ≤ 122 := by
  change ((decide (65 ≤ c.val ∧ c.val ≤ 90) || (97 ≤ c.val && c.val ≤ 122)) ||
    (48 ≤ c.val && c.val ≤ 57)) = true at h
  simp only [Bool.or_eq_true, Bool.and_eq_true, decide_eq_true_eq, UInt32.le_iff_toNat_le] at h
  change (65 ≤ c.toNat ∧ c.toNat ≤ 90 ∨ 97 ≤ c.toNat ∧ c.toNat ≤ 122) ∨
    48 ≤ c.toNat ∧ c.toNat ≤ 57 at h
  omega

theorem Name.visible {n : Name} (h : c ∈ n.text) : 48 ≤ c.toNat ∧ c.toNat ≤ 122 := by
  rcases Name.mem_text h with h | h
  · simp only [isNameStart, Bool.or_eq_true, beq_iff_eq] at h
    rcases h with (h | rfl) | rfl
    · exact visible_of_isAlphanum (by simp [Char.isAlphanum, h])
    · decide
    · decide
  · exact visible_of_isAlphanum (by simp [Char.isAlphanum, h])

theorem Numeral.visible {x : Numeral} (h : c ∈ x.text) : 43 ≤ c.toNat ∧ c.toNat ≤ 122 := by
  have hplain := List.all_eq_true.mp x.plain c h
  rw [Bool.or_eq_true, List.contains_iff_mem] at hplain
  rcases hplain with h | h
  · have := visible_of_isAlphanum h
    omega
  · simp only [List.mem_cons, List.not_mem_nil, or_false] at h
    rcases h with rfl | rfl | rfl <;> decide

theorem Numeral.text_ne_nil (x : Numeral) : x.text ≠ [] := by
  intro h
  have := x.reads
  rw [h] at this
  cases this

theorem mem_escapeChar (h : d ∈ escapeChar c) :
    d = '\\' ∨ d = 'n' ∨ (d = c ∧ d ≠ '\n') := by
  unfold escapeChar at h
  split at h
  · by_cases hc : c = '\n'
    · simp [hc] at h
      exact h.imp_right .inl
    · simp only [hc, if_false, List.mem_cons, List.not_mem_nil, or_false] at h
      exact h.imp_right fun hd => .inr ⟨hd, hd ▸ hc⟩
  · simp_all [isEscaped]

theorem mem_escape (h : d ∈ escape value) :
    d = '\\' ∨ d = 'n' ∨ (d ∈ value ∧ d ≠ '\n') := by
  obtain ⟨c, hc, hd⟩ := List.mem_flatMap.mp h
  rcases mem_escapeChar hd with hd | hd | ⟨rfl, hne⟩
  · exact .inl hd
  · exact .inr (.inl hd)
  · exact .inr (.inr ⟨hc, hne⟩)

theorem escape_eq_self (h : ∀ c ∈ value, isEscaped c = false) : escape value = value := by
  induction value with
  | nil => rfl
  | cons c value ih =>
    simp only [List.forall_mem_cons] at h
    simp [escape, escapeChar, h.1]
    exact ih h.2

/-- Escaping adds one backslash for each character that needs it. -/
theorem count_escape (value : List Char) :
    (escape value).count '\\' = value.count '\\' + value.countP isEscaped := by
  have hchar (c : Char) : (escapeChar c).count '\\' =
      (if c = '\\' then 1 else 0) + if isEscaped c then 1 else 0 := by
    unfold escapeChar
    split
    · by_cases hc : c = '\n'
      · simp [hc]
      · by_cases hb : c = '\\' <;> simp [hc, hb]
    · simp_all [isEscaped]
  induction value with
  | nil => rfl
  | cons c value ih =>
    have ih' : (value.flatMap escapeChar).count '\\' = _ := ih
    simp only [escape, List.flatMap_cons, List.count_append, List.count_cons, List.countP_cons,
      hchar, ih', beq_iff_eq]
    omega

theorem escapeHelp_eq_self {help : List Char} (h : ∀ c ∈ help, c ≠ '\\' ∧ c ≠ '\n') :
    escapeHelp help = help := by
  induction help with
  | nil => rfl
  | cons c help ih =>
    simp only [List.forall_mem_cons] at h
    have hchar : (if c = '"' then [c] else escapeChar c) = [c] := by
      by_cases hq : c = '"' <;> simp [hq, escapeChar, isEscaped, h.1]
    rw [escapeHelp, List.flatMap_cons, hchar]
    exact congrArg (c :: ·) (ih h.2)

theorem count_escapeHelp (help : List Char) : (escapeHelp help).count '\\' =
    help.count '\\' + help.countP fun c => c = '\\' ∨ c = '\n' := by
  induction help with
  | nil => rfl
  | cons c help ih =>
    have ih' : (help.flatMap fun c => if c = '"' then [c] else escapeChar c).count '\\' = _ := ih
    have hchar : (if c = '"' then [c] else escapeChar c).count '\\' =
        (if c = '\\' then 1 else 0) + if c = '\\' ∨ c = '\n' then 1 else 0 := by
      by_cases hq : c = '"'
      · simp [hq]
      · by_cases hb : c = '\\'
        · simp [hb, escapeChar, isEscaped]
        · by_cases hn : c = '\n' <;> simp [hq, hb, hn, escapeChar, isEscaped]
    rw [escapeHelp, List.flatMap_cons, List.count_append, ih', hchar, List.count_cons,
      List.countP_cons]
    simp only [beq_iff_eq, decide_eq_true_eq]
    omega

-- ---------------------------------------------------------------------------
-- The lines
-- ---------------------------------------------------------------------------

theorem mem_intercalate {ls : List (List Char)} (h : c ∈ [d].intercalate ls) :
    c = d ∨ ∃ l ∈ ls, c ∈ l := by
  induction ls with
  | nil => cases h
  | cons l ls ih =>
    cases ls with
    | nil => simpa using Or.inr h
    | cons l' ls =>
      rw [List.intercalate_cons_cons, List.mem_append, List.mem_append, List.mem_singleton] at h
      rcases h with (h | h) | h
      · exact .inr ⟨l, List.mem_cons_self, h⟩
      · exact .inl h
      · exact (ih h).imp_right fun ⟨k, hk, hc⟩ => ⟨k, List.mem_cons_of_mem _ hk, hc⟩

theorem lineFeed_notMem_labelText (label : Name × List Char) : '\n' ∉ labelText label := by
  simp only [labelText, List.mem_append, List.mem_cons, List.not_mem_nil, or_false, not_or]
  refine ⟨fun h => ?_, by decide, by decide, fun h => ?_, by decide⟩
  · exact absurd (Name.visible h).1 (by decide)
  · rcases mem_escape h with h | h | h
    · cases h
    · cases h
    · exact h.2 rfl

theorem lineFeed_notMem_labelsText (labels : List (Name × List Char)) :
    '\n' ∉ labelsText labels := by
  unfold labelsText
  split
  · simp
  · simp only [List.mem_cons, List.mem_append, List.not_mem_nil, or_false, not_or]
    refine ⟨by decide, fun h => ?_, by decide⟩
    rcases mem_intercalate h with h | ⟨l, hl, h⟩
    · cases h
    · obtain ⟨label, -, rfl⟩ := List.mem_map.mp hl
      exact lineFeed_notMem_labelText label h

theorem lineFeed_notMem_text (s : Sample) : '\n' ∉ s.text := by
  simp only [Sample.text, List.mem_append, List.mem_cons, not_or]
  refine ⟨fun h => ?_, lineFeed_notMem_labelsText _, by decide, fun h => ?_⟩
  · exact absurd (Name.visible h).1 (by decide)
  · exact absurd (Numeral.visible h).1 (by decide)

theorem lineFeed_notMem_comments {f : Family} {l : List Char} (h : l ∈ f.comments) :
    '\n' ∉ l := by
  have hname : '\n' ∉ f.name.text := fun h => absurd (Name.visible h).1 (by decide)
  simp only [Family.comments, List.mem_append, Option.mem_toList, Option.map_eq_some_iff,
    List.mem_singleton] at h
  rcases h with ⟨help, -, rfl⟩ | rfl
  · have hescape : '\n' ∉ escapeHelp help := by
      intro h
      obtain ⟨c, -, hc⟩ := List.mem_flatMap.mp h
      split at hc
      · simp_all
      · rcases mem_escapeChar hc with h | h | h
        · cases h
        · cases h
        · exact h.2 rfl
    simp [hname, hescape]
  · have htype : '\n' ∉ f.type.text := by cases f.type <;> decide
    simp [hname, htype]

theorem Block.mem_comments {b : Block} {l : List Char} :
    l ∈ b.comments ↔ l ∈ b.family.comments := by
  unfold Block.comments
  split <;> simp

theorem Block.lineFeed_notMem_lines {b : Block} {l : List Char} (h : l ∈ b.lines) :
    '\n' ∉ l := by
  simp only [Block.lines, List.mem_append, List.mem_map] at h
  rcases h with (h | ⟨s, -, rfl⟩) | h
  · exact lineFeed_notMem_comments (Block.mem_comments.mp h)
  · exact lineFeed_notMem_text s
  · split at h <;> simp_all

end Rinfra.Lib.Exposition
