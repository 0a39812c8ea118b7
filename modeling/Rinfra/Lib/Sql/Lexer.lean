import Mathlib.Data.List.Basic

/-!
# The tokens of an SQL text

A lexer for the part of SQL that the dialects agree on: words, quoted names and
texts, placeholders `$n` and single signs. A `$` within a word belongs to the
word.

Statements are put together from pieces, and so are the proofs: `Lexes` is that
a text has certain tokens and no quote is open at its end. Two texts can be put
together where the first ends between tokens, or the second begins with a
character that no token goes on with.
-/

namespace Rinfra.Lib.Sql

inductive Token
  | word (text : String)
  | param (n : Nat)
  | quoted (quote : Char) (text : String)
  | sym (c : Char)
  deriving DecidableEq, Repr

def Token.param? : Token → Option Nat
  | .param n => some n
  | _ => none

def isSpace (c : Char) : Bool := c = ' ' ∨ c = '\t' ∨ c = '\n' ∨ c = '\r'

def isWord (c : Char) : Bool := c.isAlphanum ∨ c = '_' ∨ 128 ≤ c.toNat

def isQuote (c : Char) : Bool := c.toNat = 34 ∨ c.toNat = 39 ∨ c.toNat = 96

inductive Reading
  | gap
  | word (text : List Char)
  | dollar
  | param (n : Nat)
  | quoted (quote : Char) (text : List Char)
  deriving DecidableEq, Repr

namespace Reading

def finish : Reading → List Token
  | .gap => []
  | .word text => [.word (String.ofList text)]
  | .dollar => [.sym '$']
  | .param n => [.param n]
  | .quoted quote _ => [.sym quote]

def start (c : Char) : List Token × Reading :=
  if isSpace c then ([], .gap)
  else if isWord c then ([], .word [c])
  else if c = '$' then ([], .dollar)
  else if isQuote c then ([], .quoted c [])
  else ([.sym c], .gap)

def feed (r : Reading) (c : Char) : List Token × Reading :=
  let ended := (r.finish ++ (start c).1, (start c).2)
  match r with
  | .gap => start c
  | .word text => if isWord c ∨ c = '$' then ([], .word (text ++ [c])) else ended
  | .dollar => if c.isDigit then ([], .param (c.toNat - '0'.toNat)) else ended
  | .param n => if c.isDigit then ([], .param (10 * n + (c.toNat - '0'.toNat))) else ended
  | .quoted quote text =>
    if c = quote then ([.quoted quote (String.ofList text)], .gap)
    else ([], .quoted quote (text ++ [c]))

def Closed : Reading → Prop
  | .quoted _ _ => False
  | _ => True

instance : DecidablePred Closed := fun r => by
  cases r <;> unfold Closed <;> infer_instance

end Reading

def lexFrom : Reading → List Char → List Token
  | r, [] => r.finish
  | r, c :: cs => (r.feed c).1 ++ lexFrom (r.feed c).2 cs

def readingAfter : Reading → List Char → Reading
  | r, [] => r
  | r, c :: cs => readingAfter (r.feed c).2 cs

def tokens (text : String) : List Token := lexFrom .gap text.toList

def placeholders (text : String) : List Nat := (tokens text).filterMap Token.param?

/-- The text has these tokens and leaves no quote open. -/
def Lexes (text : String) (ts : List Token) : Prop :=
  tokens text = ts ∧ (readingAfter .gap text.toList).Closed

instance : Decidable (Lexes text ts) := by
  unfold Lexes
  infer_instance

def sepBy {α : Type} (sep : α) : List (List α) → List α
  | [] => []
  | [ts] => ts
  | ts :: us :: rest => ts ++ sep :: sepBy sep (us :: rest)

theorem sepBy_map {α β : Type} (f : α → β) (sep : α) (tss : List (List α)) :
    (sepBy sep tss).map f = sepBy (f sep) (tss.map (List.map f)) := by
  induction tss using sepBy.induct with
  | case1 => rfl
  | case2 ts => rfl
  | case3 ts us rest ih => simpa [sepBy] using ih

theorem sepBy_filterMap {α β : Type} {f : α → Option β} {sep : α} (hsep : f sep = none)
    (tss : List (List α)) : (sepBy sep tss).filterMap f = (tss.map (List.filterMap f)).flatten := by
  induction tss using sepBy.induct with
  | case1 => rfl
  | case2 ts => simp [sepBy]
  | case3 ts us rest ih => simpa [sepBy, hsep] using ih

theorem sepBy_countP {α : Type} {p : α → Bool} {sep : α} (hsep : p sep = false)
    (tss : List (List α)) : (sepBy sep tss).countP p = tss.flatten.countP p := by
  induction tss using sepBy.induct with
  | case1 => rfl
  | case2 ts => simp [sepBy]
  | case3 ts us rest ih => simpa [sepBy, hsep] using ih

/-- A character no word or placeholder goes on with. -/
def Breaks (c : Char) : Prop := isWord c = false ∧ c ≠ '$'

def EndsInGap (text : String) : Prop := readingAfter .gap text.toList = .gap

def BeginsWithBreak (text : String) : Prop := ∃ c ∈ text.toList.head?, Breaks c

instance : DecidablePred Breaks := fun _ => instDecidableAnd

instance : DecidablePred EndsInGap := fun text => by
  unfold EndsInGap
  infer_instance

instance : DecidablePred BeginsWithBreak := fun _ => Option.decidableExistsMem _

-- ---------------------------------------------------------------------------
-- Putting texts together
-- ---------------------------------------------------------------------------

variable {c : Char} {text rest : List Char} {ts us : List Token} {r : Reading}

theorem isWord_of_isDigit (h : c.isDigit = true) : isWord c = true := by
  simp [isWord, Char.isAlphanum, h]

theorem Breaks.feed (hc : Breaks c) (hr : r.Closed) :
    r.feed c = (r.finish ++ (Reading.start c).1, (Reading.start c).2) := by
  have hdigit : c.isDigit = false := by
    cases hdigit : c.isDigit with
    | true => exact absurd (hc.1.symm.trans (isWord_of_isDigit hdigit)) Bool.false_ne_true
    | false => rfl
  cases r with
  | gap => rfl
  | word text => simp [Reading.feed, hc.1, hc.2]
  | dollar => simp [Reading.feed, hdigit]
  | param n => simp [Reading.feed, hdigit]
  | quoted quote text => exact hr.elim

theorem lexFrom_append (hc : Breaks c) (hr : (readingAfter r text).Closed) :
    lexFrom r (text ++ c :: rest) = lexFrom r text ++ lexFrom .gap (c :: rest) := by
  induction text generalizing r with
  | nil =>
    have hfeed : r.feed c = _ := hc.feed hr
    simp only [List.nil_append, lexFrom, hfeed, List.append_assoc]
    rfl
  | cons d text ih =>
    simp only [List.cons_append, lexFrom, List.append_assoc]
    exact congrArg _ (ih hr)

theorem readingAfter_append (hc : Breaks c) (hr : (readingAfter r text).Closed) :
    readingAfter r (text ++ c :: rest) = readingAfter .gap (c :: rest) := by
  induction text generalizing r with
  | nil =>
    have hfeed : r.feed c = _ := hc.feed hr
    rw [List.nil_append, readingAfter, hfeed]
    rfl
  | cons d text ih => exact ih hr

theorem lexFrom_append_gap (rest : List Char) (h : readingAfter r text = .gap) :
    lexFrom r (text ++ rest) = lexFrom r text ++ lexFrom .gap rest ∧
      readingAfter r (text ++ rest) = readingAfter .gap rest := by
  induction text generalizing r with
  | nil =>
    cases h
    exact ⟨rfl, rfl⟩
  | cons d text ih =>
    obtain ⟨hlex, hafter⟩ := ih h
    refine ⟨?_, hafter⟩
    simp only [List.cons_append, lexFrom, List.append_assoc, hlex]

theorem BeginsWithBreak.append {s : String} (h : BeginsWithBreak s) (t : String) :
    BeginsWithBreak (s ++ t) := by
  obtain ⟨c, hc, hbreak⟩ := h
  obtain ⟨rest, hrest⟩ := List.head?_eq_some_iff.mp hc
  exact ⟨c, by simp [String.toList_append, hrest], hbreak⟩

namespace Lexes

variable {s t : String}

theorem append (hs : Lexes s ts) (ht : Lexes t us) (hbreak : BeginsWithBreak t) :
    Lexes (s ++ t) (ts ++ us) := by
  obtain ⟨c, hc, hbreak⟩ := hbreak
  obtain ⟨rest, hrest⟩ := List.head?_eq_some_iff.mp hc
  unfold Lexes tokens at *
  rw [hrest] at ht
  rw [String.toList_append, hrest, lexFrom_append hbreak hs.2, hs.1, ht.1,
    readingAfter_append hbreak hs.2]
  exact ⟨rfl, ht.2⟩

theorem append_gap (hs : Lexes s ts) (ht : Lexes t us) (hgap : EndsInGap s) :
    Lexes (s ++ t) (ts ++ us) := by
  obtain ⟨hlex, hafter⟩ := lexFrom_append_gap t.toList hgap
  unfold Lexes tokens at *
  rw [String.toList_append, hlex, hafter, hs.1, ht.1]
  exact ⟨rfl, ht.2⟩

theorem lexFrom_word (text : List Char) (h : ∀ c ∈ rest, isWord c = true ∨ c = '$') :
    lexFrom (.word text) rest = [.word (String.ofList (text ++ rest))] ∧
      readingAfter (.word text) rest = .word (text ++ rest) := by
  induction rest generalizing text with
  | nil => simp [lexFrom, readingAfter, Reading.finish]
  | cons c rest ih =>
    have hc : isWord c = true ∨ c = '$' := h c List.mem_cons_self
    have hfeed : (Reading.word text).feed c = ([], .word (text ++ [c])) := by
      simp [Reading.feed, hc]
    obtain ⟨hlex, hafter⟩ := ih (text ++ [c]) fun d hd => h d (List.mem_cons_of_mem _ hd)
    rw [lexFrom, readingAfter, hfeed, hlex, hafter, List.append_assoc]
    exact ⟨rfl, rfl⟩

theorem word {name : String} (hname : name.toList = c :: text) (hc : isWord c = true)
    (h : ∀ d ∈ text, isWord d = true ∨ d = '$') : Lexes name [.word name] := by
  have hspace : isSpace c = false := by
    cases hspace : isSpace c with
    | true =>
      simp only [isSpace, decide_eq_true_eq] at hspace
      rcases hspace with rfl | rfl | rfl | rfl <;> exact absurd hc (by decide)
    | false => rfl
  have hfeed : Reading.gap.feed c = ([], .word [c]) := by
    simp [Reading.feed, Reading.start, hspace, hc]
  obtain ⟨hlex, hafter⟩ := lexFrom_word [c] h
  have hback : String.ofList ([c] ++ text) = name := by
    rw [List.singleton_append, ← hname, String.ofList_toList]
  unfold Lexes tokens
  rw [hname, lexFrom, readingAfter, hfeed, hlex, hafter, hback]
  exact ⟨rfl, trivial⟩

theorem lexFrom_param {n : Nat} (h : ∀ c ∈ text, c.isDigit = true) :
    lexFrom (.param n) text = [.param (Nat.ofDigitChars 10 text n)] ∧
      readingAfter (.param n) text = .param (Nat.ofDigitChars 10 text n) := by
  induction text generalizing n with
  | nil => simp [lexFrom, readingAfter, Reading.finish]
  | cons c text ih =>
    have hfeed : (Reading.param n).feed c = ([], .param (10 * n + (c.toNat - '0'.toNat))) := by
      simp [Reading.feed, h c List.mem_cons_self]
    obtain ⟨hlex, hafter⟩ := ih (n := 10 * n + (c.toNat - '0'.toNat)) fun d hd =>
      h d (List.mem_cons_of_mem _ hd)
    rw [lexFrom, readingAfter, hfeed, hlex, hafter, Nat.ofDigitChars_cons]
    exact ⟨rfl, rfl⟩

theorem param (n : Nat) : Lexes s!"${n}" [.param n] := by
  have htoList : (s!"${n}").toList = '$' :: Nat.toDigits 10 n := by
    simp [ToString.toString, Nat.toList_repr]
  have hdigits : ∀ c ∈ Nat.toDigits 10 n, c.isDigit = true :=
    fun c hc => Nat.isDigit_of_mem_toDigits (by decide) (by decide) hc
  have hread : Nat.ofDigitChars 10 (Nat.toDigits 10 n) 0 = n := Nat.ofDigitChars_ten_toDigits
  cases htext : Nat.toDigits 10 n with
  | nil => exact absurd htext Nat.toDigits_ne_nil
  | cons c text =>
    rw [htext] at hdigits hread
    have hdollar : Reading.gap.feed '$' = ([], .dollar) := by decide
    have hfeed : Reading.dollar.feed c = ([], .param (10 * 0 + (c.toNat - '0'.toNat))) := by
      simp [Reading.feed, hdigits c List.mem_cons_self]
    obtain ⟨hlex, hafter⟩ := lexFrom_param (n := 10 * 0 + (c.toNat - '0'.toNat)) fun d hd =>
      hdigits d (List.mem_cons_of_mem _ hd)
    rw [Nat.ofDigitChars_cons] at hread
    unfold Lexes tokens
    rw [htoList, htext, lexFrom, readingAfter, hdollar, lexFrom, readingAfter, hfeed, hlex, hafter,
      hread]
    exact ⟨rfl, trivial⟩

/-- A text after one that ends in a gap and before one that begins with a break. -/
theorem between {l r : String} (hl : Lexes l ls) (hgap : EndsInGap l) (hs : Lexes s ts)
    (hr : Lexes r rs) (hbreak : BeginsWithBreak r) :
    Lexes (l ++ (s ++ r)) (ls ++ (ts ++ rs)) :=
  hl.append_gap (hs.append hr hbreak) hgap

theorem join {texts : List String} {tss : List (List Token)} (h : List.Forall₂ Lexes texts tss) :
    Lexes (", ".intercalate texts) (sepBy (.sym ',') tss) := by
  induction h with
  | nil => decide
  | @cons s ts texts tss hs hrest ih =>
    cases hrest with
    | nil =>
      rw [String.intercalate_singleton]
      exact hs
    | cons ht hrest =>
      rw [String.intercalate_cons_cons, String.append_assoc]
      have hcomma : Lexes ", " [.sym ','] := by decide
      exact hs.append (hcomma.append_gap ih (by decide)) ⟨',', by simp, by decide⟩

end Lexes

theorem sepBy_params (f : Nat → Nat) (is : List Nat) :
    (sepBy (.sym ',') (is.map fun i => [Token.param (f i)])).filterMap Token.param? = is.map f := by
  rw [sepBy_filterMap rfl, List.map_map]
  induction is with
  | nil => rfl
  | cons i is ih => simpa [Token.param?] using ih

-- ---------------------------------------------------------------------------
-- Texts without placeholders
-- ---------------------------------------------------------------------------

/-- A token with its value in the place of a placeholder. -/
def Token.bind (value : Nat → Option α) : Token → Token ⊕ Option α
  | .param n => .inr (value n)
  | t => .inl t

/-- Placeholders between commas, with the values for them. -/
theorem sepBy_bind {α : Type} {value : Nat → Option α} (f : Nat → Nat) (values : List α)
    (h : ∀ i < values.length, value (f i) = values[i]?) :
    (sepBy (.sym ',') ((List.range values.length).map fun i => [.param (f i)])).map
        (Token.bind value) =
      sepBy (.inl (.sym ',')) (values.map fun v => [.inr (some v)]) := by
  rw [sepBy_map, List.map_map]
  congr 1
  apply List.ext_getElem
  · simp
  · intro i hi hi'
    have hlt : i < values.length := by simpa using hi'
    simp [Token.bind, h i hlt, List.getElem?_eq_getElem hlt]

/-- The text leaves no quote open. -/
def Whole (text : String) : Prop := Lexes text (tokens text)

instance : DecidablePred Whole := fun text =>
  inferInstanceAs (Decidable (Lexes text (tokens text)))

/-- The text has no placeholder of its own and leaves no quote open. -/
def Inert (text : String) : Prop := Lexes text (tokens text) ∧ placeholders text = []

instance : DecidablePred Inert := fun _ => instDecidableAnd

theorem Inert.whole {text : String} (h : Inert text) : Whole text := h.1

theorem Inert.params {text : String} (h : Inert text) :
    (tokens text).filterMap Token.param? = [] := h.2

theorem Inert.bind {text : String} (h : Inert text) (value : Nat → Option α) :
    (tokens text).map (Token.bind value) = (tokens text).map .inl := by
  apply List.map_congr_left
  intro t ht
  cases t with
  | param n => cases List.filterMap_eq_nil_iff.mp h.2 _ ht
  | _ => rfl

theorem sepBy_inert {texts : List String} (h : ∀ text ∈ texts, Inert text) :
    (sepBy (.sym ',') (texts.map tokens)).filterMap Token.param? = [] := by
  rw [sepBy_filterMap rfl, List.map_map]
  induction texts with
  | nil => rfl
  | cons text texts ih =>
    simp only [List.map_cons, List.flatten_cons, Function.comp_apply,
      (h text List.mem_cons_self).params, List.nil_append]
    exact ih fun t ht => h t (List.mem_cons_of_mem _ ht)

theorem sepBy_inert_bind {α : Type} {texts : List String} (h : ∀ text ∈ texts, Inert text)
    (value : Nat → Option α) :
    (sepBy (.sym ',') (texts.map tokens)).map (Token.bind value) =
      sepBy (.inl (.sym ',')) (texts.map fun text => (tokens text).map .inl) := by
  rw [sepBy_map, List.map_map]
  congr 1
  apply List.map_congr_left
  intro text htext
  exact (h text htext).bind value

end Rinfra.Lib.Sql
