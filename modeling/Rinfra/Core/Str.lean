import Mathlib.Data.List.Induction
import Mathlib.Data.List.Infix
import Mathlib.Data.List.TakeWhile

/-!
# Strings of the standard library

`str::trim` and `str::lines` on the characters of a string, and `str::contains`.
A line ends with a line feed, which a carriage return may precede; what follows
the last line feed is a line too unless it is empty.
-/

namespace Rinfra

def isWhitespace (c : Char) : Bool :=
  (0x2000 ≤ c.toNat && c.toNat ≤ 0x200A) ||
    [0x09, 0x0A, 0x0B, 0x0C, 0x0D, 0x20, 0x85, 0xA0, 0x1680, 0x2028, 0x2029, 0x202F, 0x205F,
      0x3000].contains c.toNat

def trim (cs : List Char) : List Char :=
  ((cs.dropWhile isWhitespace).reverse.dropWhile isWhitespace).reverse

/-- `str::trim_matches`, for one character. -/
def trimMatches (c : Char) (cs : List Char) : List Char :=
  ((cs.dropWhile (· == c)).reverse.dropWhile (· == c)).reverse

def trimEnd (cs : List Char) : List Char := (cs.reverse.dropWhile isWhitespace).reverse

def contains (s sub : String) : Bool := sub.toList <:+: s.toList

/-- The lines that have ended, without their line feeds, and the text after them. -/
structure Lines where
  ended : List (List Char)
  rest : List Char
  deriving DecidableEq

def Lines.push (l : Lines) (c : Char) : Lines :=
  if c = '\n' then ⟨l.ended ++ [l.rest], []⟩ else ⟨l.ended, l.rest ++ [c]⟩

def splitLines (cs : List Char) : Lines := cs.foldl Lines.push ⟨[], []⟩

def stripReturn (line : List Char) : List Char :=
  if line.getLast? = some '\r' then line.dropLast else line

def lines (cs : List Char) : List (List Char) :=
  (splitLines cs).ended.map stripReturn ++
    if (splitLines cs).rest = [] then [] else [(splitLines cs).rest]

example : lines "a\r\n\nb\r".toList = [['a'], [], ['b', '\r']] := by decide

variable {cs ds : List Char}

theorem isWhitespace_of_visible {c : Char} (h : 33 ≤ c.toNat) (h' : c.toNat ≤ 126) :
    isWhitespace c = false := by
  simp only [isWhitespace, Bool.or_eq_false_iff, Bool.and_eq_false_iff, decide_eq_false_iff_not,
    List.contains_eq_mem, List.mem_cons, List.not_mem_nil, or_false, not_or]
  omega

theorem trim_eq_nil : trim cs = [] ↔ ∀ c ∈ cs, isWhitespace c = true := by
  simp only [trim, List.reverse_eq_nil_iff, List.dropWhile_eq_nil_iff, List.mem_reverse]
  constructor
  · intro h c hc
    rw [← List.takeWhile_append_dropWhile (p := isWhitespace) (l := cs)] at hc
    rcases List.mem_append.mp hc with hc | hc
    · exact List.mem_takeWhile_imp hc
    · exact h c hc
  · exact fun h c hc => h c ((List.dropWhile_sublist isWhitespace).subset hc)

theorem trim_eq_self {c d : Char} (hc : isWhitespace c = false) (hd : isWhitespace d = false)
    (hhead : cs.head? = some c) (hlast : cs.getLast? = some d) : trim cs = cs := by
  obtain ⟨rest, rfl⟩ := List.head?_eq_some_iff.mp hhead
  obtain ⟨front, hfront⟩ := List.getLast?_eq_some_iff.mp hlast
  rw [trim, List.dropWhile_cons_of_neg (by simp [hc]), hfront, List.reverse_append,
    List.reverse_singleton, List.singleton_append, List.dropWhile_cons_of_neg (by simp [hd])]
  simp

theorem head?_trim {c : Char} (hc : isWhitespace c = false) (cs : List Char) :
    (trim (c :: cs)).head? = some c := by
  rw [trim, List.dropWhile_cons_of_neg (by simp [hc]), List.reverse_cons, List.dropWhile_append]
  split
  · simp [hc]
  · simp

theorem trim_visible (h : ∀ c ∈ cs, isWhitespace c = false) : trim cs = cs := by
  by_cases hne : cs = []
  · rw [hne]
    rfl
  · exact trim_eq_self (h _ (List.head_mem hne)) (h _ (List.getLast_mem hne))
      (List.head?_eq_some_head hne) (List.getLast?_eq_some_getLast hne)

theorem trim_sublist (cs : List Char) : (trim cs).Sublist cs := by
  have h := List.dropWhile_sublist isWhitespace (l := (cs.dropWhile isWhitespace).reverse)
  simpa [trim] using h.reverse.trans (by simpa using List.dropWhile_sublist isWhitespace (l := cs))

theorem trimMatches_sublist (c : Char) (cs : List Char) : (trimMatches c cs).Sublist cs := by
  have h := List.dropWhile_sublist (· == c) (l := (cs.dropWhile (· == c)).reverse)
  simpa [trimMatches] using
    h.reverse.trans (by simpa using List.dropWhile_sublist (· == c) (l := cs))

theorem trimEnd_concat_space {c : Char} (h : isWhitespace c = true) (cs : List Char) :
    trimEnd (cs ++ [c]) = trimEnd cs := by
  simp [trimEnd, h]

theorem trimEnd_cons_space {c : Char} (h : isWhitespace c = true) (cs : List Char) :
    trimEnd (c :: cs) = if trimEnd cs = [] then [] else c :: trimEnd cs := by
  simp only [trimEnd, List.reverse_cons, List.dropWhile_append, List.isEmpty_iff,
    List.reverse_eq_nil_iff]
  split <;> simp [h]

theorem trimEnd_eq_self (h : ∀ c, cs.getLast? = some c → isWhitespace c = false) :
    trimEnd cs = cs := by
  rcases List.eq_nil_or_concat' cs with rfl | ⟨front, c, rfl⟩
  · rfl
  · simp [trimEnd, h c List.getLast?_concat]

theorem getLast?_trimEnd {c : Char} (h : (trimEnd cs).getLast? = some c) :
    isWhitespace c = false := by
  rw [trimEnd, List.getLast?_reverse] at h
  have := List.head?_dropWhile_not isWhitespace cs.reverse
  rw [h] at this
  simpa using this

theorem trim_append {c d : Char} (hc : isWhitespace c = false) (hd : isWhitespace d = false)
    (hhead : cs.head? = some c) (hlast : cs.getLast? = some d) (ds : List Char) :
    trim (cs ++ ds) = cs ++ trimEnd ds := by
  obtain ⟨rest, rfl⟩ := List.head?_eq_some_iff.mp hhead
  rw [List.cons_append, trim, List.dropWhile_cons_of_neg (by simp [hc]), ← List.cons_append,
    List.reverse_append, List.dropWhile_append]
  obtain ⟨front, hfront⟩ := List.getLast?_eq_some_iff.mp hlast
  split
  · rename_i h
    rw [trimEnd, List.isEmpty_iff.mp h, hfront]
    simp [hd]
  · rw [List.reverse_append, List.reverse_reverse]
    rfl

theorem trimMatches_quoted (c : Char) (cs : List Char) :
    trimMatches c (c :: (cs ++ [c])) = trimMatches c cs := by
  rw [trimMatches, List.dropWhile_cons_of_pos (by simp), List.dropWhile_append]
  split
  · rename_i h
    rw [List.isEmpty_iff] at h
    simp [trimMatches, h]
  · rw [List.reverse_append, List.reverse_singleton, List.singleton_append,
      List.dropWhile_cons_of_pos (by simp)]
    rfl

theorem count_trimMatches {c d : Char} (h : d ≠ c) (cs : List Char) :
    (trimMatches c cs).count d = cs.count d := by
  have hdrop (cs : List Char) : (cs.dropWhile (· == c)).count d = cs.count d := by
    induction cs with
    | nil => rfl
    | cons x cs ih =>
      by_cases hx : x = c
      · simp [hx, ih, Ne.symm h]
      · simp [hx]
  rw [trimMatches, List.count_reverse, hdrop, List.count_reverse, hdrop]

theorem count_trimEnd {c : Char} (h : isWhitespace c = false) (cs : List Char) :
    (trimEnd cs).count c = cs.count c := by
  have hdrop (cs : List Char) : (cs.dropWhile isWhitespace).count c = cs.count c := by
    induction cs with
    | nil => rfl
    | cons x cs ih =>
      by_cases hx : isWhitespace x = true
      · have hne : x ≠ c := fun heq => by simp [heq, h] at hx
        simp [hx, ih, hne]
      · simp [hx]
  rw [trimEnd, List.count_reverse, hdrop, List.count_reverse]

theorem trimMatches_eq_self {c : Char} (h : c ∉ cs) : trimMatches c cs = cs := by
  have hdrop {cs : List Char} (h : c ∉ cs) : cs.dropWhile (· == c) = cs := by
    cases cs with
    | nil => rfl
    | cons x cs =>
      simp only [List.mem_cons, not_or] at h
      exact List.dropWhile_cons_of_neg (by simpa using Ne.symm h.1)
  rw [trimMatches, hdrop h, hdrop (by simpa using h), List.reverse_reverse]

theorem idxOf?_append_cons {c : Char} (h : c ∉ cs) (ds : List Char) :
    (cs ++ c :: ds).idxOf? c = some cs.length := by
  induction cs with
  | nil => simp [List.idxOf?_cons]
  | cons x cs ih =>
    simp only [List.mem_cons, not_or] at h
    simp [List.idxOf?_cons, Ne.symm h.1, ih h.2]

theorem push_text (l : Lines) (h : '\n' ∉ cs) :
    cs.foldl Lines.push l = ⟨l.ended, l.rest ++ cs⟩ := by
  induction cs generalizing l with
  | nil => simp
  | cons c cs ih =>
    simp only [List.mem_cons, not_or] at h
    rw [List.foldl_cons, ih _ h.2, Lines.push, if_neg (Ne.symm h.1)]
    simp

theorem splitLines_append (cs : List Char) (h : '\n' ∉ ds) :
    splitLines (cs ++ ds) = ⟨(splitLines cs).ended, (splitLines cs).rest ++ ds⟩ := by
  rw [splitLines, List.foldl_append]
  exact push_text _ h

theorem splitLines_line (cs : List Char) (h : '\n' ∉ ds) : splitLines (cs ++ (ds ++ ['\n'])) =
    ⟨(splitLines cs).ended ++ [(splitLines cs).rest ++ ds], []⟩ := by
  rw [← List.append_assoc, splitLines, List.foldl_append]
  change Lines.push (splitLines (cs ++ ds)) '\n' = _
  rw [splitLines_append cs h, Lines.push, if_pos rfl]

theorem lines_flatMap {ls : List (List Char)} (h : ∀ l ∈ ls, '\n' ∉ l) :
    lines (ls.flatMap (· ++ ['\n'])) = ls.map stripReturn := by
  have hsplit : splitLines (ls.flatMap (· ++ ['\n'])) = ⟨ls, []⟩ := by
    induction ls using List.reverseRecOn with
    | nil => rfl
    | append_singleton ls l ih =>
      have hls := ih fun k hk => h k (List.mem_append_left _ hk)
      simp [List.flatMap_append, splitLines_line _ (h l (by simp)), hls]
  simp [lines, hsplit]

theorem stripReturn_append (line : List Char) (hne : cs ≠ []) (h : '\r' ∉ cs) :
    stripReturn (line ++ cs) = line ++ cs := by
  rw [stripReturn, if_neg]
  intro hlast
  rw [List.getLast?_append_of_ne_nil _ hne] at hlast
  exact h (List.mem_of_getLast? hlast)

theorem trimEnd_stripReturn (ds : List Char) : trimEnd (stripReturn ds) = trimEnd ds := by
  unfold stripReturn
  split
  · rename_i h
    obtain ⟨front, rfl⟩ := List.getLast?_eq_some_iff.mp h
    rw [List.dropLast_concat, trimEnd_concat_space (by decide)]
  · rfl

theorem trim_stripReturn {c d : Char} (hc : isWhitespace c = false)
    (hd : isWhitespace d = false) (hhead : cs.head? = some c) (hlast : cs.getLast? = some d)
    (ds : List Char) : trim (stripReturn (cs ++ ds)) = cs ++ trimEnd ds := by
  have hstrip : stripReturn (cs ++ ds) = cs ++ stripReturn ds := by
    rcases List.eq_nil_or_concat' ds with rfl | ⟨front, x, rfl⟩
    · have hne : cs.getLast? ≠ some '\r' := by
        rw [hlast]
        rintro ⟨⟩
        cases hd
      simp [stripReturn, hne]
    · rw [stripReturn, stripReturn, ← List.append_assoc, List.getLast?_concat, List.getLast?_concat,
        List.dropLast_concat, List.dropLast_concat]
      split <;> simp
  rw [hstrip, trim_append hc hd hhead hlast, trimEnd_stripReturn]

end Rinfra
