import Mathlib.Data.List.Basic
import Rinfra.Lib.Json

/-!
# JSON text

The text of a value without spaces, the entries of an object in the order of
the list. How a writer prints a binary64 number is its own business; what counts
is that the text has no control characters.

The text takes one line, and to put a value under a key of an object makes its
text longer or shorter by the difference of the two entries.
-/

namespace Rinfra.Lib.Json

open scoped List

/-- How finite binary64 numbers are written. -/
structure FloatText where
  text : F64 → List Char
  plain : ∀ x, ∀ c ∈ text x, 0x20 ≤ c.toNat

/-- For values that have no such numbers. -/
def noFloats : FloatText where
  text _ := ['0']
  plain := by simp

def escapeChar (c : Char) : List Char :=
  match c.toNat with
  | 0x08 => ['\x5c', 'b']
  | 0x09 => ['\x5c', 't']
  | 0x0A => ['\x5c', 'n']
  | 0x0C => ['\x5c', 'f']
  | 0x0D => ['\x5c', 'r']
  | 0x22 => ['\x5c', '\x22']
  | 0x5C => ['\x5c', '\x5c']
  | n => if n < 0x20 then
      ['\x5c', 'u', '0', '0', Nat.digitChar (n / 16), Nat.digitChar (n % 16)]
    else [c]

def stringText (s : String) : List Char :=
  '\x22' :: s.toList.flatMap escapeChar ++ ['\x22']

def commas (texts : List (List Char)) : List Char := [','].intercalate texts

section
variable (floats : FloatText)

mutual
def text : Value → List Char
  | .null => "null".toList
  | .bool b => if b then "true".toList else "false".toList
  | .number (.posInt n) => Nat.toDigits 10 n
  | .number (.negInt n) => '-' :: Nat.toDigits 10 n.natAbs
  | .number (.float x) => floats.text x
  | .string s => stringText s
  | .array elements => '[' :: commas (elementTexts elements) ++ [']']
  | .object fields => '\x7b' :: commas (fieldTexts fields) ++ ['\x7d']

def elementTexts : List Value → List (List Char)
  | [] => []
  | v :: vs => text v :: elementTexts vs

def fieldTexts : List (String × Value) → List (List Char)
  | [] => []
  | (key, v) :: fields => (stringText key ++ ':' :: text v) :: fieldTexts fields
end

end

variable {floats : FloatText} {fields : Fields} {key : String} {old : Value}

theorem fieldTexts_eq_map (fields : Fields) : fieldTexts floats fields =
    fields.map fun e => stringText e.1 ++ ':' :: text floats e.2 := by
  induction fields with
  | nil => rfl
  | cons e fields ih =>
    obtain ⟨key, v⟩ := e
    simp [fieldTexts, ih]

-- ---------------------------------------------------------------------------
-- One line
-- ---------------------------------------------------------------------------

def Plain (cs : List Char) : Prop := ∀ c ∈ cs, 0x20 ≤ c.toNat

theorem Plain.append (h : Plain cs) (h' : Plain ds) : Plain (cs ++ ds) := by
  intro c hc
  exact (List.mem_append.mp hc).elim (h c) (h' c)

theorem Plain.cons (hc : 0x20 ≤ c.toNat) (h : Plain cs) : Plain (c :: cs) :=
  List.forall_mem_cons.mpr ⟨hc, h⟩

theorem plain_hex : ∀ n < 16, 0x20 ≤ (Nat.digitChar n).toNat := by decide

theorem plain_digits (n : Nat) : Plain (Nat.toDigits 10 n) := by
  intro c hc
  have hdigit := Nat.isDigit_of_mem_toDigits (by decide) (by decide) hc
  simp only [Char.isDigit, Bool.and_eq_true, decide_eq_true_eq] at hdigit
  exact Nat.le_trans (by decide) (UInt32.le_iff_toNat_le.mp hdigit.1)

theorem plain_escapeChar (c : Char) : Plain (escapeChar c) := by
  unfold escapeChar
  split
  case h_8 =>
    split
    · rename_i hlt
      have hhi := plain_hex (c.toNat / 16) (by omega)
      have hlo := plain_hex (c.toNat % 16) (by omega)
      simp [Plain, hhi, hlo]
    · simp [Plain]
      omega
  all_goals simp [Plain]

theorem plain_stringText (s : String) : Plain (stringText s) := by
  refine .append (.cons (by decide) fun c hc => ?_) (by simp [Plain])
  obtain ⟨d, -, hc⟩ := List.mem_flatMap.mp hc
  exact plain_escapeChar d c hc

theorem plain_commas (h : ∀ t ∈ texts, Plain t) : Plain (commas texts) := by
  induction texts with
  | nil => simp [commas, Plain, List.intercalate]
  | cons t texts ih =>
    cases texts with
    | nil => simpa [commas, List.intercalate] using h
    | cons u texts =>
      obtain ⟨ht, htexts⟩ := List.forall_mem_cons.mp h
      have hrest := ih htexts
      exact ht.append (.cons (by decide) hrest)

mutual
theorem plain_text (floats : FloatText) : (v : Value) → Plain (text floats v)
  | .null => by simp [text, Plain]
  | .bool b => by cases b <;> simp [text, Plain]
  | .number (.posInt n) => plain_digits n
  | .number (.negInt n) => .cons (by decide) (plain_digits n.natAbs)
  | .number (.float x) => floats.plain x
  | .string s => plain_stringText s
  | .array elements => .append
      (.cons (by decide) (plain_commas (plain_elementTexts floats elements))) (by simp [Plain])
  | .object fields => .append
      (.cons (by decide) (plain_commas (plain_fieldTexts floats fields))) (by simp [Plain])

theorem plain_elementTexts (floats : FloatText) :
    (vs : List Value) → ∀ t ∈ elementTexts floats vs, Plain t
  | [] => by simp [elementTexts]
  | v :: vs => List.forall_mem_cons.mpr ⟨plain_text floats v, plain_elementTexts floats vs⟩

theorem plain_fieldTexts (floats : FloatText) :
    (fields : List (String × Value)) → ∀ t ∈ fieldTexts floats fields, Plain t
  | [] => by simp [fieldTexts]
  | (key, v) :: fields => List.forall_mem_cons.mpr
      ⟨(plain_stringText key).append (.cons (by decide) (plain_text floats v)),
        plain_fieldTexts floats fields⟩
end

-- ---------------------------------------------------------------------------
-- How long a text is
-- ---------------------------------------------------------------------------

def size : List Char → Nat
  | [] => 0
  | c :: cs => c.utf8Size + size cs

@[simp] theorem size_nil : size [] = 0 := rfl

@[simp] theorem size_cons (c : Char) (cs : List Char) : size (c :: cs) = c.utf8Size + size cs :=
  rfl

@[simp] theorem size_append (cs ds : List Char) : size (cs ++ ds) = size cs + size ds := by
  induction cs with
  | nil => simp
  | cons c cs ih => simp [ih, Nat.add_assoc]

theorem size_perm (h : cs ~ ds) : size cs = size ds := by
  induction h with
  | nil => rfl
  | cons c _ ih => simp [ih]
  | swap c d cs => simp [Nat.add_left_comm]
  | trans _ _ ih ih' => exact ih.trans ih'

theorem size_commas (h : texts ≠ []) :
    size (commas texts) + 1 = size texts.flatten + texts.length := by
  induction texts with
  | nil => exact absurd rfl h
  | cons t texts ih =>
    cases texts with
    | nil => simp [commas, List.intercalate]
    | cons u texts =>
      have hrest := ih (List.cons_ne_nil _ _)
      have hcons : commas (t :: u :: texts) = t ++ ',' :: commas (u :: texts) := rfl
      have hcomma : ','.utf8Size = 1 := rfl
      simp only [hcons, size_append, size_cons, List.flatten_cons, List.length_cons, hcomma]
        at hrest ⊢
      omega

/-- The bytes of an object's entries, the braces and the commas. -/
theorem size_object (floats : FloatText) (h : fields ≠ []) :
    size (text floats (.object fields)) =
      size (fieldTexts floats fields).flatten + fields.length + 1 := by
  have hlen : (fieldTexts floats fields).length = fields.length := by simp [fieldTexts_eq_map]
  have hcommas : size (commas (fieldTexts floats fields)) + 1 = _ :=
    size_commas (by simpa [fieldTexts_eq_map] using h)
  have hopen : '\x7b'.utf8Size = 1 := rfl
  have hclose : '\x7d'.utf8Size = 1 := rfl
  simp only [text, size_append, size_cons, size_nil, hopen, hclose]
  omega

theorem fieldTexts_perm (floats : FloatText) {fields' : Fields} (h : fields ~ fields') :
    size (fieldTexts floats fields).flatten = size (fieldTexts floats fields').flatten := by
  rw [fieldTexts_eq_map, fieldTexts_eq_map]
  exact size_perm (h.map _).flatten

theorem size_insert_some (floats : FloatText) (v : Value)
    (h : SortedMap.get key fields = some old) :
    size (text floats (.object (SortedMap.insert key v fields))) + size (text floats old) =
      size (text floats (.object fields)) + size (text floats v) := by
  obtain ⟨rest, hold, hnew⟩ := SortedMap.insert_perm_of_some h v
  have hne : fields ≠ [] := by
    rintro rfl
    cases h
  have hne' : SortedMap.insert key v fields ≠ [] := by
    intro heq
    simp [heq] at hnew
  rw [size_object floats hne, size_object floats hne', fieldTexts_perm floats hold,
    fieldTexts_perm floats hnew, hold.length_eq, hnew.length_eq]
  simp only [fieldTexts, List.flatten_cons, size_append, size_cons, List.length_cons]
  omega

theorem size_insert_none (floats : FloatText) (v : Value)
    (h : SortedMap.get key fields = none) (hne : fields ≠ []) :
    size (text floats (.object (SortedMap.insert key v fields))) =
      size (text floats (.object fields)) + size (stringText key) + size (text floats v) + 2 := by
  have hnew := SortedMap.insert_perm_of_none h v
  have hne' : SortedMap.insert key v fields ≠ [] := by
    intro heq
    simp [heq] at hnew
  have hcolon : ':'.utf8Size = 1 := rfl
  rw [size_object floats hne, size_object floats hne', fieldTexts_perm floats hnew, hnew.length_eq]
  simp only [fieldTexts, List.flatten_cons, size_append, size_cons, List.length_cons, hcolon]
  omega

end Rinfra.Lib.Json
