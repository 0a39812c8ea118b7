import Rinfra.Lib.Sql.Lexer

/-!
# Conditions

The conditions of a `WHERE` clause: comparisons of columns and placeholders,
`AND` and `OR`. `OR` binds weaker than `AND`, and that weaker than a comparison;
the `AND` of a `BETWEEN` belongs to it. A comparison with NULL is neither true
nor false, and a row is selected where the condition is true.

The parser goes down a given number of parentheses. Its rules, from
`Parses.comparison` on, say which tokens are a condition when they stand before
others.
-/

namespace Rinfra.Lib.Sql

-- ---------------------------------------------------------------------------
-- Meaning
-- ---------------------------------------------------------------------------

inductive Truth
  | false
  | unknown
  | true
  deriving DecidableEq, Repr

namespace Truth

def and : Truth → Truth → Truth
  | .false, _ | _, .false => .false
  | .true, t => t
  | .unknown, _ => .unknown

def or : Truth → Truth → Truth
  | .true, _ | _, .true => .true
  | .false, t => t
  | .unknown, _ => .unknown

@[simp] theorem and_eq_true (s t : Truth) : s.and t = .true ↔ s = .true ∧ t = .true := by
  cases s <;> cases t <;> decide

@[simp] theorem or_eq_true (s t : Truth) : s.or t = .true ↔ s = .true ∨ t = .true := by
  cases s <;> cases t <;> decide

end Truth

/-- What databases differ in: the words they reserve, and how they compare values
that are not NULL. -/
structure Dialect (V : Type) where
  reserved : String → Bool
  eq : V → V → Bool
  like : V → V → Bool
  le : V → V → Bool

/-- `none` is NULL. -/
def compare {V : Type} (op : V → V → Bool) : Option V → Option V → Truth
  | some x, some y => if op x y then .true else .false
  | _, _ => .unknown

theorem compare_eq_true {V : Type} (op : V → V → Bool) (x y : Option V) :
    compare op x y = .true ↔ ∃ v w, x = some v ∧ y = some w ∧ op v w = true := by
  cases x <;> cases y <;> simp [compare]

inductive Operand
  | column (name : String)
  | param (n : Nat)
  deriving DecidableEq, Repr

inductive Expr
  | eq (x y : Operand)
  | like (x pattern : Operand)
  | isIn (x : Operand) (items : List Operand)
  | between (x low high : Operand)
  | and (left right : Expr)
  | or (left right : Expr)
  deriving DecidableEq, Repr

section
variable {V : Type} (d : Dialect V) (row : String → Option V) (params : Nat → Option V)

def Operand.eval : Operand → Option V
  | .column name => row name
  | .param n => params n

def Expr.eval : Expr → Truth
  | .eq x y => compare d.eq (x.eval row params) (y.eval row params)
  | .like x pattern => compare d.like (x.eval row params) (pattern.eval row params)
  | .isIn x items =>
    items.foldr (fun y t => (compare d.eq (x.eval row params) (y.eval row params)).or t) .false
  | .between x low high =>
    (compare d.le (low.eval row params) (x.eval row params)).and
      (compare d.le (x.eval row params) (high.eval row params))
  | .and left right => left.eval.and right.eval
  | .or left right => left.eval.or right.eval

theorem eval_isIn_eq_true (x : Operand) (items : List Operand) :
    (Expr.isIn x items).eval d row params = .true ↔
      ∃ y ∈ items, compare d.eq (x.eval row params) (y.eval row params) = .true := by
  rw [Expr.eval]
  induction items with
  | nil => simp
  | cons y items ih => simp [ih]

end

-- ---------------------------------------------------------------------------
-- Parsing
-- ---------------------------------------------------------------------------

section
variable {V : Type} (d : Dialect V)

/-- The word can be the name of a column. -/
def Dialect.isName (text : String) : Bool :=
  !d.reserved text && text.toList.head?.any fun c => !c.isDigit

def operand : Token → Option Operand
  | .word text => if d.isName text then some (.column text) else none
  | .param n => some (.param n)
  | _ => none

def operands : List Token → Option (List Operand × List Token)
  | t :: .sym ')' :: rest => do
    let x ← operand d t
    return ([x], rest)
  | t :: .sym ',' :: rest => do
    let x ← operand d t
    let (xs, rest) ← operands rest
    return (x :: xs, rest)
  | _ => none

def comparison : List Token → Option (Expr × List Token)
  | x :: .sym '=' :: y :: rest => do
    return (.eq (← operand d x) (← operand d y), rest)
  | x :: .word "LIKE" :: pattern :: rest => do
    return (.like (← operand d x) (← operand d pattern), rest)
  | x :: .word "IN" :: .sym '(' :: rest => do
    let x ← operand d x
    let (items, rest) ← operands d rest
    return (.isIn x items, rest)
  | x :: .word "BETWEEN" :: low :: .word "AND" :: high :: rest => do
    return (.between (← operand d x) (← operand d low) (← operand d high), rest)
  | _ => none

end

/-- What is left of a chain after `e`, in at most so many links. -/
def links (op : String) (mk : Expr → Expr → Expr)
    (part : List Token → Option (Expr × List Token)) :
    Nat → Expr → List Token → Option (Expr × List Token)
  | n + 1, e, .word text :: rest =>
    if text = op then
      match part rest with
      | some (e', rest) => links op mk part n (mk e e') rest
      | none => none
    else some (e, .word text :: rest)
  | 0, _, _ :: _ => none
  | _, e, rest => some (e, rest)

/-- Parts with a word between them, from left to right. -/
def chain (op : String) (mk : Expr → Expr → Expr)
    (part : List Token → Option (Expr × List Token)) (ts : List Token) :
    Option (Expr × List Token) :=
  match part ts with
  | some (e, rest) => links op mk part rest.length e rest
  | none => none

section
variable {V : Type} (d : Dialect V)

def disjunction (primary : List Token → Option (Expr × List Token)) :
    List Token → Option (Expr × List Token) :=
  chain "OR" .or (chain "AND" .and primary)

def primary : Nat → List Token → Option (Expr × List Token)
  | n + 1, .sym '(' :: ts =>
    match disjunction (primary n) ts with
    | some (e, .sym ')' :: rest) => some (e, rest)
    | _ => none
  | _, ts => comparison d ts

/-- A condition, with at most `n` parentheses around a part of it. -/
def condition (n : Nat) : List Token → Option (Expr × List Token) := disjunction (primary d n)

def parseCondition (ts : List Token) : Option Expr :=
  match condition d ts.length ts with
  | some (e, []) => some e
  | _ => none

end

-- ---------------------------------------------------------------------------
-- Rules
-- ---------------------------------------------------------------------------

section
variable {op : String} {mk : Expr → Expr → Expr} {part : List Token → Option (Expr × List Token)}

theorem links_end (n : Nat) (hend : rest.head? ≠ some (.word op)) (hn : rest.length ≤ n) :
    links op mk part n e rest = some (e, rest) := by
  cases rest with
  | nil => cases n <;> rfl
  | cons t rest =>
    cases n with
    | zero => exact absurd hn (Nat.not_succ_le_zero _)
    | succ n =>
      cases t with
      | word text =>
        have hne : text ≠ op := fun h => hend (congrArg (fun w => some (Token.word w)) h)
        simp [links, hne]
      | _ => rfl

theorem chain_single (h : part ts = some (e, rest)) (hend : rest.head? ≠ some (.word op)) :
    chain op mk part ts = some (e, rest) := by
  rw [chain, h]
  exact links_end _ hend (Nat.le_refl _)

theorem chain_pair (hl : part ts = some (l, .word op :: us)) (hr : part us = some (r, rest))
    (hlen : rest.length ≤ us.length) (hend : rest.head? ≠ some (.word op)) :
    chain op mk part ts = some (mk l r, rest) := by
  rw [chain, hl]
  simp only [List.length_cons, links, if_true, hr]
  exact links_end _ hend hlen

end

/-- What a condition can stand before. -/
def Ends (rest : List Token) : Prop :=
  rest.head? ≠ some (.word "AND") ∧ rest.head? ≠ some (.word "OR")

instance : DecidablePred Ends := fun _ => instDecidableAnd

section
variable {V : Type} (d : Dialect V)

/-- The tokens are the condition `e`, whatever ends it. -/
def Parses (depth : Nat) (ts : List Token) (e : Expr) : Prop :=
  ∀ n, depth ≤ n → ∀ rest, Ends rest → condition d n (ts ++ rest) = some (e, rest)

variable {d}

theorem parseCondition_of_parses (h : Parses d depth ts e) (hdepth : depth ≤ ts.length) :
    parseCondition d ts = some e := by
  have hall := h ts.length hdepth [] (by decide)
  rw [List.append_nil] at hall
  rw [parseCondition, hall]

namespace Parses

theorem comparison {text : String}
    (h : ∀ rest, comparison d (.word text :: (ts ++ rest)) = some (e, rest)) :
    Parses d 0 (.word text :: ts) e := by
  intro n _ rest hends
  have hprimary : primary d n (.word text :: (ts ++ rest)) = some (e, rest) := by
    cases n <;> exact h rest
  exact chain_single (chain_single hprimary hends.1) hends.2

theorem parenthesized (h : Parses d depth ts e) (hn : depth ≤ n) (rest : List Token) :
    primary d (n + 1) (.sym '(' :: (ts ++ (.sym ')' :: rest))) = some (e, rest) := by
  have hinner := h n hn (.sym ')' :: rest) ⟨nofun, nofun⟩
  rw [condition] at hinner
  rw [primary, hinner]
  rfl

theorem operands_of_infix (hl : Parses d f ls l) (hr : Parses d g rs r) (op : String)
    (hn : max f g + 1 ≤ n) (rest : List Token) :
    ∃ us, rest.length ≤ us.length ∧ primary d n us = some (r, rest) ∧
      primary d n (.sym '(' :: (ls ++ (.sym ')' :: .word op :: .sym '(' :: (rs ++ [.sym ')']))) ++
        rest) = some (l, .word op :: us) := by
  obtain ⟨m, rfl⟩ : ∃ m, n = m + 1 := ⟨n - 1, by omega⟩
  refine ⟨.sym '(' :: (rs ++ (.sym ')' :: rest)), by simp; omega, ?_, ?_⟩
  · exact hr.parenthesized (by omega) rest
  · have hleft : primary d (m + 1) _ = _ :=
      hl.parenthesized (by omega) (.word op :: .sym '(' :: (rs ++ .sym ')' :: rest))
    simpa using hleft

theorem and (hl : Parses d f ls l) (hr : Parses d g rs r) :
    Parses d (max f g + 1)
      (.sym '(' :: (ls ++ (.sym ')' :: .word "AND" :: .sym '(' :: (rs ++ [.sym ')']))))
      (.and l r) := by
  intro n hn rest hends
  obtain ⟨us, hlen, hright, hleft⟩ := operands_of_infix hl hr "AND" hn rest
  exact chain_single (chain_pair hleft hright hlen hends.1) hends.2

theorem or (hl : Parses d f ls l) (hr : Parses d g rs r) :
    Parses d (max f g + 1)
      (.sym '(' :: (ls ++ (.sym ')' :: .word "OR" :: .sym '(' :: (rs ++ [.sym ')']))))
      (.or l r) := by
  intro n hn rest hends
  obtain ⟨us, hlen, hright, hleft⟩ := operands_of_infix hl hr "OR" hn rest
  have hconjunction : chain "AND" .and (primary d n) _ = some (l, .word "OR" :: us) :=
    chain_single hleft (by simp)
  exact chain_pair hconjunction (chain_single hright hends.1) hlen hends.2

end Parses

theorem operands_params {α : Type} (f : α → Nat) {is : List α} (his : is ≠ []) (rest : List Token) :
    operands d (sepBy (.sym ',') (is.map fun i => [.param (f i)]) ++ (.sym ')' :: rest)) =
      some (is.map fun i => .param (f i), rest) := by
  induction is with
  | nil => exact absurd rfl his
  | cons i is ih =>
    cases is with
    | nil => rfl
    | cons j is =>
      have htail := ih (by simp)
      simp only [List.map_cons] at htail ⊢
      simp only [sepBy, List.cons_append, List.nil_append, operands, operand, htail]
      rfl

end

end Rinfra.Lib.Sql
