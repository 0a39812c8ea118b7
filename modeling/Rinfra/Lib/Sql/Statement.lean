import Rinfra.Lib.Sql.Expr

/-!
# Statements

Reading, counting and deleting the rows of one table that a condition selects.
-/

namespace Rinfra.Lib.Sql

abbrev SortKey := String × Bool

/-- The table is given by the tokens of its name. -/
inductive Statement
  | select (table : List Token) (cond : Expr) (order : List SortKey) (limit offset : Nat)
  | count (table : List Token) (cond : Expr) (column : String)
  | delete (table : List Token) (cond : Expr)
  deriving DecidableEq, Repr

def number : Token → Option Nat
  | .word text =>
    if text.toList.all Char.isDigit then some (Nat.ofDigitChars 10 text.toList 0) else none
  | _ => none

def direction (text : String) : Option Bool :=
  if text = "ASC" then some true else if text = "DESC" then some false else none

def page : List Token → Option (Nat × Nat)
  | [.word "LIMIT", limit, .word "OFFSET", offset] => do
    return (← number limit, ← number offset)
  | _ => none

section
variable {V : Type} (d : Dialect V)

/-- A text in apostrophes is not a name. -/
def namePart : Token → Bool
  | .word text => d.isName text
  | .quoted quote _ => quote.toNat ≠ 39
  | _ => false

/-- Names with dots between them. -/
def tableName : List Token → Option (List Token × List Token)
  | t :: .sym '.' :: ts =>
    if namePart d t then do
      let (name, rest) ← tableName ts
      return (t :: .sym '.' :: name, rest)
    else none
  | t :: ts => if namePart d t then some ([t], ts) else none
  | [] => none

def sortKey (field text : String) : Option SortKey := do
  if d.isName field then return (field, ← direction text) else none

def sortKeys : List Token → Option (List SortKey × List Token)
  | .word field :: .word text :: .sym ',' :: ts => do
    let key ← sortKey d field text
    let (keys, rest) ← sortKeys ts
    return (key :: keys, rest)
  | .word field :: .word text :: ts => do
    let key ← sortKey d field text
    return ([key], ts)
  | _ => none

def ordering : List Token → Option (List SortKey × List Token)
  | .word "ORDER" :: .word "BY" :: ts => sortKeys d ts
  | ts => some ([], ts)

def whereClause : List Token → Option (Expr × List Token)
  | .word "WHERE" :: ts => condition d ts.length ts
  | _ => none

def parseStatement : List Token → Option Statement
  | .word "SELECT" :: .sym '*' :: .word "FROM" :: ts => do
    let (table, ts) ← tableName d ts
    let (cond, ts) ← whereClause d ts
    let (order, ts) ← ordering d ts
    let (limit, offset) ← page ts
    return .select table cond order limit offset
  | .word "SELECT" :: .word "count" :: .sym '(' :: .sym '*' :: .sym ')' :: .word "AS" ::
      .word column :: .word "FROM" :: ts => do
    let (table, ts) ← tableName d ts
    let (cond, []) ← whereClause d ts | none
    return .count table cond column
  | .word "DELETE" :: .word "FROM" :: ts => do
    let (table, ts) ← tableName d ts
    let (cond, []) ← whereClause d ts | none
    return .delete table cond
  | _ => none

def isTable : List Token → Bool
  | [t] => namePart d t
  | t :: .sym '.' :: ts => namePart d t && isTable ts
  | _ => false

end

-- ---------------------------------------------------------------------------
-- Rules
-- ---------------------------------------------------------------------------

def directionWord (ascending : Bool) : String := if ascending then "ASC" else "DESC"

def orderTokens (order : List SortKey) : List Token :=
  if order = [] then []
  else .word "ORDER" :: .word "BY" :: sepBy (.sym ',')
    (order.map fun key => [.word key.1, .word (directionWord key.2)])

def pageTokens (limit offset : Nat) : List Token :=
  [.word "LIMIT", .word limit.repr, .word "OFFSET", .word offset.repr]

theorem number_repr (n : Nat) : number (.word n.repr) = some n := by
  have hdigits : n.repr.toList.all Char.isDigit = true := by
    rw [Nat.toList_repr, List.all_eq_true]
    exact fun c hc => Nat.isDigit_of_mem_toDigits (by decide) (by decide) hc
  rw [number, if_pos hdigits, Nat.toList_repr, Nat.ofDigitChars_ten_toDigits]

theorem page_pageTokens (limit offset : Nat) :
    page (pageTokens limit offset) = some (limit, offset) := by
  simp only [pageTokens, page, number_repr]
  rfl

variable {V : Type} {d : Dialect V}

theorem tableName_append {name rest : List Token} (h : isTable d name = true)
    (hrest : rest.head? ≠ some (.sym '.')) :
    tableName d (name ++ rest) = some (name, rest) := by
  induction name using isTable.induct with
  | case1 t =>
    have hpart : namePart d t = true := h
    cases rest with
    | nil => simp [tableName, hpart]
    | cons u rest =>
      have hdot : u ≠ .sym '.' := fun hu => hrest (congrArg some hu)
      simp [tableName, hpart, hdot]
  | case2 t ts ih =>
    obtain ⟨hpart, hts⟩ : namePart d t = true ∧ isTable d ts = true := by
      simpa [isTable] using h
    simp [tableName, hpart, ih hts]
  | case3 ts hsingle hdotted => simp [isTable] at h

theorem tableName_where {name : List Token} (h : isTable d name = true) (ts : List Token) :
    tableName d (name ++ .word "WHERE" :: ts) = some (name, .word "WHERE" :: ts) :=
  tableName_append h nofun

theorem sortKey_direction (ascending : Bool) (h : d.isName field = true) :
    sortKey d field (directionWord ascending) = some (field, ascending) := by
  cases ascending <;> simp [sortKey, h, directionWord, direction]

theorem sortKeys_append {order : List SortKey} (h : ∀ key ∈ order, d.isName key.1 = true)
    (hne : order ≠ []) (hrest : rest.head? ≠ some (.sym ',')) :
    sortKeys d (sepBy (.sym ',') (order.map fun key =>
      [.word key.1, .word (directionWord key.2)]) ++ rest) = some (order, rest) := by
  induction order with
  | nil => exact absurd rfl hne
  | cons key order ih =>
    have hkey := sortKey_direction key.2 (h key List.mem_cons_self)
    cases order with
    | nil =>
      cases rest with
      | nil => simp [sepBy, sortKeys, hkey]
      | cons t rest =>
        have hcomma : t ≠ .sym ',' := fun ht => hrest (congrArg some ht)
        simp [sepBy, sortKeys, hkey, hcomma]
    | cons next order =>
      have htail := ih (fun k hk => h k (List.mem_cons_of_mem _ hk)) (by simp)
      simp only [List.map_cons] at htail
      simp [sepBy, sortKeys, hkey, htail]

theorem ordering_orderTokens {order : List SortKey} (h : ∀ key ∈ order, d.isName key.1 = true)
    (limit offset : Nat) :
    ordering d (orderTokens order ++ pageTokens limit offset) =
      some (order, pageTokens limit offset) := by
  by_cases hne : order = []
  · rw [orderTokens, if_pos hne, hne]
    rfl
  · rw [orderTokens, if_neg hne]
    exact sortKeys_append h hne nofun

theorem whereClause_append (h : Parses d depth ts e) (hdepth : depth ≤ ts.length)
    (hrest : Ends rest) :
    whereClause d (.word "WHERE" :: (ts ++ rest)) = some (e, rest) := by
  have hlen : depth ≤ (ts ++ rest).length := by
    rw [List.length_append]
    omega
  exact h _ hlen rest hrest

theorem ends_orderTokens (order : List SortKey) (limit offset : Nat) :
    Ends (orderTokens order ++ pageTokens limit offset) := by
  unfold orderTokens
  split
  · exact ⟨by simp [pageTokens], by simp [pageTokens]⟩
  · exact ⟨by simp, by simp⟩

section
variable {table ts : List Token} {e : Expr} {depth : Nat}
  (htable : isTable d table = true) (hcond : Parses d depth ts e) (hdepth : depth ≤ ts.length)
include htable hcond hdepth

theorem parse_select {order : List SortKey} (horder : ∀ key ∈ order, d.isName key.1 = true)
    (limit offset : Nat) :
    parseStatement d (.word "SELECT" :: .sym '*' :: .word "FROM" :: (table ++ (.word "WHERE" ::
      (ts ++ (orderTokens order ++ pageTokens limit offset))))) =
      some (.select table e order limit offset) := by
  have hwhere := whereClause_append hcond hdepth (ends_orderTokens order limit offset)
  simp [parseStatement, tableName_where htable, hwhere, ordering_orderTokens horder,
    page_pageTokens]

theorem parse_count (column : String) :
    parseStatement d (.word "SELECT" :: .word "count" :: .sym '(' :: .sym '*' :: .sym ')' ::
      .word "AS" :: .word column :: .word "FROM" :: (table ++ (.word "WHERE" :: ts))) =
      some (.count table e column) := by
  have hwhere : whereClause d (.word "WHERE" :: (ts ++ [])) = some (e, []) :=
    whereClause_append hcond hdepth (by decide)
  rw [List.append_nil] at hwhere
  simp [parseStatement, tableName_where htable, hwhere]

theorem parse_delete :
    parseStatement d (.word "DELETE" :: .word "FROM" :: (table ++ (.word "WHERE" :: ts))) =
      some (.delete table e) := by
  have hwhere : whereClause d (.word "WHERE" :: (ts ++ [])) = some (e, []) :=
    whereClause_append hcond hdepth (by decide)
  rw [List.append_nil] at hwhere
  simp [parseStatement, tableName_where htable, hwhere]

end

end Rinfra.Lib.Sql
