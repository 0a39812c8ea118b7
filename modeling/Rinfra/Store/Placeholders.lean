import Mathlib.Data.List.Range
import Rinfra.Lib.Sql.Lexer
import Rinfra.Store.Repository

/-!
# Placeholders and parameters

The clause of a specification, as tokens, is the specification with the numbers
of its parameters where its values are. `written` is the specification with the
values themselves: putting the parameters for the placeholders gives it back.
-/

namespace Rinfra.Store

open Rinfra.Lib.Sql

def paramAt (offset : Nat) (params : List DbValue) (n : Nat) : Option DbValue :=
  if offset ≤ n then params[n - offset]? else none

-- ---------------------------------------------------------------------------
-- Texts
-- ---------------------------------------------------------------------------

theorem lexes_infix {l r middle : String} {op : Token} (hl : Lexes l ls) (hr : Lexes r rs)
    (hmiddle : Lexes middle [.sym ')', op, .sym '(']) (hbreak : BeginsWithBreak middle)
    (hgap : EndsInGap middle) :
    Lexes ("(" ++ (l ++ (middle ++ (r ++ ")"))))
      (.sym '(' :: (ls ++ (.sym ')' :: op :: .sym '(' :: (rs ++ [.sym ')'])))) := by
  have hopen : Lexes "(" [.sym '('] := by decide
  have hclose : Lexes ")" [.sym ')'] := by decide
  have hright := hmiddle.between hgap hr hclose (by decide)
  exact hopen.between (by decide) hl hright (hbreak.append _)

theorem lexes_comparison {field op : String} {t : Token} (hfield : Whole field) (hop : Lexes op [t])
    (hbreak : BeginsWithBreak op) (hgap : EndsInGap op) (offset : Nat) :
    Lexes (field ++ (op ++ s!"${offset}")) (tokens field ++ [t, .param offset]) :=
  hfield.append (hop.append_gap (.param offset) hgap) (hbreak.append _)

theorem lexes_numbered (n : Nat) :
    List.Forall₂ Lexes (GenericRepository.numbered n)
      ((List.range n).map fun i => [.param (i + 1)]) := by
  rw [GenericRepository.numbered, List.forall₂_map_left_iff, List.forall₂_map_right_iff,
    List.forall₂_same]
  exact fun i _ => .param _

-- ---------------------------------------------------------------------------
-- Clauses
-- ---------------------------------------------------------------------------

namespace Specification

def fields : Specification → List String
  | andSpec left right | orSpec left right => left.fields ++ right.fields
  | eqSpec field _ | likeSpec field _ | inSpec field _ | betweenSpec field _ _ => [field]

def params : Specification → List DbValue
  | andSpec left right | orSpec left right => left.params ++ right.params
  | eqSpec _ value => [value]
  | likeSpec _ pattern => [.text pattern]
  | inSpec _ values => values
  | betweenSpec _ low high => [low, high]

/-- The specification as tokens, with the numbers of its parameters. -/
def tokensAt : Specification → (offset : Nat) → List Token
  | andSpec left right, offset =>
    .sym '(' :: (left.tokensAt offset ++ (.sym ')' :: .word "AND" :: .sym '(' ::
      (right.tokensAt (usizeAdd offset left.params.length) ++ [.sym ')'])))
  | orSpec left right, offset =>
    .sym '(' :: (left.tokensAt offset ++ (.sym ')' :: .word "OR" :: .sym '(' ::
      (right.tokensAt (usizeAdd offset left.params.length) ++ [.sym ')'])))
  | eqSpec field _, offset => tokens field ++ [.sym '=', .param offset]
  | likeSpec field _, offset => tokens field ++ [.word "LIKE", .param offset]
  | inSpec field values, offset =>
    tokens field ++ (.word "IN" :: .sym '(' ::
      (sepBy (.sym ',') ((List.range values.length).map fun i => [.param (usizeAdd offset i)]) ++
        [.sym ')']))
  | betweenSpec field _ _, offset =>
    tokens field ++ [.word "BETWEEN", .param offset, .word "AND", .param (usizeAdd offset 1)]

/-- The specification with its values in their places. -/
def written : Specification → List (Token ⊕ Option DbValue)
  | andSpec left right =>
    .inl (.sym '(') :: (left.written ++ (.inl (.sym ')') :: .inl (.word "AND") ::
      .inl (.sym '(') :: (right.written ++ [.inl (.sym ')')])))
  | orSpec left right =>
    .inl (.sym '(') :: (left.written ++ (.inl (.sym ')') :: .inl (.word "OR") ::
      .inl (.sym '(') :: (right.written ++ [.inl (.sym ')')])))
  | eqSpec field value => (tokens field).map .inl ++ [.inl (.sym '='), .inr (some value)]
  | likeSpec field pattern =>
    (tokens field).map .inl ++ [.inl (.word "LIKE"), .inr (some (.text pattern))]
  | inSpec field values =>
    (tokens field).map .inl ++ (.inl (.word "IN") :: .inl (.sym '(') ::
      (sepBy (.inl (.sym ',')) (values.map fun v => [.inr (some v)]) ++ [.inl (.sym ')')]))
  | betweenSpec field low high =>
    (tokens field).map .inl ++ [.inl (.word "BETWEEN"), .inr (some low), .inl (.word "AND"),
      .inr (some high)]

@[simp] theorem toWhereClause_snd (spec : Specification) (offset : Nat) :
    (spec.toWhereClause offset).2 = spec.params := by
  induction spec generalizing offset with
  | andSpec left right ihl ihr | orSpec left right ihl ihr =>
    simp only [toWhereClause, params, ihl, ihr]
  | _ => rfl

theorem lexes_clause (spec : Specification) (offset : Nat)
    (h : ∀ field ∈ spec.fields, Whole field) :
    Lexes (spec.toWhereClause offset).1 (spec.tokensAt offset) := by
  induction spec generalizing offset with
  | andSpec left right ihl ihr =>
    have hl := ihl offset fun f hf => h f (List.mem_append_left _ hf)
    have hr := ihr (usizeAdd offset left.params.length) fun f hf => h f (List.mem_append_right _ hf)
    have hmiddle : Lexes ") AND (" [.sym ')', .word "AND", .sym '('] := by decide
    have hclause := lexes_infix hl hr hmiddle (by decide) (by decide)
    simp only [toWhereClause, toWhereClause_snd, String.append_assoc]
    exact hclause
  | orSpec left right ihl ihr =>
    have hl := ihl offset fun f hf => h f (List.mem_append_left _ hf)
    have hr := ihr (usizeAdd offset left.params.length) fun f hf => h f (List.mem_append_right _ hf)
    have hmiddle : Lexes ") OR (" [.sym ')', .word "OR", .sym '('] := by decide
    have hclause := lexes_infix hl hr hmiddle (by decide) (by decide)
    simp only [toWhereClause, toWhereClause_snd, String.append_assoc]
    exact hclause
  | eqSpec field value =>
    have hsign : Lexes " = " [.sym '='] := by decide
    have htext : (toWhereClause (eqSpec field value) offset).1 =
        field ++ (" = " ++ s!"${offset}") := by
      simp only [toWhereClause, String.append_assoc]
      rfl
    rw [htext]
    exact lexes_comparison (h field (by simp [fields])) hsign (by decide) (by decide) offset
  | likeSpec field pattern =>
    have hword : Lexes " LIKE " [.word "LIKE"] := by decide
    have htext : (toWhereClause (likeSpec field pattern) offset).1 =
        field ++ (" LIKE " ++ s!"${offset}") := by
      simp only [toWhereClause, String.append_assoc]
      rfl
    rw [htext]
    exact lexes_comparison (h field (by simp [fields])) hword (by decide) (by decide) offset
  | inSpec field values =>
    have hfield := h field (by simp [fields])
    have hopen : Lexes " IN (" [.word "IN", .sym '('] := by decide
    have hclose : Lexes ")" [.sym ')'] := by decide
    have hlist : List.Forall₂ Lexes
        ((List.range values.length).map fun i => s!"${usizeAdd offset i}")
        ((List.range values.length).map fun i => [.param (usizeAdd offset i)]) := by
      rw [List.forall₂_map_left_iff, List.forall₂_map_right_iff, List.forall₂_same]
      exact fun i _ => .param _
    have hclause := hfield.append (hopen.between (by decide) (.join hlist) hclose (by decide))
      (BeginsWithBreak.append (by decide) _)
    simp only [toWhereClause, String.append_assoc]
    exact hclause
  | betweenSpec field low high =>
    have hfield := h field (by simp [fields])
    have hbetween : Lexes " BETWEEN " [.word "BETWEEN"] := by decide
    have hand : Lexes " AND " [.word "AND"] := by decide
    have hbounds := hbetween.between (by decide) (.param offset)
      (hand.append_gap (.param (usizeAdd offset 1)) (by decide))
      (BeginsWithBreak.append (by decide) _)
    have htext : (toWhereClause (betweenSpec field low high) offset).1 =
        field ++ (" BETWEEN " ++ (s!"${offset}" ++ (" AND " ++ s!"${usizeAdd offset 1}"))) := by
      simp only [toWhereClause, String.append_assoc]
      rfl
    rw [htext]
    exact hfield.append hbounds (BeginsWithBreak.append (by decide) _)

theorem usizeAdd_of_lt (h : m + n < 2 ^ 64) : usizeAdd m n = m + n := Nat.mod_eq_of_lt h

theorem usizeAdd_lt (m n : Nat) : usizeAdd m n < 2 ^ 64 := Nat.mod_lt _ (by decide)

theorem right_offset {l r : List DbValue} (h : offset + (l ++ r).length ≤ 2 ^ 64) :
    r = [] ∨ usizeAdd offset l.length = offset + l.length := by
  cases r with
  | nil => exact .inl rfl
  | cons v r =>
    rw [List.length_append, List.length_cons] at h
    exact .inr (usizeAdd_of_lt (by omega))

theorem left_fits {l r : List DbValue} (h : offset + (l ++ r).length ≤ 2 ^ 64) :
    offset + l.length ≤ 2 ^ 64 := by
  rw [List.length_append] at h
  omega

theorem right_fits {l r : List DbValue} (h : offset + (l ++ r).length ≤ 2 ^ 64) :
    usizeAdd offset l.length + r.length ≤ 2 ^ 64 := by
  rcases right_offset h with rfl | hadd
  · exact (usizeAdd_lt _ _).le
  · rw [hadd, Nat.add_assoc, ← List.length_append]
    exact h

section
variable {value : Nat → Option DbValue} {l r : List DbValue}

theorem left_supplied (h : ∀ i < (l ++ r).length, value (offset + i) = (l ++ r)[i]?) :
    ∀ i < l.length, value (offset + i) = l[i]? := by
  intro i hi
  have hi' : i < (l ++ r).length := by
    rw [List.length_append]
    omega
  rw [h i hi']
  exact List.getElem?_append_left hi

theorem right_supplied (hfits : offset + (l ++ r).length ≤ 2 ^ 64)
    (h : ∀ i < (l ++ r).length, value (offset + i) = (l ++ r)[i]?) :
    ∀ i < r.length, value (usizeAdd offset l.length + i) = r[i]? := by
  intro i hi
  rcases right_offset hfits with hnil | hadd
  · rw [hnil] at hi
    cases hi
  · have hi' : l.length + i < (l ++ r).length := by
      rw [List.length_append]
      omega
    rw [hadd, Nat.add_assoc, h _ hi', List.getElem?_append_right (Nat.le_add_right _ _),
      Nat.add_sub_cancel_left]

end

theorem placeholders_tokensAt (spec : Specification) (offset : Nat)
    (h : ∀ field ∈ spec.fields, Inert field) (hfits : offset + spec.params.length ≤ 2 ^ 64) :
    (spec.tokensAt offset).filterMap Token.param? = List.range' offset spec.params.length := by
  induction spec generalizing offset with
  | andSpec left right ihl ihr | orSpec left right ihl ihr =>
    have hl := ihl offset (fun f hf => h f (List.mem_append_left _ hf)) (left_fits hfits)
    have hr := ihr (usizeAdd offset left.params.length)
      (fun f hf => h f (List.mem_append_right _ hf)) (right_fits hfits)
    have hright : List.range' (usizeAdd offset left.params.length) right.params.length =
        List.range' (offset + left.params.length) right.params.length := by
      rcases right_offset hfits with hnil | hadd
      · simp [hnil]
      · rw [hadd]
    simp only [tokensAt, params, Token.param?, List.filterMap_cons, List.filterMap_append, hl, hr,
      hright, List.filterMap_nil, List.append_nil, List.length_append]
    rw [← List.range'_append_1]
  | eqSpec field value | likeSpec field pattern =>
    have hfield := (h field (by simp [fields])).params
    simp only [tokensAt, List.filterMap_append, hfield, List.nil_append]
    rfl
  | inSpec field values =>
    have hfield := (h field (by simp [fields])).params
    have hadd : (List.range values.length).map (usizeAdd offset) =
        List.range' offset values.length := by
      rw [List.range'_eq_map_range]
      apply List.map_congr_left
      intro i hi
      have hlt := List.mem_range.mp hi
      simp only [params] at hfits
      exact usizeAdd_of_lt (by omega)
    simp only [tokensAt, List.filterMap_append, hfield, List.nil_append, List.filterMap_cons,
      Token.param?, sepBy_params, hadd, params, List.filterMap_nil, List.append_nil]
  | betweenSpec field low high =>
    have hfield := (h field (by simp [fields])).params
    have hadd : usizeAdd offset 1 = offset + 1 := by
      simp only [params, List.length_cons, List.length_nil] at hfits
      exact usizeAdd_of_lt (by omega)
    simp only [tokensAt, List.filterMap_append, hfield, List.nil_append, hadd]
    rfl

theorem bind_tokensAt (spec : Specification) (offset : Nat) (value : Nat → Option DbValue)
    (h : ∀ field ∈ spec.fields, Inert field) (hfits : offset + spec.params.length ≤ 2 ^ 64)
    (hvalue : ∀ i < spec.params.length, value (offset + i) = spec.params[i]?) :
    (spec.tokensAt offset).map (Token.bind value) = spec.written := by
  induction spec generalizing offset with
  | andSpec left right ihl ihr | orSpec left right ihl ihr =>
    have hl := ihl offset (fun f hf => h f (List.mem_append_left _ hf)) (left_fits hfits)
      (left_supplied hvalue)
    have hr := ihr (usizeAdd offset left.params.length)
      (fun f hf => h f (List.mem_append_right _ hf)) (right_fits hfits)
      (right_supplied hfits hvalue)
    simp only [tokensAt, written, List.map_cons, List.map_append, hl, hr]
    rfl
  | eqSpec field value' =>
    have hfield := (h field (by simp [fields])).bind value
    have hparam : value offset = some value' := hvalue 0 (by simp [params])
    simp only [tokensAt, written, List.map_append, hfield, List.map_cons, Token.bind, hparam,
      List.map_nil]
  | likeSpec field pattern =>
    have hfield := (h field (by simp [fields])).bind value
    have hparam : value offset = some (.text pattern) := hvalue 0 (by simp [params])
    simp only [tokensAt, written, List.map_append, hfield, List.map_cons, Token.bind, hparam,
      List.map_nil]
  | inSpec field values =>
    have hfield := (h field (by simp [fields])).bind value
    have hvalues : ∀ i < values.length, value (usizeAdd offset i) = values[i]? := by
      intro i hi
      simp only [params] at hfits
      rw [usizeAdd_of_lt (by omega)]
      exact hvalue i hi
    simp only [tokensAt, written, List.map_append, hfield, List.map_cons, Token.bind,
      sepBy_bind _ values hvalues, List.map_nil]
  | betweenSpec field low high =>
    have hfield := (h field (by simp [fields])).bind value
    have hadd : usizeAdd offset 1 = offset + 1 := by
      simp only [params, List.length_cons, List.length_nil] at hfits
      exact usizeAdd_of_lt (by omega)
    have hlow : value offset = some low := hvalue 0 (by simp [params])
    have hhigh : value (offset + 1) = some high := hvalue 1 (by simp [params])
    simp only [tokensAt, written, List.map_append, hfield, List.map_cons, Token.bind, hadd, hlow,
      hhigh, List.map_nil]

end Specification

-- ---------------------------------------------------------------------------
-- INSERT and UPDATE
-- ---------------------------------------------------------------------------

namespace GenericRepository

theorem insertSql_snd (table : String) (params : List (String × DbValue)) :
    (insertSql table params).2 = params.map Prod.snd := rfl

theorem updateSql_snd (table idCol : String) (params : List (String × DbValue)) (id : Int) :
    (updateSql table idCol params id).2 = params.map Prod.snd ++ [.int id] := rfl

/-- `INSERT` with the values themselves: they stand in the order of the columns. -/
def insertWritten (table : String) (params : List (String × DbValue)) :
    List (Token ⊕ Option DbValue) :=
  .inl (.word "INSERT") :: .inl (.word "INTO") :: ((tokens table).map .inl ++
    (.inl (.sym '(') ::
      (sepBy (.inl (.sym ',')) ((params.map Prod.fst).map fun col => (tokens col).map .inl) ++
      (.inl (.sym ')') :: .inl (.word "VALUES") :: .inl (.sym '(') ::
        (sepBy (.inl (.sym ',')) ((params.map Prod.snd).map fun v => [.inr (some v)]) ++
          [.inl (.sym ')'), .inl (.word "RETURNING"), .inl (.sym '*')])))))

/-- `UPDATE` with the values themselves, each beside its column. -/
def updateWritten (table idCol : String) (params : List (String × DbValue)) (id : Int) :
    List (Token ⊕ Option DbValue) :=
  .inl (.word "UPDATE") :: ((tokens table).map .inl ++ (.inl (.word "SET") ::
    (sepBy (.inl (.sym ','))
        (params.map fun p => (tokens p.1).map .inl ++ [.inl (.sym '='), .inr (some p.2)]) ++
      (.inl (.word "WHERE") :: ((tokens idCol).map .inl ++
        [.inl (.sym '='), .inr (some (.int id)), .inl (.word "RETURNING"), .inl (.sym '*')])))))

def insertTokens (table : String) (params : List (String × DbValue)) : List Token :=
  .word "INSERT" :: .word "INTO" :: (tokens table ++
    (.sym '(' :: (sepBy (.sym ',') ((params.map Prod.fst).map tokens) ++
      (.sym ')' :: .word "VALUES" :: .sym '(' ::
        (sepBy (.sym ',') ((List.range params.length).map fun i => [.param (i + 1)]) ++
          [.sym ')', .word "RETURNING", .sym '*'])))))

def updateTokens (table idCol : String) (params : List (String × DbValue)) : List Token :=
  .word "UPDATE" :: (tokens table ++ (.word "SET" ::
    (sepBy (.sym ',')
        (params.zipIdx.map fun (p, i) => tokens p.1 ++ [.sym '=', .param (i + 1)]) ++
      (.word "WHERE" :: (tokens idCol ++
        [.sym '=', .param (params.length + 1), .word "RETURNING", .sym '*'])))))

-- Rewriting with `String.append_assoc` in a statement unfolds its texts.
theorem append_seven (a b c d e f g : String) :
    a ++ b ++ c ++ d ++ e ++ f ++ g = a ++ (b ++ (c ++ (d ++ (e ++ (f ++ g))))) := by
  simp only [String.append_assoc]

theorem append_nine (a b c d e f sign dollar n g : String) :
    a ++ b ++ c ++ d ++ e ++ f ++ (sign ++ dollar) ++ n ++ g =
      a ++ (b ++ (c ++ (d ++ (e ++ (f ++ (sign ++ (dollar ++ n)) ++ g))))) := by
  simp only [String.append_assoc]

theorem lexes_insert {table : String} (htable : Whole table)
    (hcols : ∀ col ∈ params.map Prod.fst, Whole col) :
    Lexes (insertSql table params).1 (insertTokens table params) := by
  have hcolumns : List.Forall₂ Lexes (params.map Prod.fst) ((params.map Prod.fst).map tokens) := by
    rw [List.forall₂_map_right_iff, List.forall₂_same]
    exact fun col hcol => hcols col hcol
  have hinsert : Lexes "INSERT INTO " [.word "INSERT", .word "INTO"] := by decide
  have hopen : Lexes " (" [.sym '('] := by decide
  have hvalues : Lexes ") VALUES (" [.sym ')', .word "VALUES", .sym '('] := by decide
  have hreturning : Lexes ") RETURNING *" [.sym ')', .word "RETURNING", .sym '*'] := by decide
  have hnumbers : List.Forall₂ Lexes (numbered (params.map Prod.fst).length)
      ((List.range params.length).map fun i => [.param (i + 1)]) := by
    rw [List.length_map]
    exact lexes_numbered params.length
  have hlist := hvalues.between (by decide) (.join hnumbers) hreturning (by decide)
  have hrest := hopen.between (by decide) (.join hcolumns) hlist
    (BeginsWithBreak.append (by decide) _)
  have hall := hinsert.between (by decide) htable hrest (BeginsWithBreak.append (by decide) _)
  have htext : (insertSql table params).1 = "INSERT INTO " ++ (table ++ (" (" ++
      (commaJoin (params.map Prod.fst) ++ (") VALUES (" ++
        (commaJoin (numbered (params.map Prod.fst).length) ++ ") RETURNING *"))))) :=
    append_seven "INSERT INTO " table " (" _ ") VALUES (" _ ") RETURNING *"
  rw [htext]
  exact hall

theorem lexes_update {table idCol : String} (htable : Whole table) (hid : Whole idCol)
    (hcols : ∀ col ∈ params.map Prod.fst, Whole col) (id : Int) :
    Lexes (updateSql table idCol params id).1 (updateTokens table idCol params) := by
  have hsign : Lexes " = " [.sym '='] := by decide
  have hclauses : List.Forall₂ Lexes
      (params.zipIdx.map fun (p, i) => s!"{p.1} = ${i + 1}")
      (params.zipIdx.map fun (p, i) => tokens p.1 ++ [.sym '=', .param (i + 1)]) := by
    rw [List.forall₂_map_left_iff, List.forall₂_map_right_iff, List.forall₂_same]
    rintro ⟨p, i⟩ hp
    have hmem : p ∈ params := List.mem_of_getElem? (List.mem_zipIdx_iff_getElem?.mp hp)
    have hcol := hcols p.1 (List.mem_map_of_mem hmem)
    have htext : s!"{p.1} = ${i + 1}" = p.1 ++ (" = " ++ s!"${i + 1}") := by
      simp only [String.append_assoc]
      rfl
    simp only [htext]
    exact lexes_comparison hcol hsign (by decide) (by decide) _
  have hupdate : Lexes "UPDATE " [.word "UPDATE"] := by decide
  have hset : Lexes " SET " [.word "SET"] := by decide
  have hwhere : Lexes " WHERE " [.word "WHERE"] := by decide
  have hreturning : Lexes " RETURNING *" [.word "RETURNING", .sym '*'] := by decide
  have hcondition := (lexes_comparison hid hsign (by decide) (by decide) (params.length + 1)).append
    hreturning (by decide)
  have hrest := hset.between (by decide) (.join hclauses)
    (hwhere.append_gap hcondition (by decide)) (BeginsWithBreak.append (by decide) _)
  have hall := hupdate.between (by decide) htable hrest (BeginsWithBreak.append (by decide) _)
  have htext : (updateSql table idCol params id).1 = "UPDATE " ++ (table ++ (" SET " ++
      (commaJoin (params.zipIdx.map fun (p, i) => s!"{p.1} = ${i + 1}") ++ (" WHERE " ++
        (idCol ++ (" = " ++ s!"${params.length + 1}") ++ " RETURNING *"))))) := by
    exact append_nine "UPDATE " table " SET " _ " WHERE " idCol " = " "$" _ " RETURNING *"
  rw [htext]
  simp only [updateTokens, List.cons_append, List.nil_append, List.append_assoc] at hall ⊢
  exact hall

theorem map_succ_range (n : Nat) : (List.range n).map (fun i => i + 1) = List.range' 1 n := by
  rw [List.range'_eq_map_range]
  exact List.map_congr_left fun i _ => Nat.add_comm i 1

theorem placeholders_insert {table : String} (htable : Inert table)
    (hcols : ∀ col ∈ params.map Prod.fst, Inert col) :
    (insertTokens table params).filterMap Token.param? = List.range' 1 params.length := by
  simp only [insertTokens, List.filterMap_cons, List.filterMap_append, Token.param?, htable.params,
    sepBy_inert hcols, sepBy_params, map_succ_range, List.filterMap_nil, List.nil_append,
    List.append_nil]

theorem bind_insert {table : String} (htable : Inert table)
    (hcols : ∀ col ∈ params.map Prod.fst, Inert col) (value : Nat → Option DbValue)
    (hvalue : ∀ i < params.length, value (i + 1) = (params.map Prod.snd)[i]?) :
    (insertTokens table params).map (Token.bind value) = insertWritten table params := by
  have hsupplied : ∀ i < (params.map Prod.snd).length,
      value (i + 1) = (params.map Prod.snd)[i]? := by
    simpa using hvalue
  have hvalues := sepBy_bind (fun i => i + 1) (params.map Prod.snd) hsupplied
  rw [List.length_map] at hvalues
  simp only [insertTokens, insertWritten, List.map_cons, List.map_append, htable.bind,
    sepBy_inert_bind hcols, hvalues, Token.bind, List.map_nil]

theorem placeholders_update {table idCol : String} (htable : Inert table) (hid : Inert idCol)
    (hcols : ∀ col ∈ params.map Prod.fst, Inert col) :
    (updateTokens table idCol params).filterMap Token.param? =
      List.range' 1 (params.length + 1) := by
  have hclauses : (sepBy (.sym ',') (params.zipIdx.map fun (p, i) =>
      tokens p.1 ++ [.sym '=', .param (i + 1)])).filterMap Token.param? =
      List.range' 1 params.length := by
    have hpiece : ∀ x ∈ params.zipIdx,
        (tokens x.1.1 ++ [Token.sym '=', Token.param (x.2 + 1)]).filterMap Token.param? =
          [x.2 + 1] := by
      rintro ⟨p, i⟩ hp
      have hmem : p ∈ params := List.mem_of_getElem? (List.mem_zipIdx_iff_getElem?.mp hp)
      rw [List.filterMap_append, (hcols p.1 (List.mem_map_of_mem hmem)).params]
      rfl
    rw [sepBy_filterMap rfl, List.map_map]
    calc (params.zipIdx.map _).flatten
        = (params.zipIdx.map fun x => [x.2 + 1]).flatten :=
          congrArg _ (List.map_congr_left hpiece)
      _ = (params.zipIdx.map Prod.snd).map fun i => i + 1 := by
          rw [← List.flatMap_def, ← List.map_eq_flatMap, List.map_map]
          rfl
      _ = List.range' 1 params.length := by
          rw [List.zipIdx_map_snd, ← List.range_eq_range', map_succ_range]
  simp only [updateTokens, List.filterMap_cons, List.filterMap_append, Token.param?, htable.params,
    hid.params, hclauses, List.filterMap_nil, List.nil_append]
  rw [List.range'_concat]
  simp [Nat.add_comm]

theorem bind_update {table idCol : String} (htable : Inert table) (hid : Inert idCol)
    (hcols : ∀ col ∈ params.map Prod.fst, Inert col) (id : Int) (value : Nat → Option DbValue)
    (hvalue : ∀ i < params.length, value (i + 1) = (params.map Prod.snd)[i]?)
    (hlast : value (params.length + 1) = some (.int id)) :
    (updateTokens table idCol params).map (Token.bind value) =
      updateWritten table idCol params id := by
  have hclauses : (sepBy (.sym ',') (params.zipIdx.map fun (p, i) =>
      tokens p.1 ++ [.sym '=', .param (i + 1)])).map (Token.bind value) =
      sepBy (.inl (.sym ',')) (params.map fun p =>
        (tokens p.1).map .inl ++ [.inl (.sym '='), .inr (some p.2)]) := by
    have hpiece : ∀ x ∈ params.zipIdx,
        (tokens x.1.1 ++ [Token.sym '=', Token.param (x.2 + 1)]).map (Token.bind value) =
          (tokens x.1.1).map .inl ++ [.inl (.sym '='), .inr (some x.1.2)] := by
      rintro ⟨p, i⟩ hp
      have hget : params[i]? = some p := List.mem_zipIdx_iff_getElem?.mp hp
      have hcol := hcols p.1 (List.mem_map_of_mem (List.mem_of_getElem? hget))
      have hparam : value (i + 1) = some p.2 := by
        rw [hvalue i (List.getElem?_eq_some_iff.mp hget).1, List.getElem?_map, hget]
        rfl
      simp only [List.map_append, hcol.bind, List.map_cons, Token.bind, hparam, List.map_nil]
    rw [sepBy_map, List.map_map]
    congr 1
    calc params.zipIdx.map _
        = params.zipIdx.map fun x =>
            (tokens x.1.1).map .inl ++ [.inl (.sym '='), .inr (some x.1.2)] :=
          List.map_congr_left hpiece
      _ = (params.zipIdx.map Prod.fst).map fun p =>
            (tokens p.1).map .inl ++ [.inl (.sym '='), .inr (some p.2)] := by
          rw [List.map_map]
          rfl
      _ = _ := by rw [List.zipIdx_map_fst]
  simp only [updateTokens, updateWritten, List.map_cons, List.map_append, htable.bind, hid.bind,
    hclauses, hlast, Token.bind, List.map_nil]

end GenericRepository

-- ---------------------------------------------------------------------------
-- Placeholders line up with parameters
-- ---------------------------------------------------------------------------

/-- The placeholders are numbered from the offset on, one for each parameter, and
with the parameters for them the text is what was to be written. -/
def Aligned (sql : String × List DbValue) (offset : Nat) (written : List (Token ⊕ Option DbValue)) :
    Prop :=
  placeholders sql.1 = List.range' offset sql.2.length ∧
    (tokens sql.1).map (Token.bind (paramAt offset sql.2)) = written

instance : Decidable (Aligned sql offset written) := instDecidableAnd

theorem paramAt_add (offset : Nat) (params : List DbValue) (i : Nat) :
    paramAt offset params (offset + i) = params[i]? := by
  simp [paramAt]

theorem placeholders_aligned {T : Type} (entity : EntityType T) :
    (∀ (spec : Specification) (offset : Nat), (∀ field ∈ spec.fields, Inert field) →
      offset + (spec.toWhereClause offset).2.length ≤ 2 ^ 64 →
      Aligned (spec.toWhereClause offset) offset spec.written) ∧
    ∀ t : T, Inert entity.tableName → Inert entity.idColumn →
      (∀ col ∈ (entity.toParams t).map Prod.fst, Inert col) →
      Aligned (GenericRepository.insertSql entity.tableName (entity.toParams t)) 1
        (GenericRepository.insertWritten entity.tableName (entity.toParams t)) ∧
      Aligned
        (GenericRepository.updateSql entity.tableName entity.idColumn (entity.toParams t)
          (entity.id t)) 1
        (GenericRepository.updateWritten entity.tableName entity.idColumn (entity.toParams t)
          (entity.id t)) := by
  refine ⟨?_, fun t htable hid hcols => ⟨?_, ?_⟩⟩
  · intro spec offset hfields hfits
    have hlexes := spec.lexes_clause offset fun f hf => (hfields f hf).whole
    rw [spec.toWhereClause_snd] at hfits
    refine ⟨?_, ?_⟩
    · rw [placeholders, hlexes.1, spec.toWhereClause_snd]
      exact spec.placeholders_tokensAt offset hfields hfits
    · rw [hlexes.1, spec.toWhereClause_snd]
      exact spec.bind_tokensAt offset _ hfields hfits fun i _ => paramAt_add offset _ i
  · have hlexes :=
      GenericRepository.lexes_insert htable.whole fun col hcol => (hcols col hcol).whole
    refine ⟨?_, ?_⟩
    · rw [placeholders, hlexes.1, GenericRepository.placeholders_insert htable hcols]
      rw [GenericRepository.insertSql_snd, List.length_map]
    · rw [hlexes.1]
      apply GenericRepository.bind_insert htable hcols
      intro i _
      rw [Nat.add_comm, paramAt_add]
      rfl
  · have hlexes := GenericRepository.lexes_update htable.whole hid.whole
      (fun col hcol => (hcols col hcol).whole) (entity.id t)
    refine ⟨?_, ?_⟩
    · rw [placeholders, hlexes.1, GenericRepository.placeholders_update htable hid hcols]
      rw [GenericRepository.updateSql_snd, List.length_append, List.length_map]
      rfl
    · rw [hlexes.1]
      apply GenericRepository.bind_update htable hid hcols
      · intro i hi
        rw [Nat.add_comm, paramAt_add, GenericRepository.updateSql_snd,
          List.getElem?_append_left (by simpa using hi)]
      · rw [Nat.add_comm, paramAt_add, GenericRepository.updateSql_snd,
          List.getElem?_append_right (by simp)]
        simp

def users : EntityType (Int × String) where
  tableName := "users"
  toParams t := [("name", .text t.2)]
  id t := t.1
  fromRow row :=
    match row.values with
    | [.int id, .text name] => .ok (id, name)
    | _ => .error (queryFailed "column 'id' not found in row")

/-- A tree whose right side starts where the list on the left ends. -/
def listAndRange : Specification :=
  .andSpec (.inSpec "status" [.int 1, .int 2]) (.betweenSpec "age" (.int 20) (.int 50))

theorem placeholders_aligned_users :
    Aligned (listAndRange.toWhereClause 1) 1 listAndRange.written ∧
      Aligned (GenericRepository.insertSql "users" [("name", .text "a")]) 1
        (GenericRepository.insertWritten "users" [("name", .text "a")]) := by
  obtain ⟨hspec, hentity⟩ := placeholders_aligned users
  have hcols : ∀ col ∈ (users.toParams (7, "a")).map Prod.fst, Inert col := by decide
  exact ⟨hspec listAndRange 1 (by decide) (by decide),
    (hentity (7, "a") (by decide) (by decide) hcols).1⟩

/-- A name with a placeholder of its own, one with an open quote, and an offset
that is the last `usize`. -/
theorem placeholders_misaligned :
    placeholders ((Specification.eqSpec "$7" (.int 1)).toWhereClause 1).1 = [7, 1] ∧
      placeholders ((Specification.eqSpec "a\"" (.int 1)).toWhereClause 1).1 = [] ∧
      placeholders
        ((Specification.betweenSpec "age" (.int 1) (.int 2)).toWhereClause (2 ^ 64 - 1)).1 =
        [2 ^ 64 - 1, 0] := by
  decide +kernel

end Rinfra.Store
