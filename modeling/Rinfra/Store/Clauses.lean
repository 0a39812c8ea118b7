import Rinfra.Store.Operations

/-!
# What a statement asks of a store

Where PostgreSQL, MySQL and SQLite differ: placeholders and `RETURNING`, which are
tokens, and places without what belongs there, which are two tokens in a row. Both are
read off the tokens of a text, and what a statement of the repository has of them off
its operation.
-/

namespace Rinfra.Store

open Rinfra.Lib.Sql

-- ---------------------------------------------------------------------------
-- Features
-- ---------------------------------------------------------------------------

/-- Where the stores differ: `$n`, `?` (also with a number) and `RETURNING`. -/
inductive Feature
  | dollar
  | question
  | returning
  deriving DecidableEq, Repr

def feature? : Token → Option Feature
  | .param _ => some .dollar
  | .sym c => if c = '?' then some .question else none
  | .word text => if text = "RETURNING" then some .returning else none
  | .quoted _ _ => none

def features (f : Feature) (ts : List Token) : Nat := ts.countP (feature? · = some f)

def markers (sql : String) : Nat :=
  features .dollar (tokens sql) + features .question (tokens sql)

def Feature.dollars : Feature → Nat
  | .dollar => 1
  | .question | .returning => 0

def Feature.returnings : Feature → Nat
  | .returning => 1
  | .dollar | .question => 0

section
variable {f : Feature} {ts us : List Token}

@[simp] theorem features_nil : features f [] = 0 := rfl

@[simp] theorem features_append : features f (ts ++ us) = features f ts + features f us :=
  List.countP_append

theorem features_cons_none {t : Token} (h : feature? t = none) :
    features f (t :: ts) = features f ts := by
  rw [features, List.countP_cons_of_neg (by simp [h]), features]

@[simp] theorem features_word {text : String} (h : text ≠ "RETURNING") :
    features f (.word text :: ts) = features f ts := features_cons_none (if_neg h)

@[simp] theorem features_sym {c : Char} (h : c ≠ '?') :
    features f (.sym c :: ts) = features f ts := features_cons_none (if_neg h)

@[simp] theorem features_param (n : Nat) :
    features f (.param n :: ts) = f.dollars + features f ts := by
  cases f <;> simp [features, feature?, Feature.dollars, Nat.add_comm]

@[simp] theorem features_returning :
    features f (.word "RETURNING" :: ts) = f.returnings + features f ts := by
  cases f <;> simp [features, feature?, Feature.returnings, Nat.add_comm]

@[simp] theorem features_sepBy (tss : List (List Token)) :
    features f (sepBy (.sym ',') tss) = features f tss.flatten := sepBy_countP rfl tss

theorem features_params (number : Nat → Nat) (is : List Nat) :
    features f (is.map fun i => [Token.param (number i)]).flatten = is.length * f.dollars := by
  induction is with
  | nil => simp
  | cons i is ih => simp [ih, Nat.succ_mul, Nat.add_comm]

theorem features_named {α : Type} (name : α → String) (own : α → List Token) (k : Nat)
    (xs : List α) (h : ∀ x ∈ xs, features f (own x) = k) :
    features f (xs.map fun x => tokens (name x) ++ own x).flatten =
      features f ((xs.map name).flatMap tokens) + xs.length * k := by
  induction xs with
  | nil => simp
  | cons x xs ih =>
    have ih' := ih fun y hy => h y (List.mem_cons_of_mem x hy)
    simp only [List.map_cons, List.flatten_cons, List.flatMap_cons, features_append, ih',
      h x List.mem_cons_self, List.length_cons, Nat.succ_mul]
    omega

theorem repr_ne (n : Nat) {text : String} (h : text.toList.any (!·.isDigit) = true) :
    n.repr ≠ text := by
  rintro rfl
  obtain ⟨c, hc, hdigit⟩ := List.any_eq_true.mp h
  rw [Nat.toList_repr] at hc
  rw [Nat.isDigit_of_mem_toDigits (by decide) (by decide) hc] at hdigit
  cases hdigit

theorem repr_ne_returning (n : Nat) : n.repr ≠ "RETURNING" := repr_ne n (by decide)

@[simp] theorem features_int (n : Int) : features f (GenericRepository.intTokens n) = 0 := by
  cases n with
  | ofNat n => simp [GenericRepository.intTokens, repr_ne_returning]
  | negSucc n => simp [GenericRepository.intTokens, repr_ne_returning]

theorem Specification.features_tokensAt (spec : Specification) (offset : Nat) :
    features f (spec.tokensAt offset) =
      features f (spec.fields.flatMap tokens) + spec.params.length * f.dollars := by
  induction spec generalizing offset with
  | andSpec left right ihl ihr | orSpec left right ihl ihr =>
    simp only [tokensAt, fields, params, List.flatMap_append, List.length_append, Nat.add_mul]
    simp [ihl, ihr]
    omega
  | eqSpec field value | likeSpec field pattern => simp [tokensAt, fields, params]
  | inSpec field values => simp [tokensAt, fields, params, features_params]
  | betweenSpec field low high =>
    simp [tokensAt, fields, params]
    omega

theorem features_page (opts : QueryOptions) :
    features f (GenericRepository.pageTokensOf opts) =
      features f ((opts.orderBy.map OrderBy.field).flatMap tokens) := by
  have hkeys := features_named (f := f) OrderBy.field
    (fun o => [.word (directionWord (GenericRepository.SortDirection.ascending o.direction))]) 0
    opts.orderBy fun o _ => by cases o.direction <;> rfl
  rw [GenericRepository.pageTokensOf]
  by_cases hempty : opts.orderBy = []
  · simp [hempty]
  · rw [if_neg hempty]
    simp [hkeys]

theorem features_insert (table : String) (params : List (String × DbValue)) :
    features f (GenericRepository.insertTokens table params) =
      features f ((table :: params.map Prod.fst).flatMap tokens) + params.length * f.dollars +
        f.returnings := by
  simp [GenericRepository.insertTokens, features_params, List.flatMap_def]
  omega

theorem features_update (table idCol : String) (params : List (String × DbValue)) :
    features f (GenericRepository.updateTokens table idCol params) =
      features f ((table :: idCol :: params.map Prod.fst).flatMap tokens) +
        (params.length + 1) * f.dollars + f.returnings := by
  have hclauses := features_named (f := f) (fun x : (String × DbValue) × Nat => x.1.1)
    (fun x => [.sym '=', .param (x.2 + 1)]) f.dollars params.zipIdx fun x _ => by simp
  have hnames : (params.zipIdx.map fun x => x.1.1) = params.map Prod.fst := by
    rw [← List.zipIdx_map_fst 0 params, List.map_map, List.zipIdx_map_fst]
    rfl
  simp only [hnames, List.length_zipIdx] at hclauses
  simp [GenericRepository.updateTokens, hclauses, Nat.succ_mul]
  omega

end

section
variable {T : Type} {entity : EntityType T} {f : Feature}

def Operation.givesBack : Operation T → Bool
  | .create _ | .update _ => true
  | .findById _ | .findAll _ | .count | .delete _ | .exists_ _ | .findBy .. | .countBy _
  | .deleteBy _ => false

theorem features_statement (op : Operation T) :
    features f (op.statement entity) =
      features f ((op.names entity).flatMap tokens) +
        (op.params entity).length * f.dollars +
        (if op.givesBack then f.returnings else 0) := by
  cases op with
  | findById id | delete id | exists_ id =>
    simp [Operation.statement, Operation.params, Operation.names, Operation.givesBack]
    omega
  | findAll opts | count =>
    simp [Operation.statement, Operation.params, Operation.names, Operation.givesBack,
      features_page]
  | create t =>
    simp [Operation.statement, Operation.params, Operation.names, Operation.givesBack,
      features_insert, GenericRepository.insertSql_snd]
  | update t =>
    simp [Operation.statement, Operation.params, Operation.names, Operation.givesBack,
      features_update, GenericRepository.updateSql_snd]
  | findBy spec opts | countBy spec | deleteBy spec =>
    simp [Operation.statement, Operation.params, Operation.names, Operation.givesBack,
      features_page, spec.features_tokensAt]
    omega

end

-- ---------------------------------------------------------------------------
-- Holes
-- ---------------------------------------------------------------------------

/-- What can be missing: the columns of an `INSERT`, the values of an `IN`, what an
`UPDATE` sets, and a number of rows where one below zero stands. -/
inductive Hole
  | columns
  | values
  | settings
  | rows
  deriving DecidableEq, Repr

def hole? (insert : Bool) (t u : Token) : Option Hole :=
  if t = .sym '(' ∧ u = .sym ')' then some (if insert then .columns else .values)
  else if t = .word "SET" ∧ u = .word "WHERE" then some .settings
  else if (t = .word "LIMIT" ∨ t = .word "OFFSET") ∧ u = .sym '-' then some .rows
  else none

def holesFrom (insert : Bool) : List Token → List Hole
  | t :: u :: ts => (hole? insert t u).toList ++ holesFrom insert (u :: ts)
  | _ => []

def holes (ts : List Token) : List Hole := holesFrom (ts.head? = some (.word "INSERT")) ts

/-- The tokens between which there are holes. -/
def Clear (t : Token) : Prop :=
  t ∉ [.sym '(', .sym ')', .word "SET", .word "WHERE", .word "LIMIT", .word "OFFSET"]

instance : DecidablePred Clear := fun _ => instDecidableNot

/-- Something is there, and no hole in it or beside it. -/
structure Solid (ts : List Token) : Prop where
  nonempty : ts ≠ []
  clear : ∀ t ∈ ts, Clear t

instance : DecidablePred Solid := fun _ => decidable_of_iff _ ⟨fun h => ⟨h.1, h.2⟩,
  fun h => And.intro h.nonempty h.clear⟩

section
variable {i : Bool} {t u : Token} {ts us xs rest : List Token} {hole : Hole}

@[simp] theorem holesFrom_nil : holesFrom i [] = [] := rfl

theorem holesFrom_cons (h : ∀ u, hole? i t u = none) : holesFrom i (t :: ts) = holesFrom i ts := by
  cases ts with
  | nil => rfl
  | cons u us => rw [holesFrom, h u, Option.toList_none, List.nil_append]

@[simp] theorem holesFrom_word {text : String} (hset : text ≠ "SET") (hlimit : text ≠ "LIMIT")
    (hoffset : text ≠ "OFFSET") : holesFrom i (.word text :: ts) = holesFrom i ts :=
  holesFrom_cons fun u => by simp [hole?, hset, hlimit, hoffset]

@[simp] theorem holesFrom_sym {c : Char} (h : c ≠ '(') :
    holesFrom i (.sym c :: ts) = holesFrom i ts :=
  holesFrom_cons fun u => by simp [hole?, h]

@[simp] theorem holesFrom_param (n : Nat) : holesFrom i (.param n :: ts) = holesFrom i ts :=
  holesFrom_cons fun u => by simp [hole?]

@[simp] theorem holesFrom_open (h : u ≠ .sym ')') :
    holesFrom i (.sym '(' :: u :: ts) = holesFrom i (u :: ts) := by
  simp [holesFrom, hole?, h]

theorem holesFrom_clear (h : ∀ t ∈ xs, Clear t) : holesFrom i (xs ++ ts) = holesFrom i ts := by
  induction xs with
  | nil => rfl
  | cons x xs ih =>
    obtain ⟨hx, hxs⟩ := List.forall_mem_cons.mp h
    simp only [Clear, List.mem_cons, List.not_mem_nil, or_false, not_or] at hx
    rw [List.cons_append, holesFrom_cons fun u => by simp [hole?, hx], ih hxs]

theorem Solid.append (h : Solid ts) (hus : ∀ u ∈ us, Clear u) : Solid (ts ++ us) :=
  ⟨by simp [h.nonempty], fun t ht => (List.mem_append.mp ht).elim (h.clear t) (hus t)⟩

theorem Solid.sepBy {tss : List (List Token)} (h : ∀ ts ∈ tss, Solid ts) (hne : tss ≠ []) :
    Solid (sepBy (.sym ',') tss) := by
  induction tss using sepBy.induct with
  | case1 => exact absurd rfl hne
  | case2 ts => exact h ts List.mem_cons_self
  | case3 ts us tss ih =>
    obtain ⟨hts, hrest⟩ := List.forall_mem_cons.mp h
    have hsep := ih hrest (List.cons_ne_nil _ _)
    exact hts.append (List.forall_mem_cons.mpr ⟨by decide, hsep.clear⟩)

theorem holesFrom_list {tss : List (List Token)} (ht : t = .sym '(' ∨ t = .word "SET")
    (h : ∀ ts ∈ tss, Solid ts) :
    holesFrom i (t :: (sepBy (.sym ',') tss ++ u :: rest)) =
      (if tss = [] then (hole? i t u).toList else []) ++ holesFrom i (u :: rest) := by
  by_cases hne : tss = []
  · rw [if_pos hne, hne]
    rfl
  · obtain ⟨hsome, hclear⟩ := Solid.sepBy h hne
    obtain ⟨x, xs, hxs⟩ := List.exists_cons_of_ne_nil hsome
    have hx := hclear x (hxs ▸ List.mem_cons_self)
    simp only [Clear, List.mem_cons, List.not_mem_nil, or_false, not_or] at hx
    have hnone : hole? i t x = none := by
      rcases ht with rfl | rfl <;> simp [hole?, hx]
    have hskip : holesFrom i (t :: (x :: xs ++ u :: rest)) =
        holesFrom i (x :: xs ++ u :: rest) := by
      rw [List.cons_append, holesFrom, hnone]
      rfl
    rw [if_neg hne, List.nil_append, hxs, hskip, ← hxs]
    exact holesFrom_clear hclear

theorem solid_param (number : Nat → Nat) (is : List Nat) :
    ∀ ts ∈ is.map fun i => [Token.param (number i)], Solid ts := by
  intro ts hts
  obtain ⟨i, -, rfl⟩ := List.mem_map.mp hts
  exact ⟨List.cons_ne_nil _ _, by simp [Clear]⟩

theorem Specification.head_tokensAt (spec : Specification) (offset : Nat)
    (h : ∀ field ∈ spec.fields, Solid (tokens field)) :
    ∃ t ts, spec.tokensAt offset = t :: ts ∧ t ≠ .sym ')' := by
  have hfield : ∀ field, Solid (tokens field) → ∀ us : List Token,
      ∃ t ts, tokens field ++ us = t :: ts ∧ t ≠ .sym ')' := by
    intro field hsolid us
    obtain ⟨t, ts, hts⟩ := List.exists_cons_of_ne_nil hsolid.nonempty
    have ht := hsolid.clear t (hts ▸ List.mem_cons_self)
    refine ⟨t, ts ++ us, by rw [hts]; rfl, fun heq => ht ?_⟩
    simp [heq]
  cases spec with
  | andSpec left right | orSpec left right => exact ⟨_, _, rfl, by decide⟩
  | eqSpec field value | likeSpec field pattern | inSpec field values
  | betweenSpec field low high => exact hfield field (h field (List.mem_singleton_self _)) _

theorem Specification.holesFrom_open {spec : Specification} {offset : Nat}
    (h : ∀ field ∈ spec.fields, Solid (tokens field)) :
    holesFrom i (.sym '(' :: (spec.tokensAt offset ++ rest)) =
      holesFrom i (spec.tokensAt offset ++ rest) := by
  obtain ⟨t, ts, hts, ht⟩ := spec.head_tokensAt offset h
  rw [hts, List.cons_append, Store.holesFrom_open ht]

/-- A condition has no holes but its lists without values. -/
theorem Specification.mem_holesFrom (spec : Specification) (offset : Nat)
    (h : ∀ field ∈ spec.fields, Solid (tokens field)) :
    hole ∈ holesFrom false (spec.tokensAt offset ++ rest) ↔
      hole = .values ∧ ¬ spec.ListsNonempty ∨ hole ∈ holesFrom false rest := by
  induction spec generalizing offset rest with
  | andSpec left right ihl ihr | orSpec left right ihl ihr =>
    have hl : ∀ field ∈ left.fields, Solid (tokens field) := fun field hf =>
      h field (List.mem_append_left _ hf)
    have hr : ∀ field ∈ right.fields, Solid (tokens field) := fun field hf =>
      h field (List.mem_append_right _ hf)
    simp only [tokensAt, List.cons_append, List.append_assoc, holesFrom_open hl, ihl _ hl]
    simp only [ne_eq, String.reduceEq, Char.reduceEq, not_false_eq_true, holesFrom_sym,
      holesFrom_word, holesFrom_open hr, ihr _ hr, List.nil_append, ListsNonempty, not_and_or]
    tauto
  | eqSpec field value | likeSpec field pattern | betweenSpec field low high =>
    have hfield := h field (List.mem_singleton_self _)
    simp [tokensAt, holesFrom_clear hfield.clear, ListsNonempty]
  | inSpec field values =>
    have hfield := h field (List.mem_singleton_self _)
    have hvalues := solid_param (usizeAdd offset) (List.range values.length)
    simp only [tokensAt, List.append_assoc, List.cons_append, holesFrom_clear hfield.clear,
      List.nil_append]
    rw [holesFrom_word (by decide) (by decide) (by decide), holesFrom_list (.inl rfl) hvalues]
    by_cases hempty : values = []
    · simp [hempty, ListsNonempty, hole?]
    · simp [hempty, ListsNonempty]

theorem mem_holesFrom_number {w : String} (hw : w = "LIMIT" ∨ w = "OFFSET") (n : Int) :
    hole ∈ holesFrom i (.word w :: (GenericRepository.intTokens n ++ rest)) ↔
      hole = .rows ∧ n < 0 ∨ hole ∈ holesFrom i rest := by
  have hdigits (n : Nat) : holesFrom i (.word n.repr :: rest) = holesFrom i rest :=
    holesFrom_word (repr_ne n (by decide)) (repr_ne n (by decide)) (repr_ne n (by decide))
  cases n with
  | ofNat n =>
    have hwhere : n.repr ≠ "WHERE" := repr_ne n (by decide)
    have hnone : hole? i (.word w) (.word n.repr) = none := by simp [hole?, hwhere]
    simp [GenericRepository.intTokens, holesFrom, hnone, hdigits]
  | negSucc n =>
    have hsome : hole? i (.word w) (.sym '-') = some .rows := by simp [hole?, hw]
    have hrest : holesFrom i (.sym '-' :: .word (n + 1).repr :: rest) = holesFrom i rest :=
      (holesFrom_sym (by decide)).trans (hdigits _)
    simp only [GenericRepository.intTokens, List.cons_append, List.nil_append]
    rw [holesFrom, hsome, hrest]
    simp [Int.negSucc_lt_zero]

end

section
variable {T : Type} {entity : EntityType T} {hole : Hole} {i : Bool}

theorem mem_holesFrom_page {opts : QueryOptions}
    (h : ∀ o ∈ opts.orderBy, Solid (tokens o.field)) :
    hole ∈ holesFrom i (GenericRepository.pageTokensOf opts) ↔
      hole = .rows ∧ (opts.limit < 0 ∨ opts.offset < 0) := by
  have hkeys : ∀ ts ∈ opts.orderBy.map fun o => tokens o.field ++
      [.word (directionWord (GenericRepository.SortDirection.ascending o.direction))],
      Solid ts := by
    intro ts hts
    obtain ⟨o, ho, rfl⟩ := List.mem_map.mp hts
    refine (h o ho).append fun u hu => ?_
    rw [List.mem_singleton.mp hu]
    cases o.direction <;> decide
  have hnumbers : hole ∈ holesFrom i (.word "LIMIT" :: (GenericRepository.intTokens opts.limit ++
      .word "OFFSET" :: GenericRepository.intTokens opts.offset)) ↔
      hole = .rows ∧ (opts.limit < 0 ∨ opts.offset < 0) := by
    have hoffset : hole ∈ holesFrom i
        (.word "OFFSET" :: (GenericRepository.intTokens opts.offset ++ [])) ↔
        hole = .rows ∧ opts.offset < 0 ∨ hole ∈ holesFrom i [] :=
      mem_holesFrom_number (.inr rfl) opts.offset
    rw [List.append_nil] at hoffset
    rw [mem_holesFrom_number (.inl rfl), hoffset]
    simp only [holesFrom_nil, List.not_mem_nil, or_false]
    tauto
  rw [GenericRepository.pageTokensOf]
  by_cases hempty : opts.orderBy = []
  · simpa [hempty] using hnumbers
  · rw [if_neg hempty, ← hnumbers]
    have hclear := (Solid.sepBy hkeys (by simpa using hempty)).clear
    simp only [List.cons_append, ne_eq, String.reduceEq, not_false_eq_true, holesFrom_word,
      holesFrom_clear hclear]

theorem mem_holes_insert {table : String} {params : List (String × DbValue)}
    (htable : Solid (tokens table)) (hnames : ∀ col ∈ params.map Prod.fst, Solid (tokens col)) :
    hole ∈ holes (GenericRepository.insertTokens table params) ↔
      hole = .columns ∧ params = [] := by
  have hcolumns : ∀ ts ∈ (params.map Prod.fst).map tokens, Solid ts := by
    intro ts hts
    obtain ⟨name, hname, rfl⟩ := List.mem_map.mp hts
    exact hnames name hname
  have hplaces := solid_param (· + 1) (List.range params.length)
  rw [GenericRepository.insertTokens, holes, holesFrom_word (by decide) (by decide) (by decide),
    holesFrom_word (by decide) (by decide) (by decide), holesFrom_clear htable.clear,
    holesFrom_list (.inl rfl) hcolumns, holesFrom_sym (by decide),
    holesFrom_word (by decide) (by decide) (by decide), holesFrom_list (.inl rfl) hplaces]
  by_cases hempty : params = [] <;> simp [hempty, hole?]

theorem mem_holes_update {table idCol : String} {params : List (String × DbValue)}
    (htable : Solid (tokens table)) (hid : Solid (tokens idCol))
    (hnames : ∀ col ∈ params.map Prod.fst, Solid (tokens col)) :
    hole ∈ holes (GenericRepository.updateTokens table idCol params) ↔
      hole = .settings ∧ params = [] := by
  rw [GenericRepository.updateTokens, holes, holesFrom_word (by decide) (by decide) (by decide),
    holesFrom_clear htable.clear, holesFrom_list (.inr rfl),
    holesFrom_word (by decide) (by decide) (by decide), holesFrom_clear hid.clear]
  · by_cases hempty : params = [] <;> simp [hempty, hole?]
  · intro ts hts
    obtain ⟨⟨p, n⟩, hp, rfl⟩ := List.mem_map.mp hts
    have hmem : p ∈ params := List.mem_of_getElem? (List.mem_zipIdx_iff_getElem?.mp hp)
    exact (hnames p.1 (List.mem_map_of_mem hmem)).append (by simp [Clear])

/-- What the operation leaves out of its statement. -/
def Operation.Lacks (entity : EntityType T) : Operation T → Hole → Prop
  | .create t, .columns | .update t, .settings => entity.toParams t = []
  | .findBy spec _, .values | .countBy spec, .values | .deleteBy spec, .values =>
    ¬ spec.ListsNonempty
  | .findAll opts, .rows | .findBy _ opts, .rows => opts.limit < 0 ∨ opts.offset < 0
  | _, _ => False

/-- The statement has the holes that its operation leaves. -/
theorem mem_holes_statement (op : Operation T)
    (hnames : ∀ name ∈ op.names entity, Solid (tokens name)) :
    hole ∈ holes (op.statement entity) ↔ op.Lacks entity hole := by
  have htable := (hnames _ op.tableName_mem).clear
  cases op with
  | findById id | delete id | exists_ id =>
    have hid := (hnames entity.idColumn (by simp [Operation.names])).clear
    cases hole <;> simp [holes, Operation.statement, Operation.Lacks, holesFrom_clear htable,
      holesFrom_clear hid, holesFrom, hole?]
  | findAll opts =>
    have horder : ∀ o ∈ opts.orderBy, Solid (tokens o.field) := fun o ho =>
      hnames _ (List.mem_cons_of_mem _ (List.mem_map_of_mem ho))
    cases hole <;> simp [holes, Operation.statement, Operation.Lacks, holesFrom_clear htable,
      mem_holesFrom_page horder]
  | count =>
    have hempty : holesFrom false (tokens entity.tableName ++ []) = holesFrom false [] :=
      holesFrom_clear htable
    rw [List.append_nil, holesFrom_nil] at hempty
    cases hole <;> simp [holes, Operation.statement, Operation.Lacks, hempty]
  | create t =>
    have hcolumns : ∀ col ∈ (entity.toParams t).map Prod.fst, Solid (tokens col) := fun col hcol =>
      hnames col (List.mem_cons_of_mem _ hcol)
    refine (mem_holes_insert (hnames _ (Operation.create t).tableName_mem) hcolumns).trans ?_
    cases hole <;> simp [Operation.Lacks]
  | update t =>
    have hid : Solid (tokens entity.idColumn) := hnames _ (by simp [Operation.names])
    have hcolumns : ∀ col ∈ (entity.toParams t).map Prod.fst, Solid (tokens col) := fun col hcol =>
      hnames col (List.mem_cons_of_mem _ (List.mem_cons_of_mem _ hcol))
    refine (mem_holes_update (hnames _ (Operation.update t).tableName_mem) hid hcolumns).trans ?_
    cases hole <;> simp [Operation.Lacks]
  | findBy spec opts =>
    have hfields : ∀ field ∈ spec.fields, Solid (tokens field) := fun field hf =>
      hnames _ (List.mem_cons_of_mem _ (List.mem_append_left _ hf))
    have horder : ∀ o ∈ opts.orderBy, Solid (tokens o.field) := fun o ho =>
      hnames _ (List.mem_cons_of_mem _ (List.mem_append_right _ (List.mem_map_of_mem ho)))
    cases hole <;> simp [holes, Operation.statement, Operation.Lacks, holesFrom_clear htable,
      spec.mem_holesFrom 1 hfields, mem_holesFrom_page horder]
  | countBy spec | deleteBy spec =>
    have hfields : ∀ field ∈ spec.fields, Solid (tokens field) := fun field hf =>
      hnames _ (List.mem_cons_of_mem _ hf)
    have hspec : hole ∈ holesFrom false (spec.tokensAt 1 ++ []) ↔
        hole = .values ∧ ¬ spec.ListsNonempty ∨ hole ∈ holesFrom false [] :=
      spec.mem_holesFrom 1 hfields
    rw [List.append_nil, holesFrom_nil] at hspec
    cases hole <;> simpa [holes, Operation.statement, Operation.Lacks, holesFrom_clear htable]
      using hspec

end

end Rinfra.Store
