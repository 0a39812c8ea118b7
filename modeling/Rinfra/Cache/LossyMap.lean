import Rinfra.Cache.Coherence

/-!
# One call at a time: a map that forgets

Without other calls in between, what a call does is what its steps do one after
the other. The levels may lose entries between the calls, but what they have left
is what the last write of the key has stored. So the two levels together are a
map that may forget a key at any time, and that otherwise does as it is told.
-/

namespace Rinfra.Cache

open Rinfra.Lib

abbrev Levels := Level → String → Option Value

namespace Levels

def put (s : Levels) (l : Level) (key : String) (value : Option Value) : Levels :=
  Function.update s l (Function.update (s l) key value)

def exec (s : Levels) : Steps α → α × Levels
  | .done a => (a, s)
  | .read l key next => s.exec (next (s l key))
  | .write l key value next => (s.put l key value).exec next

def answer (s : Levels) (call : Call) : Reply := (s.exec call.start).1

def after (s : Levels) (call : Call) : Levels := (s.exec call.start).2

def lookup (s : Levels) (key : String) : Option Value := (s .l1 key).or (s .l2 key)

end Levels

-- ---------------------------------------------------------------------------
-- Maps that forget
-- ---------------------------------------------------------------------------

abbrev LossyMap := String → Option Value

/-- What such a map does: it answers a call, or is silent. -/
inductive LossyMap.Moves (m : LossyMap) : Option (Call × Reply) → LossyMap → Prop
  | get : Moves m (some (.get key, .ok (.value (m key)))) m
  | exists_ : Moves m (some (.exists_ key, .ok (.found (m key).isSome))) m
  | write (h : Call.IsWrite call) :
      Moves m (some (call, .ok .done)) (Function.update m call.key call.stored)
  | forget : Moves m none (Function.update m key none)
  | stay : Moves m none m

def lastWrite (key : String) (calls : List Call) : Option Call :=
  calls.reverse.find? fun call => call.IsWrite && call.key = key

-- ---------------------------------------------------------------------------
-- Runs
-- ---------------------------------------------------------------------------

structure Serial where
  levels : Levels
  calls : List Call

namespace Serial

inductive Event
  | call (call : Call)
  /-- The level evicts an entry, or it expires. -/
  | lose (l : Level) (key : String)

def new : Serial := ⟨fun _ _ => none, []⟩

def step (s : Serial) : Event → Option Serial
  | .call call => some ⟨s.levels.after call, s.calls ++ [call]⟩
  | .lose l key => some { s with levels := s.levels.put l key none }

def label (s : Serial) : Event → Option (Call × Reply)
  | .call call => some (call, s.levels.answer call)
  | .lose _ _ => none

structure Refines (s : Serial) : Prop where
  moves : ∀ e s', s.step e = some s' → LossyMap.Moves s.levels.lookup (s.label e) s'.levels.lookup
  /-- A get returns nothing or what the last write of the key has stored. -/
  get : ∀ key, ∃ v, s.levels.answer (.get key) = .ok (.value v) ∧
    (v = none ∨ ∃ call, lastWrite key s.calls = some call ∧ v = call.stored)
  /-- And nothing once the key was deleted, unless it was set since. -/
  deleted : ∀ key, lastWrite key s.calls = some (.delete key) →
    s.levels.answer (.get key) = .ok (.value none)
  exists_ : ∀ key, ∃ b, s.levels.answer (.exists_ key) = .ok (.found b) ∧
    (b = true ↔ ∃ v, s.levels.answer (.get key) = .ok (.value (some v)))
  /-- Nothing changes for another key. -/
  frame : ∀ call key, key ≠ call.key →
    (s.levels.after call).answer (.get key) = s.levels.answer (.get key)

/-- Both levels have of a key what its last write has stored, or nothing. -/
def Inv (s : Serial) : Prop :=
  ∀ l key v, s.levels l key = some v → ∃ call, lastWrite key s.calls = some call ∧
    call.stored = some v

end Serial

-- ---------------------------------------------------------------------------
-- What one call does
-- ---------------------------------------------------------------------------

section
variable {s : Levels} {call : Call} {key : String}

theorem put_apply (s : Levels) (l l' : Level) (key key' : String) (value : Option Value) :
    s.put l key value l' key' = if l' = l ∧ key' = key then value else s l' key' := by
  simp only [Levels.put, Function.update_apply]
  split
  · rename_i h
    subst h
    simp [Function.update_apply]
  · rename_i h
    simp [h]

theorem start_get (key : String) : (Call.get key).start = .read .l1 key fun v => match v with
    | some val => .done (.ok (.value (some val)))
    | none => .read .l2 key fun v => match v with
      | some val => .write .l1 key (some val) (.done (.ok (.value (some val))))
      | none => .done (.ok (.value none)) := by
  refine congrArg (Steps.read .l1 key) (funext fun v => ?_)
  cases v with
  | some val => rfl
  | none =>
    refine congrArg (Steps.read .l2 key) (funext fun v => ?_)
    cases v <;> rfl

theorem start_exists (key : String) : (Call.exists_ key).start = .read .l1 key fun v => match v with
    | some _ => .done (.ok (.found true))
    | none => .read .l2 key fun v => .done (.ok (.found v.isSome)) := by
  refine congrArg (Steps.read .l1 key) (funext fun v => ?_)
  cases v <;> rfl

theorem exec_get (s : Levels) (key : String) : ∃ s',
    s.exec (Call.get key).start = (.ok (.value (s.lookup key)), s') ∧
      (s' = s ∨ ∃ v, s .l2 key = some v ∧ s .l1 key = none ∧ s' = s.put .l1 key (some v)) := by
  rw [start_get, Levels.exec, Levels.lookup]
  cases h1 : s .l1 key with
  | some v => exact ⟨s, rfl, .inl rfl⟩
  | none =>
    simp only [Levels.exec]
    cases h2 : s .l2 key with
    | some v => exact ⟨_, rfl, .inr ⟨v, rfl, trivial, rfl⟩⟩
    | none => exact ⟨s, rfl, .inl rfl⟩

theorem exec_exists (s : Levels) (key : String) :
    s.exec (Call.exists_ key).start = (.ok (.found (s.lookup key).isSome), s) := by
  rw [start_exists, Levels.exec, Levels.lookup]
  cases h1 : s .l1 key <;> rfl

theorem answer_get (s : Levels) (key : String) :
    s.answer (.get key) = .ok (.value (s.lookup key)) := by
  obtain ⟨s', hexec, -⟩ := exec_get s key
  rw [Levels.answer, hexec]

theorem answer_exists (s : Levels) (key : String) :
    s.answer (.exists_ key) = .ok (.found (s.lookup key).isSome) := by
  rw [Levels.answer, exec_exists]

theorem after_get (s : Levels) (key : String) : s.after (.get key) = s ∨
    ∃ v, s .l2 key = some v ∧ s .l1 key = none ∧ s.after (.get key) = s.put .l1 key (some v) := by
  obtain ⟨s', hexec, hs'⟩ := exec_get s key
  rwa [Levels.after, hexec]

theorem after_exists (s : Levels) (key : String) : s.after (.exists_ key) = s := by
  rw [Levels.after, exec_exists]

theorem answer_write (h : call.IsWrite) : s.answer call = .ok .done := by
  cases call with
  | set | setWithTtl | delete => rfl
  | get | exists_ => cases h

theorem after_write (h : call.IsWrite) :
    s.after call = (s.put .l1 call.key call.stored).put .l2 call.key call.stored := by
  cases call with
  | set | setWithTtl | delete => rfl
  | get | exists_ => cases h

-- ---------------------------------------------------------------------------
-- What is retrievable after it
-- ---------------------------------------------------------------------------

theorem lookup_put_of_ne (h : key' ≠ key) (l : Level) (value : Option Value) :
    (s.put l key value).lookup key' = s.lookup key' := by
  simp [Levels.lookup, put_apply, h]

theorem lookup_after_get (s : Levels) (key : String) :
    (s.after (.get key)).lookup = s.lookup := by
  rcases after_get s key with h | ⟨v, h2, h1, h⟩
  · rw [h]
  · funext key'
    rw [h]
    by_cases hkey : key' = key
    · subst hkey
      simp [Levels.lookup, put_apply, h1, h2]
    · exact lookup_put_of_ne hkey _ _

theorem lookup_after_write (h : call.IsWrite) :
    (s.after call).lookup = Function.update s.lookup call.key call.stored := by
  funext key'
  rw [after_write h, Function.update_apply]
  split
  · rename_i hkey
    subst hkey
    simp [Levels.lookup, put_apply]
  · rename_i hkey
    rw [lookup_put_of_ne hkey, lookup_put_of_ne hkey]

theorem lookup_after_of_ne (h : key ≠ call.key) : (s.after call).lookup key = s.lookup key := by
  cases call with
  | get key' => rw [lookup_after_get]
  | exists_ key' => rw [after_exists]
  | set | setWithTtl | delete =>
    rw [lookup_after_write (by trivial), Function.update_of_ne h]

/-- With levels that agree, an entry that one of them loses is still there, or the
key is forgotten. -/
theorem lookup_lose (h : ∀ v v', s .l1 key = some v → s .l2 key = some v' → v = v') (l : Level) :
    (s.put l key none).lookup = s.lookup ∨
      (s.put l key none).lookup = Function.update s.lookup key none := by
  have hother : ∀ key', key' ≠ key → (s.put l key none).lookup key' = s.lookup key' :=
    fun key' hkey => lookup_put_of_ne hkey _ _
  have hforget : (s.put l key none).lookup key = none →
      (s.put l key none).lookup = Function.update s.lookup key none := by
    intro hnone
    funext key'
    rw [Function.update_apply]
    split
    · rename_i hkey
      rw [hkey, hnone]
    · rename_i hkey
      exact hother key' hkey
  have hkeep : (s.put l key none).lookup key = s.lookup key →
      (s.put l key none).lookup = s.lookup := by
    intro hsame
    funext key'
    by_cases hkey : key' = key
    · rw [hkey, hsame]
    · exact hother key' hkey
  cases l with
  | l1 => cases h2 : s .l2 key with
    | none => exact .inr (hforget (by simp [Levels.lookup, put_apply, h2]))
    | some v' =>
      refine .inl (hkeep ?_)
      cases h1 : s .l1 key with
      | none => simp [Levels.lookup, put_apply, h1, h2]
      | some v => simp [Levels.lookup, put_apply, h1, h2, h v v' h1 h2]
  | l2 => cases h1 : s .l1 key with
    | none => exact .inr (hforget (by simp [Levels.lookup, put_apply, h1]))
    | some v => exact .inl (hkeep (by simp [Levels.lookup, put_apply, h1]))

end

-- ---------------------------------------------------------------------------
-- Runs of calls
-- ---------------------------------------------------------------------------

namespace Serial

theorem lastWrite_concat (key : String) (calls : List Call) (call : Call) :
    lastWrite key (calls ++ [call]) =
      if call.IsWrite ∧ call.key = key then some call else lastWrite key calls := by
  rw [lastWrite, List.reverse_append, List.reverse_singleton, List.singleton_append]
  split
  · rename_i h
    exact List.find?_cons_of_pos (by simp [h])
  · rename_i h
    exact List.find?_cons_of_neg (by simpa using h)

section
variable {s s' : Serial}

theorem inv_new : Inv new := by
  rintro l key v ⟨⟩

theorem Inv.read {after : Levels} (hi : Inv s) (h : ¬ call.IsWrite)
    (hafter : ∀ l key v, after l key = some v → ∃ l', s.levels l' key = some v) :
    Inv ⟨after, s.calls ++ [call]⟩ := by
  intro l key v hv
  obtain ⟨l', hv'⟩ := hafter l key v hv
  rw [lastWrite_concat, if_neg fun hw => h hw.1]
  exact hi l' key v hv'

theorem Inv.write (hi : Inv s) (h : call.IsWrite) :
    Inv ⟨s.levels.after call, s.calls ++ [call]⟩ := by
  intro l key v hv
  simp only [after_write h, put_apply] at hv
  rw [lastWrite_concat]
  by_cases hkey : key = call.key
  · subst hkey
    rw [if_pos ⟨h, rfl⟩]
    refine ⟨call, rfl, ?_⟩
    cases l <;> simpa using hv
  · rw [if_neg fun hw => hkey hw.2.symm]
    exact hi l key v (by simpa [hkey] using hv)

theorem Inv.step (hi : Inv s) (h : s.step e = some s') : Inv s' := by
  cases e with
  | call call =>
    cases h
    cases call with
    | set | setWithTtl | delete => exact hi.write trivial
    | exists_ key =>
      rw [after_exists]
      exact hi.read id fun l key v hv => ⟨l, hv⟩
    | get key =>
      refine hi.read id fun l key' v hv => ?_
      rcases after_get s.levels key with hsame | ⟨v', h2, -, hfill⟩
      · exact ⟨l, by rwa [hsame] at hv⟩
      · rw [hfill, put_apply] at hv
        split at hv
        · rename_i hhere
          exact ⟨.l2, by rw [hhere.2, h2, hv]⟩
        · exact ⟨l, hv⟩
  | lose l key =>
    cases h
    intro l' key' v hv
    simp only [put_apply] at hv
    split at hv
    · cases hv
    · exact hi l' key' v hv

theorem Inv.lookup (hi : Inv s) (h : s.levels.lookup key = some v) :
    ∃ call, lastWrite key s.calls = some call ∧ call.stored = some v := by
  rcases Option.or_eq_some_iff.mp h with h | ⟨-, h⟩
  · exact hi .l1 key v h
  · exact hi .l2 key v h

theorem Inv.agree (hi : Inv s) (h : s.levels .l1 key = some v) (h' : s.levels .l2 key = some v') :
    v = v' := by
  obtain ⟨call, hlast, hstored⟩ := hi .l1 key v h
  obtain ⟨call', hlast', hstored'⟩ := hi .l2 key v' h'
  obtain rfl := Option.some.inj (hlast.symm.trans hlast')
  exact Option.some.inj (hstored.symm.trans hstored')

theorem Inv.moves (hi : Inv s) (h : s.step e = some s') :
    LossyMap.Moves s.levels.lookup (s.label e) s'.levels.lookup := by
  cases e with
  | call call =>
    cases h
    cases call with
    | get key =>
      rw [label, answer_get, lookup_after_get]
      exact .get
    | exists_ key =>
      rw [label, answer_exists, after_exists]
      exact .exists_
    | set | setWithTtl | delete =>
      rw [label, answer_write (by trivial), lookup_after_write (by trivial)]
      exact .write trivial
  | lose l key =>
    cases h
    rcases lookup_lose (fun v v' h h' => hi.agree h h') l with hkeep | hforget
    · rw [label, hkeep]
      exact .stay
    · rw [label, hforget]
      exact .forget

theorem Inv.refines (hi : Inv s) : Refines s := by
  refine ⟨fun e s' h => hi.moves h, fun key => ?_, fun key hdeleted => ?_, fun key => ?_,
    fun call key hkey => ?_⟩
  · refine ⟨_, answer_get s.levels key, ?_⟩
    cases hv : s.levels.lookup key with
    | none => exact .inl rfl
    | some v =>
      obtain ⟨call, hlast, hstored⟩ := hi.lookup hv
      exact .inr ⟨call, hlast, hstored.symm⟩
  · rw [answer_get]
    cases hv : s.levels.lookup key with
    | none => rfl
    | some v =>
      obtain ⟨call, hlast, hstored⟩ := hi.lookup hv
      obtain rfl := Option.some.inj (hdeleted.symm.trans hlast)
      cases hstored
  · refine ⟨_, answer_exists s.levels key, ?_⟩
    rw [answer_get, Option.isSome_iff_exists]
    simp
  · rw [answer_get, answer_get, lookup_after_of_ne hkey]

end

/-- In every state of every run of calls, with entries lost in between at will,
the cache does what a map may do that forgets. -/
theorem always_refines (es : List Event) : Always step Refines new es :=
  (always_of_step inv_new fun _ _ _ hi h => hi.step h).mono fun _ hi => hi.refines

end Serial

end Rinfra.Cache
