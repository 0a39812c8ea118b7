import Rinfra.Cache.LossyMap

/-!
# Writes that fail half-way

A write goes to the first level and then to the second one, and stops where an
operation fails. What a failing operation leaves is the entry as it was or as
it was to be: a command may be carried out and its answer be lost.

A failed write is judged by the gets that come after it, with entries lost
between them at will: all of them together return what they would have returned
without the write, or all of them what they would after one that succeeded.
-/

namespace Rinfra.Cache

-- ---------------------------------------------------------------------------
-- Levels that fail
-- ---------------------------------------------------------------------------

structure Fault where
  error : AppError
  /-- The level has done what it was asked all the same. -/
  applied : Bool

def Level.failing (l : Level) (fault : Fault) : Cache Steps :=
  let write (key : String) (value : Option Value) : ExceptT AppError Steps Unit :=
    if fault.applied then .write l key value (.done (.error fault.error))
    else .done (.error fault.error)
  { get := fun _ => .done (.error fault.error)
    set := fun key value => write key (some value)
    setWithTtl := fun key value _ => write key (some value)
    delete := fun key => write key none
    exists_ := fun _ => .done (.error fault.error) }

def Level.under (l : Level) : Option Fault → Cache Steps
  | none => l.cache
  | some fault => l.failing fault

def Call.startUnder (first second : Option Fault) (call : Call) : Steps Reply :=
  (MultilevelCache.toCache ⟨Level.l1.under first, Level.l2.under second⟩).call call

namespace Levels

def afterUnder (first second : Option Fault) (s : Levels) (call : Call) : Levels :=
  (s.exec (call.startUnder first second)).2

def answerUnder (first second : Option Fault) (s : Levels) (call : Call) : Reply :=
  (s.exec (call.startUnder first second)).1

-- ---------------------------------------------------------------------------
-- What later gets see
-- ---------------------------------------------------------------------------

def observed (key : String) : Levels → List Serial.Event → List Reply
  | _, [] => []
  | s, .call call :: es =>
    if call = .get key then s.answer call :: observed key (s.after call) es
    else observed key (s.after call) es
  | s, .lose l key' :: es => observed key (s.put l key' none) es

/-- No further write of any key. -/
def Quiet (es : List Serial.Event) : Prop := ∀ call, .call call ∈ es → ¬ call.IsWrite

/-- The write returns an error where an operation has failed, and whatever
comes after it sees the old state or the new one. -/
structure Atomic (first second : Option Fault) (s : Levels) (call : Call) : Prop where
  reported : first.isSome ∨ second.isSome →
    ∃ e, s.answerUnder first second call = .error e
  consistent : ∀ es, Quiet es →
    (s.afterUnder first second call).observed call.key es = s.observed call.key es ∨
    (s.afterUnder first second call).observed call.key es = (s.after call).observed call.key es

/-- The first level is changed and the second one is not. -/
def HalfDone (first second : Option Fault) : Prop :=
  (∀ fault, first = some fault → fault.applied = true) ∧
  (first = none → ∃ fault, second = some fault ∧ fault.applied = false)

end Levels

section
variable {first second : Option Fault} {s s' : Levels} {call : Call} {key : String}

theorem exec_startUnder (h : call.IsWrite) :
    s.exec (call.startUnder first second) = match first, second with
      | none, none => (.ok .done, (s.put .l1 call.key call.stored).put .l2 call.key call.stored)
      | none, some ⟨e, applied⟩ => (.error e,
          if applied then (s.put .l1 call.key call.stored).put .l2 call.key call.stored
          else s.put .l1 call.key call.stored)
      | some ⟨e, applied⟩, _ =>
          (.error e, if applied then s.put .l1 call.key call.stored else s) := by
  cases call with
  | set | setWithTtl | delete =>
    rcases first with _ | ⟨e, _ | _⟩ <;> rcases second with _ | ⟨e', _ | _⟩ <;> rfl
  | get | exists_ => cases h

theorem answerUnder_error (h : call.IsWrite) (hfails : first.isSome ∨ second.isSome) :
    ∃ e, s.answerUnder first second call = .error e := by
  rw [Levels.answerUnder, exec_startUnder h]
  rcases first with _ | fault
  · rcases second with _ | fault
    · simp at hfails
    · exact ⟨_, rfl⟩
  · exact ⟨_, rfl⟩

theorem afterUnder_eq (h : call.IsWrite) :
    Levels.HalfDone first second ∧
      s.afterUnder first second call = s.put .l1 call.key call.stored ∨
    ¬ Levels.HalfDone first second ∧
      (s.afterUnder first second call = s ∨
        s.afterUnder first second call = s.after call) := by
  rw [Levels.afterUnder, exec_startUnder h, after_write h]
  rcases first with _ | ⟨e, _ | _⟩ <;> rcases second with _ | ⟨e', _ | _⟩ <;>
    simp [Levels.HalfDone]

-- ---------------------------------------------------------------------------
-- Gets of one key
-- ---------------------------------------------------------------------------

def Levels.SameAt (key : String) (s s' : Levels) : Prop := ∀ l, s l key = s' l key

theorem Levels.SameAt.put (h : Levels.SameAt key s s') (l : Level) (key' : String)
    (value : Option Value) : Levels.SameAt key (s.put l key' value) (s'.put l key' value) := by
  intro l'
  simp only [put_apply, h l']

theorem Levels.SameAt.lookup (h : Levels.SameAt key s s') : s.lookup key = s'.lookup key := by
  simp only [Levels.lookup, h .l1, h .l2]

theorem after_get_apply (s : Levels) (key : String) (l : Level) :
    s.after (.get key) l key = if l = .l1 then s.lookup key else s l key := by
  rw [Levels.after, start_get, Levels.exec, Levels.lookup]
  cases h1 : s .l1 key with
  | some v =>
    cases l with
    | l1 => exact h1
    | l2 => rfl
  | none =>
    simp only [Levels.exec]
    cases h2 : s .l2 key with
    | some v => cases l <;> simp [Levels.exec, put_apply]
    | none =>
      cases l with
      | l1 => exact h1
      | l2 => rfl

theorem after_apply_of_ne (h : ¬ call.IsWrite) (hkey : call ≠ .get key) (l : Level) :
    s.after call l key = s l key := by
  cases call with
  | get key' =>
    have hne : key ≠ key' := fun h => hkey (h ▸ rfl)
    rcases after_get s key' with hsame | ⟨v, -, -, hfill⟩
    · rw [hsame]
    · rw [hfill, put_apply, if_neg fun hand => hne hand.2]
  | exists_ key' => rw [after_exists]
  | set | setWithTtl | delete => exact absurd trivial h

theorem Levels.SameAt.after (h : Levels.SameAt key s s') (hcall : ¬ call.IsWrite) :
    Levels.SameAt key (s.after call) (s'.after call) := by
  intro l
  by_cases hget : call = .get key
  · subst hget
    rw [after_get_apply, after_get_apply, h.lookup, h l]
  · rw [after_apply_of_ne hcall hget, after_apply_of_ne hcall hget, h l]

theorem Levels.Quiet.of_cons {e : Serial.Event} (h : Levels.Quiet (e :: es)) : Levels.Quiet es :=
  fun call hmem => h call (List.mem_cons_of_mem _ hmem)

/-- The gets of a key see nothing but that key. -/
theorem Levels.SameAt.observed (h : Levels.SameAt key s s') (hquiet : Levels.Quiet es) :
    s.observed key es = s'.observed key es := by
  induction es generalizing s s' with
  | nil => rfl
  | cons e es ih =>
    cases e with
    | call call =>
      have hcall := hquiet call List.mem_cons_self
      have hnext := ih (h.after hcall) hquiet.of_cons
      simp only [Levels.observed]
      split
      · rename_i hget
        rw [hget] at hnext ⊢
        rw [answer_get, answer_get, h.lookup, hnext]
      · exact hnext
    | lose l key' => exact ih (h.put l key' none) hquiet.of_cons

theorem observed_get (s : Levels) (key : String) (es : List Serial.Event) :
    s.observed key (.call (.get key) :: es) =
      .ok (.value (s.lookup key)) :: (s.after (.get key)).observed key es := by
  simp only [Levels.observed, if_true, answer_get]

/-- Where a deletion was half done and the levels had agreed: the first loss or
get decides which of the two it was. -/
theorem observed_half_deleted {half old new : Levels} (hhalf1 : half .l1 key = none)
    (hold : ∀ l, old l key = half .l2 key) (hnew : ∀ l, new l key = none)
    (hquiet : Levels.Quiet es) :
    half.observed key es = old.observed key es ∨ half.observed key es = new.observed key es := by
  induction es generalizing half old new with
  | nil => exact .inl rfl
  | cons e es ih =>
    cases e with
    | call call =>
      by_cases hget : call = .get key
      · subst hget
        -- the get puts into the first level what the second one has
        have hlookup : half.lookup key = old.lookup key := by
          rw [Levels.lookup, Levels.lookup, hhalf1, hold .l1, hold .l2, Option.or_self]
          rfl
        have hsame : Levels.SameAt key (half.after (.get key)) (old.after (.get key)) := by
          intro l
          rw [after_get_apply, after_get_apply, hlookup]
          cases l with
          | l1 => rfl
          | l2 => exact (hold .l2).symm
        rw [observed_get, observed_get, hlookup, hsame.observed hquiet.of_cons]
        exact .inl rfl
      · have hcall := hquiet call List.mem_cons_self
        simp only [Levels.observed, if_neg hget]
        refine ih ?_ (fun l => ?_) (fun l => ?_) hquiet.of_cons
        · rw [after_apply_of_ne hcall hget, hhalf1]
        · rw [after_apply_of_ne hcall hget, after_apply_of_ne hcall hget, hold l]
        · rw [after_apply_of_ne hcall hget, hnew l]
    | lose l key' =>
      simp only [Levels.observed]
      by_cases hkey : key = key'
      · subst hkey
        cases l with
        | l1 =>
          refine .inl (Levels.SameAt.observed (fun l' => ?_) hquiet.of_cons)
          cases l' with
          | l1 => simp [put_apply]
          | l2 => simp [put_apply, hold]
        | l2 =>
          refine .inr (Levels.SameAt.observed (fun l' => ?_) hquiet.of_cons)
          cases l' with
          | l1 => simp [put_apply, hhalf1, hnew]
          | l2 => simp [put_apply]
      · refine ih ?_ (fun l' => ?_) (fun l' => ?_) hquiet.of_cons
        · simp [put_apply, hkey, hhalf1]
        · simp [put_apply, hkey, hold]
        · simp [put_apply, hkey, hnew]

-- ---------------------------------------------------------------------------
-- When a failed write is atomic
-- ---------------------------------------------------------------------------

/-- A half done write does no harm where a level had the value already, or where
a deletion finds the levels in agreement. -/
def Levels.Harmless (s : Levels) (call : Call) : Prop :=
  s .l1 call.key = call.stored ∨ s .l2 call.key = call.stored ∨
    call.stored = none ∧ s .l1 call.key = s .l2 call.key

theorem consistent_of_harmless (h : call.IsWrite) (hharmless : s.Harmless call)
    (hquiet : Levels.Quiet es) :
    (s.put .l1 call.key call.stored).observed call.key es = s.observed call.key es ∨
    (s.put .l1 call.key call.stored).observed call.key es =
      (s.after call).observed call.key es := by
  rcases hharmless with h1 | h2 | ⟨hdeletes, hagree⟩
  · refine .inl (Levels.SameAt.observed (fun l => ?_) hquiet)
    cases l <;> simp [put_apply, h1]
  · refine .inr (Levels.SameAt.observed (fun l => ?_) hquiet)
    rw [after_write h]
    cases l <;> simp [put_apply, h2]
  · refine observed_half_deleted ?_ (fun l => ?_) (fun l => ?_) hquiet
    · simp [put_apply, hdeletes]
    · cases l <;> simp [put_apply, hagree]
    · rw [after_write h]
      cases l <;> simp [put_apply, hdeletes]

/-- A get, the loss of the entry in the first level, and another get. -/
def lookTwice (key : String) : List Serial.Event :=
  [.call (.get key), .lose .l1 key, .call (.get key)]

theorem quiet_lookTwice (key : String) : Levels.Quiet (lookTwice key) := by
  intro call hmem
  simp only [lookTwice, List.mem_cons, List.not_mem_nil, reduceCtorEq, or_false, false_or,
    Serial.Event.call.injEq, or_self] at hmem
  rw [hmem]
  exact id

theorem observed_lookTwice (s : Levels) (key : String) :
    s.observed key (lookTwice key) =
      [.ok (.value (s.lookup key)), .ok (.value (s .l2 key))] := by
  have hlast : ((s.after (.get key)).put .l1 key none).lookup key = s .l2 key := by
    simp [Levels.lookup, put_apply, after_get_apply]
  rw [lookTwice, observed_get, Levels.observed, observed_get, hlast, Levels.observed]

theorem harmless_of_consistent (h : call.IsWrite)
    (hconsistent : ∀ es, Levels.Quiet es →
      (s.put .l1 call.key call.stored).observed call.key es = s.observed call.key es ∨
      (s.put .l1 call.key call.stored).observed call.key es =
        (s.after call).observed call.key es) : s.Harmless call := by
  have hsees := hconsistent (lookTwice call.key) (quiet_lookTwice call.key)
  simp only [observed_lookTwice, after_write h, Levels.lookup, put_apply, reduceCtorEq,
    if_true, if_false, and_self, List.cons.injEq, Except.ok.injEq,
    Answer.value.injEq, and_true] at hsees
  rcases hsees with hold | ⟨-, hnew⟩
  · -- the gets saw the old state: the first level had nothing else to show
    cases hstored : call.stored with
    | some v =>
      rw [hstored, Option.some_or] at hold
      rcases Option.or_eq_some_iff.mp hold.symm with h1 | ⟨-, h2⟩
      · exact .inl (h1.trans hstored.symm)
      · exact .inr (.inl (h2.trans hstored.symm))
    | none =>
      rw [hstored, Option.none_or] at hold
      cases h1 : s .l1 call.key with
      | none => exact .inl (h1.trans hstored.symm)
      | some v =>
        rw [h1, Option.some_or] at hold
        exact .inr (.inr ⟨hstored, h1.trans hold.symm⟩)
  · exact .inr (.inl hnew)

/-- A write is atomic towards failures if and only if it is not left half done,
or half done does no harm. -/
theorem atomic_iff (first second : Option Fault) (s : Levels) (h : call.IsWrite) :
    Levels.Atomic first second s call ↔
      (Levels.HalfDone first second → s.Harmless call) := by
  constructor
  · intro hatomic hhalf
    refine harmless_of_consistent h fun es hquiet => ?_
    rcases afterUnder_eq (s := s) h with ⟨-, hafter⟩ | ⟨hnot, -⟩
    · rw [← hafter]
      exact hatomic.consistent es hquiet
    · exact absurd hhalf hnot
  · intro hcond
    refine ⟨answerUnder_error h, fun es hquiet => ?_⟩
    rcases afterUnder_eq (s := s) h with ⟨hhalf, hafter⟩ | ⟨-, hold | hnew⟩
    · rw [hafter]
      exact consistent_of_harmless h (hcond hhalf) hquiet
    · exact .inl (by rw [hold])
    · exact .inr (by rw [hnew])

end

def l2Down : Fault := ⟨⟨.cacheSetFailed, "down"⟩, false⟩

/-- A deletion that does not get to the second level, of an entry in both. -/
theorem atomic_iff_agreeing :
    Levels.Atomic none (some l2Down) (fun _ _ => some [0]) (.delete "k") :=
  (atomic_iff none (some l2Down) (fun _ _ => some [0])
    (show (Call.delete "k").IsWrite from trivial)).mpr fun _ => .inr (.inr ⟨rfl, rfl⟩)

/-- A set that has failed is seen by the first get, and the old value by the next
one. Where the levels differ, a deletion that has failed brings a value to light
that was not seen before. -/
theorem failed_set_comes_and_goes :
    (∃ e, Levels.answerUnder none (some l2Down) (fun _ _ => some [0]) (.set "k" [1]) =
        .error e) ∧
    (Levels.afterUnder none (some l2Down) (fun _ _ => some [0]) (.set "k" [1])).observed "k"
        (lookTwice "k") = [.ok (.value (some [1])), .ok (.value (some [0]))] ∧
    ¬ Levels.Atomic none (some l2Down) (fun _ _ => some [0]) (.set "k" [1]) ∧
    ¬ Levels.Atomic none (some l2Down) (fun l _ => if l = .l1 then some [1] else some [0])
        (.delete "k") := by
  refine ⟨⟨_, rfl⟩, observed_lookTwice _ _, fun h => ?_, fun h => ?_⟩ <;>
  · have hsees := h.consistent (lookTwice "k") (quiet_lookTwice "k")
    simp only [Call.key, observed_lookTwice, List.cons.injEq, Except.ok.injEq,
      Answer.value.injEq] at hsees
    revert hsees
    decide

end Rinfra.Cache
