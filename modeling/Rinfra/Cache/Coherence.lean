import Mathlib.Logic.Function.Basic
import Rinfra.Cache.Multilevel
import Rinfra.Lib.Transition

/-!
# Two levels and many callers

Every operation on a level is one step, and between two steps of a call those
of other calls may come. The levels neither fail nor expire here, but they may
evict an entry at any time.

A get that misses the first level puts what it has read in the second one back
into the first, however late. A write that is overtaken does the like. What the
levels have of a key is up to date as long as no such value comes after the
write that replaced it.
-/

namespace Rinfra.Cache

open Rinfra.Lib

inductive Level
  | l1
  | l2
  deriving DecidableEq, Repr

/-- A call by the operations on the levels that it has still to make. -/
inductive Steps (α : Type)
  | done (a : α)
  | read (l : Level) (key : String) (next : Option Value → Steps α)
  | write (l : Level) (key : String) (value : Option Value) (next : Steps α)

namespace Steps

def bind : Steps α → (α → Steps β) → Steps β
  | .done a, f => f a
  | .read l key next, f => .read l key fun v => (next v).bind f
  | .write l key value next, f => .write l key value (next.bind f)

instance : Monad Steps where
  pure := .done
  bind := bind

def Ahead (l : Level) : Steps α → Prop
  | .done _ => False
  | .read _ _ next => ∃ v, (next v).Ahead l
  | .write l' _ _ next => l' = l ∨ next.Ahead l

/-- All that is still to come is writes of one value to one key. -/
def Writes (key : String) (value : Option Value) : Steps Reply → Prop
  | .done _ => True
  | .read _ _ _ => False
  | .write _ key' value' next => key' = key ∧ value' = value ∧ next.Writes key value

/-- Where the levels give values of `P` for the key, a value of `P` is what is
written and what is returned. -/
def Keeps (key : String) (P : Option Value → Prop) : Steps Reply → Prop
  | .done reply => ∃ v, reply = .ok (.value v) ∧ P v
  | .read _ key' next => key' = key ∧ ∀ v, P v → (next v).Keeps key P
  | .write _ key' value next => key' = key ∧ P value ∧ next.Keeps key P

end Steps

def Level.cache (l : Level) : Cache Steps where
  get key := .read l key fun v => .done (.ok v)
  set key value := .write l key (some value) (.done (.ok ()))
  setWithTtl key value _ := .write l key (some value) (.done (.ok ()))
  delete key := .write l key none (.done (.ok ()))
  exists_ key := .read l key fun v => .done (.ok v.isSome)

namespace Call

def start (call : Call) : Steps Reply :=
  (MultilevelCache.toCache ⟨Level.l1.cache, Level.l2.cache⟩).call call

def IsWrite : Call → Prop
  | .set _ _ | .setWithTtl _ _ _ | .delete _ => True
  | .get _ | .exists_ _ => False

instance : DecidablePred IsWrite
  | .set _ _ | .setWithTtl _ _ _ | .delete _ => .isTrue trivial
  | .get _ | .exists_ _ => .isFalse id

def stored : Call → Option Value
  | .set _ value | .setWithTtl _ value _ => some value
  | .delete _ | .get _ | .exists_ _ => none

theorem start_writes {call : Call} (h : call.IsWrite) :
    call.start.Writes call.key call.stored := by
  cases call with
  | set key value | setWithTtl key value ttl | delete key =>
    exact ⟨rfl, rfl, rfl, rfl, trivial⟩
  | get key | exists_ key => cases h

theorem start_ahead {call : Call} (h : call.IsWrite) (l : Level) : call.start.Ahead l := by
  cases call with
  | set key value | setWithTtl key value ttl | delete key =>
    cases l with
    | l1 => exact .inl rfl
    | l2 => exact .inr (.inl rfl)
  | get key | exists_ key => cases h

theorem start_keeps (key : String) (P : Option Value → Prop) :
    (Call.get key).start.Keeps key P := by
  refine ⟨rfl, fun v hv => ?_⟩
  cases v with
  | some val => exact ⟨_, rfl, hv⟩
  | none =>
    refine ⟨rfl, fun v hv => ?_⟩
    cases v with
    | some val => exact ⟨rfl, hv, _, rfl, hv⟩
    | none => exact ⟨_, rfl, hv⟩

end Call

-- ---------------------------------------------------------------------------
-- The steps of many calls
-- ---------------------------------------------------------------------------

/-- A call under way or over. `settled` is the write of its key, if any, that
was the latest one when the call began and had returned by then. -/
inductive Progress
  | idle
  | running (call : Call) (settled : Option Nat) (steps : Steps Reply)
  | returned (call : Call) (settled : Option Nat) (reply : Reply)

def Progress.call? : Progress → Option Call
  | .idle => none
  | .running call _ _ | .returned call _ _ => some call

def Progress.settled? : Progress → Option Nat
  | .idle => none
  | .running _ settled _ | .returned _ settled _ => settled

def Progress.HasReturned : Progress → Prop
  | .returned _ _ _ => True
  | .idle | .running _ _ _ => False

instance : DecidablePred Progress.HasReturned
  | .returned _ _ _ => .isTrue trivial
  | .idle | .running _ _ _ => .isFalse id

/-- The levels and the calls. `latest` is the write of a key that began last. -/
structure World where
  levels : Level → String → Option Value
  calls : Nat → Progress
  latest : String → Option Nat

inductive Event
  | begin_ (n : Nat) (call : Call)
  | advance (n : Nat)
  | evict (l : Level) (key : String)

namespace World

def new (levels : Level → String → Option Value) : World where
  levels := levels
  calls _ := .idle
  latest _ := none

def setCall (w : World) (n : Nat) (p : Progress) : World :=
  { w with calls := Function.update w.calls n p }

def put (w : World) (l : Level) (key : String) (value : Option Value) : World :=
  { w with levels := Function.update w.levels l (Function.update (w.levels l) key value) }

def settledOf (w : World) (key : String) : Option Nat :=
  (w.latest key).filter fun n => (w.calls n).HasReturned

def begin_ (w : World) (n : Nat) (call : Call) : World :=
  let w' := w.setCall n (.running call (w.settledOf call.key) call.start)
  if call.IsWrite then { w' with latest := Function.update w.latest call.key (some n) } else w'

def step (w : World) : Event → Option World
  | .begin_ n call =>
    match w.calls n with
    | .idle => some (w.begin_ n call)
    | _ => none
  | .advance n =>
    match w.calls n with
    | .running call settled (.read l key next) =>
      some (w.setCall n (.running call settled (next (w.levels l key))))
    | .running call settled (.write l key value next) =>
      some ((w.put l key value).setCall n (.running call settled next))
    | .running call settled (.done reply) => some (w.setCall n (.returned call settled reply))
    | _ => none
  | .evict l key => some (w.put l key none)

def Pending (w : World) (n : Nat) (l : Level) : Prop :=
  ∃ call settled steps, w.calls n = .running call settled steps ∧ steps.Ahead l

def stored (w : World) (n : Nat) : Option Value := (w.calls n).call?.bind Call.stored

def Current (w : World) (n : Nat) (v : Option Value) : Prop := v = none ∨ v = w.stored n

/-- A get that began after a write had returned, and during which no other write
of the key has begun, returns what the write has stored, or nothing. -/
def Coherent (w : World) : Prop :=
  ∀ n key m reply, w.calls n = .returned (.get key) (some m) reply → w.latest key = some m →
    ∃ v, reply = .ok (.value v) ∧ w.Current m v

/-- No value is put into a level after the latest write of the key has had its
turn at the level, unless it is the value of that write. -/
def Timely (w : World) : Event → Prop
  | .advance n => ∀ call settled l key value next,
      w.calls n = .running call settled (.write l key (some value) next) →
      ∀ m, w.latest key = some m → w.Pending m l ∨ some value = w.stored m
  | .begin_ _ _ | .evict _ _ => True

inductive Moves (w : World) : Event → World → Prop
  | begin_ (hidle : w.calls n = .idle) : Moves w (.begin_ n call) (w.begin_ n call)
  | read (h : w.calls n = .running call settled (.read l key next)) :
      Moves w (.advance n) (w.setCall n (.running call settled (next (w.levels l key))))
  | write (h : w.calls n = .running call settled (.write l key value next)) :
      Moves w (.advance n) ((w.put l key value).setCall n (.running call settled next))
  | returned (h : w.calls n = .running call settled (.done reply)) :
      Moves w (.advance n) (w.setCall n (.returned call settled reply))
  | evict : Moves w (.evict l key) (w.put l key none)

section
variable {w w' : World}

theorem step_moves (h : w.step e = some w') : Moves w e w' := by
  cases e with
  | begin_ n call =>
    simp only [step] at h
    split at h
    · cases h; exact .begin_ ‹_›
    · cases h
  | advance n =>
    simp only [step] at h
    split at h
    · cases h; exact .read ‹_›
    · cases h; exact .write ‹_›
    · cases h; exact .returned ‹_›
    · cases h
  | evict l key => cases h; exact .evict

-- ---------------------------------------------------------------------------
-- What one call leaves alone
-- ---------------------------------------------------------------------------

@[simp] theorem setCall_same (n : Nat) (p : Progress) : (w.setCall n p).calls n = p :=
  Function.update_self ..

theorem setCall_other (p : Progress) (h : m ≠ n) : (w.setCall n p).calls m = w.calls m :=
  Function.update_of_ne h ..

@[simp] theorem setCall_levels (n : Nat) (p : Progress) : (w.setCall n p).levels = w.levels := rfl

@[simp] theorem setCall_latest (n : Nat) (p : Progress) : (w.setCall n p).latest = w.latest := rfl

theorem setCall_stored (h : p.call? = (w.calls n).call?) : (w.setCall n p).stored = w.stored := by
  funext m
  by_cases hm : m = n
  · subst hm
    simp [stored, h]
  · simp [stored, setCall_other p hm]

theorem setCall_pending_other (p : Progress) (h : m ≠ n) (l : Level) :
    (w.setCall n p).Pending m l ↔ w.Pending m l := by
  simp [Pending, setCall_other p h]

theorem put_levels (w : World) (l : Level) (key : String) (value : Option Value) (l' : Level)
    (key' : String) : (w.put l key value).levels l' key' =
      if l' = l ∧ key' = key then value else w.levels l' key' := by
  by_cases hl : l' = l
  · subst hl
    by_cases hkey : key' = key
    · subst hkey
      simp [put]
    · simp [put, hkey]
  · simp [put, hl]

theorem begin_calls (w : World) (n : Nat) (call : Call) : (w.begin_ n call).calls =
    (w.setCall n (.running call (w.settledOf call.key) call.start)).calls := by
  unfold begin_
  split <;> rfl

theorem begin_levels (w : World) (n : Nat) (call : Call) : (w.begin_ n call).levels = w.levels := by
  unfold begin_
  split <;> rfl

theorem begin_latest (w : World) (n : Nat) (call : Call) (key : String) :
    (w.begin_ n call).latest key =
      if call.IsWrite ∧ key = call.key then some n else w.latest key := by
  unfold begin_
  by_cases hwrite : call.IsWrite
  · by_cases hkey : key = call.key
    · subst hkey
      simp [hwrite]
    · simp [hwrite, hkey]
  · simp [hwrite]

theorem settledOf_eq_some :
    w.settledOf key = some n ↔ w.latest key = some n ∧ (w.calls n).HasReturned := by
  simp [settledOf, Option.filter_eq_some_iff]

-- ---------------------------------------------------------------------------
-- The levels after a write
-- ---------------------------------------------------------------------------

structure Inv (w : World) : Prop where
  writes : ∀ n call settled steps, w.calls n = .running call settled steps → call.IsWrite →
    steps.Writes call.key call.stored
  latest : ∀ key n, w.latest key = some n →
    ∃ call, (w.calls n).call? = some call ∧ call.IsWrite ∧ call.key = key
  settled : ∀ n m, (w.calls n).settled? = some m → w.calls m ≠ .idle
  levels : ∀ key n l, w.latest key = some n → w.Pending n l ∨ w.Current n (w.levels l key)
  gets : ∀ n key m steps, w.calls n = .running (.get key) (some m) steps →
    w.latest key = some m → (∀ l, ¬ w.Pending m l) ∧ steps.Keeps key (w.Current m)
  coherent : w.Coherent

theorem new_inv (levels : Level → String → Option Value) : (new levels).Inv := by
  constructor <;> simp [new, Coherent, Progress.settled?]

theorem Inv.not_idle (hi : w.Inv) (h : w.latest key = some n) : w.calls n ≠ .idle := by
  obtain ⟨call, hcall, -⟩ := hi.latest key n h
  intro hidle
  rw [hidle] at hcall
  cases hcall

theorem not_pending_of_returned (h : (w.calls n).HasReturned) (l : Level) : ¬ w.Pending n l := by
  rintro ⟨call, settled, steps, hcall, -⟩
  rw [hcall] at h
  exact h

theorem Inv.begin_step (hi : w.Inv) (hidle : w.calls n = .idle) (call : Call) :
    (w.begin_ n call).Inv := by
  have hother : ∀ {m}, m ≠ n → (w.begin_ n call).calls m = w.calls m := by
    intro m hm
    rw [begin_calls, setCall_other _ hm]
  have hself : (w.begin_ n call).calls n =
      .running call (w.settledOf call.key) call.start := by
    rw [begin_calls, setCall_same]
  have hcurrent : ∀ {m}, m ≠ n → (w.begin_ n call).Current m = w.Current m := by
    intro m hm
    funext v
    simp only [Current, stored, hother hm]
  have hpending : ∀ {m} l, m ≠ n → ((w.begin_ n call).Pending m l ↔ w.Pending m l) := by
    intro m l hm
    simp only [Pending, hother hm]
  -- a write that was the latest one before is not the new call
  have hlatest : ∀ {key m}, w.latest key = some m → m ≠ n := by
    rintro key m h rfl
    exact hi.not_idle h hidle
  have hkept : ∀ {key m}, (w.begin_ n call).latest key = some m → m ≠ n →
      w.latest key = some m := by
    intro key m h hm
    rw [begin_latest] at h
    split at h
    · exact absurd (Option.some.inj h).symm hm
    · exact h
  constructor
  · intro m call' settled steps hrunning hwrite
    by_cases hm : m = n
    · subst hm
      cases hself.symm.trans hrunning
      exact Call.start_writes hwrite
    · exact hi.writes m call' settled steps (hother hm ▸ hrunning) hwrite
  · intro key m h
    by_cases hm : m = n
    · subst hm
      rw [begin_latest] at h
      split at h
      · rename_i hnew
        exact ⟨call, by rw [hself]; rfl, hnew.1, hnew.2.symm⟩
      · exact absurd rfl (hlatest h)
    · rw [hother hm]
      exact hi.latest key m (hkept h hm)
  · intro m k hsettled hk
    have hkn : k ≠ n := by
      rintro rfl
      rw [hself] at hk
      cases hk
    rw [hother hkn] at hk
    by_cases hm : m = n
    · subst hm
      rw [hself] at hsettled
      exact hi.not_idle (settledOf_eq_some.mp hsettled).1 hk
    · exact hi.settled m k (hother hm ▸ hsettled) hk
  · intro key m l h
    by_cases hm : m = n
    · subst hm
      rw [begin_latest] at h
      split at h
      · rename_i hnew
        exact .inl ⟨_, _, _, hself, Call.start_ahead hnew.1 l⟩
      · exact absurd rfl (hlatest h)
    · rw [hpending l hm, hcurrent hm, begin_levels]
      exact hi.levels key m l (hkept h hm)
  · intro m key k steps hrunning h
    by_cases hm : m = n
    · subst hm
      injection hself.symm.trans hrunning with hcall hsettled hsteps
      subst hcall hsteps
      obtain ⟨hlatest', hreturned⟩ := settledOf_eq_some.mp hsettled
      simp only [hpending _ (hlatest hlatest'), hcurrent (hlatest hlatest')]
      exact ⟨not_pending_of_returned hreturned, Call.start_keeps key _⟩
    · rw [hother hm] at hrunning
      have hk : k ≠ n := by
        rintro rfl
        exact hi.settled m k (by rw [hrunning]; rfl) hidle
      simp only [hpending _ hk, hcurrent hk]
      exact hi.gets m key k steps hrunning (hkept h hk)
  · intro m key k reply hreturned h
    have hm : m ≠ n := by
      rintro rfl
      cases hself.symm.trans hreturned
    rw [hother hm] at hreturned
    have hk : k ≠ n := by
      rintro rfl
      exact hi.settled m k (by rw [hreturned]; rfl) hidle
    rw [hcurrent hk]
    exact hi.coherent m key k reply hreturned (hkept h hk)

theorem Inv.goes_on {levels : Level → String → Option Value} {settled : Option Nat} (hi : w.Inv)
    (hn : w.calls n = .running call settled steps₀) (hcall : p.call? = some call)
    (hsettled : p.settled? = settled)
    (hpending : ∀ l, (w.setCall n p).Pending n l → w.Pending n l)
    (hwrites : ∀ call settled steps, p = .running call settled steps → call.IsWrite →
      steps.Writes call.key call.stored)
    (hlevels : ∀ key m l, w.latest key = some m →
      (w.setCall n p).Pending m l ∨ w.Current m (levels l key))
    (hgets : ∀ key m steps, p = .running (.get key) (some m) steps → w.latest key = some m →
      steps.Keeps key (w.Current m))
    (hreturned : ∀ key m reply, p = .returned (.get key) (some m) reply →
      w.latest key = some m → ∃ v, reply = .ok (.value v) ∧ w.Current m v) :
    Inv { w.setCall n p with levels := levels } := by
  replace hcall : p.call? = (w.calls n).call? := by rw [hcall, hn]; rfl
  replace hsettled : p.settled? = (w.calls n).settled? := by rw [hsettled, hn]; rfl
  have hcurrent : ∀ m, Current { w.setCall n p with levels := levels } m = w.Current m := by
    intro m
    funext v
    exact congrArg (fun s => v = none ∨ v = s) (congrFun (setCall_stored hcall) m)
  have hsame : ∀ m l, ¬ w.Pending m l → ¬ (w.setCall n p).Pending m l := by
    intro m l h
    by_cases hm : m = n
    · subst hm
      exact mt (hpending l) h
    · rwa [setCall_pending_other p hm]
  have hkeep : ∀ {α : Type} (f : Progress → α) m, f p = f (w.calls n) →
      f ((w.setCall n p).calls m) = f (w.calls m) := by
    intro α f m hf
    by_cases hm : m = n
    · subst hm
      rw [setCall_same, hf]
    · rw [setCall_other p hm]
  constructor
  · intro m call settled steps hrunning hwrite
    by_cases hm : m = n
    · subst hm
      exact hwrites call settled steps ((setCall_same m p).symm.trans hrunning) hwrite
    · exact hi.writes m call settled steps ((setCall_other p hm).symm.trans hrunning) hwrite
  · intro key m h
    rw [show _ = _ from hkeep Progress.call? m hcall]
    exact hi.latest key m h
  · intro m k h hidle
    rw [show _ = _ from hkeep Progress.settled? m hsettled] at h
    refine hi.settled m k h ?_
    have hnone := hkeep Progress.call? k hcall
    rw [show (w.setCall n p).calls k = _ from hidle] at hnone
    generalize w.calls k = q at hnone
    cases q with
    | idle => rfl
    | running | returned => cases hnone
  · intro key m l h
    rw [hcurrent m]
    exact hlevels key m l h
  · intro m key k steps hrunning h
    rw [hcurrent k]
    by_cases hm : m = n
    · subst hm
      have hp := (setCall_same m p).symm.trans hrunning
      rw [hn, hp] at hcall hsettled
      cases hcall
      cases hsettled
      exact ⟨fun l => hsame k l ((hi.gets m key k _ hn h).1 l), hgets key k steps hp h⟩
    · obtain ⟨hnone, hkeeps⟩ := hi.gets m key k steps ((setCall_other p hm).symm.trans hrunning) h
      exact ⟨fun l => hsame k l (hnone l), hkeeps⟩
  · intro m key k reply hdone h
    rw [hcurrent k]
    by_cases hm : m = n
    · subst hm
      exact hreturned key k reply ((setCall_same m p).symm.trans hdone) h
    · exact hi.coherent m key k reply ((setCall_other p hm).symm.trans hdone) h

theorem Inv.latest_running {settled : Option Nat} (hi : w.Inv) (h : w.latest key = some n)
    (hn : w.calls n = .running call settled steps) :
    call.key = key ∧ w.stored n = call.stored ∧ steps.Writes key (w.stored n) := by
  obtain ⟨call', hcall, hwrite, hkey⟩ := hi.latest key n h
  rw [hn] at hcall
  cases hcall
  have hstored : w.stored n = call.stored := by simp [stored, hn, Progress.call?]
  refine ⟨hkey, hstored, ?_⟩
  rw [hstored, ← hkey]
  exact hi.writes n call settled steps hn hwrite

theorem Inv.step (hi : w.Inv) (hg : w.Timely e) (h : w.step e = some w') : w'.Inv := by
  cases step_moves h with clear h
  | begin_ hidle => exact hi.begin_step hidle _
  | @read n call settled l key next hn =>
    refine hi.goes_on hn rfl rfl ?_ ?_ ?_ ?_ (by rintro _ _ _ ⟨⟩)
    · rintro l' ⟨_, _, _, hrunning, hahead⟩
      cases (setCall_same n _).symm.trans hrunning
      exact ⟨_, _, _, hn, _, hahead⟩
    · rintro _ _ _ ⟨⟩ hwrite
      exact (hi.writes n call settled _ hn hwrite).elim
    · intro key' m l' hlatest
      have hm : m ≠ n := by
        rintro rfl
        exact (hi.latest_running hlatest hn).2.2
      rw [setCall_pending_other _ hm]
      exact hi.levels key' m l' hlatest
    · rintro key' m _ ⟨⟩ hlatest
      obtain ⟨hnone, rfl, hkeeps⟩ := hi.gets n key' m _ hn hlatest
      exact hkeeps _ ((hi.levels key m l hlatest).resolve_left (hnone l))
  | @write n call settled l key value next hn =>
    refine hi.goes_on hn rfl rfl ?_ ?_ ?_ ?_ (by rintro _ _ _ ⟨⟩)
    · rintro l' ⟨_, _, _, hrunning, hahead⟩
      cases (setCall_same n _).symm.trans hrunning
      exact ⟨_, _, _, hn, .inr hahead⟩
    · rintro _ _ _ ⟨⟩ hwrite
      exact (hi.writes n call settled _ hn hwrite).2.2
    · intro key' m l' hlatest
      rw [put_levels]
      split
      · -- what is put into the level is the value of the latest write, or comes before it
        rename_i hhere
        obtain ⟨rfl, rfl⟩ := hhere
        by_cases hm : m = n
        · subst hm
          exact .inr (.inr (hi.latest_running hlatest hn).2.2.2.1)
        · cases value with
          | none => exact .inr (.inl rfl)
          | some val =>
            rw [setCall_pending_other _ hm]
            exact (hg call settled l' key' val next hn m hlatest).imp_right .inr
      · rename_i helse
        by_cases hm : m = n
        · subst hm
          obtain ⟨-, -, hkey, -, -⟩ := hi.latest_running hlatest hn
          refine (hi.levels key' m l' hlatest).imp_left ?_
          rintro ⟨_, _, _, hrunning, hahead⟩
          cases hn.symm.trans hrunning
          rcases hahead with rfl | hahead
          · exact absurd ⟨rfl, hkey.symm⟩ helse
          · exact ⟨_, _, _, setCall_same .., hahead⟩
        · rw [setCall_pending_other _ hm]
          exact hi.levels key' m l' hlatest
    · rintro key' m _ ⟨⟩ hlatest
      exact (hi.gets n key' m _ hn hlatest).2.2.2
  | @returned n call settled reply hn =>
    refine hi.goes_on hn rfl rfl ?_ (by rintro _ _ _ ⟨⟩) ?_ (by rintro _ _ _ ⟨⟩) ?_
    · rintro l' ⟨_, _, _, hrunning, -⟩
      cases (setCall_same n _).symm.trans hrunning
    · intro key m l hlatest
      by_cases hm : m = n
      · subst hm
        refine .inr ((hi.levels key m l hlatest).resolve_left ?_)
        rintro ⟨_, _, _, hrunning, hahead⟩
        cases hn.symm.trans hrunning
        exact hahead
      · rw [setCall_pending_other _ hm]
        exact hi.levels key m l hlatest
    · rintro key m _ ⟨⟩ hlatest
      exact (hi.gets n key m _ hn hlatest).2
  | @evict l key =>
    refine ⟨hi.writes, hi.latest, hi.settled, ?_, hi.gets, hi.coherent⟩
    intro key' m l' hlatest
    rw [put_levels]
    split
    · exact .inr (.inl rfl)
    · exact hi.levels key' m l' hlatest

end

/-- As long as no value comes to a level after the write that replaced it, a get
returns nothing older than the last write that was over when it began. -/
theorem timely_coherent (levels : Level → String → Option Value) (es : List Event)
    (h : Guarded step Timely (new levels) es) : Always step Coherent (new levels) es :=
  (h.invariant (new_inv levels) fun _ _ _ hi hg hs => hi.step hg hs).mono fun _ hi => hi.coherent

/-- A set and a get after it, with an eviction between them. -/
def quiet : List Event :=
  [.begin_ 0 (.set "k" [0]), .advance 0, .advance 0, .advance 0, .evict .l1 "k",
    .begin_ 1 (.get "k"), .advance 1, .advance 1, .advance 1, .advance 1]

theorem quiet_coherent : Always step Coherent (new fun _ _ => none) quiet := by
  refine timely_coherent _ _ ?_
  rintro _ ⟨⟩
  refine ⟨trivial, ?_⟩
  rintro _ ⟨⟩
  refine ⟨?_, ?_⟩
  · rintro _ _ _ _ _ _ ⟨⟩ m ⟨⟩
    exact .inl ⟨_, _, _, rfl, .inl rfl⟩
  rintro _ ⟨⟩
  refine ⟨?_, ?_⟩
  · rintro _ _ _ _ _ _ ⟨⟩ m ⟨⟩
    exact .inl ⟨_, _, _, rfl, .inl rfl⟩
  rintro _ ⟨⟩
  refine ⟨by rintro _ _ _ _ _ _ ⟨⟩, ?_⟩
  rintro _ ⟨⟩
  refine ⟨trivial, ?_⟩
  rintro _ ⟨⟩
  refine ⟨trivial, ?_⟩
  rintro _ ⟨⟩
  refine ⟨by rintro _ _ _ _ _ _ ⟨⟩, ?_⟩
  rintro _ ⟨⟩
  refine ⟨by rintro _ _ _ _ _ _ ⟨⟩, ?_⟩
  rintro _ ⟨⟩
  refine ⟨?_, ?_⟩
  · rintro _ _ _ _ _ _ ⟨⟩ m ⟨⟩
    exact .inr rfl
  rintro _ ⟨⟩
  exact ⟨by rintro _ _ _ _ _ _ ⟨⟩, trivial⟩

/-- A get reads the old value in the second level and puts it back into the
first one when a set of the key has come and gone. -/
theorem backfill_stale : ∃ es t, run step (new fun _ _ => none) es = some t ∧ ¬ t.Coherent := by
  refine ⟨[.begin_ 0 (.set "k" [0]), .advance 0, .advance 0, .advance 0, .evict .l1 "k",
    .begin_ 1 (.get "k"), .advance 1, .advance 1,
    .begin_ 2 (.set "k" [1]), .advance 2, .advance 2, .advance 2, .advance 1, .advance 1,
    .begin_ 3 (.get "k"), .advance 3, .advance 3], _, rfl, fun h => ?_⟩
  obtain ⟨v, hreply, hcurrent⟩ := h 3 "k" 2 _ rfl rfl
  cases hreply
  rcases hcurrent with hnone | hsome
  · cases hnone
  · cases hsome

end World

end Rinfra.Cache
