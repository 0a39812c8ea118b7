import Rinfra.Admin.Store
import Rinfra.Lib.Transition

/-!
# What is on disk

All calls write one temporary file, each with the snapshot it took earlier. The
last write before the store comes to rest decides what is on disk. `Current`
says that such a write carries the records of that moment; with it, a store at
rest has on disk what it has in memory.
-/

namespace Rinfra.Admin

open Rinfra.Lib

def AdminTokenRecord.forgetUse (r : AdminTokenRecord) : AdminTokenRecord :=
  { r with lastUsedAt := none }

def SameTokens (ts us : List AdminTokenRecord) : Prop :=
  ts.map AdminTokenRecord.forgetUse = us.map AdminTokenRecord.forgetUse

instance : Decidable (SameTokens ts us) := inferInstanceAs (Decidable (_ = _))

def CallState.WriteAhead : CallState Data → Prop
  | .persisting _ | .serialized .. | .dirReady .. => True
  | _ => False

def CallState.Written : CallState Data → Prop
  | .written _ => True
  | _ => False

/-- The text the call is about to write and the records it was made from. -/
def CallState.taken : CallState Data → Option (Data × List AdminTokenRecord)
  | .serialized data snapshot _ | .dirReady data snapshot _ => some (data, snapshot)
  | _ => none

def World.AtRest (w : World Data) : Prop :=
  ∀ c, ¬ (w.calls c).WriteAhead ∧ ¬ (w.calls c).Written

def Event.Fails : Event Data → Prop
  | .makeDir _ failure => failure ≠ none
  | .write _ failure => failure ≠ none
  | .rename _ failure => failure ≠ none
  | _ => False

/-- A write that is not followed by another call's carries the records as they
are. -/
def Current (w : World Data) (e : Event Data) : Prop :=
  ∀ c failure, e = .write c failure → (∀ c', c' ≠ c → ¬ (w.calls c').WriteAhead) →
    ∀ data snapshot reply, w.calls c = .dirReady data snapshot reply →
      SameTokens snapshot w.store.tokens

def reload (serde : Serde Data) (w : World Data) : Except String AdminTokenStore :=
  AdminTokenStore.load serde w.store.path ((w.files w.store.path).map .ok)

def OnDisk (serde : Serde Data) (w : World Data) : Prop :=
  ∃ store, reload serde w = .ok store ∧ SameTokens store.tokens w.store.tokens

/-- With no write ahead, a call that has written finds current records in the
temporary file, and without such a call the file itself has them. -/
structure Inv (serde : Serde Data) (w : World Data) : Prop where
  taken : ∀ c data snapshot, (w.calls c).taken = some (data, snapshot) →
    serde.fromStr data = .ok snapshot
  tmp : (∀ c, ¬ (w.calls c).WriteAhead) → (∃ c, (w.calls c).Written) →
    ∀ data, w.files w.tmp = some data →
      ∃ tokens, serde.fromStr data = .ok tokens ∧ SameTokens tokens w.store.tokens
  file : (∀ c, ¬ (w.calls c).WriteAhead) → (∀ c, ¬ (w.calls c).Written) ∨ w.files w.tmp = none →
    OnDisk serde w

section
variable {Data : Type} {serde : Serde Data} {verifyToken : String → String → Bool}
  {w w' : World Data}

theorem SameTokens.trans (h : SameTokens ts us) (h' : SameTokens us vs) : SameTokens ts vs :=
  Eq.trans h h'

theorem verify_sameTokens (verifyToken : String → String → Bool) (plaintext : String) (now : Nat)
    (tokens : List AdminTokenRecord) :
    SameTokens (verify verifyToken plaintext now tokens).2 tokens := by
  unfold SameTokens
  induction tokens with
  | nil => rfl
  | cons record records ih =>
    simp only [verify]
    split
    · simp [AdminTokenRecord.forgetUse]
    · simp [ih]

@[simp] theorem goto_same : (w.goto c p).calls c = p := Function.update_self ..

theorem goto_of_ne (h : c' ≠ c) : (w.goto c p).calls c' = w.calls c' := Function.update_of_ne h ..

theorem goto_congr {f : CallState Data → α} (h : f p = f (w.calls c)) (c' : Nat) :
    f ((w.goto c p).calls c') = f (w.calls c') := by
  by_cases hc : c' = c
  · subst hc
    rw [goto_same, h]
  · rw [goto_of_ne hc]

theorem Inv.of_ahead (hc : (w.calls c).WriteAhead)
    (ht : ∀ c data snapshot, (w.calls c).taken = some (data, snapshot) →
      serde.fromStr data = .ok snapshot) : Inv serde w :=
  ⟨ht, fun h => absurd hc (h c), fun h => absurd hc (h c)⟩

theorem Inv.congr (hi : Inv serde w) (hpath : w'.store.path = w.store.path)
    (hfiles : w'.files = w.files) (htok : SameTokens w.store.tokens w'.store.tokens)
    (hahead : ∀ c, (w'.calls c).WriteAhead = (w.calls c).WriteAhead)
    (hwritten : ∀ c, (w'.calls c).Written = (w.calls c).Written)
    (htaken : ∀ c, (w'.calls c).taken = (w.calls c).taken) : Inv serde w' := by
  have htmp : w'.tmp = w.tmp := by simp [World.tmp, hpath]
  constructor
  · simpa [htaken] using hi.taken
  · intro hq hw data hdata
    simp only [hahead, hwritten] at hq hw
    obtain ⟨tokens, hread, hsame⟩ := hi.tmp hq hw data (by rwa [← htmp, ← hfiles])
    exact ⟨tokens, hread, hsame.trans htok⟩
  · intro hq hw
    simp only [hahead, hwritten, htmp, hfiles] at hq hw
    obtain ⟨store, hload, hsame⟩ := hi.file hq hw
    exact ⟨store, by simpa [reload, hpath, hfiles] using hload, hsame.trans htok⟩

theorem Inv.taken_goto (hi : Inv serde w) (hp : ∀ data snapshot, p.taken = some (data, snapshot) →
    serde.fromStr data = .ok snapshot) (c' : Nat) (data : Data)
    (snapshot : List AdminTokenRecord)
    (h : ((w.goto c p).calls c').taken = some (data, snapshot)) :
    serde.fromStr data = .ok snapshot := by
  by_cases hc : c' = c
  · subst hc
    exact hp data snapshot (by simpa using h)
  · rw [goto_of_ne hc] at h
    exact hi.taken c' data snapshot h

theorem Inv.goto_done (hi : Inv serde w) (hc : w.calls c = .idle)
    (result : Except String Reply) : Inv serde (w.goto c (.done result)) :=
  hi.congr rfl rfl rfl (goto_congr (by rw [hc]; rfl)) (goto_congr (by rw [hc]; rfl))
    (goto_congr (by rw [hc]; rfl))

theorem Inv.persisting (hi : Inv serde w) (c : Nat) (tokens : List AdminTokenRecord)
    (reply : Reply) : Inv serde ((w.setTokens tokens).goto c (.persisting reply)) := by
  refine .of_ahead (c := c) (by simp [CallState.WriteAhead]) ?_
  intro c' data snapshot h
  refine hi.taken_goto (c := c) (p := .persisting reply) (fun _ _ h => nomatch h) c' data
    snapshot ?_
  rwa [show (w.goto c (.persisting reply)).calls =
    ((w.setTokens tokens).goto c (.persisting reply)).calls from rfl]

theorem Inv.write (hi : Inv serde w) (hc : w.calls c = .dirReady data snapshot reply)
    (hcur : (∀ c', c' ≠ c → ¬ (w.calls c').WriteAhead) → SameTokens snapshot w.store.tokens) :
    Inv serde ({ w with files := Function.update w.files w.tmp (some data) }.goto c
      (.written reply)) := by
  have hread : serde.fromStr data = .ok snapshot :=
    hi.taken c data snapshot (by rw [hc]; rfl)
  constructor
  · exact hi.taken_goto (fun _ _ h => nomatch h)
  · intro hq _ data' hdata'
    obtain rfl : data = data' := by
      simpa [World.goto, World.tmp, Function.update_self] using hdata'
    refine ⟨snapshot, hread, hcur fun c' hne => ?_⟩
    have := hq c'
    rwa [goto_of_ne hne] at this
  · rintro - (hno | hnone)
    · exact absurd (by simp [CallState.Written]) (hno c)
    · simp [World.goto, World.tmp, Function.update_self] at hnone

theorem renameFile_to (files : PathBuf → Option Data) (from_ to_ : PathBuf) :
    renameFile files from_ to_ to_ = files from_ := by
  unfold renameFile
  split
  · rename_i h
    rw [h]
  · exact Function.update_self ..

theorem renameFile_from (h : (renameFile files from_ to_ from_) = some data) :
    files from_ = some data := by
  unfold renameFile at h
  split at h
  · exact h
  · rename_i hne
    rw [Function.update_of_ne hne, Function.update_self] at h
    cases h

theorem Inv.rename (hi : Inv serde w) (hc : w.calls c = .written reply)
    (hdata : w.files w.tmp = some data) :
    Inv serde ({ w with files := renameFile w.files w.tmp w.store.path }.goto c
      (.done (.ok reply))) := by
  have hahead : ∀ c', ((w.goto c (.done (.ok reply))).calls c').WriteAhead =
      (w.calls c').WriteAhead := goto_congr (by rw [hc]; rfl)
  have hcurrent : (∀ c, ¬ (w.calls c).WriteAhead) →
      ∃ tokens, serde.fromStr data = .ok tokens ∧ SameTokens tokens w.store.tokens :=
    fun hq => hi.tmp hq ⟨c, by simp [hc, CallState.Written]⟩ data hdata
  constructor
  · exact hi.taken_goto (fun _ _ h => nomatch h)
  · intro hq _ data' hdata'
    obtain rfl : data = data' := by
      have := renameFile_from hdata'
      exact Option.some.inj (hdata.symm.trans this)
    exact hcurrent fun c' => hahead c' ▸ hq c'
  · intro hq _
    obtain ⟨tokens, hread, hsame⟩ := hcurrent fun c' => hahead c' ▸ hq c'
    refine ⟨⟨w.store.path, tokens⟩, ?_, hsame⟩
    simp [reload, World.goto, renameFile_to, hdata, AdminTokenStore.load, hread]

theorem Inv.step (laws : serde.Lawful) (hi : Inv serde w) (hf : ¬ e.Fails) (hcur : Current w e)
    (h : step serde verifyToken w e = some w') : Inv serde w' := by
  cases e with
  | create c role label expiresAt hash id now =>
    simp only [Admin.step] at h
    split at h
    · rename_i hc
      split at h <;> cases h
      · exact hi.persisting c _ _
      · exact hi.goto_done hc _
    · cases h
  | delete c id =>
    simp only [Admin.step] at h
    split at h
    · rename_i hc
      split at h
      · cases h
        exact hi.persisting c _ _
      · rename_i hlen
        cases h
        have hall : w.store.tokens.filter (fun t => t.id ≠ id) = w.store.tokens :=
          List.filter_eq_self.mpr (by simpa [List.length_filter_lt_length_iff_exists] using hlen)
        rw [hall]
        exact hi.goto_done hc _
    · cases h
  | deleteRoot c =>
    simp only [Admin.step] at h
    split at h
    · cases h
      exact hi.persisting c _ _
    · cases h
  | verify plaintext now =>
    cases h
    exact hi.congr rfl rfl (verify_sameTokens ..).symm (fun _ => rfl) (fun _ => rfl) fun _ => rfl
  | snapshot c =>
    simp only [Admin.step] at h
    obtain ⟨data, hdata, hread⟩ := laws.roundTrip w.store.tokens
    rw [hdata] at h
    split at h
    · cases h
      refine .of_ahead (c := c) (by simp [CallState.WriteAhead]) (hi.taken_goto ?_)
      rintro _ _ ⟨⟩
      exact hread
    · cases h
  | makeDir c failure =>
    obtain rfl : failure = none := not_not.mp hf
    simp only [Admin.step] at h
    split at h
    · rename_i data snapshot reply hc
      cases h
      refine .of_ahead (c := c) (by simp [CallState.WriteAhead]) (hi.taken_goto ?_)
      rintro _ _ ⟨⟩
      exact hi.taken c data snapshot (by rw [hc]; rfl)
    · cases h
  | write c failure =>
    obtain rfl : failure = none := not_not.mp hf
    simp only [Admin.step] at h
    split at h
    · rename_i data snapshot reply hc
      cases h
      exact hi.write hc fun halone => hcur c none rfl halone data snapshot reply hc
    · cases h
  | rename c failure =>
    obtain rfl : failure = none := not_not.mp hf
    simp only [Admin.step] at h
    split at h
    · rename_i reply hc
      split at h
      · rename_i hsome
        cases h
        obtain ⟨data, hdata⟩ := Option.isSome_iff_exists.mp hsome
        exact hi.rename hc hdata
      · cases h
    · cases h

end

section
variable {Data : Type}

def World.start (store : AdminTokenStore) (files : PathBuf → Option Data) : World Data :=
  ⟨store, files, fun _ => .idle⟩

/-- In a run of any number of calls without a failing file operation, a store
at rest has on disk what it has in memory, last uses aside, if every write that
no other call's write follows carries the records as they are.

Premise: what is encoded reads back, and the store was loaded from its file. -/
theorem at_rest_on_disk (serde : Serde Data) (laws : serde.Lawful)
    (verifyToken : String → String → Bool) (path : PathBuf) (files : PathBuf → Option Data)
    (store : AdminTokenStore)
    (hload : AdminTokenStore.load serde path ((files path).map .ok) = .ok store)
    (es : List (Event Data)) (hf : ∀ e ∈ es, ¬ e.Fails)
    (hg : Guarded (step serde verifyToken) Current (.start store files) es) :
    Always (step serde verifyToken) (fun w => w.AtRest → OnDisk serde w) (.start store files)
      es := by
  have hpath : store.path = path := by
    unfold AdminTokenStore.load at hload
    split at hload
    · split at hload <;> cases hload
      rfl
    · cases hload
    · cases hload
      rfl
  have hstart : Inv serde (.start store files) := by
    refine ⟨?_, ?_, fun _ _ => ⟨store, ?_, rfl⟩⟩
    · intro c data snapshot h
      cases h
    · rintro - ⟨c, h⟩
      cases h
    · simp only [reload, World.start, hpath, hload]
  refine ((hg.and_all hf).invariant hstart fun w e w' hi hge hs => ?_).mono fun w hi hrest => ?_
  · exact hi.step laws hge.2 hge.1 hs
  · exact hi.file (fun c => (hrest c).1) (.inl fun c => (hrest c).2)

end

def plainSerde : Serde (List AdminTokenRecord) := ⟨.ok, .ok⟩

theorem plainSerde_lawful : plainSerde.Lawful := ⟨fun tokens => ⟨tokens, rfl, rfl⟩⟩

def tokensJson : PathBuf := ⟨some "data", "tokens", some "json"⟩

/-- The first call's snapshot is older than the second call's record, and it is
written and renamed last. -/
def staleSnapshot : List (Event (List AdminTokenRecord)) :=
  [.create 0 .admin "a" none (.ok "hash-a") "id-a" 1, .snapshot 0,
    .create 1 .admin "b" none (.ok "hash-b") "id-b" 2, .snapshot 1,
    .makeDir 1 none, .write 1 none, .rename 1 none,
    .makeDir 0 none, .write 0 none, .rename 0 none]

theorem stale_snapshot_loses_token :
    ∃ w, run (step plainSerde fun _ _ => false) (.start ⟨tokensJson, []⟩ fun _ => none)
        staleSnapshot = some w ∧
      (∀ e ∈ staleSnapshot, ¬ e.Fails) ∧ w.AtRest ∧
      w.store.tokens.map AdminTokenRecord.id = ["id-a", "id-b"] ∧
      (reload plainSerde w).map (fun store => store.tokens.map AdminTokenRecord.id) =
        .ok ["id-a"] ∧ ¬ OnDisk plainSerde w := by
  refine ⟨_, rfl, ?_, ?_, rfl, rfl, ?_⟩
  · simp [staleSnapshot, Event.Fails]
  · intro c
    match c with
    | 0 => exact ⟨id, id⟩
    | 1 => exact ⟨id, id⟩
    | _ + 2 => exact ⟨id, id⟩
  · rintro ⟨store, hload, hsame⟩
    cases hload
    exact absurd hsame (by decide)

theorem current_of_not_write {e : Event Data} (w : World Data)
    (h : ∀ c failure, e ≠ .write c failure) : Current w e :=
  fun c failure he => absurd he (h c failure)

theorem current_write {w : World Data} (hc : w.calls c = .dirReady data w.store.tokens reply) :
    Current w (.write c failure) := by
  rintro c' failure' ⟨⟩ - data' snapshot' reply' hc'
  rw [hc] at hc'
  cases hc'
  rfl

/-- Two calls that overlap: both are in the store when the first takes its snapshot. -/
def createTwo : List (Event (List AdminTokenRecord)) :=
  [.create 0 .admin "a" none (.ok "hash-a") "id-a" 1,
    .create 1 .admin "b" none (.ok "hash-b") "id-b" 2,
    .snapshot 1, .snapshot 0, .makeDir 0 none, .makeDir 1 none, .write 1 none, .rename 1 none,
    .write 0 none, .rename 0 none]

theorem createTwo_current :
    Guarded (step plainSerde fun _ _ => false) Current (.start ⟨tokensJson, []⟩ fun _ => none)
      createTwo :=
  (guarded_cons rfl).mpr ⟨current_of_not_write _ (by simp),
  (guarded_cons rfl).mpr ⟨current_of_not_write _ (by simp),
  (guarded_cons rfl).mpr ⟨current_of_not_write _ (by simp),
  (guarded_cons rfl).mpr ⟨current_of_not_write _ (by simp),
  (guarded_cons rfl).mpr ⟨current_of_not_write _ (by simp),
  (guarded_cons rfl).mpr ⟨current_of_not_write _ (by simp),
  (guarded_cons rfl).mpr ⟨current_write rfl,
  (guarded_cons rfl).mpr ⟨current_of_not_write _ (by simp),
  (guarded_cons rfl).mpr ⟨current_write rfl,
  (guarded_cons rfl).mpr ⟨current_of_not_write _ (by simp), trivial⟩⟩⟩⟩⟩⟩⟩⟩⟩⟩

theorem at_rest_on_disk_createTwo :
    Always (step plainSerde fun _ _ => false) (fun w => w.AtRest → OnDisk plainSerde w)
      (.start ⟨tokensJson, []⟩ fun _ => none) createTwo :=
  at_rest_on_disk plainSerde plainSerde_lawful _ tokensJson _ ⟨tokensJson, []⟩ rfl createTwo
    (by simp [createTwo, Event.Fails]) createTwo_current

end Rinfra.Admin
