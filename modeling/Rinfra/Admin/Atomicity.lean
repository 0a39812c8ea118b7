import Rinfra.Admin.Operations

/-!
# Calls that fail

A call changes the records before it persists them, and nothing changes them
back when a step of `persist` fails. A call that returns an error has left the
store as it was only where it fails before the change or had nothing to change.
-/

namespace Rinfra.Admin

/-- What is encoded reads back; encoding it may fail. -/
structure Serde.ReadsBack (serde : Serde Data) : Prop where
  reads : serde.toStringPretty tokens = .ok data → serde.fromStr data = .ok tokens

theorem Serde.Lawful.readsBack (laws : Serde.Lawful serde) : serde.ReadsBack := by
  constructor
  intro tokens data h
  obtain ⟨data', hdata', hread⟩ := laws.roundTrip tokens
  rw [h] at hdata'
  cases hdata'
  exact hread

/-- A restart reads these records off the file, last uses aside. -/
def Reads (serde : Serde Data) (path : PathBuf) (file : Option Data)
    (tokens : List AdminTokenRecord) : Prop :=
  ∃ store, AdminTokenStore.load serde path (file.map .ok) = .ok store ∧
    SameTokens store.tokens tokens

def Host.OnDisk (serde : Serde Data) (host : Host Data) : Prop :=
  Reads serde host.store.path (host.files host.store.path) host.store.tokens

/-- An error leaves the records as they were before, in memory and for a
restart. -/
def AllOrNothing (serde : Serde Data) (before : Host Data)
    (r : Except String α × Host Data) : Prop :=
  ∀ e, r.1 = .error e →
    SameTokens r.2.store.tokens before.store.tokens ∧ r.2.OnDisk serde

-- ============================================================
-- When a call is all or nothing

def Clear (serde : Serde Data) (fault : Option (Fault Data))
    (tokens : List AdminTokenRecord) : Prop :=
  fault = none ∧ ∃ data, serde.toStringPretty tokens = .ok data

/-- After the failing step a restart still reads the records. The store's own
file is at risk only if it is the temporary file as well. -/
def Host.Spared (serde : Serde Data) (fault : Option (Fault Data)) (host : Host Data) : Prop :=
  match serde.toStringPretty host.store.tokens, fault with
  | .ok _, some (.write _ leftover) =>
    if host.store.tmp = host.store.path then
      Reads serde host.store.path leftover host.store.tokens
    else host.OnDisk serde
  | .ok _, some (.rename _) => host.store.tmp = host.store.path ∨ host.OnDisk serde
  | _, _ => host.OnDisk serde

def Host.CreateHarmless (serde : Serde Data) (draw : Draw) (fault : Option (Fault Data))
    (role : AdminRole) (label plaintext : String) (expiresAt : Option Nat)
    (host : Host Data) : Prop :=
  match hashToken draw plaintext with
  | .error _ => host.OnDisk serde
  | .ok tokenHash =>
    Clear serde fault (host.store.tokens ++ [newRecord draw role label tokenHash expiresAt])

/-- The call fails before it changes anything, or has nothing to change, or
nothing fails. -/
def Call.Harmless (serde : Serde Data) (draw : Draw) (fault : Option (Fault Data))
    (host : Host Data) : Call → Prop
  | .createToken role label expiresAt randomHex =>
    host.CreateHarmless serde draw fault role label (generateToken role randomHex) expiresAt
  | .createTokenWithValue role label plaintext expiresAt =>
    host.CreateHarmless serde draw fault role label plaintext expiresAt
  | .delete id =>
    (∀ t ∈ host.store.tokens, t.id ≠ id) ∨
      Clear serde fault (host.store.tokens.filter fun t => t.id ≠ id)
  | .deleteRoot =>
    Clear serde fault (host.store.tokens.filter fun t => t.role ≠ .root) ∨
      (∀ t ∈ host.store.tokens, t.role ≠ .root) ∧ host.Spared serde fault

section
variable {Data : Type} {serde : Serde Data} {host before : Host Data}

theorem SameTokens.length_eq (h : SameTokens ts us) : ts.length = us.length := by
  simpa using congrArg List.length h

theorem allOrNothing_map (r : Except String α × Host Data) (f : α → β) :
    AllOrNothing serde before (r.1.map f, r.2) ↔ AllOrNothing serde before r := by
  obtain ⟨result, host⟩ := r
  cases result <;> simp [AllOrNothing, Except.map]

theorem allOrNothing_ok (a : α) : AllOrNothing serde before (.ok a, host) := by
  simp [AllOrNothing]

theorem persist_store (fault : Option (Fault Data)) (host : Host Data) :
    (host.persist serde fault).2.store = host.store := by
  unfold Host.persist
  split
  · rfl
  · split <;> rfl

theorem persist_clear (h : Clear serde fault host.store.tokens) :
    (host.persist serde fault).1 = .ok () := by
  obtain ⟨rfl, data, hdata⟩ := h
  simp [Host.persist, hdata]

theorem persist_fails (h : ¬ Clear serde fault host.store.tokens) :
    ∃ e, (host.persist serde fault).1 = .error e := by
  unfold Host.persist
  split
  · exact ⟨_, rfl⟩
  · rename_i data hdata
    split
    · exact ⟨_, rfl⟩
    · exact ⟨_, rfl⟩
    · exact ⟨_, rfl⟩
    · exact absurd ⟨rfl, data, hdata⟩ h

theorem persist_onDisk (laws : serde.ReadsBack) (h : ¬ Clear serde fault host.store.tokens) :
    (host.persist serde fault).2.OnDisk serde ↔ host.Spared serde fault := by
  unfold Host.persist Host.Spared
  cases hser : serde.toStringPretty host.store.tokens with
  | error e => rfl
  | ok data =>
    cases fault with
    | none => exact absurd ⟨rfl, data, hser⟩ h
    | some fault =>
      cases fault with
      | makeDir e => rfl
      | write e leftover =>
        by_cases htmp : host.store.tmp = host.store.path
        · simp [Host.OnDisk, htmp]
        · simp [Host.OnDisk, htmp, Function.update_of_ne (Ne.symm htmp)]
      | rename e =>
        by_cases htmp : host.store.tmp = host.store.path
        · have hreads : Reads serde host.store.path (some data) host.store.tokens :=
            ⟨⟨host.store.path, host.store.tokens⟩,
              by simp [AdminTokenStore.load, laws.reads hser], rfl⟩
          simpa [Host.OnDisk, htmp] using hreads
        · simp [Host.OnDisk, htmp, Function.update_of_ne (Ne.symm htmp)]

theorem allOrNothing_changed (hlen : tokens.length ≠ host.store.tokens.length) :
    AllOrNothing serde host ((host.setTokens tokens).persist serde fault) ↔
      Clear serde fault tokens := by
  constructor
  · intro h
    by_contra hclear
    obtain ⟨e, he⟩ : ∃ e, ((host.setTokens tokens).persist serde fault).1 = .error e :=
      persist_fails hclear
    have hsame := (h e he).1
    rw [persist_store] at hsame
    exact hlen hsame.length_eq
  · intro hclear e he
    have hok : ((host.setTokens tokens).persist serde fault).1 = .ok () := persist_clear hclear
    rw [hok] at he
    cases he

theorem allOrNothing_unchanged (laws : serde.ReadsBack) :
    AllOrNothing serde host (host.persist serde fault) ↔
      Clear serde fault host.store.tokens ∨ host.Spared serde fault := by
  by_cases hclear : Clear serde fault host.store.tokens
  · simp [AllOrNothing, persist_clear hclear, hclear]
  · obtain ⟨e, he⟩ := persist_fails hclear
    have hsame : SameTokens (host.persist serde fault).2.store.tokens host.store.tokens := by
      rw [persist_store]
      rfl
    simp [AllOrNothing, he, hsame, hclear, persist_onDisk laws hclear]

theorem create_allOrNothing (draw : Draw) (fault : Option (Fault Data)) (role : AdminRole)
    (label plaintext : String) (expiresAt : Option Nat) :
    AllOrNothing serde host
        (host.createTokenWithValue serde draw fault role label plaintext expiresAt) ↔
      host.CreateHarmless serde draw fault role label plaintext expiresAt := by
  unfold Host.createTokenWithValue Host.CreateHarmless
  cases hashToken draw plaintext with
  | error e =>
    have hsame : SameTokens host.store.tokens host.store.tokens := rfl
    simp [AllOrNothing, hsame]
  | ok tokenHash =>
    exact (allOrNothing_map _ _).trans (allOrNothing_changed (by simp))

theorem filter_length_ne {tokens : List AdminTokenRecord} {p : AdminTokenRecord → Bool}
    (h : ¬ ∀ t ∈ tokens, p t) : (tokens.filter p).length ≠ tokens.length := by
  intro hlen
  exact h (List.filter_eq_self.mp (List.filter_sublist.eq_of_length hlen))

theorem delete_allOrNothing (fault : Option (Fault Data)) (id : String) :
    AllOrNothing serde host (host.delete serde fault id) ↔
      (∀ t ∈ host.store.tokens, t.id ≠ id) ∨
        Clear serde fault (host.store.tokens.filter fun t => t.id ≠ id) := by
  unfold Host.delete
  by_cases habsent : ∀ t ∈ host.store.tokens, t.id ≠ id
  · have hall : host.store.tokens.filter (fun t => t.id ≠ id) = host.store.tokens :=
      List.filter_eq_self.mpr (by simpa using habsent)
    rw [hall, if_neg (Nat.lt_irrefl _)]
    exact iff_of_true (allOrNothing_ok _) (.inl habsent)
  · have hlen : (host.store.tokens.filter fun t => t.id ≠ id).length ≠
        host.store.tokens.length := filter_length_ne (by simpa using habsent)
    rw [if_pos (Nat.lt_of_le_of_ne (List.length_filter_le ..) hlen), or_iff_right habsent]
    exact (allOrNothing_map _ _).trans (allOrNothing_changed hlen)

theorem deleteRoot_allOrNothing (laws : serde.ReadsBack) (fault : Option (Fault Data)) :
    AllOrNothing serde host (host.deleteRoot serde fault) ↔
      Clear serde fault (host.store.tokens.filter fun t => t.role ≠ .root) ∨
        (∀ t ∈ host.store.tokens, t.role ≠ .root) ∧ host.Spared serde fault := by
  unfold Host.deleteRoot
  by_cases hnone : ∀ t ∈ host.store.tokens, t.role ≠ .root
  · have hall : host.store.tokens.filter (fun t => t.role ≠ .root) = host.store.tokens :=
      List.filter_eq_self.mpr (by simpa using hnone)
    rw [hall, and_iff_right hnone]
    exact allOrNothing_unchanged laws
  · have hlen : (host.store.tokens.filter fun t => t.role ≠ .root).length ≠
        host.store.tokens.length := filter_length_ne (by simpa using hnone)
    rw [or_iff_left fun h => hnone h.1]
    exact allOrNothing_changed hlen

end

/-- A call run alone that returns an error has left the records in memory as
they were and as a restart reads them exactly if it is harmless.

Premise: what is encoded reads back. -/
theorem all_or_nothing_iff (serde : Serde Data) (laws : serde.ReadsBack) (draw : Draw)
    (fault : Option (Fault Data)) (call : Call) (host : Host Data) :
    AllOrNothing serde host (call.run serde draw fault host) ↔
      call.Harmless serde draw fault host := by
  cases call with
  | createToken role label expiresAt randomHex =>
    calc AllOrNothing serde host _
      _ ↔ AllOrNothing serde host (host.createToken serde draw fault role label expiresAt
            randomHex) := allOrNothing_map _ _
      _ ↔ AllOrNothing serde host (host.createTokenWithValue serde draw fault role label
            (generateToken role randomHex) expiresAt) := allOrNothing_map _ _
      _ ↔ _ := create_allOrNothing ..
  | createTokenWithValue role label plaintext expiresAt =>
    exact (allOrNothing_map _ _).trans (create_allOrNothing ..)
  | delete id =>
    exact (allOrNothing_map (host.delete serde fault id) _).trans (delete_allOrNothing fault id)
  | deleteRoot =>
    exact (allOrNothing_map (host.deleteRoot serde fault) _).trans
      (deleteRoot_allOrNothing laws fault)

-- ============================================================
-- Calls that leave half of their work

def emptyHost : Host (List AdminTokenRecord) := ⟨⟨tokensJson, []⟩, fun _ => none⟩

def oneToken : Host (List AdminTokenRecord) :=
  (Call.run plainSerde plainDraw none (.createTokenWithValue .admin "a" "secret" none)
    emptyHost).2

/-- A creation that fails before anything is stored. -/
def unhashed : Except String Reply × Host (List AdminTokenRecord) :=
  Call.run plainSerde ⟨fun _ => .error "salt", "id-b", 2⟩ none
    (.createTokenWithValue .admin "b" "other" none) oneToken

theorem all_or_nothing_unhashed :
    unhashed.1.isOk = false ∧ AllOrNothing plainSerde oneToken unhashed :=
  ⟨rfl, (all_or_nothing_iff plainSerde plainSerde_lawful.readsBack
    ⟨fun _ => .error "salt", "id-b", 2⟩ none (.createTokenWithValue .admin "b" "other" none)
    oneToken).mpr ⟨_, rfl, rfl⟩⟩

def failedCreate : Except String Reply × Host (List AdminTokenRecord) :=
  Call.run plainSerde plainDraw (some (.rename "denied"))
    (.createTokenWithValue .admin "a" "secret" none) emptyHost

def failedDelete : Except String Reply × Host (List AdminTokenRecord) :=
  Call.run plainSerde plainDraw (some (.makeDir "denied")) (.delete "id-a") oneToken

/-- A creation that returned an error leaves a token that verifies until a
restart, and a deletion that returned one has the token refused until then. -/
theorem failed_calls_half_done :
    failedCreate.1 = .error "rename failed: denied" ∧
      (verify (· == ·) "secret" 2 failedCreate.2.store.tokens).1.isSome ∧
      ¬ AllOrNothing plainSerde emptyHost failedCreate ∧
    failedDelete.1 = .error "mkdir failed: denied" ∧
      (verify (· == ·) "secret" 2 oneToken.store.tokens).1.isSome ∧
      (verify (· == ·) "secret" 2 failedDelete.2.store.tokens).1 = none ∧
      ¬ AllOrNothing plainSerde oneToken failedDelete := by
  refine ⟨rfl, rfl, ?_, rfl, rfl, rfl, ?_⟩
  · intro h
    exact absurd (h _ rfl).1 (by decide)
  · intro h
    exact absurd (h _ rfl).1 (by decide)

end Rinfra.Admin
