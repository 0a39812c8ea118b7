import Rinfra.Admin.Routes
import Mathlib.Tactic.Ring

/-!
# How long a token lasts

The lifetime of a token is a number of days in the request. The handler turns
it into an instant by four products and a sum of `u64`, none of them checked;
the store compares that instant with the clock whenever the token is verified.
-/

namespace Rinfra.Admin

def dayMillis : Nat := 86400000

/-- What the handler does with a request for a token of `days` days. -/
def tokenAction (overflowChecks : Bool) (clock days c : Nat) (info : Option AdminTokenInfo)
    (label : String) (draw : Draw) (randomHex : String) : Action Data :=
  createTokenHandler overflowChecks c info (.ok ⟨label, some days⟩) clock draw randomHex

def Action.Rejects (action : Action Data) : Prop :=
  ∃ response, action = .answer response ∧ response ≠ .aborted

def Action.Creates (action : Action Data) (expiresAt : Nat) : Prop :=
  ∃ c label hash id now next,
    action = .call (.create c .admin label (some expiresAt) hash id now) next

def Action.applied (verifyToken : String → String → Bool) (tokens : List AdminTokenRecord) :
    Action Data → List AdminTokenRecord
  | .answer _ => tokens
  | .call e _ => e.applied verifyToken tokens

/-- A lifetime of `days` days, asked for at `clock`, is kept to the millisecond. -/
structure LifetimeExact (Data : Type) (verifyToken : String → String → Bool)
    (overflowChecks : Bool) (clock days : Nat) : Prop where
  /-- The request is rejected, or the expiry is the exact one. -/
  stored : ∀ c info label draw randomHex,
    (tokenAction overflowChecks clock days c info label draw randomHex : Action Data).Rejects ∨
    (tokenAction overflowChecks clock days c info label draw randomHex : Action Data).Creates
      (clock + days * dayMillis)
  /-- Whatever has become of the other records and of the record's last use, its
  token is good up to that instant and no longer. -/
  verified : ∀ c info label draw randomHex tokens record,
    (tokenAction overflowChecks clock days c info label draw randomHex : Action Data).applied
      verifyToken tokens = tokens ++ [record] →
    ∀ later : List AdminTokenRecord, ∀ kept ∈ later, kept.forgetUse = record.forgetUse →
    ∀ token, verifyToken token kept.tokenHash = true →
    (∀ other ∈ later, verifyToken token other.tokenHash = true → other = kept) →
    ∀ t, (verify verifyToken token t later).1.isSome ↔ t ≤ clock + days * dayMillis
  /-- Nobody who asks for less gets more. -/
  monotone : ∀ shorter ≤ days, ∀ c info label draw randomHex expiry expiry',
    (tokenAction overflowChecks clock shorter c info label draw randomHex :
      Action Data).Creates expiry →
    (tokenAction overflowChecks clock days c info label draw randomHex :
      Action Data).Creates expiry' → expiry ≤ expiry'

-- ============================================================
-- The arithmetic

theorem u64_of_lt (h : n < 2 ^ 64) : u64 overflowChecks n = some n := if_pos h

theorem u64_lt (h : u64 overflowChecks n = some m) : m < 2 ^ 64 := by
  unfold u64 at h
  split at h
  · cases h
    assumption
  · split at h
    · cases h
    · cases h
      exact Nat.mod_lt _ (Nat.two_pow_pos 64)

theorem tokenExpiry_lt (h : tokenExpiry overflowChecks clock days = some expiry) :
    expiry < 2 ^ 64 := by
  simp only [tokenExpiry, Option.bind_eq_bind, Option.bind_eq_some_iff] at h
  obtain ⟨hours, _, minutes, _, seconds, _, millis, _, h⟩ := h
  exact u64_lt h

theorem tokenExpiry_of_fits (overflowChecks : Bool) (h : clock + days * dayMillis < 2 ^ 64) :
    tokenExpiry overflowChecks clock days = some (clock + days * dayMillis) := by
  have hmillis : days * 24 * 60 * 60 * 1000 = days * dayMillis := by
    rw [dayMillis]
    ring
  rw [← hmillis] at h ⊢
  -- every product is at most the last one
  simp only [tokenExpiry, Option.bind_eq_bind]
  rw [u64_of_lt (n := days * 24) (by omega), Option.bind_some,
    u64_of_lt (n := days * 24 * 60) (by omega), Option.bind_some,
    u64_of_lt (n := days * 24 * 60 * 60) (by omega), Option.bind_some,
    u64_of_lt (n := days * 24 * 60 * 60 * 1000) (by omega), Option.bind_some, u64_of_lt h]

-- ============================================================
-- The handler and the store

section
variable {Data : Type} {verifyToken : String → String → Bool} {overflowChecks : Bool}
  {clock days : Nat} {info : Option AdminTokenInfo}

theorem tokenAction_error (h : requireRoot info = .error response) :
    (tokenAction overflowChecks clock days c info label draw randomHex : Action Data) =
      .answer response := by
  simp only [tokenAction, createTokenHandler, h]

theorem tokenAction_root (c : Nat) (label : String) (draw : Draw)
    (randomHex : String) (h : requireRoot info = .ok root)
    (hexp : tokenExpiry overflowChecks clock days = some expiry) :
    ∃ token, (tokenAction overflowChecks clock days c info label draw randomHex : Action Data) =
      .call (.create c .admin label (some expiry) (draw.hashPassword token) draw.id draw.now)
        (.creating token) := by
  simp only [tokenAction, createTokenHandler, h, hexp]
  exact ⟨_, rfl⟩

theorem Action.Creates.tokenExpiry_eq
    (h : (tokenAction overflowChecks clock days c info label draw randomHex :
      Action Data).Creates expiresAt) :
    tokenExpiry overflowChecks clock days = some expiresAt := by
  obtain ⟨c', label', hash, id, now, next, h⟩ := h
  simp only [tokenAction, createTokenHandler] at h
  split at h
  · cases h
  · split at h
    · cases h
    · rename_i hexp
      cases h
      exact hexp

theorem requireRoot_not_aborted (h : requireRoot info = .error response) :
    response ≠ .aborted := by
  unfold requireRoot at h
  split at h
  · split at h <;> cases h
    simp
  · cases h
    simp

theorem verify_isSome :
    (verify verifyToken token now tokens).1.isSome ↔
      ∃ record ∈ tokens, record.expired now = false ∧
        verifyToken token record.tokenHash = true := by
  constructor
  · intro h
    obtain ⟨info, hinfo⟩ := Option.isSome_iff_exists.mp h
    obtain ⟨record, hmem, hexp, hfits, -⟩ := verify_some hinfo
    exact ⟨record, hmem, hexp, hfits⟩
  · rintro ⟨record, hmem, hexp, hfits⟩
    induction tokens with
    | nil => cases hmem
    | cons head records ih =>
      simp only [verify]
      split
      · rfl
      · rename_i hnot
        rcases List.mem_cons.mp hmem with rfl | hmem
        · simp [hexp, hfits] at hnot
        · exact ih hmem

theorem expired_eq_false (h : record.expiresAt = some expiry) :
    AdminTokenRecord.expired record t = false ↔ t ≤ expiry := by
  simp [AdminTokenRecord.expired, h]

theorem verify_isSome_iff {kept : AdminTokenRecord} (hmem : kept ∈ later)
    (hexp : kept.expiresAt = some expiry) (hfits : verifyToken token kept.tokenHash = true)
    (honly : ∀ other ∈ later, verifyToken token other.tokenHash = true → other = kept) :
    (verify verifyToken token t later).1.isSome ↔ t ≤ expiry := by
  rw [verify_isSome, ← expired_eq_false hexp]
  constructor
  · rintro ⟨record, hrecord, hlive, hfit⟩
    exact honly record hrecord hfit ▸ hlive
  · intro hlive
    exact ⟨kept, hmem, hlive, hfits⟩

theorem expiresAt_of_applied
    (h : (tokenAction overflowChecks clock days c info label draw randomHex : Action Data).applied
      verifyToken tokens = tokens ++ [record]) :
    ∃ expiry, tokenExpiry overflowChecks clock days = some expiry ∧
      record.expiresAt = some expiry := by
  cases hroot : requireRoot info with
  | error response =>
    rw [tokenAction_error hroot] at h
    simp [Action.applied] at h
  | ok root =>
    cases hexp : tokenExpiry overflowChecks clock days with
    | none =>
      simp [tokenAction, createTokenHandler, hroot, hexp, Action.applied] at h
    | some expiry =>
      obtain ⟨token, haction⟩ := tokenAction_root c label draw randomHex hroot hexp
      rw [haction] at h
      cases hhash : draw.hashPassword token with
      | error e => simp [Action.applied, Event.applied, hhash] at h
      | ok tokenHash =>
        simp only [Action.applied, Event.applied, hhash, List.append_cancel_left_eq,
          List.cons.injEq, and_true] at h
        exact ⟨expiry, rfl, by rw [← h]⟩

theorem expiresAt_forgetUse {a b : AdminTokenRecord} (h : a.forgetUse = b.forgetUse) :
    a.expiresAt = b.expiresAt := by
  have hfield : a.forgetUse.expiresAt = b.forgetUse.expiresAt := by rw [h]
  exact hfield

theorem LifetimeExact.fits (h : LifetimeExact Data verifyToken overflowChecks clock days) :
    clock + days * dayMillis < 2 ^ 64 := by
  let root : AdminTokenInfo := ⟨"id-r", .root, "root", 0, none, none⟩
  rcases h.stored 0 (some root) "" plainDraw "" with ⟨response, hanswer, hresponse⟩ | hcreates
  · simp only [tokenAction, createTokenHandler] at hanswer
    split at hanswer
    · rename_i hroot
      cases hroot
    · split at hanswer
      · cases hanswer
        exact absurd rfl hresponse
      · cases hanswer
  · exact tokenExpiry_lt hcreates.tokenExpiry_eq

/-- A lifetime is exact if and only if the instant at which it ends is a `u64`. -/
theorem lifetime_exact_iff (verifyToken : String → String → Bool) (overflowChecks : Bool)
    (clock days : Nat) :
    LifetimeExact Data verifyToken overflowChecks clock days ↔
      clock + days * dayMillis < 2 ^ 64 := by
  refine ⟨LifetimeExact.fits, fun hfits => ?_⟩
  have hexp := tokenExpiry_of_fits overflowChecks hfits
  constructor
  · intro c info label draw randomHex
    cases hroot : requireRoot info with
    | error response =>
      exact .inl ⟨response, tokenAction_error hroot, requireRoot_not_aborted hroot⟩
    | ok root =>
      obtain ⟨token, haction⟩ := tokenAction_root c label draw randomHex hroot hexp
      exact .inr ⟨_, _, _, _, _, _, haction⟩
  · intro c info label draw randomHex tokens record happlied later kept hmem hsame token hfit
      honly t
    obtain ⟨expiry, hexp', hrecord⟩ := expiresAt_of_applied happlied
    cases hexp.symm.trans hexp'
    exact verify_isSome_iff hmem ((expiresAt_forgetUse hsame).trans hrecord) hfit honly
  · intro shorter hshorter c info label draw randomHex expiry expiry' hcreates hcreates'
    have hle : clock + shorter * dayMillis ≤ clock + days * dayMillis :=
      Nat.add_le_add_left (Nat.mul_le_mul_right _ hshorter) _
    have hshort := tokenExpiry_of_fits overflowChecks (hle.trans_lt hfits)
    cases hshort.symm.trans hcreates.tokenExpiry_eq
    cases hexp.symm.trans hcreates'.tokenExpiry_eq
    exact hle

/-- Without overflow checks a lifetime of 213503982335 days ends within the day
it is asked for, before a lifetime of one day does; with them the request
panics. -/
theorem long_lifetime_wraps :
    tokenExpiry false 1700000000000 213503982335 = some 1700034448384 ∧
    tokenExpiry false 1700000000000 1 = some 1700086400000 ∧
    tokenExpiry true 1700000000000 213503982335 = none ∧
    ¬ LifetimeExact Unit (· == ·) false 1700000000000 213503982335 ∧
    ¬ LifetimeExact Unit (· == ·) true 1700000000000 213503982335 := by
  refine ⟨by decide, by decide, by decide, fun h => ?_, fun h => ?_⟩
  · exact absurd h.fits (by decide)
  · exact absurd h.fits (by decide)

end

end Rinfra.Admin
