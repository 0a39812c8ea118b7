import Rinfra.Admin.Operations

/-!
# The auth layer and its bootstrap

`AdminAuthLayer.call` decides whether a request goes on to the router and what
the handler learns of its token. `bootstrap_admin_auth` makes the store the
layer asks.
-/

namespace Rinfra.Admin

-- ============================================================
-- Requests

def startsWith (s p : String) : Bool := p.toList.isPrefixOf s.toList

def stripPrefix (s p : String) : Option String :=
  if startsWith s p then some (String.ofList (s.toList.drop p.toList.length)) else none

inductive Method
  | get | head | post | put | delete | other (name : String)
  deriving DecidableEq, Repr

/-- `headers` gives the first value under a name, itself `none` where `to_str`
refuses it. -/
structure Request (Body : Type) where
  method : Method
  path : String
  headers : String → Option (Option String)
  body : Body

def extractToken (req : Request Body) : Option String :=
  match req.headers "x-admin-token" with
  | some (some s) => some s
  | _ =>
    match req.headers "authorization" with
    | some (some s) => stripPrefix s "Bearer "
    | _ => none

-- ============================================================
-- The layer

structure AdminAuthLayer where
  excludePaths : List String
  deriving DecidableEq, Repr

/-- A request goes on to the inner service, with the token's infos where one
was asked for, or is answered with an empty 401. -/
inductive Admission
  | inner (info : Option AdminTokenInfo)
  | unauthorized
  deriving DecidableEq, Repr

def AdminAuthLayer.covers (layer : AdminAuthLayer) (path : String) : Bool :=
  layer.excludePaths.any fun p => startsWith path p

def AdminAuthLayer.call (verifyToken : String → String → Bool) (layer : AdminAuthLayer)
    (req : Request Body) (now : Nat) (tokens : List AdminTokenRecord) :
    Admission × List AdminTokenRecord :=
  if layer.covers req.path then (.inner none, tokens)
  else
    match extractToken req with
    | none => (.unauthorized, tokens)
    | some token =>
      match verify verifyToken token now tokens with
      | (some info, tokens) => (.inner (some info), tokens)
      | (none, tokens) => (.unauthorized, tokens)

def AdminTokenRecord.usedAt (r : AdminTokenRecord) (now : Nat) : AdminTokenRecord :=
  { r with lastUsedAt := some now }

/-- The request carries a token of this record, which has not expired. -/
structure Presents (verifyToken : String → String → Bool) (req : Request Body) (now : Nat)
    (record : AdminTokenRecord) : Prop where
  token : ∃ token, extractToken req = some token ∧ verifyToken token record.tokenHash = true
  unexpired : record.expired now = false

theorem verify_some (h : (verify verifyToken plaintext now tokens).1 = some info) :
    ∃ record ∈ tokens, record.expired now = false ∧
      verifyToken plaintext record.tokenHash = true ∧ info = (record.usedAt now).info := by
  induction tokens with
  | nil => cases h
  | cons record records ih =>
    simp only [verify] at h
    split at h
    · rename_i hfits
      cases h
      simp only [Bool.and_eq_true, Bool.not_eq_true'] at hfits
      exact ⟨record, List.mem_cons_self, hfits.1, hfits.2, rfl⟩
    · obtain ⟨found, hmem, hfound⟩ := ih h
      exact ⟨found, List.mem_cons_of_mem _ hmem, hfound⟩

theorem call_inner_some
    (h : AdminAuthLayer.call verifyToken layer req now tokens = (.inner (some info), tokens')) :
    ∃ record ∈ tokens, Presents verifyToken req now record ∧
      info = (record.usedAt now).info := by
  unfold AdminAuthLayer.call at h
  split at h
  · cases h
  · split at h
    · cases h
    · rename_i token htoken
      split at h
      · rename_i info' tokens'' hverify
        cases h
        obtain ⟨record, hmem, hexp, hfits, hinfo⟩ := verify_some (congrArg Prod.fst hverify)
        exact ⟨record, hmem, ⟨⟨token, htoken, hfits⟩, hexp⟩, hinfo⟩
      · cases h

theorem call_inner_none
    (h : AdminAuthLayer.call verifyToken layer req now tokens = (.inner none, tokens')) :
    layer.covers req.path = true := by
  unfold AdminAuthLayer.call at h
  split at h
  · assumption
  · split at h
    · cases h
    · split at h <;> cases h

theorem call_sameTokens (verifyToken : String → String → Bool) (layer : AdminAuthLayer)
    (req : Request Body) (now : Nat) (tokens : List AdminTokenRecord) :
    SameTokens (layer.call verifyToken req now tokens).2 tokens := by
  unfold AdminAuthLayer.call
  split
  · rfl
  · split
    · rfl
    · rename_i token _
      have hsame := verify_sameTokens verifyToken token now tokens
      split <;> rename_i hverify <;> rw [hverify] at hsame <;> exact hsame

-- ============================================================
-- The bootstrap

structure AdminAuthConfig where
  enabled : Bool
  tokenFile : PathBuf
  rootTokenEnv : String
  excludePaths : List String

/-- What the process finds when it starts: the variables that are set, what
reading the token file gives, the files, and what a new token draws. -/
structure Startup (Data : Type) where
  env : String → Option String
  read : Option (Except String Data)
  files : PathBuf → Option Data
  draw : Draw
  randomHex : String
  fault : Option (Fault Data)

def bootstrapAdminAuth (serde : Serde Data) (startup : Startup Data) (config : AdminAuthConfig) :
    Except String AdminTokenStore × (PathBuf → Option Data) :=
  match AdminTokenStore.load serde config.tokenFile startup.read with
  | .error e => (.error e, startup.files)
  | .ok store =>
    let host : Host Data := ⟨store, startup.files⟩
    -- an empty variable counts as none
    match (startup.env config.rootTokenEnv).filter (· ≠ ""), store.hasRoot with
    | some envToken, false =>
      let (result, host) := host.createTokenWithValue serde startup.draw startup.fault .root
        "root (from env)" envToken none
      (result.map fun _ => host.store, host.files)
    | none, false =>
      let (result, host) := host.createToken serde startup.draw startup.fault .root "root" none
        startup.randomHex
      (result.map fun _ => host.store, host.files)
    | _, true => (.ok host.store, host.files)

end Rinfra.Admin
