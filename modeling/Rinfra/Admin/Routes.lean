import Rinfra.Admin.Builder
import Mathlib.Algebra.Group.Nat.Defs

/-!
# Requests at the admin router

Any number of requests run side by side. A request passes the layer in one
step; audit logging lets others run before its handler starts. A handler
decides what it does from what it was handed, and changes the store only by the
store's own calls, whose steps interleave with everything else. Request `h`
makes its first call under the number `2 * h` and its second under the next.
-/

namespace Rinfra.Admin

-- ============================================================
-- Responses

structure CreateTokenRequest where
  label : String
  expiresInDays : Option Nat
  deriving DecidableEq, Repr

inductive Payload
  | none
  | tokens (tokens : List AdminTokenInfo)
  | created (token : String) (info : AdminTokenInfo)
  | deleted (tokenId : String)
  | rotated (token : String) (info : AdminTokenInfo) (message : String)
  deriving DecidableEq, Repr

/-- `plain` is a status without an `ApiResponse`: the layer's, the router's or
an extractor's. `aborted` is a handler that panicked, `other` whatever a
handler without the store says. -/
inductive Response
  | plain (status : Nat)
  | api (status : Nat) (code message : String) (data : Payload)
  | aborted
  | other
  deriving DecidableEq, Repr

def Response.success (data : Payload) : Response := .api 200 "OK" "ok" data

def Response.internal (e : String) : Response := .api 500 "INTERNAL" e .none

def requireRoot (info : Option AdminTokenInfo) : Except Response AdminTokenInfo :=
  match info with
  | some info =>
    if info.role = .root then .ok info
    else .error (.api 403 "FORBIDDEN" "root role required" .none)
  | none => .error (.api 401 "UNAUTHORIZED" "admin token required" .none)

-- ============================================================
-- Handlers

inductive Progress
  | idle
  | inside (handler : Handler) (params : List String) (body : Except Nat CreateTokenRequest)
      (info : Option AdminTokenInfo)
  | creating (token : String)
  | deleting (tokenId : String)
  | rotating
  | recreating (token : String)
  | answered (response : Response)
  deriving DecidableEq

/-- What a handler does next: it answers, or makes a call and waits for it. -/
inductive Action (Data : Type)
  | answer (response : Response)
  | call (e : Event Data) (next : Progress)

/-- A result of `u64` arithmetic. With overflow checks one that does not fit
panics, without them it wraps around. -/
def u64 (overflowChecks : Bool) (n : Nat) : Option Nat :=
  if n < 2 ^ 64 then some n
  else if overflowChecks then none
  else some (n % 2 ^ 64)

def tokenExpiry (overflowChecks : Bool) (now days : Nat) : Option Nat := do
  let hours ← u64 overflowChecks (days * 24)
  let minutes ← u64 overflowChecks (hours * 60)
  let seconds ← u64 overflowChecks (minutes * 60)
  let millis ← u64 overflowChecks (seconds * 1000)
  u64 overflowChecks (now + millis)

def listTokensHandler (info : Option AdminTokenInfo) (tokens : List AdminTokenRecord) :
    Action Data :=
  match requireRoot info with
  | .error response => .answer response
  | .ok _ => .answer (.success (.tokens (tokens.map AdminTokenRecord.info)))

def createTokenHandler (overflowChecks : Bool) (c : Nat) (info : Option AdminTokenInfo)
    (body : Except Nat CreateTokenRequest) (clock : Nat) (draw : Draw) (randomHex : String) :
    Action Data :=
  match body with
  | .error status => .answer (.plain status)
  | .ok body =>
    match requireRoot info with
    | .error response => .answer response
    | .ok _ =>
      let create (expiresAt : Option Nat) : Action Data :=
        let token := generateToken .admin randomHex
        .call (.create c .admin body.label expiresAt (draw.hashPassword token) draw.id draw.now)
          (.creating token)
      match body.expiresInDays with
      | none => create none
      | some days =>
        match tokenExpiry overflowChecks clock days with
        | none => .answer .aborted
        | some expiresAt => create (some expiresAt)

def deleteTokenHandler (c : Nat) (info : Option AdminTokenInfo) (tokenId : Except Nat String) :
    Action Data :=
  match tokenId with
  | .error status => .answer (.plain status)
  | .ok tokenId =>
    match requireRoot info with
    | .error response => .answer response
    | .ok rootInfo =>
      if tokenId = rootInfo.id then
        .answer (.api 400 "BAD_REQUEST"
          "cannot delete your own root token — use rotate instead" .none)
      else .call (.delete c tokenId) (.deleting tokenId)

def rotateRootHandler (c : Nat) (info : Option AdminTokenInfo) : Action Data :=
  match requireRoot info with
  | .error response => .answer response
  | .ok _ => .call (.deleteRoot c) .rotating

/-- A handler goes on when its call has returned. -/
def Progress.resume (c : Nat) (result : Except String Reply) (draw : Draw) (randomHex : String) :
    Progress → Option (Action Data)
  | .creating token =>
    match result with
    | .ok (.created info) => some (.answer (.success (.created token info)))
    | .error e => some (.answer (.internal e))
    | _ => none
  | .deleting tokenId =>
    match result with
    | .ok (.deleted true) => some (.answer (.success (.deleted tokenId)))
    | .ok (.deleted false) =>
      some (.answer (.api 404 "NOT_FOUND" s!"token {tokenId} not found" .none))
    | .error e => some (.answer (.internal e))
    | _ => none
  | .rotating =>
    match result with
    | .ok .rootDeleted =>
      let token := generateToken .root randomHex
      some (.call (.create (c + 1) .root "root" none (draw.hashPassword token) draw.id draw.now)
        (.recreating token))
    | .error e => some (.answer (.internal e))
    | _ => none
  | .recreating token =>
    match result with
    | .ok (.created info) =>
      some (.answer (.success (.rotated token info
        "root token rotated — old token is now invalid")))
    | .error e => some (.answer (.internal e))
    | _ => none
  | _ => none

-- ============================================================
-- Requests side by side

/-- What does not change while the router runs. `pathParam` is the `Path`
extractor, with the status of its refusal. -/
structure Setup (Data : Type) where
  serde : Serde Data
  verifyToken : String → String → Bool
  router : Router
  overflowChecks : Bool
  pathParam : String → Except Nat String

structure Backend (Data : Type) where
  world : World Data
  requests : Nat → Progress

inductive Step (Data : Type)
  | call (h : Nat) (req : Request (Except Nat CreateTokenRequest)) (now : Nat)
  | handle (h : Nat) (clock : Nat) (draw : Draw) (randomHex : String)
  | persist (e : Event Data)
  | resume (h : Nat) (draw : Draw) (randomHex : String)

/-- The steps that a call takes after it has changed the records. -/
def Event.ofPersist : Event Data → Bool
  | .snapshot _ | .makeDir .. | .write .. | .rename .. => true
  | _ => false

def Outcome.progress (body : Except Nat CreateTokenRequest) : Outcome → Progress
  | .served => .answered .other
  | .unauthorized => .answered (.plain 401)
  | .notFound => .answered (.plain 404)
  | .methodNotAllowed => .answered (.plain 405)
  | .reached handler params info => .inside handler params body info

def startHandler (setup : Setup Data) (c : Nat) (tokens : List AdminTokenRecord)
    (handler : Handler) (params : List String) (body : Except Nat CreateTokenRequest)
    (info : Option AdminTokenInfo) (clock : Nat) (draw : Draw) (randomHex : String) :
    Action Data :=
  match handler with
  | .listTokens => listTokensHandler info tokens
  | .createToken =>
    createTokenHandler setup.overflowChecks c info body clock draw randomHex
  | .deleteToken => deleteTokenHandler c info (setup.pathParam (params.headD ""))
  | .rotateRoot => rotateRootHandler c info
  | _ => .answer .other

def Progress.waitsFor (h : Nat) : Progress → Option Nat
  | .creating _ | .deleting _ | .rotating => some (2 * h)
  | .recreating _ => some (2 * h + 1)
  | _ => none

def Backend.goto (b : Backend Data) (h : Nat) (p : Progress) : Backend Data :=
  { b with requests := Function.update b.requests h p }

def Backend.act (setup : Setup Data) (b : Backend Data) (h : Nat) :
    Action Data → Option (Backend Data)
  | .answer response => some (b.goto h (.answered response))
  | .call e next => do
    let world ← step setup.serde setup.verifyToken b.world e
    pure ({ b with world }.goto h next)

def Backend.step (setup : Setup Data) (b : Backend Data) : Step Data → Option (Backend Data)
  | .call h req now => do
    let .idle := b.requests h | none
    let (outcome, tokens) := setup.router.call setup.verifyToken req now b.world.store.tokens
    pure ({ b with world := b.world.setTokens tokens }.goto h (outcome.progress req.body))
  | .handle h clock draw randomHex => do
    let .inside handler params body info := b.requests h | none
    b.act setup h (startHandler setup (2 * h) b.world.store.tokens handler params body info clock
      draw randomHex)
  | .persist e =>
    if e.ofPersist then do
      let world ← Admin.step setup.serde setup.verifyToken b.world e
      pure { b with world }
    else none
  | .resume h draw randomHex => do
    let c ← (b.requests h).waitsFor h
    let .done result := b.world.calls c | none
    let action ← (b.requests h).resume (2 * h) result draw randomHex
    b.act setup h action

def Backend.start (world : World Data) : Backend Data := ⟨world, fun _ => .idle⟩

-- ============================================================
-- What a step can do

inductive Decides (setup : Setup Data) (b : Backend Data) : Step Data → Nat → Action Data → Prop
  | start (hin : b.requests h = .inside handler params body info) :
      Decides setup b (.handle h clock draw randomHex) h
        (startHandler setup (2 * h) b.world.store.tokens handler params body info clock draw
          randomHex)
  | resume (hwaits : (b.requests h).waitsFor h = some c)
      (hdone : b.world.calls c = .done result)
      (hgo : (b.requests h).resume (2 * h) result draw randomHex = some action) :
      Decides setup b (.resume h draw randomHex) h action

/-- The calls that handlers make, each where it stands when it makes it. -/
inductive StoreCall (setup : Setup Data) (b : Backend Data) :
    Step Data → Nat → Event Data → Progress → Prop
  | create (hin : b.requests h = .inside .createToken params body (some root))
      (hroot : root.role = .root) :
      StoreCall setup b (.handle h clock draw randomHex) h
        (.create (2 * h) .admin label expiresAt tokenHash draw.id draw.now) (.creating token)
  | delete (hin : b.requests h = .inside .deleteToken params body (some root))
      (hroot : root.role = .root)
      (hparam : setup.pathParam (params.headD "") = .ok tokenId) (hother : tokenId ≠ root.id) :
      StoreCall setup b (.handle h clock draw randomHex) h (.delete (2 * h) tokenId)
        (.deleting tokenId)
  | deleteRoot (hin : b.requests h = .inside .rotateRoot params body (some root))
      (hroot : root.role = .root) :
      StoreCall setup b (.handle h clock draw randomHex) h (.deleteRoot (2 * h)) .rotating
  | createRoot (hin : b.requests h = .rotating)
      (hdone : b.world.calls (2 * h) = .done (.ok .rootDeleted)) :
      StoreCall setup b (.resume h draw randomHex) h
        (.create (2 * h + 1) .root "root" none
          (draw.hashPassword (generateToken .root randomHex)) draw.id draw.now)
        (.recreating (generateToken .root randomHex))

section
variable {Data : Type} {setup : Setup Data} {b b' : Backend Data}

@[simp] theorem backend_goto_same : (b.goto h p).requests h = p := Function.update_self ..

theorem backend_goto_of_ne (hne : h' ≠ h) : (b.goto h p).requests h' = b.requests h' :=
  Function.update_of_ne hne ..

theorem requireRoot_ok : requireRoot info = .ok root ↔ info = some root ∧ root.role = .root := by
  unfold requireRoot
  split
  · split
    · grind
    · grind
  · simp

theorem step_cases (hs : b.step setup e = some b') :
    (∃ h req now outcome tokens, e = .call h req now ∧ b.requests h = .idle ∧
      setup.router.call setup.verifyToken req now b.world.store.tokens = (outcome, tokens) ∧
      b' = { b with world := b.world.setTokens tokens }.goto h (outcome.progress req.body)) ∨
    (∃ h action, Decides setup b e h action ∧ b.act setup h action = some b') ∨
    (∃ e' world, e = .persist e' ∧ e'.ofPersist = true ∧
      step setup.serde setup.verifyToken b.world e' = some world ∧
      b' = { b with world := world }) := by
  cases e with
  | call h req now =>
    simp only [Backend.step] at hs
    split at hs
    · rename_i hidle
      cases hs
      exact .inl ⟨h, req, now, _, _, rfl, hidle, rfl, rfl⟩
    · cases hs
  | handle h clock draw randomHex =>
    simp only [Backend.step] at hs
    split at hs
    · rename_i handler params body info hin
      exact .inr (.inl ⟨h, _, .start hin, hs⟩)
    · cases hs
  | persist e' =>
    simp only [Backend.step] at hs
    split at hs
    · rename_i hpersist
      obtain ⟨world, hworld, hs⟩ := Option.bind_eq_some_iff.mp hs
      cases hs
      exact .inr (.inr ⟨e', world, rfl, hpersist, hworld, rfl⟩)
    · cases hs
  | resume h draw randomHex =>
    simp only [Backend.step] at hs
    obtain ⟨c, hwaits, hs⟩ := Option.bind_eq_some_iff.mp hs
    split at hs
    · rename_i result hdone
      obtain ⟨action, hgo, hs⟩ := Option.bind_eq_some_iff.mp hs
      exact .inr (.inl ⟨h, action, .resume hwaits hdone hgo, hs⟩)
    · cases hs

theorem act_answer (ha : b.act setup h (.answer response) = some b') :
    b' = b.goto h (.answered response) := by
  cases ha
  rfl

theorem act_call (ha : b.act setup h (.call e' next) = some b') :
    ∃ world, step setup.serde setup.verifyToken b.world e' = some world ∧
      b' = { b with world := world }.goto h next := by
  obtain ⟨world, hworld, ha⟩ := Option.bind_eq_some_iff.mp ha
  cases ha
  exact ⟨world, hworld, rfl⟩

theorem startHandler_call
    (ha : startHandler setup c tokens handler params body info clock draw randomHex =
      .call e' next) :
    ∃ root, info = some root ∧ root.role = .root ∧
      ((handler = .createToken ∧ ∃ label expiresAt tokenHash token,
          e' = .create c .admin label expiresAt tokenHash draw.id draw.now ∧
            next = .creating token) ∨
        (handler = .deleteToken ∧ ∃ tokenId, setup.pathParam (params.headD "") = .ok tokenId ∧
          tokenId ≠ root.id ∧ e' = .delete c tokenId ∧ next = .deleting tokenId) ∨
        handler = .rotateRoot ∧ e' = .deleteRoot c ∧ next = .rotating) := by
  cases handler with
  | createToken =>
    simp only [startHandler, createTokenHandler] at ha
    split at ha
    · cases ha
    · split at ha
      · cases ha
      · rename_i root hroot
        obtain ⟨rfl, hrole⟩ := requireRoot_ok.mp hroot
        refine ⟨root, rfl, hrole, .inl ⟨rfl, ?_⟩⟩
        split at ha
        · cases ha
          exact ⟨_, _, _, _, rfl, rfl⟩
        · split at ha <;> cases ha
          exact ⟨_, _, _, _, rfl, rfl⟩
  | deleteToken =>
    simp only [startHandler, deleteTokenHandler] at ha
    split at ha
    · cases ha
    · rename_i tokenId hparam
      split at ha
      · cases ha
      · rename_i root hroot
        obtain ⟨rfl, hrole⟩ := requireRoot_ok.mp hroot
        split at ha
        · cases ha
        · rename_i hother
          cases ha
          exact ⟨root, rfl, hrole, .inr (.inl ⟨rfl, tokenId, hparam, hother, rfl, rfl⟩)⟩
  | rotateRoot =>
    simp only [startHandler, rotateRootHandler] at ha
    split at ha
    · cases ha
    · rename_i root hroot
      obtain ⟨rfl, hrole⟩ := requireRoot_ok.mp hroot
      cases ha
      exact ⟨root, rfl, hrole, .inr (.inr ⟨rfl, rfl, rfl⟩)⟩
  | listTokens =>
    simp only [startHandler, listTokensHandler] at ha
    split at ha <;> cases ha
  | _ => cases ha

theorem resume_call {p : Progress} (ha : p.resume c result draw randomHex = some (.call e' next)) :
    p = .rotating ∧ result = .ok .rootDeleted ∧
      e' = .create (c + 1) .root "root" none (draw.hashPassword (generateToken .root randomHex))
        draw.id draw.now ∧
      next = .recreating (generateToken .root randomHex) := by
  cases p with
  | rotating =>
    simp only [Progress.resume] at ha
    split at ha <;> cases ha
    exact ⟨rfl, rfl, rfl, rfl⟩
  | creating token | deleting token | recreating token =>
    simp only [Progress.resume] at ha
    split at ha <;> cases ha
  | _ => cases ha

theorem Decides.storeCall (hd : Decides setup b e h (.call e' next)) :
    StoreCall setup b e h e' next := by
  generalize haction : Action.call e' next = action at hd
  cases hd with
  | start hin =>
    obtain ⟨root, rfl, hroot, hkind⟩ := startHandler_call haction.symm
    rcases hkind with ⟨rfl, _, _, _, _, rfl, rfl⟩ | ⟨rfl, tokenId, hparam, hother, rfl, rfl⟩ |
      ⟨rfl, rfl, rfl⟩
    · exact .create hin hroot
    · exact .delete hin hroot hparam hother
    · exact .deleteRoot hin hroot
  | resume hwaits hdone hgo =>
    subst haction
    obtain ⟨hp, rfl, rfl, rfl⟩ := resume_call hgo
    rw [hp] at hwaits
    cases hwaits
    exact .createRoot hp hdone

theorem step_request (hs : b.step setup e = some b') (h : Nat) :
    b'.requests h = b.requests h ∨
    (∃ req now, e = .call h req now ∧ b'.requests h =
      (setup.router.call setup.verifyToken req now b.world.store.tokens).1.progress req.body) ∨
    (∃ response, Decides setup b e h (.answer response) ∧ b'.requests h = .answered response) ∨
    ∃ e' next, StoreCall setup b e h e' next ∧ b'.requests h = next ∧
      b'.world.store.tokens = e'.applied setup.verifyToken b.world.store.tokens := by
  rcases step_cases hs with ⟨h', req, now, outcome, tokens, rfl, -, hcall, rfl⟩ |
    ⟨h', action, hd, ha⟩ | ⟨e', world, rfl, -, -, rfl⟩
  · by_cases hh : h = h'
    · subst hh
      exact .inr (.inl ⟨req, now, rfl, by rw [hcall, backend_goto_same]⟩)
    · exact .inl (backend_goto_of_ne hh)
  · cases action with
    | answer response =>
      cases act_answer ha
      by_cases hh : h = h'
      · subst hh
        exact .inr (.inr (.inl ⟨response, hd, backend_goto_same⟩))
      · exact .inl (backend_goto_of_ne hh)
    | call e' next =>
      obtain ⟨world, hworld, rfl⟩ := act_call ha
      by_cases hh : h = h'
      · subst hh
        exact .inr (.inr (.inr ⟨e', next, hd.storeCall, backend_goto_same,
          (step_frame hworld).1⟩))
      · exact .inl (backend_goto_of_ne hh)
  · exact .inl rfl

end

end Rinfra.Admin
