import Rinfra.Http.Auth

/-!
# The list of HTTP middlewares

`builtinHttpMiddlewares` builds the list from the configuration and the
environment. Sorted by their orders, lower ones are inner layers, so a request
meets the last one first.
-/

namespace Rinfra.Http

open Admin (startsWith stripPrefix)

-- ---------------------------------------------------------------------------
-- The configuration
-- ---------------------------------------------------------------------------

structure AuthMiddlewareConfig where
  enabled : Bool
  jwtSecretEnv : String
  excludePaths : List String

structure RateLimitMiddlewareConfig where
  enabled : Bool
  keyStrategy : String

structure CorsConfig where
  enabled : Bool
  allowOrigins : List String
  deriving DecidableEq, Repr

structure RequestIdConfig where
  enabled : Bool

structure TimeoutConfig where
  enabled : Bool
  timeoutSecs : Nat

structure MiddlewareConfig where
  cors : CorsConfig
  requestId : RequestIdConfig
  timeout : TimeoutConfig
  auth : AuthMiddlewareConfig
  rateLimit : RateLimitMiddlewareConfig

structure MetricsConfig where
  enabled : Bool
  endpoint : String

/-- Which of the plugins that middlewares rest on the state holds. -/
structure AppState where
  metricsHandle : Bool
  ratelimiter : Bool
  auditLogger : Bool
  i18n : Bool

/-- A variable of the process environment, as `std::env::var` reads it. -/
inductive Var
  | unset
  | notUnicode
  | value (s : String)
  deriving DecidableEq, Repr

-- ---------------------------------------------------------------------------
-- Middlewares
-- ---------------------------------------------------------------------------

inductive HttpMiddleware
  | metrics (endpoint : String)
  | auth (state : AuthState)
  | rateLimit (keyStrategy : String)
  | trace
  | otel
  | requestId
  | timeout (timeoutSecs : Nat)
  | audit
  | i18nError
  | cors (config : CorsConfig)
  deriving DecidableEq, Repr

namespace HttpMiddleware

def name : HttpMiddleware → String
  | metrics _ => "metrics"
  | auth _ => "auth"
  | rateLimit _ => "rate_limit"
  | trace => "trace"
  | otel => "otel"
  | requestId => "request_id"
  | timeout _ => "timeout"
  | audit => "audit"
  | i18nError => "i18n_error"
  | cors _ => "cors"

def order : HttpMiddleware → Nat
  | i18nError => 8
  | metrics _ => 10
  | auth _ => 20
  | rateLimit _ => 25
  | trace => 30
  | otel => 35
  | requestId => 40
  | timeout _ => 50
  | audit => 55
  | cors _ => 60

end HttpMiddleware

def authSecret (env : String → Var) (config : AuthMiddlewareConfig) : String :=
  match env config.jwtSecretEnv with
  | .value secret => secret
  -- a warning is logged
  | .unset | .notUnicode => ""

def builtinHttpMiddlewares (env : String → Var) (config : MiddlewareConfig)
    (metrics : MetricsConfig) (telemetryEnabled : Bool) (appState : AppState) :
    List HttpMiddleware :=
  (if metrics.enabled ∧ appState.metricsHandle then [.metrics metrics.endpoint] else []) ++
  (if config.auth.enabled then
    [.auth ⟨authSecret env config.auth, config.auth.excludePaths⟩] else []) ++
  (if config.rateLimit.enabled ∧ appState.ratelimiter then
    [.rateLimit config.rateLimit.keyStrategy] else []) ++
  [.trace] ++
  (if telemetryEnabled then [.otel] else []) ++
  (if config.requestId.enabled then [.requestId] else []) ++
  (if config.timeout.enabled then [.timeout config.timeout.timeoutSecs] else []) ++
  (if config.cors.enabled then [.cors config.cors] else []) ++
  (if appState.auditLogger then [.audit] else []) ++
  (if appState.i18n then [.i18nError] else [])

/-- `HttpMiddlewareRegistry::register`: a name is taken once. -/
def register (registry : List HttpMiddleware) (mw : HttpMiddleware) :
    Except AppError (List HttpMiddleware) :=
  if registry.any fun m => m.name = mw.name then
    .error ⟨.pluginAlreadyRegistered, s!"http middleware '{mw.name}' already registered"⟩
  else .ok (registry ++ [mw])

/-- The listener registers what it can; a refusal is only logged. -/
def registerAll (registry : List HttpMiddleware) : List HttpMiddleware → List HttpMiddleware
  | [] => registry
  | mw :: mws => match register registry mw with
    | .ok registry => registerAll registry mws
    | .error _ => registerAll registry mws

def sorted (registry : List HttpMiddleware) : List HttpMiddleware :=
  registry.mergeSort fun a b => a.order ≤ b.order

-- ---------------------------------------------------------------------------
-- A request on its way in
-- ---------------------------------------------------------------------------

variable {Claims : Type}

/-- What a layer does with a request, where `others` stands for the layers that
are not the one of JWT. -/
def layer (decode : Decode Claims) (now : Nat)
    (others : HttpMiddleware → Request Claims → Passage Claims) :
    HttpMiddleware → Request Claims → Passage Claims
  | .auth state, req => authMiddleware decode now state req
  | mw, req => others mw req

/-- A request that meets the given layers, the outermost first. -/
def passes (layer : HttpMiddleware → Request Claims → Passage Claims) :
    List HttpMiddleware → Request Claims → Passage Claims
  | [], req => .next req
  | mw :: mws, req => match layer mw req with
    | .next req => passes layer mws req
    | .answered resp => .answered resp

/-- The router that `apply_all` makes of the registry: the middleware applied
last is the outermost layer. -/
def router (layer : HttpMiddleware → Request Claims → Passage Claims)
    (registry : List HttpMiddleware) : Request Claims → Passage Claims :=
  passes layer (sorted registry).reverse

/-- The other layers leave the path and the authorization of a request alone. -/
def LeavesAuth (others : HttpMiddleware → Request Claims → Passage Claims) : Prop :=
  ∀ mw req req', others mw req = .next req' →
    req'.path = req.path ∧ req'.headers "authorization" = req.headers "authorization"

-- ---------------------------------------------------------------------------
-- What a request has passed
-- ---------------------------------------------------------------------------

theorem passes_next {lay : HttpMiddleware → Request Claims → Passage Claims}
    {Q : Request Claims → Prop} (hkeeps : ∀ mw req req', lay mw req = .next req' → Q req → Q req')
    (h : passes lay mws req = .next req') (hq : Q req) :
    ∀ mw ∈ mws, ∃ r r', Q r ∧ lay mw r = .next r' := by
  induction mws generalizing req with
  | nil => exact fun mw hmw => absurd hmw List.not_mem_nil
  | cons mw mws ih =>
    rw [passes] at h
    split at h
    · rename_i r hr
      intro mw' hmw
      rcases List.mem_cons.mp hmw with rfl | hmw
      · exact ⟨req, r, hq, hr⟩
      · exact ih h (hkeeps mw req r hr hq) mw' hmw
    · cases h

theorem passes_all {lay : HttpMiddleware → Request Claims → Passage Claims}
    {Q : Request Claims → Prop}
    (h : ∀ mw ∈ mws, ∀ req, Q req → ∃ req', lay mw req = .next req' ∧ Q req') (hq : Q req) :
    ∃ req', passes lay mws req = .next req' := by
  induction mws generalizing req with
  | nil => exact ⟨req, rfl⟩
  | cons mw mws ih =>
    obtain ⟨r, hr, hqr⟩ := h mw List.mem_cons_self req hq
    rw [passes, hr]
    exact ih (fun mw' hmw => h mw' (List.mem_cons_of_mem _ hmw)) hqr

theorem mem_router {registry : List HttpMiddleware} :
    mw ∈ (sorted registry).reverse ↔ mw ∈ registry := by
  simp [sorted]

-- ---------------------------------------------------------------------------
-- The list that is built
-- ---------------------------------------------------------------------------

theorem auth_mem_builtin :
    .auth state ∈ builtinHttpMiddlewares env config metrics telemetryEnabled appState ↔
      config.auth.enabled ∧
        state = ⟨authSecret env config.auth, config.auth.excludePaths⟩ := by
  simp [builtinHttpMiddlewares]

theorem registerAll_eq (h : ((registry ++ mws).map HttpMiddleware.name).Nodup) :
    registerAll registry mws = registry ++ mws := by
  induction mws generalizing registry with
  | nil => exact (List.append_nil registry).symm
  | cons mw mws ih =>
    have hfresh : register registry mw = .ok (registry ++ [mw]) := by
      refine if_neg ?_
      simp only [List.map_append, List.map_cons, List.nodup_append, List.mem_map,
        List.mem_cons] at h
      simp only [List.any_eq_true, decide_eq_true_eq, not_exists, not_and]
      intro m hm hname
      exact h.2.2 _ ⟨m, hm, rfl⟩ _ (.inl rfl) hname
    rw [registerAll, hfresh]
    have hnodup : (((registry ++ [mw]) ++ mws).map HttpMiddleware.name).Nodup := by
      rwa [List.append_assoc]
    exact (ih hnodup).trans (List.append_assoc ..)

/-- No name is taken twice, so the listener registers the whole list. -/
theorem builtin_names_nodup :
    ((builtinHttpMiddlewares env config metrics telemetryEnabled appState).map
      HttpMiddleware.name).Nodup := by
  have hsub : ((builtinHttpMiddlewares env config metrics telemetryEnabled appState).map
      HttpMiddleware.name).Sublist (["metrics"] ++ ["auth"] ++ ["rate_limit"] ++ ["trace"] ++
        ["otel"] ++ ["request_id"] ++ ["timeout"] ++ ["cors"] ++ ["audit"] ++ ["i18n_error"]) := by
    simp only [builtinHttpMiddlewares, List.map_append]
    repeat' apply List.Sublist.append
    all_goals first | split <;> simp [HttpMiddleware.name] | exact List.Sublist.refl _
  exact hsub.nodup (by decide)

theorem registerAll_builtin :
    registerAll [] (builtinHttpMiddlewares env config metrics telemetryEnabled appState) =
      builtinHttpMiddlewares env config metrics telemetryEnabled appState :=
  registerAll_eq builtin_names_nodup

-- ---------------------------------------------------------------------------
-- Failing closed
-- ---------------------------------------------------------------------------

/-- The JWT library accepts exactly the unexpired tokens that verify under the
key. -/
def Accepts (decode : Decode Claims) (verifies : List UInt8 → String → Prop)
    (unexpired : String → Nat → Prop) : Prop :=
  ∀ key token now, (∃ claims, decode key token now = .ok claims) ↔
    verifies key token ∧ unexpired token now

/-- The operator has set the variable that holds the secret. -/
def Configured (env : String → Var) (config : AuthMiddlewareConfig) (secret : String) : Prop :=
  env config.jwtSecretEnv = .value secret ∧ secret ≠ ""

/-- Whatever the other layers do, a request on a path that is not excluded gets
to the handler only with a token of a configured secret. -/
def FailsClosed (decode : Decode Claims) (verifies : List UInt8 → String → Prop)
    (env : String → Var) (config : MiddlewareConfig) (metrics : MetricsConfig)
    (telemetryEnabled : Bool) (appState : AppState) : Prop :=
  ∀ others, LeavesAuth others → ∀ now req req',
    ¬(config.auth.excludePaths.any fun p => startsWith req.path p) →
    router (layer decode now others) (registerAll []
      (builtinHttpMiddlewares env config metrics telemetryEnabled appState)) req = .next req' →
    ∃ secret token, Configured env config.auth secret ∧ bearer req = some token ∧
      verifies (utf8Bytes secret) token

theorem bearer_congr {req req' : Request Claims}
    (h : req'.headers "authorization" = req.headers "authorization") :
    bearer req' = bearer req := by
  simp [bearer, Request.header, h]

theorem layer_keeps (ho : LeavesAuth others) (h : layer decode now others mw req = .next req') :
    req'.path = req.path ∧ req'.headers "authorization" = req.headers "authorization" := by
  cases mw with
  | auth state =>
    simp only [layer, authMiddleware] at h
    split at h
    · cases h
      exact ⟨rfl, rfl⟩
    · split at h
      · cases h
      · split at h <;> cases h
        exact ⟨rfl, rfl⟩
  | _ => exact ho _ _ _ h

theorem stripPrefix_append (p s : String) : stripPrefix (p ++ s) p = some s := by
  simp [stripPrefix, startsWith, String.toList_append]

def forged (path token : String) : Request Claims :=
  ⟨path, fun name => if name = "authorization" then some (some ("Bearer " ++ token)) else none,
    none, none⟩

theorem bearer_forged : bearer (forged path token : Request Claims) = some token := by
  simp [bearer, Request.header, forged, stripPrefix_append]

theorem authSecret_eq_of_not_configured (h : ∀ secret, ¬Configured env config secret) :
    authSecret env config = "" := by
  unfold authSecret
  split
  · rename_i secret hvar
    by_contra hne
    exact h secret ⟨hvar, hne⟩
  · rfl
  · rfl

/-- With the empty secret, a token that anybody can sign gets to the handler. -/
theorem forged_passes (metrics : MetricsConfig) (telemetryEnabled : Bool) (appState : AppState)
    (path : String) (haccepts : Accepts decode verifies unexpired)
    (htoken : verifies [] token ∧ unexpired token now)
    (hsecret : authSecret env config.auth = "") :
    ∃ req', router (layer decode now fun _ req => .next req) (registerAll []
      (builtinHttpMiddlewares env config metrics telemetryEnabled appState))
        (forged path token) = .next req' := by
  refine passes_all (Q := fun req => bearer req = some token) ?_ bearer_forged
  intro mw hmw req hreq
  rw [mem_router, registerAll_builtin] at hmw
  cases mw with
  | auth state =>
    obtain ⟨-, rfl⟩ := auth_mem_builtin.mp hmw
    obtain ⟨claims, hclaims⟩ := (haccepts [] token now).mpr htoken
    have hkey : utf8Bytes (authSecret env config.auth) = [] := by rw [hsecret]; decide
    simp only [layer, authMiddleware, hreq, hkey, hclaims]
    split
    · exact ⟨req, rfl, hreq⟩
    · exact ⟨_, rfl, hreq⟩
  | _ => exact ⟨req, rfl, hreq⟩

/-- JWT auth fails closed exactly where a secret is configured, or where no path
is left to protect. -/
theorem failsClosed_iff (haccepts : Accepts decode verifies unexpired)
    (hforge : ∃ token now, verifies [] token ∧ unexpired token now)
    (henabled : config.auth.enabled) :
    FailsClosed decode verifies env config metrics telemetryEnabled appState ↔
      (∃ secret, Configured env config.auth secret) ∨
        ∀ path, config.auth.excludePaths.any fun p => startsWith path p := by
  constructor
  · intro hclosed
    by_contra h
    rw [not_or, not_exists, not_forall] at h
    obtain ⟨hunset, path, hpath⟩ := h
    obtain ⟨token, now, htoken⟩ := hforge
    obtain ⟨req', hnext⟩ := forged_passes metrics telemetryEnabled appState path haccepts htoken
      (authSecret_eq_of_not_configured hunset)
    obtain ⟨secret, -, hconfigured, -⟩ := hclosed _ (fun _ _ _ h => by cases h; exact ⟨rfl, rfl⟩)
      now _ req' hpath hnext
    exact hunset secret hconfigured
  · rintro (⟨secret, hvar, hne⟩ | hcovered) others hothers now req req' hpath hnext
    · obtain ⟨r, r', ⟨hrpath, hrheader⟩, hr⟩ := passes_next
        (Q := fun r => r.path = req.path ∧ r.headers "authorization" = req.headers "authorization")
        (fun mw r r' h hq => by
          obtain ⟨hpath, hheader⟩ := layer_keeps hothers h
          exact ⟨hpath.trans hq.1, hheader.trans hq.2⟩) hnext ⟨rfl, rfl⟩ _
        (mem_router.mpr (registerAll_builtin ▸ auth_mem_builtin.mpr ⟨henabled, rfl⟩))
      rcases authMiddleware_next hr with hcovers | ⟨token, claims, htoken, hclaims⟩
      · rw [AuthState.covers, hrpath] at hcovers
        exact absurd hcovers hpath
      · have hsecret : authSecret env config.auth = secret := by simp [authSecret, hvar]
        rw [hsecret] at hclaims
        rw [bearer_congr hrheader] at htoken
        exact ⟨secret, token, ⟨hvar, hne⟩, htoken, ((haccepts _ _ _).mp ⟨claims, hclaims⟩).1⟩
    · exact absurd (hcovered req.path) hpath

/-- A token for the subject `a`, signed with the empty key. -/
def emptyKeyToken : String :=
  "eyJ0eXAiOiJKV1QiLCJhbGciOiJIUzI1NiJ9.eyJzdWIiOiJhIiwiZXhwIjo0MTAyNDQ0ODAwfQ." ++
    "n6G9QmK83xZTui0nib9Jo-BJ60MG1G9zW89diO62tHs"

def expiryOfToken : Nat := 4102444800

/-- The library on that token: its subject, under the empty key, until it
expires. -/
def decodeToken : Decode String := fun key token now =>
  if key = [] ∧ token = emptyKeyToken then
    if now < expiryOfToken then .ok "a" else .error ⟨true, "ExpiredSignature"⟩
  else .error ⟨false, "InvalidSignature"⟩

theorem decodeToken_accepts :
    Accepts decodeToken (fun key token => key = [] ∧ token = emptyKeyToken)
      (fun _ now => now < expiryOfToken) := by
  intro key token now
  rw [decodeToken]
  split
  · split <;> simp_all
  · simp_all

def jwtConfig : MiddlewareConfig where
  cors := ⟨true, ["*"]⟩
  requestId := ⟨true⟩
  timeout := ⟨true, 30⟩
  auth := ⟨true, "RINFRA_JWT_SECRET", ["/health", "/healthz", "/readyz", "/metrics"]⟩
  rateLimit := ⟨false, "ip"⟩

/-- Without the variable, the token passes as one of the operator's. -/
theorem empty_secret_accepts_forged :
    ¬FailsClosed decodeToken (fun key token => key = [] ∧ token = emptyKeyToken)
      (fun _ => .unset) jwtConfig ⟨false, "/metrics"⟩ false ⟨false, false, false, false⟩ := by
  intro hclosed
  have hforged : ∃ req', router (layer decodeToken 0 fun _ req => .next req) (registerAll []
      (builtinHttpMiddlewares (fun _ => .unset) jwtConfig ⟨false, "/metrics"⟩ false
        ⟨false, false, false, false⟩)) (forged "/admin" emptyKeyToken) = .next req' :=
    forged_passes _ _ _ _ decodeToken_accepts ⟨⟨rfl, rfl⟩, by decide⟩ rfl
  obtain ⟨req', hnext⟩ := hforged
  obtain ⟨secret, -, hconfigured, -⟩ := hclosed _ (fun _ _ _ h => by cases h; exact ⟨rfl, rfl⟩)
    0 _ req' (by decide) hnext
  cases hconfigured.1

theorem failsClosed_iff_jwt :
    FailsClosed decodeToken (fun key token => key = [] ∧ token = emptyKeyToken)
      (fun _ => .value "s3cret") jwtConfig ⟨false, "/metrics"⟩ false ⟨false, false, false, false⟩ ↔
      (∃ secret, Configured (fun _ => .value "s3cret") jwtConfig.auth secret) ∨
        ∀ path, jwtConfig.auth.excludePaths.any fun p => startsWith path p :=
  failsClosed_iff decodeToken_accepts ⟨emptyKeyToken, 0, ⟨rfl, rfl⟩, by decide⟩ rfl

end Rinfra.Http
