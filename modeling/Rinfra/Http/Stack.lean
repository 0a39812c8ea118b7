import Mathlib.Data.List.Sort
import Rinfra.Audit.FileLogger
import Rinfra.Http.I18nError
import Rinfra.Http.Middleware
import Rinfra.Http.RateLimit

/-!
# The middleware stack as one service

Every middleware of the list wraps the router, the lowest order first, so that a
request goes through them from the highest to the lowest and the response back.
`flow` says in one piece what comes of a request; the stack that
`builtin_http_middlewares` and `apply_all` build is that, whatever is switched
on.

The layers of the libraries are parameters, and `Parts.Lawful` is what their
documentation says of them.
-/

namespace Rinfra.Http

open Audit (AuditEvent AuditOutcome)
open Lib.Json (Value)

structure HttpRequest (Claims : Type) extends Request Claims where
  method : String

/-- What is behind the audit layer: the application, the limiter, and the labels
of the requests counted so far. -/
structure Inner (σ β : Type) where
  app : σ
  limits : String → β
  counted : List (String × String × Nat)

/-- An event given to the audit logger, by the application or by the audit layer. -/
inductive Logged
  | application (event : AuditEvent)
  | request (event : AuditEvent)

def Logged.request? : Logged → Option AuditEvent
  | .application _ => none
  | .request event => some event

structure World (σ β : Type) extends Inner σ β where
  events : List Logged

def World.requests {σ β : Type} (w : World σ β) : List AuditEvent :=
  w.events.filterMap Logged.request?

def World.left {σ β : Type} (w : World σ β) (inner : Inner σ β) (own : List AuditEvent) :
    World σ β :=
  ⟨inner, w.events ++ own.map .application⟩

abbrev Service (Claims σ β : Type) := HttpRequest Claims → World σ β → RawResponse × World σ β

/-- An application answers, and leaves a state and events of its own behind. -/
abbrev App (Claims σ β : Type) :=
  HttpRequest Claims → World σ β → RawResponse × Inner σ β × List AuditEvent

def App.service {Claims σ β : Type} (app : App Claims σ β) : Service Claims σ β := fun req w =>
  let (response, inner, own) := app req w
  (response, w.left inner own)

/-- What surrounds one request: the clocks, fresh identifiers, whether it is
unanswered after so many seconds, and what an answer given up then leaves behind. -/
structure Env (σ β : Type) where
  now : Nat
  moment : Moment
  requestId : String
  eventId : String
  timestampMs : Nat
  durationMs : Nat
  late : (secs : Nat) → Bool
  abandoned : World σ β → Inner σ β × List AuditEvent

def Env.giveUp {σ β : Type} (env : Env σ β) (w : World σ β) : World σ β :=
  w.left (env.abandoned w).1 (env.abandoned w).2

/-- `AllowOrigin::any()`, `AllowOrigin::list(origins)` -/
inductive AllowOrigin
  | any
  | list (origins : List String)

/-- What the layers are built on: the limiter and the catalogs of the state, and
the libraries. -/
structure Parts (Claims σ β : Type) where
  decode : Decode Claims
  limiter : Limiter β
  serde : SerdeJson
  i18n : I18n
  /-- The text of the metrics page. -/
  render : List (String × String × Nat) → List UInt8
  /-- A route that answers GET with a text. -/
  get : (World σ β → List UInt8) → Service Claims σ β
  /-- A request is for a route. -/
  routed : (route : String) → HttpRequest Claims → Bool
  /-- `merge` of one route into a router, and the path that it matches to a request. -/
  merge : (route : String) → (page router : Service Claims σ β) → Service Claims σ β
  matchedPath : (route : String) → HttpRequest Claims → Option String
  /-- `merge` takes a route beside those of the application. -/
  accepts : String → Bool
  /-- `TraceLayer` -/
  trace : Service Claims σ β → Service Claims σ β
  /-- `TimeoutLayer` with a status and a number of seconds, and what it answers itself. -/
  timeout : (status secs : Nat) → Env σ β → Service Claims σ β → Service Claims σ β
  timedOut : (status : Nat) → RawResponse
  /-- `HeaderValue::from_str` takes the text. -/
  isHeaderValue : String → Bool
  /-- `AllowOrigin::list` panics. -/
  listPanics : List String → Bool
  /-- `CorsLayer`, what it answers itself, and what it makes of an answer. -/
  cors : AllowOrigin → Service Claims σ β → Service Claims σ β
  preflight : AllowOrigin → HttpRequest Claims → RawResponse
  allow : AllowOrigin → HttpRequest Claims → RawResponse → RawResponse

structure Parts.Lawful {Claims σ β : Type} (p : Parts Claims σ β) : Prop where
  get_reads : ∀ text req w, (p.get text req w).2 = w
  merge_eq : ∀ route page router req w,
    p.merge route page router req w = if p.routed route req then page req w else router req w
  trace_eq : ∀ next, p.trace next = next
  timeout_eq : ∀ status secs env next req w, p.timeout status secs env next req w =
    if env.late secs then (p.timedOut status, env.giveUp w) else next req w
  star_isHeaderValue : p.isHeaderValue "*" = true
  /-- A wildcard has no place in a list. -/
  listPanics_iff : ∀ origins, p.listPanics origins = true ↔ "*" ∈ origins
  /-- A request with OPTIONS is answered on the spot. -/
  cors_eq : ∀ origin next req w, p.cors origin next req w =
    if req.method = "OPTIONS" then (p.preflight origin req, w)
    else (p.allow origin req (next req w).1, (next req w).2)
  allow_status : ∀ origin req response, (p.allow origin req response).status = response.status

-- ---------------------------------------------------------------------------
-- Responses
-- ---------------------------------------------------------------------------

/-- A response made with `Json`; the data of an error are written as null. -/
def Response.raw (serde : SerdeJson) (r : Response) : RawResponse where
  status := r.status
  headers := r.headers.map fun (name, value) => (name, utf8Bytes value)
  body := some (serde.toVec (.object
    [("code", .string r.body.code), ("data", .null), ("message", .string r.body.message)]))

def RawResponse.setHeader (r : RawResponse) (name : String) (value : List UInt8) : RawResponse :=
  { r with headers := (name, value) :: r.headers.filter fun h => h.1 ≠ name }

-- ---------------------------------------------------------------------------
-- The layers
-- ---------------------------------------------------------------------------

section
variable {Claims σ β : Type} (p : Parts Claims σ β) (env : Env σ β)

/-- `i18n_error_middleware` -/
def i18nLayer (next : Service Claims σ β) : Service Claims σ β := fun req w =>
  let (response, w) := next req w
  (i18nErrorMiddleware p.serde p.i18n req.toRequest fun _ => response, w)

/-- `metrics_router` -/
def metricsRoute : Service Claims σ β := p.get fun w => p.render w.counted

/-- `http_metrics_middleware` around the router with the metrics route. -/
def metricsLayer (endpoint : String) (next : Service Claims σ β) : Service Claims σ β :=
  fun req w =>
    let path := (p.matchedPath endpoint req).getD req.path
    let (response, w) := p.merge endpoint (metricsRoute p) next req w
    (response, { w with counted := w.counted ++ [(req.method, path, response.status)] })

/-- `auth_middleware` -/
def authLayer (state : AuthState) (next : Service Claims σ β) : Service Claims σ β :=
  fun req w =>
    match authMiddleware p.decode env.now state req.toRequest with
    | .next r => next { req with toRequest := r } w
    | .answered response => (response.raw p.serde, w)

/-- `rate_limit_middleware` -/
def rateLimitLayer (keyStrategy : String) (next : Service Claims σ β) : Service Claims σ β :=
  fun req w =>
    let (passage, limits) :=
      rateLimitMiddleware p.limiter keyStrategy env.moment req.toRequest w.limits
    let w := { w with limits }
    match passage with
    | .next r => next { req with toRequest := r } w
    | .answered response => (response.raw p.serde, w)

/-- `RequestIdService` -/
def requestIdLayer (next : Service Claims σ β) : Service Claims σ β := fun req w =>
  let (response, w) := next req w
  (response.setHeader "x-request-id" (utf8Bytes env.requestId), w)

def extractClientIp (req : HttpRequest Claims) : Option String :=
  let value := match req.headers "x-forwarded-for" with
    | some value => some value
    | none => req.headers "x-real-ip"
  value.join.map fun s => String.ofList (trim (s.toList.takeWhile (· ≠ ',')))

def auditOutcome (status : Nat) : AuditOutcome :=
  if 200 ≤ status ∧ status < 300 then .success
  else if status = 401 ∨ status = 403 then .denied
  else .failure

def auditEvent (req : HttpRequest Claims) (status : Nat) : AuditEvent where
  id := env.eventId
  timestampMs := env.timestampMs
  actor := (extractClientIp req).getD "unknown"
  action := "http." ++ req.method.map Char.toLower
  resource := "http"
  resourceId := some req.path
  outcome := auditOutcome status
  ip := extractClientIp req
  details := .object [("duration_ms", .number (.posInt env.durationMs)),
    ("method", .string req.method), ("path", .string req.path),
    ("status", .number (.posInt status))]

/-- `audit_middleware`; that an event cannot be written is only logged. -/
def auditLayer (next : Service Claims σ β) : Service Claims σ β := fun req w =>
  let (response, w) := next req w
  (response, { w with events := w.events ++ [.request (auditEvent env req response.status)] })

/-- `build_cors_layer`: a single `*` allows any origin, else those of the list that can
be a header. -/
def buildCorsLayer (config : CorsConfig) : AllowOrigin :=
  if config.allowOrigins = ["*"] then .any
  else .list (config.allowOrigins.filter p.isHeaderValue)

def AllowOrigin.panics : AllowOrigin → Bool
  | .any => false
  | .list origins => p.listPanics origins

def HttpMiddleware.wrap (next : Service Claims σ β) : HttpMiddleware → Service Claims σ β
  | .i18nError => i18nLayer p next
  | .metrics endpoint => metricsLayer p endpoint next
  | .auth state => authLayer p env state next
  | .rateLimit keyStrategy => rateLimitLayer p env keyStrategy next
  | .trace => p.trace next
  -- it sets the parent of the current span
  | .otel => next
  | .requestId => requestIdLayer env next
  | .timeout timeoutSecs => p.timeout 503 timeoutSecs env next
  | .audit => auditLayer env next
  | .cors config => p.cors (buildCorsLayer p config) next

/-- The libraries panic at a route that is taken and at a wildcard in a list. -/
def HttpMiddleware.panics : HttpMiddleware → Bool
  | .metrics endpoint => !p.accepts endpoint
  | .cors config => (buildCorsLayer p config).panics p
  | .i18nError | .auth _ | .rateLimit _ | .trace | .otel | .requestId | .timeout _ | .audit => false

/-- `HttpMiddleware::apply`, or `none` where it panics. -/
def HttpMiddleware.apply (next : Service Claims σ β) (mw : HttpMiddleware) :
    Option (Service Claims σ β) :=
  if mw.panics p then none else some (mw.wrap p env next)

def applyAll (registry : List HttpMiddleware) (router : Service Claims σ β) :
    Option (Service Claims σ β) :=
  (sorted registry).foldlM (HttpMiddleware.apply p env) router

end

-- ---------------------------------------------------------------------------
-- The order of the layers
-- ---------------------------------------------------------------------------

section
variable (vars : String → Var) (config : MiddlewareConfig) (metrics : MetricsConfig)
  (telemetryEnabled : Bool) (appState : AppState)

/-- What is switched on, the innermost first. -/
def stackOrder : List HttpMiddleware :=
  (if appState.i18n then [.i18nError] else []) ++
  ((if metrics.enabled ∧ appState.metricsHandle then [.metrics metrics.endpoint] else []) ++
  ((if config.auth.enabled then
    [.auth ⟨authSecret vars config.auth, config.auth.excludePaths⟩] else []) ++
  ((if config.rateLimit.enabled ∧ appState.ratelimiter then
    [.rateLimit config.rateLimit.keyStrategy] else []) ++
  ([.trace] ++
  ((if telemetryEnabled then [.otel] else []) ++
  ((if config.requestId.enabled then [.requestId] else []) ++
  ((if config.timeout.enabled then [.timeout config.timeout.timeoutSecs] else []) ++
  ((if appState.auditLogger then [.audit] else []) ++
  (if config.cors.enabled then [.cors config.cors] else [])))))))))

theorem stackOrder_perm : (stackOrder vars config metrics telemetryEnabled appState).Perm
    (builtinHttpMiddlewares vars config metrics telemetryEnabled appState) := by
  simp only [stackOrder, builtinHttpMiddlewares, List.append_assoc]
  refine List.perm_append_comm.trans ?_
  simp only [List.append_assoc]
  refine .append_left _ (.append_left _ (.append_left _ (.append_left _ (.append_left _
    (.append_left _ (.append_left _ ?_))))))
  rw [← List.append_assoc, ← List.append_assoc]
  exact .append_right _ List.perm_append_comm

theorem stackOrder_sorted : (stackOrder vars config metrics telemetryEnabled appState).Pairwise
    fun a b => a.order < b.order := by
  have hsub : ((stackOrder vars config metrics telemetryEnabled appState).map
      HttpMiddleware.order).Sublist ([8] ++ ([10] ++ ([20] ++ ([25] ++ ([30] ++ ([35] ++ ([40] ++
        ([50] ++ ([55] ++ [60]))))))))) := by
    simp only [stackOrder, List.map_append]
    repeat' apply List.Sublist.append
    all_goals first | split <;> simp [HttpMiddleware.order] | exact List.Sublist.refl _
  exact List.pairwise_map.mp ((show [8, 10, 20, 25, 30, 35, 40, 50, 55, 60].Pairwise (· < ·) by
    decide).sublist hsub)

theorem sorted_builtin :
    sorted (builtinHttpMiddlewares vars config metrics telemetryEnabled appState) =
      stackOrder vars config metrics telemetryEnabled appState := by
  have hstrict := stackOrder_sorted vars config metrics telemetryEnabled appState
  have hperm := (List.mergeSort_perm (builtinHttpMiddlewares vars config metrics telemetryEnabled
    appState) fun a b => decide (a.order ≤ b.order)).trans
      (stackOrder_perm vars config metrics telemetryEnabled appState).symm
  have hnodup : ((stackOrder vars config metrics telemetryEnabled appState).map
      HttpMiddleware.order).Nodup :=
    List.pairwise_map.mpr (hstrict.imp Nat.ne_of_lt)
  have hanti : ∀ a b : HttpMiddleware,
      a ∈ sorted (builtinHttpMiddlewares vars config metrics telemetryEnabled appState) →
      b ∈ stackOrder vars config metrics telemetryEnabled appState →
      decide (a.order ≤ b.order) = true → decide (b.order ≤ a.order) = true → a = b := by
    intro a b ha hb hab hba
    refine List.inj_on_of_nodup_map hnodup (hperm.subset ha) hb (Nat.le_antisymm ?_ ?_)
    · exact of_decide_eq_true hab
    · exact of_decide_eq_true hba
  refine hperm.eq_of_pairwise hanti ?_ ?_
  · exact List.pairwise_mergeSort (by simpa using fun a b c => Nat.le_trans)
      (by simpa using fun a b : HttpMiddleware => Nat.le_total a.order b.order) _
  · exact hstrict.imp fun h => decide_eq_true (Nat.le_of_lt h)

-- ---------------------------------------------------------------------------
-- What comes of a request
-- ---------------------------------------------------------------------------

variable {Claims σ β : Type} (p : Parts Claims σ β) (env : Env σ β)
  (router : Service Claims σ β)

def answered : Service Claims σ β := fun req w =>
  let translated : Service Claims σ β := fun req w =>
    if appState.i18n then
      let (response, w) := router req w
      (i18nErrorMiddleware p.serde p.i18n req.toRequest fun _ => response, w)
    else router req w
  if metrics.enabled ∧ appState.metricsHandle then
    let path := (p.matchedPath metrics.endpoint req).getD req.path
    let (response, w) :=
      if p.routed metrics.endpoint req then metricsRoute p req w else translated req w
    (response, { w with counted := w.counted ++ [(req.method, path, response.status)] })
  else translated req w

/-- Past the limiter first, then with the claims of its token. -/
def guarded : Service Claims σ β := fun req w =>
  let (passage, limits) :=
    if config.rateLimit.enabled ∧ appState.ratelimiter then
      rateLimitMiddleware p.limiter config.rateLimit.keyStrategy env.moment req.toRequest w.limits
    else (.next req.toRequest, w.limits)
  let w := { w with limits }
  match passage with
  | .answered denied => (denied.raw p.serde, w)
  | .next r =>
    match
      if config.auth.enabled then
        authMiddleware p.decode env.now
          ⟨authSecret vars config.auth, config.auth.excludePaths⟩ r
      else .next r with
    | .answered denied => (denied.raw p.serde, w)
    | .next r => answered metrics appState p router { req with toRequest := r } w

/-- The answer if it comes in time, with the id of the request. -/
def timed : Service Claims σ β := fun req w =>
  if config.timeout.enabled ∧ env.late config.timeout.timeoutSecs then
    (p.timedOut 503, env.giveUp w)
  else
    let (response, w) := guarded vars config metrics appState p env router req w
    (if config.requestId.enabled then
      response.setHeader "x-request-id" (utf8Bytes env.requestId)
    else response, w)

/-- What the server does with a request. -/
def flow : Service Claims σ β := fun req w =>
  let origin := buildCorsLayer p config.cors
  if config.cors.enabled ∧ req.method = "OPTIONS" then (p.preflight origin req, w)
  else
    let (response, w) := timed vars config metrics appState p env router req w
    let events := if appState.auditLogger then
        w.events ++ [.request (auditEvent env req response.status)]
      else w.events
    (if config.cors.enabled then p.allow origin req response else response, { w with events })

def stackPanics : Bool :=
  metrics.enabled && appState.metricsHandle && !p.accepts metrics.endpoint ||
    config.cors.enabled &&
      (config.cors.allowOrigins != ["*"] && config.cors.allowOrigins.contains "*")

def onlyIf (b : Bool) (layer : Service Claims σ β → Service Claims σ β)
    (next : Service Claims σ β) : Service Claims σ β :=
  if b then layer next else next

def layered : Service Claims σ β :=
  onlyIf config.cors.enabled (p.cors (buildCorsLayer p config.cors))
    (onlyIf appState.auditLogger (auditLayer env)
      (onlyIf config.timeout.enabled (p.timeout 503 config.timeout.timeoutSecs env)
        (onlyIf config.requestId.enabled (requestIdLayer env)
          (onlyIf (config.rateLimit.enabled && appState.ratelimiter)
            (rateLimitLayer p env config.rateLimit.keyStrategy)
            (onlyIf config.auth.enabled
              (authLayer p env ⟨authSecret vars config.auth, config.auth.excludePaths⟩)
              (onlyIf (metrics.enabled && appState.metricsHandle)
                (metricsLayer p metrics.endpoint)
                (onlyIf appState.i18n (i18nLayer p) router)))))))

section
variable {p}

theorem answered_eq (hp : p.Lawful) : answered metrics appState p router =
    onlyIf (metrics.enabled && appState.metricsHandle) (metricsLayer p metrics.endpoint)
      (onlyIf appState.i18n (i18nLayer p) router) := by
  funext req w
  cases hi18n : appState.i18n <;>
    by_cases hmetrics : metrics.enabled = true ∧ appState.metricsHandle = true <;>
    simp [answered, onlyIf, metricsLayer, i18nLayer, hp.merge_eq, hi18n, hmetrics]

theorem guarded_eq (hp : p.Lawful) : guarded vars config metrics appState p env router =
    onlyIf (config.rateLimit.enabled && appState.ratelimiter)
      (rateLimitLayer p env config.rateLimit.keyStrategy)
      (onlyIf config.auth.enabled
        (authLayer p env ⟨authSecret vars config.auth, config.auth.excludePaths⟩)
        (onlyIf (metrics.enabled && appState.metricsHandle) (metricsLayer p metrics.endpoint)
          (onlyIf appState.i18n (i18nLayer p) router))) := by
  rw [← answered_eq metrics appState router hp]
  funext req w
  have hauth : ∀ (r : Request Claims) (w : World σ β), (match
      if config.auth.enabled then
        authMiddleware p.decode env.now
          ⟨authSecret vars config.auth, config.auth.excludePaths⟩ r
      else .next r with
    | .answered denied => (denied.raw p.serde, w)
    | .next r => answered metrics appState p router { req with toRequest := r } w) =
      onlyIf config.auth.enabled
        (authLayer p env ⟨authSecret vars config.auth, config.auth.excludePaths⟩)
        (answered metrics appState p router) { req with toRequest := r } w := by
    intro r w
    cases config.auth.enabled with
    | true =>
      simp only [onlyIf, authLayer, if_true]
      split <;> simp only [*]
    | false => rfl
  by_cases hlimit : config.rateLimit.enabled = true ∧ appState.ratelimiter = true
  · rw [guarded, onlyIf]
    simp only [hlimit, Bool.and_self, if_true, and_self, hauth, rateLimitLayer]
    split <;> simp only [*]
  · rw [guarded, onlyIf, if_neg hlimit, if_neg (by simpa using hlimit)]
    exact hauth _ _

/-- The flat account is that of the layers. -/
theorem flow_eq (hp : p.Lawful) : flow vars config metrics appState p env router =
    layered vars config metrics appState p env router := by
  have htimed : timed vars config metrics appState p env router =
      onlyIf config.timeout.enabled (p.timeout 503 config.timeout.timeoutSecs env)
        (onlyIf config.requestId.enabled (requestIdLayer env)
          (guarded vars config metrics appState p env router)) := by
    funext req w
    cases htimeout : config.timeout.enabled <;> cases hid : config.requestId.enabled <;>
      simp [timed, onlyIf, hp.timeout_eq, requestIdLayer, htimeout, hid]
  rw [layered, ← guarded_eq vars config metrics appState env router hp, ← htimed]
  funext req w
  cases hcors : config.cors.enabled <;> cases haudit : appState.auditLogger <;>
    simp [flow, onlyIf, hp.cors_eq, auditLayer, hcors, haudit]

end

theorem foldlM_apply (mws : List HttpMiddleware) :
    mws.foldlM (HttpMiddleware.apply p env) router =
      if mws.any (HttpMiddleware.panics p) then none
      else some (mws.foldl (HttpMiddleware.wrap p env) router) := by
  induction mws generalizing router with
  | nil => rfl
  | cons mw mws ih =>
    cases hmw : mw.panics p with
    | true => simp [HttpMiddleware.apply, hmw]
    | false => simp [HttpMiddleware.apply, hmw, ih]

theorem foldl_wrap_if (b : Prop) [Decidable b] (mw : HttpMiddleware) :
    (if b then [mw] else []).foldl (HttpMiddleware.wrap p env) router =
      onlyIf (decide b) (fun next => mw.wrap p env next) router := by
  by_cases hb : b <;> simp [onlyIf, hb]

section
variable {p}

theorem panics_buildCorsLayer (hp : p.Lawful) (cors : CorsConfig) :
    (buildCorsLayer p cors).panics p =
      (cors.allowOrigins != ["*"] && cors.allowOrigins.contains "*") := by
  rw [Bool.eq_iff_iff]
  by_cases hany : cors.allowOrigins = ["*"]
  · simp [buildCorsLayer, AllowOrigin.panics, hany]
  · simp [buildCorsLayer, AllowOrigin.panics, hany, hp.listPanics_iff, hp.star_isHeaderValue]

theorem applyAll_builtin (hp : p.Lawful) : applyAll p env (registerAll []
      (builtinHttpMiddlewares vars config metrics telemetryEnabled appState)) router =
    if stackPanics config metrics appState p then none
    else some (layered vars config metrics appState p env router) := by
  have hpanics : (stackOrder vars config metrics telemetryEnabled appState).any
      (HttpMiddleware.panics p) = stackPanics config metrics appState p := by
    have hif : ∀ (b : Prop) [Decidable b] (mw : HttpMiddleware),
        (if b then [mw] else []).any (HttpMiddleware.panics p) = (decide b && mw.panics p) := by
      intro b _ mw
      by_cases hb : b <;> simp [hb]
    simp only [stackOrder, List.any_append, hif]
    simp [HttpMiddleware.panics, stackPanics, panics_buildCorsLayer hp]
  rw [registerAll_builtin, applyAll, sorted_builtin, foldlM_apply, hpanics]
  congr 2
  simp only [stackOrder, List.foldl_append, foldl_wrap_if, List.foldl_cons, List.foldl_nil]
  have hpasses : ∀ (b : Prop) [Decidable b] (mw : HttpMiddleware) (next : Service Claims σ β),
      mw.wrap p env next = next →
        onlyIf (decide b) (fun next => mw.wrap p env next) next = next := by
    intro b _ mw next h
    by_cases hb : b <;> simp [onlyIf, hb, h]
  rw [hpasses _ .otel _ rfl]
  simp [HttpMiddleware.wrap, hp.trace_eq, layered]

end

/-- What the listener builds from the configuration does with every request what
`flow` says, and it panics exactly where `stackPanics` says. -/
theorem stack_eq_flow (hp : p.Lawful) : applyAll p env (registerAll []
      (builtinHttpMiddlewares vars config metrics telemetryEnabled appState)) router =
    if stackPanics config metrics appState p then none
    else some (flow vars config metrics appState p env router) := by
  rw [flow_eq vars config metrics appState env router hp]
  exact applyAll_builtin vars config metrics telemetryEnabled appState env router hp

-- ---------------------------------------------------------------------------
-- The audit trail
-- ---------------------------------------------------------------------------

/-- The layer of CORS answers the request itself. -/
def preflight (req : HttpRequest Claims) : Bool :=
  config.cors.enabled && req.method = "OPTIONS"

/-- It leaves no events of the audit layer. -/
def Silent (service : Service Claims σ β) : Prop := ∀ req w, (service req w).2.requests = w.requests

theorem requests_left (w : World σ β) (inner : Inner σ β) (own : List AuditEvent) :
    (w.left inner own).requests = w.requests := by
  have hown : (own.map Logged.application).filterMap Logged.request? = [] := by
    simp [Logged.request?]
  rw [World.requests, World.left, List.filterMap_append, hown, List.append_nil]
  rfl

theorem silent_service (app : App Claims σ β) : Silent app.service := fun _ w =>
  requests_left w _ _

section
variable {p router}

theorem Silent.onlyIf (b : Bool) (layer : Service Claims σ β → Service Claims σ β)
    (h : Silent router) (hlayer : Silent (layer router)) : Silent (onlyIf b layer router) := by
  cases b with
  | true => exact hlayer
  | false => exact h

theorem Silent.metricsLayer (hp : p.Lawful) (h : Silent router) (endpoint : String) :
    Silent (metricsLayer p endpoint router) := by
  intro req w
  simp only [Http.metricsLayer, hp.merge_eq]
  split
  · simp [metricsRoute, World.requests, hp.get_reads]
  · exact h req w

theorem Silent.authLayer (p : Parts Claims σ β) (h : Silent router) (state : AuthState) :
    Silent (authLayer p env state router) := by
  intro req w
  unfold Http.authLayer
  split
  · exact h _ w
  · rfl

theorem Silent.rateLimitLayer (p : Parts Claims σ β) (h : Silent router) (keyStrategy : String) :
    Silent (rateLimitLayer p env keyStrategy router) := by
  intro req w
  unfold Http.rateLimitLayer
  simp only
  split
  · exact h _ _
  · rfl

theorem Silent.timeout (hp : p.Lawful) (h : Silent router) (status secs : Nat) :
    Silent (p.timeout status secs env router) := by
  intro req w
  rw [hp.timeout_eq]
  split
  · exact requests_left w _ _
  · exact h req w

/-- Only the audit layer leaves its events, one for each request that gets to it. -/
theorem layered_requests (hp : p.Lawful) (h : Silent router) (hlog : appState.auditLogger = true)
    (req : HttpRequest Claims) (w : World σ β) :
    let served := layered vars config metrics appState p env router req w
    served.2.requests =
      if preflight config req then w.requests
      else w.requests ++ [auditEvent env req served.1.status] := by
  have hi18n := h.onlyIf appState.i18n (i18nLayer p) h
  have hmetrics := hi18n.onlyIf (metrics.enabled && appState.metricsHandle) _
    (hi18n.metricsLayer hp metrics.endpoint)
  have hauth := hmetrics.onlyIf config.auth.enabled _ (hmetrics.authLayer env p
    ⟨authSecret vars config.auth, config.auth.excludePaths⟩)
  have hlimit := hauth.onlyIf (config.rateLimit.enabled && appState.ratelimiter) _
    (hauth.rateLimitLayer env p config.rateLimit.keyStrategy)
  have hid := hlimit.onlyIf config.requestId.enabled (requestIdLayer env) hlimit
  have htimed := hid.onlyIf config.timeout.enabled _
    (hid.timeout env hp 503 config.timeout.timeoutSecs)
  have haudit : ∀ (next : Service Claims σ β), Silent next →
      (auditLayer env next req w).2.requests = w.requests ++
        [auditEvent env req (auditLayer env next req w).1.status] := by
    intro next hnext
    have hsame := hnext req w
    simp only [World.requests] at hsame
    simp [auditLayer, World.requests, hsame, Logged.request?]
  simp only [layered, preflight, onlyIf, hlog, if_true]
  cases hcors : config.cors.enabled with
  | false =>
    simp only [Bool.false_and, Bool.false_eq_true, if_false]
    exact haudit _ htimed
  | true =>
    simp only [if_true, hp.cors_eq, Bool.true_and, decide_eq_true_eq]
    split
    · rfl
    · rw [hp.allow_status]
      exact haudit _ htimed

end

def serveAll (service : Env σ β → Service Claims σ β) :
    List (Env σ β × HttpRequest Claims) → World σ β → List RawResponse × World σ β
  | [], w => ([], w)
  | (env, req) :: arrivals, w =>
    let (response, w) := service env req w
    let (responses, w) := serveAll service arrivals w
    (response :: responses, w)

end

/-- The audit trail of a server: beside the events of the application one for each
request, in their order, with the status of the response that was sent, whoever made
it; but none for the requests that the CORS layer answers. -/
theorem audit_trail {Claims σ β : Type} (vars : String → Var) (config : MiddlewareConfig)
    (metrics : MetricsConfig) (telemetryEnabled : Bool) (appState : AppState)
    (p : Parts Claims σ β) (hp : p.Lawful) (app : App Claims σ β)
    (hlog : appState.auditLogger = true) (service : Env σ β → Service Claims σ β)
    (hservice : ∀ env, applyAll p env (registerAll []
      (builtinHttpMiddlewares vars config metrics telemetryEnabled appState)) app.service =
        some (service env))
    (arrivals : List (Env σ β × HttpRequest Claims)) (w : World σ β) :
    let served := serveAll service arrivals w
    served.1.length = arrivals.length ∧
    served.2.requests = w.requests ++
      ((arrivals.zip served.1).filter fun a => !preflight config a.1.2).map fun a =>
        auditEvent a.1.1 a.1.2 a.2.status := by
  have hlayered : ∀ env, service env =
      layered vars config metrics appState p env app.service := by
    intro env
    have h := (hservice env).symm.trans
      (applyAll_builtin vars config metrics telemetryEnabled appState env app.service hp)
    split at h
    · cases h
    · exact Option.some.inj h
  induction arrivals generalizing w with
  | nil => simp [serveAll]
  | cons a arrivals ih =>
    obtain ⟨env, req⟩ := a
    obtain ⟨hlen, hevents⟩ := ih (service env req w).2
    refine ⟨by simpa [serveAll] using hlen, ?_⟩
    have hone := layered_requests vars config metrics appState env hp (silent_service app) hlog
      req w
    rw [← hlayered] at hone
    simp only [serveAll, hevents, hone, List.zip_cons_cons, List.filter_cons]
    cases preflight config req <;> simp

/-- An application that answers everything and logs that it did. -/
def plainApp : App String Nat Bool := fun req w =>
  (⟨200, [], some []⟩, { w.toInner with app := w.app + 1 },
    [⟨"app", 0, "unknown", "answer", req.path, none, .success, none, .null⟩])

def corsHeaders (origin : AllowOrigin) (req : HttpRequest String) : List (String × List UInt8) :=
  let allowed := match origin with
    | .any => some "*"
    | .list origins => (req.header "origin").filter origins.contains
  (allowed.toList.map fun origin => ("access-control-allow-origin", utf8Bytes origin)) ++
    [("vary", utf8Bytes "origin, access-control-request-method, access-control-request-headers")]

def plainParts : Parts String Nat Bool where
  decode := decodeToken
  limiter := oneEach
  serde := notFoundSerde
  i18n := jaCatalog
  render _ := []
  get text req w := (if req.method = "GET" then ⟨200, [], some (text w)⟩ else ⟨405, [], some []⟩, w)
  routed route req := req.path = route
  merge route page router req w := if req.path = route then page req w else router req w
  matchedPath _ _ := none
  accepts _ := true
  trace next := next
  timeout status secs env next req w :=
    if env.late secs then (⟨status, [], some []⟩, env.giveUp w) else next req w
  timedOut status := ⟨status, [], some []⟩
  isHeaderValue text := text.toList.all fun c => c = '\t' ∨ 32 ≤ c.toNat ∧ c.toNat < 127
  listPanics origins := origins.contains "*"
  cors origin next req w :=
    if req.method = "OPTIONS" then (⟨200, corsHeaders origin req, some []⟩, w)
    else
      let (response, w) := next req w
      ({ response with headers := corsHeaders origin req ++ response.headers }, w)
  preflight origin req := ⟨200, corsHeaders origin req, some []⟩
  allow origin req response :=
    { response with headers := corsHeaders origin req ++ response.headers }

theorem plainParts_lawful : plainParts.Lawful where
  get_reads _ _ _ := rfl
  merge_eq route _ _ req _ := by simp [plainParts]
  trace_eq _ := rfl
  timeout_eq _ _ _ _ _ _ := rfl
  star_isHeaderValue := by decide
  listPanics_iff origins := by simp [plainParts]
  cors_eq _ _ _ _ := rfl
  allow_status _ _ _ := rfl

def plainEnv (requestId : String) : Env Nat Bool where
  now := 0
  moment := ⟨0, 0⟩
  requestId := requestId
  eventId := requestId
  timestampMs := 0
  durationMs := 0
  late _ := false
  abandoned w := (w.toInner, [])

def withoutHeaders (path method : String) : HttpRequest String :=
  ⟨⟨path, fun _ => none, none, none⟩, method⟩

theorem stack_eq_flow_plain : applyAll plainParts (plainEnv "1") (registerAll []
      (builtinHttpMiddlewares (fun _ => .value "s3cret") jwtConfig ⟨true, "/metrics"⟩ true
        ⟨false, true, true, false⟩)) plainApp.service =
    some (flow (fun _ => .value "s3cret") jwtConfig ⟨true, "/metrics"⟩ ⟨false, true, true, false⟩
      plainParts (plainEnv "1") plainApp.service) :=
  (stack_eq_flow _ _ _ _ _ _ _ _ plainParts_lawful).trans rfl

/-- A preflight, a request with no token, and one that needs none. -/
def threeArrivals : List (Env Nat Bool × HttpRequest String) :=
  [(plainEnv "1", withoutHeaders "/admin" "OPTIONS"), (plainEnv "2", withoutHeaders "/admin" "GET"),
    (plainEnv "3", withoutHeaders "/health" "GET")]

def plainStack (env : Env Nat Bool) : Service String Nat Bool :=
  layered (fun _ => .value "s3cret") jwtConfig ⟨false, "/metrics"⟩ ⟨false, false, true, false⟩
    plainParts env plainApp.service

theorem audit_trail_three :
    let served := serveAll plainStack threeArrivals ⟨⟨0, fun _ => true, []⟩, []⟩
    served.1.length = 3 ∧
    served.2.requests = [] ++
      ((threeArrivals.zip served.1).filter fun a => !preflight jwtConfig a.1.2).map fun a =>
        auditEvent a.1.1 a.1.2 a.2.status :=
  audit_trail (fun _ => .value "s3cret") jwtConfig ⟨false, "/metrics"⟩ false
    ⟨false, false, true, false⟩ plainParts plainParts_lawful plainApp rfl plainStack
    (fun _ => (applyAll_builtin _ _ _ _ _ _ _ plainParts_lawful).trans rfl) threeArrivals _

end Rinfra.Http
