import Rinfra.Admin.Auth
import Mathlib.Data.List.Basic

/-!
# The admin router

`AdminBuilder` collects the routes and, where auth is on, puts the layer
around all of them.
-/

namespace Rinfra.Admin

-- ============================================================
-- Routes

inductive Segment
  | lit (s : String)
  | param
  deriving DecidableEq, Repr

/-- `extra` is any handler the application injects. Only the four handlers of
tokens are given the store. -/
inductive Handler
  | info | health | config | plugins | clusterNodes | cacheGet | cacheFlush | metrics
  | listTokens | createToken | deleteToken | rotateRoot
  | extra | extensions
  deriving DecidableEq, Repr

def Handler.takesStore : Handler → Bool
  | .listTokens | .createToken | .deleteToken | .rotateRoot => true
  | _ => false

structure Route where
  method : Method
  pattern : List Segment
  handler : Handler
  deriving DecidableEq, Repr

def adminRoutes : List Route :=
  [⟨.get, [.lit "info"], .info⟩,
   ⟨.get, [.lit "health"], .health⟩,
   ⟨.get, [.lit "config"], .config⟩,
   ⟨.get, [.lit "plugins"], .plugins⟩,
   ⟨.get, [.lit "cluster", .lit "nodes"], .clusterNodes⟩,
   ⟨.get, [.lit "cache", .param], .cacheGet⟩,
   ⟨.post, [.lit "cache", .lit "flush"], .cacheFlush⟩,
   ⟨.get, [.lit "metrics"], .metrics⟩]

def tokenManagementRoutes : List Route :=
  [⟨.get, [.lit "tokens"], .listTokens⟩,
   ⟨.post, [.lit "tokens"], .createToken⟩,
   ⟨.delete, [.lit "tokens", .param], .deleteToken⟩,
   ⟨.post, [.lit "tokens", .lit "root", .lit "rotate"], .rotateRoot⟩]

def extensionsRoute : Route := ⟨.get, [.lit "extensions"], .extensions⟩

/-- A route for GET answers HEAD too. -/
def Route.accepts (route : Route) (method : Method) : Bool :=
  method = route.method || (route.method = .get && method = .head)

/-- The segments that stand where the pattern leaves them open, if the path
fits it. -/
def matchPath : List Segment → List String → Option (List String)
  | [], [] => some []
  | .lit s :: pattern, x :: xs => if x = s then matchPath pattern xs else none
  | .param :: pattern, x :: xs => if x = "" then none else (matchPath pattern xs).map (x :: ·)
  | _, _ => none

/-- The first pattern is fixed where the second is open. -/
def moreSpecific : List Segment → List Segment → Bool
  | .lit _ :: _, .param :: _ => true
  | .lit _ :: ps, .lit _ :: qs => moreSpecific ps qs
  | .param :: ps, .param :: qs => moreSpecific ps qs
  | _, _ => false

def splitPath (path : String) : List String := (path.toList.splitOn '/').map String.ofList

-- ============================================================
-- The router

/-- What becomes of a request. `served` is a file of the frontend. -/
inductive Outcome
  | served
  | unauthorized
  | notFound
  | methodNotAllowed
  | reached (handler : Handler) (params : List String) (info : Option AdminTokenInfo)
  deriving DecidableEq, Repr

structure Router where
  routes : List Route
  authLayer : Option AdminAuthLayer
  serveDir : Bool
  deriving DecidableEq, Repr

/-- The pattern is chosen first, the method then among its routes. -/
def Router.dispatch (router : Router) (req : Request Body) (info : Option AdminTokenInfo) :
    Outcome :=
  match splitPath req.path with
  | "" :: "api" :: "admin" :: segments =>
    let fitting := router.routes.filter fun route => (matchPath route.pattern segments).isSome
    match fitting.find? fun route =>
        fitting.all fun other => !moreSpecific other.pattern route.pattern with
    | none => .notFound
    | some best =>
      match fitting.find? fun route => route.pattern = best.pattern && route.accepts req.method with
      | none => .methodNotAllowed
      | some route => .reached route.handler ((matchPath route.pattern segments).getD []) info
  | _ => .notFound

/-- The frontend stands outside of the layer. -/
def Router.call (verifyToken : String → String → Bool) (router : Router) (req : Request Body)
    (now : Nat) (tokens : List AdminTokenRecord) : Outcome × List AdminTokenRecord :=
  if router.serveDir && (req.path = "/admin" || startsWith req.path "/admin/") then
    (.served, tokens)
  else
    match router.authLayer with
    | none => (router.dispatch req none, tokens)
    | some layer =>
      match layer.call verifyToken req now tokens with
      | (.inner info, tokens) => (router.dispatch req info, tokens)
      | (.unauthorized, tokens) => (.unauthorized, tokens)

structure AdminBuilder where
  staticDirExists : Bool
  extraRoutes : List (Method × List Segment)
  tokenStore : Option AdminTokenStore
  authExcludePaths : List String
  deriving DecidableEq, Repr

def AdminBuilder.new (staticDirExists : Bool) : AdminBuilder := ⟨staticDirExists, [], none, []⟩

def AdminBuilder.route (builder : AdminBuilder) (router : List (Method × List Segment)) :
    AdminBuilder :=
  { builder with extraRoutes := builder.extraRoutes ++ router }

def AdminBuilder.withAuth (builder : AdminBuilder) (store : AdminTokenStore)
    (excludePaths : List String) : AdminBuilder :=
  { builder with tokenStore := some store, authExcludePaths := excludePaths }

def AdminBuilder.withAuthConfig (serde : Serde Data) (startup : Startup Data)
    (config : AdminAuthConfig) (builder : AdminBuilder) : AdminBuilder :=
  if config.enabled then
    match (bootstrapAdminAuth serde startup config).1 with
    | .ok store => builder.withAuth store config.excludePaths
    | .error _ => builder
  else builder

def AdminBuilder.build (builder : AdminBuilder) : Router :=
  let tokenRoutes := if builder.tokenStore.isSome then tokenManagementRoutes else []
  let extras := builder.extraRoutes.map fun (method, pattern) => ⟨method, pattern, .extra⟩
  { routes := adminRoutes ++ tokenRoutes ++ extras ++ [extensionsRoute]
    authLayer := builder.tokenStore.map fun _ => ⟨builder.authExcludePaths⟩
    serveDir := builder.staticDirExists }

-- ============================================================
-- What the layer guards

theorem dispatch_reached {router : Router} {req : Request Body}
    (h : router.dispatch req info = .reached handler params info') :
    info' = info ∧ ∃ route ∈ router.routes, route.handler = handler := by
  unfold Router.dispatch at h
  split at h
  · dsimp only at h
    split at h
    · cases h
    · split at h
      · cases h
      · rename_i route hroute
        cases h
        have hmem := List.mem_of_find?_eq_some hroute
        exact ⟨rfl, route, (List.mem_filter.mp hmem).1, rfl⟩
  · cases h

/-- A handler that is handed infos has them from a token of an unexpired
record. -/
theorem call_reached_some {router : Router} {req : Request Body}
    (h : (router.call verifyToken req now tokens).1 = .reached handler params (some info)) :
    ∃ record ∈ tokens, Presents verifyToken req now record ∧
      info = (record.usedAt now).info := by
  unfold Router.call at h
  split at h
  · cases h
  · split at h
    · obtain ⟨hinfo, -⟩ := dispatch_reached h
      cases hinfo
    · split at h
      · rename_i info' tokens' hcall
        obtain ⟨rfl, -⟩ := dispatch_reached h
        exact call_inner_some hcall
      · cases h

theorem call_reached_none {router : Router} {req : Request Body}
    (hlayer : router.authLayer = some layer)
    (h : (router.call verifyToken req now tokens).1 = .reached handler params none) :
    layer.covers req.path = true := by
  simp only [Router.call, hlayer] at h
  split at h
  · cases h
  · split at h
    · rename_i info' tokens' hcall
      obtain ⟨rfl, -⟩ := dispatch_reached h
      exact call_inner_none hcall
    · cases h

theorem build_without_store {builder : AdminBuilder} (hstore : builder.tokenStore = none) :
    ∀ route ∈ builder.build.routes, route.handler.takesStore = false := by
  intro route hmem
  simp only [AdminBuilder.build, hstore, Option.isSome_none, Bool.false_eq_true, if_false,
    List.append_nil, List.mem_append, List.mem_map, List.mem_singleton] at hmem
  rcases hmem with (hadmin | ⟨extra, -, rfl⟩) | rfl
  · exact (by decide : ∀ route ∈ adminRoutes, route.handler.takesStore = false) route hadmin
  · rfl
  · rfl

/-- With auth enabled and its bootstrap done, a request to a path no exclusion
covers reaches a handler only with a token of an unexpired record. When the
bootstrap fails the builder stays as it was, and one that had no store builds a
router without the layer.

Premise: auth is enabled. -/
theorem enabled_auth_guards (serde : Serde Data) (verifyToken : String → String → Bool)
    (startup : Startup Data) (config : AdminAuthConfig) (builder : AdminBuilder)
    (henabled : config.enabled = true) :
    (∀ store, (bootstrapAdminAuth serde startup config).1 = .ok store →
      ∀ (Body : Type) (req : Request Body) now tokens handler params info,
        (∀ p ∈ config.excludePaths, startsWith req.path p = false) →
        ((builder.withAuthConfig serde startup config).build.call verifyToken req now
          tokens).1 = .reached handler params info →
        ∃ record ∈ tokens, Presents verifyToken req now record ∧
          info = some (record.usedAt now).info) ∧
    (∀ e, (bootstrapAdminAuth serde startup config).1 = .error e →
      builder.withAuthConfig serde startup config = builder ∧
        (builder.tokenStore = none → builder.build.authLayer = none ∧
          ∀ route ∈ builder.build.routes, route.handler.takesStore = false)) := by
  constructor
  · intro store hboot Body req now tokens handler params info hpath h
    have hlayer : (builder.withAuthConfig serde startup config).build.authLayer =
        some ⟨config.excludePaths⟩ := by
      simp [AdminBuilder.withAuthConfig, henabled, hboot, AdminBuilder.withAuth,
        AdminBuilder.build]
    cases info with
    | none =>
      obtain ⟨p, hp, hstarts⟩ := List.any_eq_true.mp (call_reached_none hlayer h)
      rw [hpath p hp] at hstarts
      cases hstarts
    | some info =>
      obtain ⟨record, hmem, hpresents, rfl⟩ := call_reached_some h
      exact ⟨record, hmem, hpresents, rfl⟩
  · intro e hboot
    constructor
    · simp [AdminBuilder.withAuthConfig, henabled, hboot]
    · intro hstore
      exact ⟨by simp [AdminBuilder.build, hstore], build_without_store hstore⟩

theorem router_call_sameTokens (verifyToken : String → String → Bool) (router : Router)
    (req : Request Body) (now : Nat) (tokens : List AdminTokenRecord) :
    SameTokens (router.call verifyToken req now tokens).2 tokens := by
  unfold Router.call
  split
  · rfl
  · split
    · rfl
    · rename_i layer _
      have hsame := call_sameTokens verifyToken layer req now tokens
      split <;> rename_i hcall <;> rw [hcall] at hsame <;> exact hsame

-- ============================================================
-- Runs of the bootstrap

/-- A file that holds the records themselves or something else. -/
def looseSerde : Serde (Option (List AdminTokenRecord)) where
  toStringPretty tokens := .ok (some tokens)
  fromStr
    | some tokens => .ok tokens
    | none => .error "expected value at line 1 column 1"

def authConfig : AdminAuthConfig := ⟨true, tokensJson, "RINFRA_ROOT_TOKEN", ["/api/admin/health"]⟩

def startup (read : Option (Except String (Option (List AdminTokenRecord)))) :
    Startup (Option (List AdminTokenRecord)) :=
  ⟨fun _ => none, read, fun _ => none, plainDraw, "00", none⟩

def readConfig (header : Option String) : Request Unit :=
  ⟨.get, "/api/admin/config", fun name => if name = "x-admin-token" then header.map some else none,
    ()⟩

/-- With a file that does not parse the configuration is given to anyone. -/
theorem malformed_file_opens :
    authConfig.enabled = true ∧
    (bootstrapAdminAuth looseSerde (startup (some (.ok none))) authConfig).1 =
      .error "failed to parse token file: expected value at line 1 column 1" ∧
    (∀ p ∈ authConfig.excludePaths, startsWith (readConfig none).path p = false) ∧
    extractToken (readConfig none) = none ∧
    (((AdminBuilder.new false).withAuthConfig looseSerde (startup (some (.ok none)))
      authConfig).build.call (· == ·) (readConfig none) 2 []).1 = .reached .config [] none := by
  decide +kernel

theorem enabled_auth_guards_first_start :
    ∃ record ∈ [newRecord plainDraw .root "root" "rinfra_root_00" none],
      Presents (· == ·) (readConfig (some "rinfra_root_00")) 2 record ∧
        some (newRecord plainDraw .root "root" "rinfra_root_00" none |>.usedAt 2).info =
          some (record.usedAt 2).info :=
  (enabled_auth_guards looseSerde (· == ·) (startup none) authConfig (.new false) rfl).1 _ rfl
    Unit (readConfig (some "rinfra_root_00")) 2 _ .config [] _ (by decide) (by decide +kernel)

end Rinfra.Admin
