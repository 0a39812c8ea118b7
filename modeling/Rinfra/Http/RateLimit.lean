import Mathlib.Logic.Function.Basic
import Rinfra.Http.Auth
import Rinfra.RateLimit.Memory

/-!
# Rate limits by client

The middleware limits by the key it extracts from a request. With the strategy
`ip` that is the peer's address, as far as the server makes it known.
-/

namespace Rinfra.Http

open Admin (stripPrefix)
open RateLimit (RateLimitResult)

variable {Claims : Type}

-- ---------------------------------------------------------------------------
-- The server
-- ---------------------------------------------------------------------------

structure Incoming where
  path : String
  headers : String → Option (Option String)

/-- What `axum::serve` is given to serve with: the router itself, or the service
that `into_make_service_with_connect_info` makes of it. -/
inductive MakeService
  | router
  | withConnectInfo
  deriving DecidableEq, Repr

/-- Only the latter puts the peer's address into the extensions. -/
def MakeService.request (service : MakeService) (peer : SocketAddr) (incoming : Incoming) :
    Request Claims where
  path := incoming.path
  headers := incoming.headers
  connectInfo := match service with
    | .router => none
    | .withConnectInfo => some peer
  claims := none

/-- `HttpServer::start` ends in `axum::serve(listener, router)`. -/
def HttpServer.service : MakeService := .router

-- ---------------------------------------------------------------------------
-- The middleware
-- ---------------------------------------------------------------------------

def extractKey (strategy : String) (req : Request Claims) : String :=
  if strategy = "global" then "global"
  else match stripPrefix strategy "header:" with
    | some name => (req.header name).getD "unknown"
    | none => (req.connectInfo.map SocketAddr.ip).getD "unknown"

structure Limiter (β : Type) where
  fresh : β
  check : β → Moment → Except AppError RateLimitResult × β

/-- In the source the seconds are rounded up as an `f64`, exact up to 2^53. -/
def tooManyRequests (result : RateLimitResult) : Response where
  status := 429
  headers := [("content-type", "application/json"),
    ("retry-after", toString ((result.retryAfterMs.getD 1000 + 999) / 1000)),
    ("x-ratelimit-remaining", toString result.remaining)]
  body := ⟨ErrorCode.rateLimitExceeded.asStr, none, "rate limit exceeded"⟩

/-- An error of the limiter lets the request through. -/
def rateLimitMiddleware (limiter : Limiter β) (keyStrategy : String) (now : Moment)
    (req : Request Claims) (keys : String → β) : Passage Claims × (String → β) :=
  let key := extractKey keyStrategy req
  let checked := limiter.check (keys key) now
  let keys := Function.update keys key checked.2
  match checked.1 with
  | .ok result =>
    if result.allowed then (.next req, keys) else (.answered (tooManyRequests result), keys)
  | .error _ => (.next req, keys)

structure Arrival where
  peer : SocketAddr
  incoming : Incoming
  now : Moment

def Arrival.request (a : Arrival) : Request Claims :=
  HttpServer.service.request a.peer a.incoming

def serve (Claims : Type) (limiter : Limiter β) (keyStrategy : String) :
    (String → β) → List Arrival → List (String × Passage Claims)
  | _, [] => []
  | keys, a :: as =>
    let r := rateLimitMiddleware limiter keyStrategy a.now a.request keys
    (a.peer.ip, r.1) :: serve Claims limiter keyStrategy r.2 as

-- ---------------------------------------------------------------------------
-- Isolation
-- ---------------------------------------------------------------------------

/-- Two requests share a key exactly where they share a client, and what a
client is answered does not depend on the requests of others. -/
structure Isolated (Claims : Type) (keyStrategy : String) (as : List Arrival) : Prop where
  keys : ∀ a ∈ as, ∀ b ∈ as,
    extractKey keyStrategy (a.request : Request Claims) =
      extractKey keyStrategy (b.request : Request Claims) ↔ a.peer.ip = b.peer.ip
  answers : ∀ (β : Type) (limiter : Limiter β) client,
    (serve Claims limiter keyStrategy (fun _ => limiter.fresh) as).filter (·.1 = client) =
      serve Claims limiter keyStrategy (fun _ => limiter.fresh)
        (as.filter (·.peer.ip = client))

/-- The server makes no address known, so all requests have one key. -/
theorem extractKey_ip (a : Arrival) :
    extractKey "ip" (a.request : Request Claims) = "unknown" := by
  have hheader : stripPrefix "ip" "header:" = none := by decide
  simp [extractKey, hheader, Arrival.request, MakeService.request, HttpServer.service]

theorem serve_filter_self {limiter : Limiter β} (h : ∀ a ∈ as, a.peer.ip = client) :
    (serve Claims limiter keyStrategy keys as).filter (·.1 = client) =
      serve Claims limiter keyStrategy keys as := by
  induction as generalizing keys with
  | nil => rfl
  | cons a as ih =>
    have ha : a.peer.ip = client := h a List.mem_cons_self
    simp [serve, ha, ih fun b hb => h b (List.mem_cons_of_mem _ hb)]

theorem serve_filter_other {limiter : Limiter β} (h : ∀ a ∈ as, a.peer.ip ≠ client) :
    (serve Claims limiter keyStrategy keys as).filter (·.1 = client) = [] := by
  induction as generalizing keys with
  | nil => rfl
  | cons a as ih =>
    have ha : a.peer.ip ≠ client := h a List.mem_cons_self
    simp [serve, ha, ih fun b hb => h b (List.mem_cons_of_mem _ hb)]

theorem answers_of_single (hone : ∀ a ∈ as, ∀ b ∈ as, a.peer.ip = b.peer.ip)
    (limiter : Limiter β) (client : String) :
    (serve Claims limiter keyStrategy keys as).filter (·.1 = client) =
      serve Claims limiter keyStrategy keys (as.filter (·.peer.ip = client)) := by
  by_cases h : ∃ a ∈ as, a.peer.ip = client
  · obtain ⟨a, ha, rfl⟩ := h
    have hall : ∀ b ∈ as, b.peer.ip = a.peer.ip := fun b hb => hone b hb a ha
    rw [serve_filter_self hall, List.filter_eq_self.mpr (by simpa using hall)]
  · have hnone : ∀ b ∈ as, b.peer.ip ≠ client := fun b hb hc => h ⟨b, hb, hc⟩
    rw [serve_filter_other hnone, List.filter_eq_nil_iff.mpr (by simpa using hnone)]
    rfl

/-- The server isolates its clients exactly where there is only one. -/
theorem isolated_iff (Claims : Type) (as : List Arrival) :
    Isolated Claims "ip" as ↔ ∀ a ∈ as, ∀ b ∈ as, a.peer.ip = b.peer.ip := by
  constructor
  · intro h a ha b hb
    exact (h.keys a ha b hb).mp ((extractKey_ip a).trans (extractKey_ip b).symm)
  · intro hone
    constructor
    · intro a ha b hb
      exact iff_of_true ((extractKey_ip a).trans (extractKey_ip b).symm) (hone a ha b hb)
    · exact fun β limiter client => answers_of_single hone limiter client

def oneEach : Limiter Bool where
  fresh := true
  check left _ := (.ok ⟨left, 0, if left then none else some 60000⟩, false)

def fromClient (ip : String) : Arrival := ⟨⟨ip, 50000⟩, ⟨"/", fun _ => none⟩, ⟨0, 0⟩⟩

/-- One client's request is what the next client's is denied for. -/
theorem first_client_denies_second :
    ¬Isolated String "ip" [fromClient "10.0.0.1", fromClient "10.0.0.2"] := by
  intro h
  have hkeys := h.keys (fromClient "10.0.0.1") (by simp) (fromClient "10.0.0.2") (by simp)
  rw [extractKey_ip, extractKey_ip] at hkeys
  exact absurd (hkeys.mp rfl) (by decide)

example : ((serve String oneEach "ip" (fun _ => true)
      [fromClient "10.0.0.1", fromClient "10.0.0.2"]).map fun x => match x.2 with
    | .next _ => none
    | .answered resp => some resp.status) = [none, some 429] := by decide

end Rinfra.Http
