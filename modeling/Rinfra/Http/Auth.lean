import Rinfra.Admin.Auth
import Rinfra.Core.Error
import Rinfra.Core.Utf8

/-!
# The JWT middleware

A request is passed on to the inner layer or answered. `decode` is the JWT
library's, and what it accepts is left open.
-/

namespace Rinfra.Http

open Admin (startsWith stripPrefix)

structure SocketAddr where
  ip : String
  port : Nat
  deriving DecidableEq, Repr

/-- A request as the layers see it. `headers` gives the first value under a
name, itself `none` where `to_str` refuses it; the two last fields are
extensions. -/
structure Request (Claims : Type) where
  path : String
  headers : String → Option (Option String)
  connectInfo : Option SocketAddr
  claims : Option Claims

structure ApiResponse where
  code : String
  data : Option Unit
  message : String
  deriving DecidableEq, Repr

structure Response where
  status : Nat
  headers : List (String × String)
  body : ApiResponse
  deriving DecidableEq, Repr

inductive Passage (Claims : Type)
  | next (req : Request Claims)
  | answered (resp : Response)

def Request.header (req : Request Claims) (name : String) : Option String :=
  (req.headers name).join

/-- An error of the JWT library: whether its kind is `ExpiredSignature`, and its
text. -/
structure JwtError where
  expiredSignature : Bool
  text : String
  deriving DecidableEq, Repr

/-- `decode`, by the key, the token and the time. -/
abbrev Decode (Claims : Type) := List UInt8 → String → Nat → Except JwtError Claims

structure AuthState where
  secret : String
  excludePaths : List String
  deriving DecidableEq, Repr

def AuthState.covers (state : AuthState) (path : String) : Bool :=
  state.excludePaths.any fun p => startsWith path p

def makeErrorResponse (code : ErrorCode) (message : String) : Response :=
  ⟨code.httpStatus, [("content-type", "application/json")], ⟨code.asStr, none, message⟩⟩

def bearer (req : Request Claims) : Option String :=
  (req.header "authorization").bind fun h => stripPrefix h "Bearer "

def authMiddleware (decode : Decode Claims) (now : Nat) (state : AuthState)
    (req : Request Claims) : Passage Claims :=
  if state.covers req.path then .next req
  else match bearer req with
    | none =>
      .answered (makeErrorResponse .authTokenMissing "missing or invalid Authorization header")
    | some token => match decode (utf8Bytes state.secret) token now with
      | .ok claims => .next { req with claims := some claims }
      | .error e =>
        let code := if e.expiredSignature then ErrorCode.authTokenExpired else .authTokenInvalid
        .answered (makeErrorResponse code s!"token validation failed: {e.text}")

/-- Past the middleware, a request on a path that is not excluded has a token
that its secret decodes. -/
theorem authMiddleware_next (h : authMiddleware decode now state req = .next req') :
    state.covers req.path ∨ ∃ token claims, bearer req = some token ∧
      decode (utf8Bytes state.secret) token now = .ok claims := by
  unfold authMiddleware at h
  split at h
  · rename_i hcovers
    exact .inl hcovers
  · split at h
    · cases h
    · rename_i token htoken
      split at h
      · rename_i claims hclaims
        exact .inr ⟨token, claims, htoken, hclaims⟩
      · cases h

end Rinfra.Http
