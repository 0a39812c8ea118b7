import Mathlib.Data.List.Infix

/-!
# Errors of remote calls

The four registry SDKs turn what a unary call fails with into an `RpcError`, and
their retry loops go by its code. The guide of the SDKs has one table for the
status codes of gRPC. The Go SDK reads the code off the text of the error, the
Python SDK off its status; the other two do not look at it.
-/

namespace Rinfra.Sdk

inductive RpcErrorCode
  | timeout | unavailable | notFound | invalidArgument | internal | unauthenticated
  | permissionDenied | cancelled | unknown
  deriving DecidableEq, Repr

/-- A cause is given by its text. -/
structure RpcError where
  code : RpcErrorCode
  message : String
  service : Option String
  method : Option String
  cause : Option String
  deriving DecidableEq, Repr

inductive StatusCode
  | ok | cancelled | unknown | invalidArgument | deadlineExceeded | notFound | alreadyExists
  | permissionDenied | resourceExhausted | failedPrecondition | aborted | outOfRange
  | unimplemented | internal | unavailable | dataLoss | unauthenticated
  deriving DecidableEq, Repr

/-- The table of the guide. -/
def StatusCode.documented : StatusCode → RpcErrorCode
  | .deadlineExceeded => .timeout
  | .unavailable => .unavailable
  | .notFound => .notFound
  | .invalidArgument => .invalidArgument
  | .internal => .internal
  | .unauthenticated => .unauthenticated
  | .permissionDenied => .permissionDenied
  | .cancelled => .cancelled
  | _ => .unknown

/-- The names that gRPC for Go prints. -/
def StatusCode.goName : StatusCode → String
  | .ok => "OK"
  | .cancelled => "Canceled"
  | .unknown => "Unknown"
  | .invalidArgument => "InvalidArgument"
  | .deadlineExceeded => "DeadlineExceeded"
  | .notFound => "NotFound"
  | .alreadyExists => "AlreadyExists"
  | .permissionDenied => "PermissionDenied"
  | .resourceExhausted => "ResourceExhausted"
  | .failedPrecondition => "FailedPrecondition"
  | .aborted => "Aborted"
  | .outOfRange => "OutOfRange"
  | .unimplemented => "Unimplemented"
  | .internal => "Internal"
  | .unavailable => "Unavailable"
  | .dataLoss => "DataLoss"
  | .unauthenticated => "Unauthenticated"

structure GrpcError where
  status : StatusCode
  message : String

/-- What a unary call fails with: an error of the SDK, the timeout or the
cancellation of the language's own library, an error of gRPC, or any other. -/
inductive CallError
  | rpc (e : RpcError)
  | timeout
  | cancelled
  | grpc (e : GrpcError)
  | other (text : String)

/-- How the libraries of gRPC print an error: `Error()` in Go, `str(exc)` in
Python. -/
structure GrpcTexts where
  goError : GrpcError → String
  pyStr : GrpcError → String

def CallError.goText (texts : GrpcTexts) : CallError → String
  | .rpc e =>
    match e.cause with
    | none => e.message
    | some cause => s!"{e.message}: {cause}"
  | .timeout => "context deadline exceeded"
  | .cancelled => "context canceled"
  | .grpc e => texts.goError e
  | .other text => text

def contains (text name : String) : Bool := decide (name.toList <:+: text.toList)

/-- The text of an error names its status in Go. -/
def GrpcTexts.NamesStatus (texts : GrpcTexts) : Prop :=
  ∀ e, contains (texts.goError e) e.status.goName

-- ---------------------------------------------------------------------------
-- Go
-- ---------------------------------------------------------------------------

/-- The cases of `inferGrpcCode`, in order. -/
def grpcNames : List String :=
  ["DeadlineExceeded", "Unavailable", "NotFound", "InvalidArgument", "Internal",
    "Unauthenticated", "PermissionDenied", "Canceled"]

def inferGrpcCode (texts : GrpcTexts) (err : CallError) : String :=
  (grpcNames.find? fun name => contains (err.goText texts) name).getD ""

def mapGrpcStatus (code : String) : RpcErrorCode :=
  if code = "DeadlineExceeded" then .timeout
  else if code = "Unavailable" then .unavailable
  else if code = "NotFound" then .notFound
  else if code = "InvalidArgument" then .invalidArgument
  else if code = "Internal" then .internal
  else if code = "Unauthenticated" then .unauthenticated
  else if code = "PermissionDenied" then .permissionDenied
  else if code = "Canceled" then .cancelled
  else .unknown

namespace Go

/-- What is left when the error is not one of the context package. -/
def mapOther (texts : GrpcTexts) (err : CallError) (method service : Option String) : RpcError :=
  let grpcCode := inferGrpcCode texts err
  if grpcCode ≠ "" then
    ⟨mapGrpcStatus grpcCode, err.goText texts, service, method, some (err.goText texts)⟩
  else
    match err with
    | .rpc existing => existing
    | err => ⟨.unknown, "rpc failed", service, method, some (err.goText texts)⟩

def mapError (texts : GrpcTexts) (err : CallError) (method service : Option String) : RpcError :=
  match err with
  | .timeout => ⟨.timeout, "rpc timeout", service, method, some (err.goText texts)⟩
  | .cancelled => ⟨.cancelled, "rpc canceled", service, method, some (err.goText texts)⟩
  | err => mapOther texts err method service

end Go

-- ---------------------------------------------------------------------------
-- TypeScript, Python and Java
-- ---------------------------------------------------------------------------

namespace Ts

/-- An error is a timeout by its name. -/
def mapError (err : CallError) (method _ : Option String) : RpcError :=
  match err with
  | .rpc e => e
  | .timeout => ⟨.timeout, "rpc timeout", none, method, none⟩
  | _ => ⟨.unknown, "rpc failed", none, method, none⟩

end Ts

namespace Py

/-- `_map_grpc_status`; `grpc` can be imported where there is such an error. -/
def mapGrpcStatus : CallError → Option RpcErrorCode
  | .grpc e =>
    match e.status with
    | .deadlineExceeded => some .timeout
    | .unavailable => some .unavailable
    | .notFound => some .notFound
    | .invalidArgument => some .invalidArgument
    | .internal => some .internal
    | .unauthenticated => some .unauthenticated
    | .permissionDenied => some .permissionDenied
    | .cancelled => some .cancelled
    | _ => some .unknown
  | _ => none

def mapError (texts : GrpcTexts) (err : CallError) (method service : Option String) : RpcError :=
  match err with
  | .rpc e => e
  | .timeout => ⟨.timeout, "rpc timeout", service, method, none⟩
  | .cancelled => ⟨.cancelled, "rpc cancelled", service, method, none⟩
  | .grpc e =>
    match mapGrpcStatus (.grpc e) with
    | some code => ⟨code, texts.pyStr e, service, method, none⟩
    | none => ⟨.unknown, "rpc failed", service, method, none⟩
  | .other _ => ⟨.unknown, "rpc failed", service, method, none⟩

end Py

namespace Java

def mapError (err : CallError) (method service : Option String) : RpcError :=
  match err with
  | .rpc e => e
  | _ => ⟨.unknown, "rpc failed", service, method, none⟩

end Java

-- ---------------------------------------------------------------------------
-- The retry loop
-- ---------------------------------------------------------------------------

abbrev MapError := CallError → Option String → Option String → RpcError

def invokeUnary (mapError : MapError) (method : String) (call : Except CallError α) :
    Except RpcError α :=
  match call with
  | .ok res => .ok res
  | .error err => .error (mapError err (some method) none)

/-- The loop of `invokeUnaryByService`, with `left` attempts to make. The `k`-th
attempt resolves an endpoint and calls it; the codes are those the loop has
looked at. -/
def retryLoop (mapError : MapError) (retryOn : List RpcErrorCode) (method : String)
    (resolve : Nat → Except RpcError Unit) (call : Nat → Except CallError α) :
    (left k : Nat) → List RpcErrorCode × Option (Except RpcError α)
  | 0, _ => ([], none)
  | left + 1, k =>
    match resolve k with
    | .error e => ([], some (.error e))
    | .ok () =>
      match invokeUnary mapError method (call k) with
      | .ok res => ([], some (.ok res))
      | .error e =>
        if e.code ∉ retryOn ∨ left = 0 then ([e.code], some (.error e))
        else
          let (later, result) := retryLoop mapError retryOn method resolve call left (k + 1)
          (e.code :: later, result)

/-- The code of an error of gRPC is the documented one, and every loop whose
attempt fails with it looks at that code. -/
def Documented (mapError : MapError) (e : GrpcError) : Prop :=
  (∀ method service, (mapError (.grpc e) method service).code = e.status.documented) ∧
    ∀ (retryOn : List RpcErrorCode) (method : String) (call : Nat → Except CallError Unit)
      (left k : Nat), call k = .error (.grpc e) →
      (retryLoop mapError retryOn method (fun _ => .ok ()) call (left + 1) k).1.head? =
        some e.status.documented

-- ---------------------------------------------------------------------------
-- The codes the loops see
-- ---------------------------------------------------------------------------

/-- The text has none of the names that are looked for before its own. -/
def ReadsOwnCode (texts : GrpcTexts) (e : GrpcError) : Prop :=
  ∀ name ∈ grpcNames.takeWhile (· ≠ e.status.goName), contains (texts.goError e) name = false

section
variable {texts : GrpcTexts} {e : GrpcError} {mapError : MapError}

theorem retryLoop_head (retryOn : List RpcErrorCode) (method : String)
    (call : Nat → Except CallError α) (left k : Nat) (h : call k = .error err) :
    (retryLoop mapError retryOn method (fun _ => .ok ()) call (left + 1) k).1.head? =
      some (mapError err (some method) none).code := by
  simp only [retryLoop, invokeUnary, h]
  split <;> rfl

/-- The loops look at the code and at nothing else. -/
theorem documented_iff_code :
    Documented mapError e ↔
      ∀ method service, (mapError (.grpc e) method service).code = e.status.documented := by
  refine ⟨And.left, fun h => ⟨h, fun retryOn method call left k hcall => ?_⟩⟩
  rw [retryLoop_head retryOn method call left k hcall, h]

/-- The name before which nothing satisfies `p` is the first that does. -/
theorem find?_takeWhile {p : String → Bool} {own : String} {names : List String}
    (hown : own ∈ names → p own) :
    (∀ name ∈ names.takeWhile (· ≠ own), p name = false) ↔
      ∀ name, names.find? p = some name → name = own := by
  induction names with
  | nil => simp
  | cons a names ih =>
    by_cases ha : a = own
    · subst ha
      have hp : p a := hown List.mem_cons_self
      simp [hp]
    · have ih := ih fun hmem => hown (List.mem_cons_of_mem a hmem)
      cases hp : p a with
      | true => simp [ha, hp]
      | false => simpa [ha, hp] using ih

def RpcErrorCode.goName : RpcErrorCode → String
  | .timeout => "DeadlineExceeded"
  | .unavailable => "Unavailable"
  | .notFound => "NotFound"
  | .invalidArgument => "InvalidArgument"
  | .internal => "Internal"
  | .unauthenticated => "Unauthenticated"
  | .permissionDenied => "PermissionDenied"
  | .cancelled => "Canceled"
  | .unknown => ""

theorem goName_mapGrpcStatus (hname : name ∈ grpcNames) : (mapGrpcStatus name).goName = name := by
  simp only [grpcNames, List.mem_cons, List.not_mem_nil, or_false] at hname
  rcases hname with rfl | rfl | rfl | rfl | rfl | rfl | rfl | rfl <;> decide +kernel

theorem mapGrpcStatus_goName (s : StatusCode) : mapGrpcStatus s.goName = s.documented := by
  cases s <;> decide +kernel

theorem documented_goName (s : StatusCode) :
    s.documented.goName = s.goName ∨ s.documented = .unknown := by
  cases s <;> first | exact .inl rfl | exact .inr rfl

theorem mapGrpcStatus_eq_documented (hname : name ∈ grpcNames) :
    mapGrpcStatus name = e.status.documented ↔ name = e.status.goName := by
  constructor
  · intro h
    have hback : e.status.documented.goName = name := by rw [← h, goName_mapGrpcStatus hname]
    rcases documented_goName e.status with hown | hunknown
    · rw [← hback, hown]
    · rw [hunknown] at hback
      rw [← hback] at hname
      exact absurd hname (by decide)
  · rintro rfl
    exact mapGrpcStatus_goName e.status

theorem documented_of_not_mem (h : e.status.goName ∉ grpcNames) :
    e.status.documented = .unknown := by
  revert h
  cases e.status <;> first | exact fun _ => rfl | exact fun h => absurd (by decide) h

theorem Go.code_eq (method service : Option String) :
    (Go.mapError texts (.grpc e) method service).code =
      match grpcNames.find? fun name => contains (texts.goError e) name with
      | some name => mapGrpcStatus name
      | none => .unknown := by
  obtain hfind | ⟨name, hfind⟩ := Option.eq_none_or_eq_some
    (grpcNames.find? fun name => contains (texts.goError e) name)
  · simp [Go.mapError, Go.mapOther, inferGrpcCode, CallError.goText, hfind]
  · have hne : name ≠ "" := by
      rintro rfl
      exact absurd (List.mem_of_find?_eq_some hfind) (by decide)
    simp [Go.mapError, Go.mapOther, inferGrpcCode, CallError.goText, hfind, hne]

theorem Go.documented_iff (htexts : texts.NamesStatus) :
    Documented (Go.mapError texts) e ↔ ReadsOwnCode texts e := by
  rw [documented_iff_code, ReadsOwnCode, find?_takeWhile fun _ => htexts e]
  simp only [Go.code_eq, forall_const]
  cases hfind : grpcNames.find? fun name => contains (texts.goError e) name with
  | none =>
    refine iff_of_true (documented_of_not_mem fun hmem => ?_).symm (by simp)
    exact List.find?_eq_none.mp hfind _ hmem (htexts e)
  | some name =>
    simpa using mapGrpcStatus_eq_documented (List.mem_of_find?_eq_some hfind)

theorem Py.documented (texts : GrpcTexts) (e : GrpcError) : Documented (Py.mapError texts) e := by
  refine documented_iff_code.mpr fun method service => ?_
  obtain ⟨status, message⟩ := e
  cases status <;> rfl

end

/-- Where each SDK follows the table: Go where the text names its code first,
Python always, the other two where the table has `unknown`. -/
theorem grpc_errors_documented_iff (texts : GrpcTexts) (htexts : texts.NamesStatus)
    (e : GrpcError) :
    (Documented (Go.mapError texts) e ↔ ReadsOwnCode texts e) ∧
      (Documented Ts.mapError e ↔ e.status.documented = .unknown) ∧
      Documented (Py.mapError texts) e ∧
      (Documented Java.mapError e ↔ e.status.documented = .unknown) := by
  refine ⟨Go.documented_iff htexts, ?_, Py.documented texts e, ?_⟩
  · rw [documented_iff_code]
    exact ⟨fun h => (h none none).symm, fun h _ _ => h.symm⟩
  · rw [documented_iff_code]
    exact ⟨fun h => (h none none).symm, fun h _ _ => h.symm⟩

/-- The texts with the status before the message. -/
def statusFirst : GrpcTexts where
  goError e := s!"rpc error: code = {e.status.goName} desc = {e.message}"
  pyStr e := s!"status = {e.status.goName} details = {e.message}"

theorem contains_middle (a name b c : String) : contains (a ++ name ++ b ++ c) name := by
  rw [contains, decide_eq_true_eq, String.toList_append, String.toList_append,
    String.toList_append, List.append_assoc (_ ++ _)]
  exact ⟨_, _, rfl⟩

theorem statusFirst_namesStatus : statusFirst.NamesStatus := fun e =>
  contains_middle "rpc error: code = " e.status.goName " desc = " e.message

theorem grpc_errors_documented_iff_down :
    Documented (Go.mapError statusFirst) ⟨.unavailable, "down"⟩ ∧
      ¬ Documented Ts.mapError ⟨.unavailable, "down"⟩ := by
  obtain ⟨hgo, hts, -, -⟩ :=
    grpc_errors_documented_iff statusFirst statusFirst_namesStatus ⟨.unavailable, "down"⟩
  exact ⟨hgo.mpr (by unfold ReadsOwnCode; decide +kernel), fun h => nomatch hts.mp h⟩

/-- A message that names another code changes the code in Go; the status is
lost in TypeScript and in Java. -/
theorem internal_error_retried :
    ¬ Documented (Go.mapError statusFirst) ⟨.internal, "upstream Unavailable"⟩ ∧
      (Go.mapError statusFirst (.grpc ⟨.internal, "upstream Unavailable"⟩) none none).code =
        .unavailable ∧
      ¬ Documented Ts.mapError ⟨.unavailable, "down"⟩ ∧
      ¬ Documented Java.mapError ⟨.unavailable, "down"⟩ := by
  have hgo : (Go.mapError statusFirst (.grpc ⟨.internal, "upstream Unavailable"⟩) none none).code =
      .unavailable := by decide +kernel
  refine ⟨fun h => ?_, hgo, fun h => ?_, fun h => ?_⟩
  · rw [h.1] at hgo
    cases hgo
  · cases h.1 none none
  · cases h.1 none none

end Rinfra.Sdk
