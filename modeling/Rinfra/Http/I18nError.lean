import Rinfra.Core.Str
import Rinfra.Http.Auth
import Rinfra.Lib.Json.Text

/-!
# The i18n middleware

An error answered in JSON gets the message of its code in the language of the
request. Its body is read, parsed, changed and written again, while its headers
stay as they are, and among them the length of the body that was there before.
-/

namespace Rinfra.Http

open Lib Lib.Json

/-- A response on its way to the client. Header names are in lower case; `body`
is `none` where reading it fails. -/
structure RawResponse where
  status : Nat
  headers : List (String × List UInt8)
  body : Option (List UInt8)
  deriving DecidableEq, Repr

def toStr (value : List UInt8) : Option String :=
  if value.all fun b => b = 9 || (32 ≤ b && b < 127) then
    some (String.ofList (value.map fun b => Char.ofNat b.toNat))
  else none

namespace RawResponse

def header (r : RawResponse) (name : String) : Option (List UInt8) := r.headers.lookup name

def isSuccess (r : RawResponse) : Bool := 200 ≤ r.status && r.status < 300

def isJson (r : RawResponse) : Bool :=
  match (r.header "content-type").bind toStr with
  | some ct => contains ct "application/json"
  | none => false

/-- The number in the Content-Length header, itself `none` if it is not one. -/
def contentLength (r : RawResponse) : Option (Option Nat) :=
  (r.header "content-length").map fun value => (toStr value).bind fun s => parseU64 s.toList

def Sized (r : RawResponse) : Prop :=
  ∀ n bytes, r.contentLength = some n → r.body = some bytes → n = some bytes.length

end RawResponse

/-- The JSON library: what it reads, and how it writes numbers. A value can always
be written. -/
structure SerdeJson where
  fromSlice : List UInt8 → Option Value
  floats : FloatText

def SerdeJson.toVec (serde : SerdeJson) (json : Value) : List UInt8 :=
  utf8Bytes (String.ofList (text serde.floats json))

/-- `t` is that of the catalogs; the case mapping is Unicode's. -/
structure I18n where
  t : String → String → String
  toLowercase : String → String

def parseAcceptLanguage (req : Request Claims) : String :=
  match req.header "accept-language" with
  | some s => String.ofList (trim ((s.toList.takeWhile (· ≠ ',')).takeWhile (· ≠ ';')))
  | none => "en"

def I18n.translation (i18n : I18n) (locale : String) (json : Value) : Option String :=
  ((json.get? "code").bind Value.asStr).bind fun code =>
    let i18nKey := "error." ++ i18n.toLowercase code
    let translated := i18n.t i18nKey locale
    if translated ≠ i18nKey then some translated else none

/-- `json["message"] = …`, on the value that has the code. -/
def setMessage (json : Value) (message : String) : Value :=
  match json with
  | .object fields => .object (SortedMap.insert "message" (.string message) fields)
  | _ => json

section
variable (serde : SerdeJson) (i18n : I18n)

def i18nErrorMiddleware (req : Request Claims) (next : Request Claims → RawResponse) :
    RawResponse :=
  let locale := parseAcceptLanguage req
  let response := next req
  if response.isSuccess then response
  else if !response.isJson then response
  else match response.body with
    | none => { response with body := some [] }
    | some bytes => match serde.fromSlice bytes with
      | none => { response with body := some bytes }
      | some json =>
        let json := match i18n.translation locale json with
          | some translated => setMessage json translated
          | none => json
        { response with body := some (serde.toVec json) }

-- ---------------------------------------------------------------------------
-- Well-formed responses
-- ---------------------------------------------------------------------------

def translatedError (locale : String) (r : RawResponse) : Option (Value × String) :=
  if r.isSuccess || !r.isJson then none
  else do
    let json ← serde.fromSlice (← r.body)
    pure (json, ← i18n.translation locale json)

/-- One JSON object is another with a new message. -/
structure OnlyMessage (message : String) (json json' : Value) : Prop where
  objects : json.IsObject ∧ json'.IsObject
  message : json'.get? "message" = some (.string message)
  rest : ∀ key, key ≠ "message" → json'.get? key = json.get? key

structure WellFormed (locale : String) (inner out : RawResponse) : Prop where
  status : out.status = inner.status
  kept : translatedError serde i18n locale inner = none →
    out.headers = inner.headers ∧ out.body = inner.body
  message : ∀ json message, translatedError serde i18n locale inner = some (json, message) →
    ∃ json', out.body = some (serde.toVec json') ∧ OnlyMessage message json json'
  length : out.Sized

/-- The translation changes nothing about the length of the body: it is longer
than the message that was there by as much as the body is longer than it is
without spaces. -/
def SameLength (json : Value) (message : String) (bytes : List UInt8) : Prop :=
  match json.get? "message" with
  | some old =>
    size (stringText message) + size (text serde.floats json) =
      size (text serde.floats old) + bytes.length
  | none =>
    size (stringText message) + size (text serde.floats json) + 11 = bytes.length

/-- The responses that the middleware can handle. -/
def Safe (locale : String) (r : RawResponse) : Prop :=
  r.isSuccess = true ∨ r.isJson = false ∨ ∃ bytes, r.body = some bytes ∧
    ∀ json, serde.fromSlice bytes = some json → match i18n.translation locale json with
      | none => serde.toVec json = bytes
      | some message => r.contentLength = none ∨ SameLength serde json message bytes

variable {serde i18n}

theorem length_toVec (json : Value) :
    (serde.toVec json).length = size (text serde.floats json) := by
  rw [SerdeJson.toVec, utf8Bytes_ofList]
  induction text serde.floats json with
  | nil => rfl
  | cons c cs ih => simp [ih]

theorem object_of_translation (h : i18n.translation locale json = some message) :
    ∃ fields, json = .object fields ∧ fields ≠ [] := by
  obtain ⟨code, hcode, -⟩ := Option.bind_eq_some_iff.mp h
  obtain ⟨v, hv, -⟩ := Option.bind_eq_some_iff.mp hcode
  cases json with
  | object fields =>
    refine ⟨fields, rfl, ?_⟩
    rintro rfl
    cases hv
  | _ => cases hv

theorem onlyMessage_setMessage (fields : Fields) (message : String) :
    OnlyMessage message (.object fields) (setMessage (.object fields) message) where
  objects := ⟨trivial, trivial⟩
  message := SortedMap.get_insert_self ..
  rest _ hkey := SortedMap.get_insert_of_ne hkey ..

theorem length_setMessage_iff (h : i18n.translation locale json = some message)
    (bytes : List UInt8) :
    (serde.toVec (setMessage json message)).length = bytes.length ↔
      SameLength serde json message bytes := by
  obtain ⟨fields, rfl, hne⟩ := object_of_translation h
  rw [length_toVec, SameLength]
  have hget : (Value.object fields).get? "message" = SortedMap.get "message" fields := rfl
  have hstring : text serde.floats (.string message) = stringText message := rfl
  have hkey : size (stringText "message") = 9 := by decide
  cases hmessage : SortedMap.get "message" fields with
  | some old =>
    have hsize := size_insert_some serde.floats (.string message) hmessage
    simp only [setMessage, hget, hmessage, hstring] at hsize ⊢
    omega
  | none =>
    have hsize := size_insert_none serde.floats (.string message) hmessage hne
    simp only [setMessage, hget, hmessage, hstring, hkey] at hsize ⊢
    omega

theorem WellFormed.refl (hsized : r.Sized) (h : translatedError serde i18n locale r = none) :
    WellFormed serde i18n locale r r where
  status := rfl
  kept _ := ⟨rfl, rfl⟩
  message json message hsome := by
    rw [h] at hsome
    cases hsome
  length := hsized

theorem wellFormed_rewritten (hsized : r.Sized) (hbody : r.body = some bytes)
    (h : translatedError serde i18n locale r = none) :
    WellFormed serde i18n locale r { r with body := some new } ↔ new = bytes := by
  constructor
  · intro hwf
    have hkept := (hwf.kept h).2
    rw [hbody] at hkept
    exact Option.some.inj hkept
  · rintro rfl
    have heq : { r with body := some new } = r := by rw [← hbody]
    rw [heq]
    exact .refl hsized h

theorem wellFormed_translated (hsized : r.Sized) (hbody : r.body = some bytes)
    (htr : i18n.translation locale json = some message)
    (h : translatedError serde i18n locale r = some (json, message)) :
    WellFormed serde i18n locale r
        { r with body := some (serde.toVec (setMessage json message)) } ↔
      r.contentLength = none ∨ SameLength serde json message bytes := by
  rw [← length_setMessage_iff htr bytes]
  constructor
  · intro hwf
    cases hlen : r.contentLength with
    | none => exact .inl rfl
    | some n =>
      have hold := hsized n bytes hlen hbody
      have hnew := hwf.length n _ hlen rfl
      exact .inr (Option.some.inj (hnew.symm.trans hold))
  · intro hlen
    refine ⟨rfl, fun hnone => ?_, fun json' message' hsome => ?_, fun n new hn hnew => ?_⟩
    · rw [h] at hnone
      cases hnone
    · obtain ⟨rfl, rfl⟩ := Prod.mk.inj (Option.some.inj (h.symm.trans hsome))
      obtain ⟨fields, rfl, -⟩ := object_of_translation htr
      exact ⟨_, rfl, onlyMessage_setMessage fields message⟩
    · have hn : r.contentLength = some n := hn
      rw [hn] at hlen
      obtain rfl := Option.some.inj hnew
      rw [hlen.resolve_left (by simp)]
      exact hsized n bytes hn hbody

end

section
variable (serde : SerdeJson) (i18n : I18n)

/-- Exactly the responses that are safe come out of the middleware well formed:
those that it hands on untouched, the errors without translation that are
written as it writes them, and the translated ones of the same length. -/
theorem i18nErrorMiddleware_wellFormed_iff (req : Request Claims)
    (next : Request Claims → RawResponse) (hsized : (next req).Sized) :
    WellFormed serde i18n (parseAcceptLanguage req) (next req)
        (i18nErrorMiddleware serde i18n req next) ↔
      Safe serde i18n (parseAcceptLanguage req) (next req) := by
  simp only [i18nErrorMiddleware, Safe]
  generalize next req = r at hsized ⊢
  generalize parseAcceptLanguage req = locale
  cases hsuccess : r.isSuccess with
  | true => simpa using WellFormed.refl hsized (by simp [translatedError, hsuccess])
  | false => cases hjson : r.isJson with
    | false => simpa using WellFormed.refl hsized (by simp [translatedError, hjson])
    | true => cases hbody : r.body with
      | none =>
        have hnone : translatedError serde i18n locale r = none := by
          simp [translatedError, hbody]
        simp only [Bool.false_eq_true, Bool.true_eq_false, ↓reduceIte, reduceCtorEq, false_and,
          exists_false, or_self, iff_false, Bool.not_true]
        intro hwf
        have hkept := (hwf.kept hnone).2
        rw [hbody] at hkept
        cases hkept
      | some bytes => cases hparse : serde.fromSlice bytes with
        | none =>
          have hnone : translatedError serde i18n locale r = none := by
            simp [translatedError, hbody, hparse]
          simpa [hparse] using (wellFormed_rewritten hsized hbody hnone).mpr rfl
        | some json => cases htr : i18n.translation locale json with
          | none =>
            have hnone : translatedError serde i18n locale r = none := by
              simp [translatedError, hbody, hparse, htr]
            simpa [hparse, htr] using wellFormed_rewritten hsized hbody hnone
          | some message =>
            have hsome : translatedError serde i18n locale r = some (json, message) := by
              simp [translatedError, hsuccess, hjson, hbody, hparse, htr]
            simpa [hparse, htr] using wellFormed_translated hsized hbody htr hsome

end

-- ---------------------------------------------------------------------------
-- A translation longer than the message
-- ---------------------------------------------------------------------------

def notFoundText : List UInt8 :=
  utf8Bytes "\x7b\"code\":\"NOT_FOUND\",\"data\":null,\"message\":\"Not Found\"\x7d"

def notFoundJson : Value :=
  .object [("code", .string "NOT_FOUND"), ("data", .null), ("message", .string "Not Found")]

def notFoundSerde : SerdeJson where
  fromSlice bytes := if bytes = notFoundText then some notFoundJson else none
  floats := noFloats

def jaCatalog : I18n where
  t key locale := if key = "error.not_found" ∧ locale = "ja" then "見つかりません" else key
  toLowercase := String.toLower

def jaRequest : Request Unit where
  path := "/users/7"
  headers name := if name = "accept-language" then some (some "ja;q=0.9,en") else none
  connectInfo := none
  claims := none

def notFoundResponse : RawResponse where
  status := 404
  headers := [("content-type", utf8Bytes "application/json"), ("content-length", utf8Bytes "54")]
  body := some notFoundText

theorem sized_notFoundResponse : notFoundResponse.Sized := by
  have hlen : notFoundResponse.contentLength = some (some 54) := by decide +kernel
  intro n bytes hn hbody
  obtain rfl := Option.some.inj (hlen.symm.trans hn)
  obtain rfl := Option.some.inj hbody
  decide +kernel

/-- The message of 9 bytes becomes one of 21, and Content-Length stays. -/
theorem translation_longer_than_content_length :
    notFoundResponse.Sized ∧
      let out := i18nErrorMiddleware notFoundSerde jaCatalog jaRequest fun _ => notFoundResponse
      out.contentLength = some (some 54) ∧ out.body.map List.length = some 66 ∧
      ¬ WellFormed notFoundSerde jaCatalog (parseAcceptLanguage jaRequest) notFoundResponse
        out := by
  have hout : (i18nErrorMiddleware notFoundSerde jaCatalog jaRequest
      fun _ => notFoundResponse).contentLength = some (some 54) := by decide +kernel
  have hbody : (i18nErrorMiddleware notFoundSerde jaCatalog jaRequest
      fun _ => notFoundResponse).body.map List.length = some 66 := by decide +kernel
  refine ⟨sized_notFoundResponse, hout, hbody, fun hwf => ?_⟩
  obtain ⟨bytes, hbytes, hlen⟩ := Option.map_eq_some_iff.mp hbody
  have hsame := Option.some.inj (hwf.length _ bytes hout hbytes)
  omega

theorem i18nErrorMiddleware_not_found :
    notFoundResponse.Sized ∧
    (WellFormed notFoundSerde jaCatalog (parseAcceptLanguage jaRequest) notFoundResponse
        (i18nErrorMiddleware notFoundSerde jaCatalog jaRequest fun _ => notFoundResponse) ↔
      Safe notFoundSerde jaCatalog (parseAcceptLanguage jaRequest) notFoundResponse) :=
  ⟨sized_notFoundResponse,
    i18nErrorMiddleware_wellFormed_iff notFoundSerde jaCatalog jaRequest (fun _ => notFoundResponse)
      sized_notFoundResponse⟩

end Rinfra.Http
