import MojangApi.App.Handlers
import MojangApi.RateLimit.Limiter
import MojangApi.Spellings

/-! # The responses

The JSON values, the status codes and the headers of the handlers. A body is the
value that is serialised; the text of a JSON value belongs to another crate.
-/

namespace MojangApi.Router
open MojangApi App RateLimit

/-- The JSON values that responses are made of. -/
inductive Json where
  | null
  | bool (value : Bool)
  | str (value : Str)
  | obj (fields : List (String × Json))

/-- A body is empty, JSON, or a page of the framework. -/
inductive Body where
  | empty
  | json (value : Json)
  | page (bytes : List UInt8)

inductive ErrorType where
  | invalidName
  | invalidUuid
  | internalTimeout
  | internalError
  deriving DecidableEq, Repr

def ErrorType.text : ErrorType → String
  | .invalidName => "INVALID_NAME"
  | .invalidUuid => "INVALID_UUID"
  | .internalTimeout => "INTERNAL_TIMEOUT"
  | .internalError => "INTERNAL_ERROR"

structure ErrorResponse where
  error : ErrorType

structure HealthResponse where
  status : String

structure NotFoundResponse where
  error : String

section Serialize

/-- An optional value is a value or `null`. -/
def serializeOption {α : Type} (serialize : α → Json) (value : Option α) : Json :=
  value.elim .null serialize

/-- A UUID is written in its hyphenated form. -/
def serializeUuid (uuid : Uuid) : Json := .str uuid.hyphenated

def serializeSkinProperty (property : SkinProperty) : Json :=
  .obj [("value", .str property.value), ("signature", .str property.signature)]

def serializeUuidLookup (response : UuidLookupResponse) : Json :=
  .obj [("exists", .bool response.exists), ("uuid", serializeOption serializeUuid response.uuid)]

def serializeSkinLookup (response : SkinLookupResponse) : Json :=
  .obj [("exists", .bool response.exists),
    ("skinProperty", serializeOption serializeSkinProperty response.skinProperty)]

def serializeError (response : ErrorResponse) : Json :=
  .obj [("error", .str response.error.text.toList)]

def serializeHealth (response : HealthResponse) : Json :=
  .obj [("status", .str response.status.toList)]

def serializeNotFound (response : NotFoundResponse) : Json :=
  .obj [("error", .str response.error.toList)]

end Serialize

def cacheControl : HeaderName := "cache-control"
def location : HeaderName := "location"
def clientCacheControl : HeaderValue := .text "public, max-age=900".toList

/-- A status with a JSON body. -/
def json (status : ℕ) (body : Json) : Response Body :=
  ⟨status, HashMap.empty.insert contentType (.text "application/json".toList), .inr (.json body)⟩

def cacheableJson (body : Json) : Response Body :=
  (json 200 body).withHeader cacheControl clientCacheControl

/-- `AppError::into_response`. -/
def intoResponse (error : AppError) : Response Body :=
  let (status, error) := match error with
    | .invalidName => (400, ErrorType.invalidName)
    | .invalidUuid => (400, .invalidUuid)
    | .timeout => (503, .internalTimeout)
    | .internal => (500, .internalError)
  json status (serializeError ⟨error⟩)

def health : Response Body := json 200 (serializeHealth ⟨"UP"⟩)

def notFound : Response Body := json 404 (serializeNotFound ⟨"Not Found"⟩)

/-- `Redirect::temporary("/swagger")`. -/
def redirect : Response Body :=
  ⟨307, HashMap.empty.insert location (.text "/swagger".toList), .inr .empty⟩

/-- What a handler returns, as the response it is sent as. -/
def lookupResponse {α : Type} (serialize : α → Json) : Except AppError α → Response Body
  | .ok value => cacheableJson (serialize value)
  | .error error => intoResponse error

def uuidLookupResponse : Except AppError UuidLookupResponse → Response Body :=
  lookupResponse serializeUuidLookup

def skinLookupResponse : Except AppError SkinLookupResponse → Response Body :=
  lookupResponse serializeSkinLookup

end MojangApi.Router
