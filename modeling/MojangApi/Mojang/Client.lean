import MojangApi.Batch.Process
import MojangApi.Mojang.ProxyFile
import MojangApi.Validation

/-! # `MojangHttpClient`

A request is a stretch up to its first await, which counts the request, and one
after its last, which counts an error or the body. What happens in between, on
the wire, is an `Exchange`. JSON, URLs, UUID parsing and the random choice
belong to other crates.
-/

namespace MojangApi.Mojang
open MojangApi

abbrev Bytes := List UInt8

def maxUpstreamResponseBytes : ℕ := 1024 * 1024

structure MojangBatchProfile where
  id : Str
  name : Str

structure MojangProperty where
  name : Str
  value : Str
  signature : Str

structure MojangProfile where
  properties : List MojangProperty := []

/-- What the client uses of other crates; a failure is `none`. -/
structure Libraries (U : Type) where
  toVec : List Str → Option Bytes
  profilesFromSlice : Bytes → Option (List MojangBatchProfile)
  profileFromSlice : Bytes → Option MojangProfile
  parseStr : Str → Option Uuid
  choose : List U → Option U
  join : U → Str → Option U
  setQuery : U → Str → U

structure MojangEndpoints (U : Type) where
  batchUrls : List U
  profileBaseUrl : U

/-- What the HTTP client is built from. With proxies, each connection goes through a random one
of them; without, it is up to the HTTP client how to connect. -/
structure ClientBuilder (U : Type) where
  defaultHeaders : List (Str × Str)
  timeout : ℕ
  httpsOnly : Bool
  proxies : List U

structure MojangHttpClient (U : Type) where
  libraries : Libraries U
  client : ClientBuilder U
  endpoints : MojangEndpoints U
  batchUrls_ne : endpoints.batchUrls ≠ []

def defaultHeaders : List (Str × Str) :=
  [("accept".toList, "application/json".toList), ("accept-language".toList, "en-US,en".toList),
    ("user-agent".toList, "SRMojangAPI".toList)]

/-- The proxies are read before the HTTP client is built; either may fail. -/
def MojangHttpClient.new {U H : Type} [DecidableEq U] (libraries : Libraries U)
    (url : UrlCrate U H) (readToString : Str → Except IoError Str) (builds : ClientBuilder U → Bool)
    (endpoints : MojangEndpoints U) (proxyListFile : Option Str) (timeout : ℕ) :
    Except ClientBuildError (MojangHttpClient U) :=
  if h : endpoints.batchUrls = [] then .error .noBatchEndpoints
  else
    match proxyListFile.elim (.ok []) (loadProxyList url readToString) with
    | .error error => .error error
    | .ok proxies =>
      let client := {
        defaultHeaders := defaultHeaders
        timeout := timeout
        httpsOnly := true
        proxies := proxies }
      if builds client then .ok ⟨libraries, client, endpoints, h⟩ else .error .build

structure Request (U : Type) where
  endpoint : U
  body : Option Bytes

/-- What the transport does: the request fails, or a response comes whose body arrives in
chunks and may break off. The flags tell timeouts from other failures. -/
inductive Exchange where
  | failed (timeout : Bool)
  | responded (status : ℕ) (contentLength : Option ℕ) (chunks : List Bytes) (failure : Option Bool)

/-- A stretch of the client: it updates the counters and may fail. -/
abbrev Counting := ExceptT UpstreamError (StateM Metrics)

section Errors
variable {α : Type}

def transportError (timeout : Bool) : Counting α := do
  modify Metrics.incrementMojangErrors
  throw (if timeout then .timeout else .transport)

def recordStatusError (status : ℕ) : Counting α := do
  modify Metrics.incrementMojangErrors
  throw (.httpStatus status)

def recordInvalidResponse : Counting α := do
  modify Metrics.incrementMojangErrors
  throw .invalidResponse

end Errors

/-- A growing buffer, with the capacity it was asked for at first. -/
structure BytesMut where
  capacity : ℕ
  bytes : Bytes := []

def checkedAdd (a b : ℕ) : Option ℕ := if a + b < 2 ^ 64 then some (a + b) else none

/-- A declared length as a `usize`, which has 64 bits. -/
def usizeTryFrom (length : ℕ) : Option ℕ := if length < 2 ^ 64 then some length else none

/-- The buffer afterwards, and whether the chunk was taken. -/
def tryExtendBody (body : BytesMut) (chunk : Bytes) (limit : ℕ) : BytesMut × Bool :=
  if (checkedAdd body.bytes.length chunk.length).all fun length => limit < length then (body, false)
  else ({ body with bytes := body.bytes ++ chunk }, true)

/-- The loop of `send`, until the chunks are used up or one of them is rejected. -/
def accumulate (body : BytesMut) : List Bytes → BytesMut × Bool
  | [] => (body, true)
  | chunk :: chunks =>
    match tryExtendBody body chunk maxUpstreamResponseBytes with
    | (body, false) => (body, false)
    | (body, true) => accumulate body chunks

/-- The chunks that come before the end of the body, or before a failure. -/
def readBody (chunks : List Bytes) (failure : Option Bool) (body : BytesMut) : Counting Bytes :=
  match accumulate body chunks, failure with
  | (_, false), _ => recordInvalidResponse
  | (_, true), some timeout => transportError timeout
  | (body, true), none => pure body.bytes

def initialCapacity (contentLength : Option ℕ) : ℕ :=
  min ((contentLength.bind usizeTryFrom).getD (8 * 1024)) maxUpstreamResponseBytes

/-- `send` up to its first await. -/
def sendStart (sentBytes : ℕ) : Counting Unit :=
  modify fun metrics => metrics.recordMojangRequest sentBytes

/-- `send` from there on. -/
def sendFinish : Exchange → Counting (ℕ × Bytes)
  | .failed timeout => transportError timeout
  | .responded status contentLength chunks failure => do
    if contentLength.any fun length => maxUpstreamResponseBytes < length then
      recordInvalidResponse
    else
      let body ← readBody chunks failure { capacity := initialCapacity contentLength }
      modify fun metrics => metrics.recordMojangResponse body.length
      pure (status, body)

def isSuccess (status : ℕ) : Bool := 200 ≤ status && status < 300

def noContent : ℕ := 204

namespace MojangHttpClient
variable {U : Type} (client : MojangHttpClient U)

def lookupNamesStart (names : List Str) : Counting (Request U) :=
  match client.libraries.toVec names with
  | none => recordInvalidResponse
  | some body =>
    match client.libraries.choose client.endpoints.batchUrls with
    | none => recordInvalidResponse
    | some endpoint => do
      sendStart body.length
      pure ⟨endpoint, some body⟩

/-- The profiles in their order, or an error at the first bad UUID. -/
def collectProfiles (profiles : List MojangBatchProfile) : Counting Batch.Profiles :=
  profiles.mapM fun profile =>
    match parseMinecraftUuid client.libraries.parseStr profile.id with
    | some uuid => pure (profile.name, uuid)
    | none => recordInvalidResponse

def lookupNamesFinish (exchange : Exchange) : Counting Batch.Profiles := do
  let (status, responseBody) ← sendFinish exchange
  if !isSuccess status then recordStatusError status
  else
    match client.libraries.profilesFromSlice responseBody with
    | none => recordInvalidResponse
    | some profiles => client.collectProfiles profiles

def lookupSkinStart (uuid : Uuid) : Counting (Request U) :=
  match client.libraries.join client.endpoints.profileBaseUrl uuid.simple with
  | none => recordInvalidResponse
  | some endpoint => do
    sendStart 0
    pure ⟨client.libraries.setQuery endpoint "unsigned=false".toList, none⟩

def lookupSkinFinish (exchange : Exchange) : Counting (Option SkinProperty) := do
  let (status, responseBody) ← sendFinish exchange
  if status = noContent then pure none
  else if !isSuccess status then recordStatusError status
  else
    match client.libraries.profileFromSlice responseBody with
    | none => recordInvalidResponse
    | some profile =>
      let textures := profile.properties.find? fun property => property.name = "textures".toList
      pure (textures.map fun property => ⟨property.value, property.signature⟩)

/-- The rest of a call whose first stretch may have failed already. -/
def afterStart {α : Type} (start : Counting (Request U)) (rest : Counting α) (metrics : Metrics) :
    Metrics × Except UpstreamError α :=
  match (start.run.run metrics).1 with
  | .error error => (metrics, .error error)
  | .ok _ => ((rest.run.run metrics).2, (rest.run.run metrics).1)

def service : Batch.MojangService Exchange where
  begin names metrics := ((client.lookupNamesStart names).run.run metrics).2
  finish names exchange := afterStart (client.lookupNamesStart names)
    (client.lookupNamesFinish exchange)

end MojangHttpClient
end MojangApi.Mojang
