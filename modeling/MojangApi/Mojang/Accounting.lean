import MojangApi.Batch.Tally
import MojangApi.Mojang.Body
import MojangApi.Spellings

/-! # One request and at most one error for each call

A stretch accounts for its bytes when it adds them, and an error exactly if it
fails, to the counters. Such stretches compose, so that a whole call needs no
look at its branches.
-/

namespace MojangApi.Mojang
open MojangApi

/-- What the counters grow by when a request is sent. -/
def sent (sentBytes : ℕ) : Counter → ℕ
  | .mojangRequests => 1
  | .bytesSentToMojang => sentBytes
  | _ => 0

/-- What they grow by when a call ends. -/
def received (receivedBytes errors : ℕ) : Counter → ℕ
  | .bytesReceivedFromMojang => receivedBytes
  | .mojangErrors => errors
  | _ => 0

theorem received_add (bytes errors bytes' errors' : ℕ) (c : Counter) :
    received bytes errors c + received bytes' errors' c =
      received (bytes + bytes') (errors + errors') c := by
  cases c <;> rfl

/-- The length of a body that came whole and within the limit. -/
def Exchange.receivedBytes : Exchange → ℕ
  | .responded _ contentLength chunks none =>
    if WithinLimit contentLength chunks.flatten then chunks.flatten.length else 0
  | _ => 0

section Stretches
variable {α β : Type} {x : Counting α} {f : α → Counting β}

/-- Apart from bytes, a stretch counts nothing but the error it returns. -/
def Tallies (x : Counting α) : Prop :=
  ∀ (metrics : Metrics) (total : Counter → ℕ), metrics.Follows total →
    (x.run.run metrics).2.Follows fun c =>
      total c + if .mojangErrors = c then failures (x.run.run metrics).1 else 0

/-- A stretch counts the bytes it receives and the error it returns. -/
def Accounts (x : Counting α) (bytes : ℕ) : Prop :=
  ∀ metrics : Metrics, metrics.Grows (x.run.run metrics).2
    (received bytes (failures (x.run.run metrics).1))

theorem Accounts.tallies {bytes : ℕ} (h : Accounts x bytes) : Tallies x := by
  intro metrics total hfollows
  apply (h metrics).follows hfollows
  intro c hc
  cases c with
  | bytesReceivedFromMojang => contradiction
  | mojangErrors => rfl
  | _ => rfl

theorem run_bind_ok {metrics : Metrics} {a : α} (h : (x.run.run metrics).1 = .ok a) :
    (x >>= f).run.run metrics = (f a).run.run (x.run.run metrics).2 := by
  have hx : x.run.run metrics = (.ok a, (x.run.run metrics).2) := Prod.ext h rfl
  change (ExceptT.bindCont f (x.run.run metrics).1).run (x.run.run metrics).2 = _
  rw [h]
  rfl

theorem run_bind_error {metrics : Metrics} {error : UpstreamError}
    (h : (x.run.run metrics).1 = .error error) :
    (x >>= f).run.run metrics = (.error error, (x.run.run metrics).2) := by
  change (ExceptT.bindCont f (x.run.run metrics).1).run (x.run.run metrics).2 = _
  rw [h]
  rfl

/-- A result of two stretches comes from a result of the first. -/
theorem ok_of_bind {metrics : Metrics} {b : β} (h : ((x >>= f).run.run metrics).1 = .ok b) :
    ∃ a, (x.run.run metrics).1 = .ok a ∧ ((f a).run.run (x.run.run metrics).2).1 = .ok b := by
  cases hx : (x.run.run metrics).1 with
  | error error =>
    rw [run_bind_error hx] at h
    cases h
  | ok a =>
    rw [run_bind_ok hx] at h
    exact ⟨a, rfl, h⟩

theorem accounts_pure (a : α) : Accounts (pure a) 0 := by
  intro metrics
  exact (metrics.grows_refl).congr fun c => by cases c <;> rfl

/-- Bytes are only received before the first thing that can fail. -/
theorem Accounts.bind {bytes : ℕ} (hx : Accounts x bytes) (hf : ∀ a, Accounts (f a) 0) :
    Accounts (x >>= f) bytes := by
  intro metrics
  have hfirst := hx metrics
  cases hresult : (x.run.run metrics).1 with
  | error error =>
    rw [run_bind_error hresult]
    rwa [hresult] at hfirst
  | ok a =>
    rw [run_bind_ok hresult]
    rw [hresult] at hfirst
    apply (hfirst.trans (hf a _)).congr
    intro c
    rw [received_add]
    simp [failures]

/-- The three error helpers count one error and return it. -/
theorem accounts_error (error : UpstreamError) :
    Accounts (α := α) (do modify Metrics.incrementMojangErrors; throw error) 0 := by
  intro metrics
  exact (metrics.grows_add .mojangErrors 1).congr fun c => by cases c <;> rfl

theorem accounts_response (bytes : ℕ) :
    Accounts (modify fun metrics => metrics.recordMojangResponse bytes) bytes := by
  intro metrics
  exact (metrics.grows_add .bytesReceivedFromMojang bytes).congr fun c => by cases c <;> rfl

theorem accounts_sendFinish (exchange : Exchange) :
    Accounts (sendFinish exchange) exchange.receivedBytes := by
  cases exchange with
  | failed timeout => exact accounts_error _
  | responded status contentLength chunks failure =>
    cases failure with
    | some timeout =>
      rcases sendFinish_broken status contentLength chunks timeout with hsend | hsend
      · rw [hsend]
        exact accounts_error _
      · rw [hsend]
        exact accounts_error _
    | none =>
      rw [Exchange.receivedBytes]
      split
      · rename_i hwithin
        rw [sendFinish_within hwithin]
        exact (accounts_response _).bind fun _ => accounts_pure _
      · rename_i hbeyond
        rw [sendFinish_beyond hbeyond]
        exact accounts_error _

end Stretches

namespace MojangHttpClient
variable {U : Type} {client : MojangHttpClient U}

theorem accounts_collectProfiles (client : MojangHttpClient U)
    (profiles : List MojangBatchProfile) : Accounts (client.collectProfiles profiles) 0 := by
  induction profiles with
  | nil => exact accounts_pure _
  | cons profile profiles ih =>
    rw [collectProfiles, List.mapM_cons]
    apply Accounts.bind
    · cases parseMinecraftUuid client.libraries.parseStr profile.id with
      | none => exact accounts_error _
      | some uuid => exact accounts_pure _
    · intro first
      apply Accounts.bind ih
      intro rest
      exact accounts_pure _

theorem accounts_lookupNamesFinish (client : MojangHttpClient U) (exchange : Exchange) :
    Accounts (client.lookupNamesFinish exchange) exchange.receivedBytes := by
  apply (accounts_sendFinish exchange).bind
  rintro ⟨status, body⟩
  dsimp only
  split
  · exact accounts_error _
  · cases client.libraries.profilesFromSlice body with
    | none => exact accounts_error _
    | some profiles => exact accounts_collectProfiles client profiles

theorem accounts_lookupSkinFinish (client : MojangHttpClient U) (exchange : Exchange) :
    Accounts (client.lookupSkinFinish exchange) exchange.receivedBytes := by
  apply (accounts_sendFinish exchange).bind
  rintro ⟨status, body⟩
  dsimp only
  split
  · exact accounts_pure _
  · split
    · exact accounts_error _
    · cases client.libraries.profileFromSlice body with
      | none => exact accounts_error _
      | some profile => exact accounts_pure _

/-- What the client relies on: a list of strings serializes, a choice from an address list
that is not empty succeeds, and a UUID joined to the built-in address is an address. -/
structure Reliable (client : MojangHttpClient U) : Prop where
  toVec : ∀ names, (client.libraries.toVec names).isSome = true
  choose : ∀ urls, urls ≠ [] → (client.libraries.choose urls).isSome = true
  join : ∀ uuid : Uuid,
    (client.libraries.join client.endpoints.profileBaseUrl uuid.simple).isSome = true

/-- A stretch that sends a request counts it and does not fail. -/
def Sends (x : Counting (Request U)) : Prop :=
  ∀ metrics : Metrics, (∃ request, (x.run.run metrics).1 = .ok request) ∧
    ∀ total, metrics.Follows total → (x.run.run metrics).2.Follows fun c =>
      total c + if .mojangRequests = c then 1 else 0

/-- It counts the bytes of the request as well. -/
def SendsBytes (x : Counting (Request U)) (bytes : ℕ) : Prop :=
  ∀ metrics : Metrics, (∃ request, (x.run.run metrics).1 = .ok request) ∧
    metrics.Grows (x.run.run metrics).2 (sent bytes)

theorem SendsBytes.sends {x : Counting (Request U)} {bytes : ℕ} (h : SendsBytes x bytes) :
    Sends x := by
  intro metrics
  obtain ⟨hrequest, hgrows⟩ := h metrics
  refine ⟨hrequest, fun total hfollows => hgrows.follows hfollows fun c hc => ?_⟩
  cases c with
  | bytesSentToMojang => contradiction
  | mojangRequests => rfl
  | _ => rfl

theorem sends_sendStart (sentBytes : ℕ) (request : Request U) :
    SendsBytes (do sendStart sentBytes; pure request) sentBytes := by
  intro metrics
  refine ⟨⟨request, rfl⟩, ?_⟩
  refine ((metrics.grows_add .mojangRequests 1).trans
    (Metrics.grows_add _ .bytesSentToMojang sentBytes)).congr fun c => ?_
  cases c with
  | bytesSentToMojang => simp [sent]
  | _ => rfl

theorem sends_lookupNamesStart (hclient : Reliable client) (names : List Str) :
    ∃ body, client.libraries.toVec names = some body ∧
      SendsBytes (client.lookupNamesStart names) body.length := by
  obtain ⟨body, hbody⟩ := Option.isSome_iff_exists.mp (hclient.toVec names)
  obtain ⟨endpoint, hendpoint⟩ :=
    Option.isSome_iff_exists.mp (hclient.choose _ client.batchUrls_ne)
  refine ⟨body, hbody, ?_⟩
  rw [lookupNamesStart, hbody, hendpoint]
  exact sends_sendStart body.length _

theorem sends_lookupSkinStart (hclient : Reliable client) (uuid : Uuid) :
    SendsBytes (client.lookupSkinStart uuid) 0 := by
  obtain ⟨endpoint, hendpoint⟩ := Option.isSome_iff_exists.mp (hclient.join uuid)
  rw [lookupSkinStart, hendpoint]
  exact sends_sendStart 0 _

theorem afterStart_eq {α : Type} {start : Counting (Request U)} (hstart : Sends start)
    (rest : Counting α) (metrics : Metrics) :
    afterStart start rest metrics = ((rest.run.run metrics).2, (rest.run.run metrics).1) := by
  obtain ⟨⟨request, hrequest⟩, -⟩ := hstart metrics
  rw [afterStart, hrequest]

/-- The rest of a call that was sent. -/
theorem afterStart_follows {α : Type} {start : Counting (Request U)} {rest : Counting α}
    (hstart : Sends start) (hrest : Tallies rest) {metrics : Metrics} {total : Counter → ℕ}
    (h : metrics.Follows total) : (afterStart start rest metrics).1.Follows fun c =>
      total c + if .mojangErrors = c then failures (afterStart start rest metrics).2 else 0 := by
  rw [afterStart_eq hstart]
  exact hrest metrics total h

theorem accounts (hclient : Reliable client) : Batch.Accounts client.service where
  begin names metrics total h := by
    obtain ⟨body, -, hsends⟩ := sends_lookupNamesStart hclient names
    exact (hsends.sends metrics).2 total h
  finish names exchange _ _ h := by
    obtain ⟨body, -, hsends⟩ := sends_lookupNamesStart hclient names
    exact afterStart_follows hsends.sends (accounts_lookupNamesFinish client exchange).tallies h

end MojangHttpClient

/-- A JSON array of strings that need no escapes. -/
def jsonNames (names : List Str) : Bytes :=
  [0x5B] ++ List.intercalate [0x2C] (names.map fun name => [0x22] ++ Str.bytes name ++ [0x22]) ++
    [0x5D]

/-- Addresses as texts, and responses that list nothing. -/
def plainLibraries : Libraries Str where
  toVec names := some (jsonNames names)
  profilesFromSlice body := if body = [0x5B, 0x5D] then some [] else none
  profileFromSlice _ := none
  parseStr := readDigits
  choose := List.head?
  join url path := some (url ++ path)
  setQuery url query := url ++ '?' :: query

/-- The addresses of `MojangEndpoints::production`. -/
def productionClient : MojangHttpClient Str where
  libraries := plainLibraries
  client :=
    { defaultHeaders := defaultHeaders
      timeout := Duration.fromSecs 15
      httpsOnly := true
      proxies := [] }
  endpoints :=
    { batchUrls := ["https://api.mojang.com/profiles/minecraft".toList,
        "https://api.minecraftservices.com/minecraft/profile/lookup/bulk/byname".toList]
      profileBaseUrl := "https://sessionserver.mojang.com/session/minecraft/profile/".toList }
  batchUrls_ne := by simp

theorem productionClient_reliable : productionClient.Reliable where
  toVec _ := rfl
  choose urls h := by
    cases urls with
    | nil => exact absurd rfl h
    | cons url urls => rfl
  join _ := rfl

end MojangApi.Mojang
