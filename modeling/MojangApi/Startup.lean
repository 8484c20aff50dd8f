import MojangApi.Router.Load

/-! # `main`, up to the server

The settings come from the environment, all else is built in. The parts are built one
after the other, and the first one that fails ends the program. The environment is the
one after `.env` was read.
-/

namespace MojangApi.Startup
open MojangApi Library Mojang RateLimit

/-- The value of a variable as it is displayed, and whether it is Unicode. -/
structure OsString where
  text : Str
  unicode : Bool

inductive ConfigError where
  | invalidPort
  | invalidUrl
  deriving DecidableEq, Repr

structure Config (U : Type) where
  serverPort : ℕ
  proxyListFile : Option OsString
  discordWebhook : Option U
  endpoints : MojangEndpoints U
  requestTimeout : ℕ
  batchSize : ℕ
  batchInterval : ℕ
  queueCapacity : ℕ
  maxInFlightBatches : ℕ

section Settings
variable {U : Type} (parse : Str → Option U) (environment : String → Option OsString)

def batchUrls : List String :=
  ["https://api.mojang.com/profiles/minecraft",
    "https://api.minecraftservices.com/minecraft/profile/lookup/bulk/byname"]

def profileBaseUrl : String := "https://sessionserver.mojang.com/session/minecraft/profile/"

/-- A URL that is there has to be one. -/
def parseUrl (text : Str) : Except ConfigError U :=
  (parse text).elim (.error .invalidUrl) .ok

def production : Except ConfigError (MojangEndpoints U) := do
  let batchUrls ← batchUrls.mapM fun text => parseUrl parse text.toList
  let profileBaseUrl ← parseUrl parse profileBaseUrl.toList
  pure ⟨batchUrls, profileBaseUrl⟩

/-- `env::var(name).ok()`: variables that are not Unicode count as not set. -/
def envVar (name : String) : Option Str :=
  (environment name).bind fun value => if value.unicode then some value.text else none

/-- The port as it is given, if it is. -/
def portText : Option Str := (envVar environment "SERVER_PORT").or (envVar environment "PORT")

def serverPort : Except ConfigError ℕ :=
  match portText environment with
  | none => .ok 3000
  | some value => (parseU16 value).elim (.error .invalidPort) .ok

def discordWebhook : Except ConfigError (Option U) :=
  match envVar environment "DISCORD_WEBHOOK" with
  | none => .ok none
  | some value => (parseUrl parse value).map some

def fromEnv : Except ConfigError (Config U) := do
  let serverPort ← serverPort environment
  let discordWebhook ← discordWebhook parse environment
  let endpoints ← production parse
  pure
    { serverPort := serverPort
      proxyListFile := environment "PROXY_LIST_FILE"
      discordWebhook := discordWebhook
      endpoints := endpoints
      requestTimeout := Duration.fromSecs 15
      batchSize := 10
      batchInterval := Duration.fromSecs 3
      queueCapacity := 1024
      maxInFlightBatches := 16 }

end Settings

/-- What the program meets outside, with the results of installing the subscriber and of
binding the port. -/
structure Outside (U H : Type) where
  tracing : Bool
  environment : String → Option OsString
  url : UrlCrate U H
  readToString : Str → Except IoError Str
  libraries : Libraries U
  builds : ClientBuilder U → Bool
  binds : ℕ → Bool
  now : ℕ

inductive StartError where
  | tracing
  | config (error : ConfigError)
  | client (error : ClientBuildError)
  | batch (error : Batch.BatchConfigError)
  | router (error : RateLimitConfigError)
  | bind
  deriving DecidableEq, Repr

/-- What `serve_until_shutdown` is given, and the webhook of the reporter. -/
structure Server (U : Type) where
  port : ℕ
  discordWebhook : Option U
  client : MojangHttpClient U
  config : Batch.BatchConfig
  expiry : Cache.OptionalValueExpiry
  limiter : RateLimiter

section Main
variable {U H : Type} [DecidableEq U] (outside : Outside U H)

/-- A part that works, or the error that ends the program. -/
def check (works : Bool) (error : StartError) : Except StartError Unit :=
  if works then .ok () else .error error

def main : Except StartError (Server U) := do
  check outside.tracing .tracing
  let config ← (fromEnv outside.url.parse outside.environment).mapError .config
  let client ← (MojangHttpClient.new outside.libraries outside.url outside.readToString
    outside.builds config.endpoints (config.proxyListFile.map OsString.text)
    config.requestTimeout).mapError .client
  let batch ← (Batch.BatchConfig.new config.batchSize config.batchInterval config.queueCapacity
    config.maxInFlightBatches).mapError .batch
  let limiter ← (Router.buildRouter outside.now).mapError .router
  check (outside.binds config.serverPort) .bind
  pure ⟨config.serverPort, config.discordWebhook, client, batch, .default, limiter⟩

/-- The machine that serves requests. -/
def Server.system (server : Server U) (framework : Router.Framework) :
    Machine Router.State Router.Event :=
  Router.system server.expiry server.config server.client framework server.limiter

end Main
section Results
variable {α β ε δ : Type}

theorem bind_ok_iff {x : Except ε α} {f : α → Except ε β} {b : β} :
    (x >>= f) = .ok b ↔ ∃ a, x = .ok a ∧ f a = .ok b := by
  cases x with
  | error error =>
    refine ⟨fun h => ?_, fun ⟨a, h, _⟩ => ?_⟩
    · cases h
    · cases h
  | ok a =>
    refine ⟨fun h => ⟨a, rfl, h⟩, fun ⟨a', ha, h⟩ => ?_⟩
    obtain rfl := Except.ok.inj ha
    exact h

theorem mapError_ok_iff {x : Except ε α} {f : ε → δ} {a : α} :
    x.mapError f = .ok a ↔ x = .ok a := by
  cases x <;> simp [Except.mapError]

theorem check_ok_iff {works : Bool} {error : StartError} :
    check works error = .ok () ↔ works = true := by
  cases works <;> simp [check]

end Results

section Starting
variable {U H : Type} [DecidableEq U] {outside : Outside U H}

/-- The URLs in the program are URLs. -/
def BuiltIn (parse : Str → Option U) : Prop :=
  ∀ text ∈ profileBaseUrl :: batchUrls, (parse text.toList).isSome = true

omit [DecidableEq U] in
theorem production_ok {parse : Str → Option U} (h : BuiltIn parse) :
    ∃ endpoints, production parse = .ok endpoints ∧ endpoints.batchUrls ≠ [] := by
  simp only [BuiltIn, batchUrls, List.forall_mem_cons, Option.isSome_iff_exists] at h
  obtain ⟨⟨base, hbase⟩, ⟨first, hfirst⟩, ⟨second, hsecond⟩, -⟩ := h
  refine ⟨⟨[first, second], base⟩, ?_, List.cons_ne_nil _ _⟩
  simp only [production, batchUrls, List.mapM_cons, List.mapM_nil, parseUrl, hbase, hfirst,
    hsecond]
  rfl

/-- The port to listen on. -/
def Outside.port (outside : Outside U H) : ℕ :=
  ((portText outside.environment).bind parseU16).getD 3000

def Outside.webhook (outside : Outside U H) : Option U :=
  (envVar outside.environment "DISCORD_WEBHOOK").bind outside.url.parse

/-- The proxies of the file, if one is given and can be read. -/
def Outside.proxies (outside : Outside U H) : List U :=
  match (outside.environment "PROXY_LIST_FILE").map fun path =>
    outside.readToString path.text with
  | some (.ok content) => (loadLines outside.url content).proxies
  | _ => []

/-- What the HTTP client is built from. -/
def Outside.clientBuilder (outside : Outside U H) : ClientBuilder U :=
  ⟨defaultHeaders, Duration.fromSecs 15, true, outside.proxies⟩

/-- What the program needs to start. -/
structure Startable (outside : Outside U H) : Prop where
  tracing : outside.tracing = true
  port : ∀ value, portText outside.environment = some value → (parseU16 value).isSome = true
  webhook : ∀ value, envVar outside.environment "DISCORD_WEBHOOK" = some value →
    (outside.url.parse value).isSome = true
  proxies : ∀ path error, outside.environment "PROXY_LIST_FILE" = some path →
    outside.readToString path.text = .error error → error = .notFound
  builds : outside.builds outside.clientBuilder = true
  binds : outside.binds outside.port = true

section Settings
omit [DecidableEq U]

theorem serverPort_ok_iff {port : ℕ} : serverPort outside.environment = .ok port ↔
    (∀ value, portText outside.environment = some value → (parseU16 value).isSome = true) ∧
      port = outside.port := by
  rw [serverPort, Outside.port]
  cases portText outside.environment with
  | none =>
    simp only [reduceCtorEq, false_implies, implies_true, true_and, Except.ok.injEq]
    exact eq_comm
  | some value =>
    cases h : parseU16 value with
    | none => simp [h]
    | some number =>
      simp only [Option.elim_some, Except.ok.injEq, Option.some.injEq, forall_eq', h,
        Option.isSome_some, Option.bind_some, Option.getD_some, true_and]
      exact eq_comm

theorem discordWebhook_ok_iff {webhook : Option U} :
    discordWebhook outside.url.parse outside.environment = .ok webhook ↔
    (∀ value, envVar outside.environment "DISCORD_WEBHOOK" = some value →
      (outside.url.parse value).isSome = true) ∧ webhook = outside.webhook := by
  rw [discordWebhook, Outside.webhook]
  cases envVar outside.environment "DISCORD_WEBHOOK" with
  | none =>
    simp only [reduceCtorEq, false_implies, implies_true, true_and, Except.ok.injEq]
    exact eq_comm
  | some value =>
    cases h : outside.url.parse value with
    | none => simp [parseUrl, h, Except.map]
    | some url =>
      simp only [parseUrl, Option.elim_some, Except.map, Except.ok.injEq, Option.some.injEq,
        forall_eq', h, Option.isSome_some, Option.bind_some, true_and]
      exact eq_comm

/-- The settings that an environment without mistakes gives. -/
def Outside.settings (outside : Outside U H) (endpoints : MojangEndpoints U) : Config U where
  serverPort := outside.port
  proxyListFile := outside.environment "PROXY_LIST_FILE"
  discordWebhook := outside.webhook
  endpoints := endpoints
  requestTimeout := Duration.fromSecs 15
  batchSize := 10
  batchInterval := Duration.fromSecs 3
  queueCapacity := 1024
  maxInFlightBatches := 16

theorem fromEnv_ok_iff {endpoints : MojangEndpoints U} {config : Config U}
    (hendpoints : production outside.url.parse = .ok endpoints) :
    fromEnv outside.url.parse outside.environment = .ok config ↔
      (∀ value, portText outside.environment = some value → (parseU16 value).isSome = true) ∧
      (∀ value, envVar outside.environment "DISCORD_WEBHOOK" = some value →
        (outside.url.parse value).isSome = true) ∧ config = outside.settings endpoints := by
  rw [fromEnv]
  constructor
  · intro h
    obtain ⟨port, hport, h⟩ := bind_ok_iff.mp h
    obtain ⟨webhook, hwebhook, h⟩ := bind_ok_iff.mp h
    obtain ⟨endpoints', hendpoints', h⟩ := bind_ok_iff.mp h
    obtain ⟨hportValid, rfl⟩ := serverPort_ok_iff.mp hport
    obtain ⟨hwebhookValid, rfl⟩ := discordWebhook_ok_iff.mp hwebhook
    obtain rfl := Except.ok.inj (hendpoints.symm.trans hendpoints')
    exact ⟨hportValid, hwebhookValid, (Except.ok.inj h).symm⟩
  · rintro ⟨hport, hwebhook, rfl⟩
    refine bind_ok_iff.mpr ⟨_, serverPort_ok_iff.mpr ⟨hport, rfl⟩, ?_⟩
    refine bind_ok_iff.mpr ⟨_, discordWebhook_ok_iff.mpr ⟨hwebhook, rfl⟩, ?_⟩
    exact bind_ok_iff.mpr ⟨endpoints, hendpoints, rfl⟩

end Settings

/-- Only a file that is there and cannot be read is an obstacle. -/
theorem proxies_ok_iff {proxies : List U} :
    ((outside.environment "PROXY_LIST_FILE").map OsString.text).elim (.ok [])
      (loadProxyList outside.url outside.readToString) = .ok proxies ↔
    (∀ path error, outside.environment "PROXY_LIST_FILE" = some path →
      outside.readToString path.text = .error error → error = .notFound) ∧
      proxies = outside.proxies := by
  rw [Outside.proxies]
  cases outside.environment "PROXY_LIST_FILE" with
  | none =>
    simp only [Option.map_none, Option.elim_none, reduceCtorEq, false_implies, implies_true,
      true_and, Except.ok.injEq]
    exact eq_comm
  | some path =>
    simp only [Option.map_some, Option.elim_some, Option.some.injEq, loadProxyList]
    rcases h : outside.readToString path.text with error | content
    · cases error with
      | notFound =>
        constructor
        · intro hok
          refine ⟨?_, (Except.ok.inj hok).symm⟩
          rintro path' error rfl herror
          exact (Except.error.inj (h.symm.trans herror)).symm
        · rintro ⟨-, rfl⟩
          rfl
      | other text =>
        constructor
        · intro hok
          cases hok
        · rintro ⟨hreadable, -⟩
          cases hreadable path _ rfl h
    · constructor
      · intro hok
        refine ⟨?_, (Except.ok.inj hok).symm⟩
        rintro path' error rfl herror
        cases h.symm.trans herror
      · rintro ⟨-, rfl⟩
        rfl

theorem client_ok_iff {endpoints : MojangEndpoints U} (hne : endpoints.batchUrls ≠ [])
    {client : MojangHttpClient U} :
    MojangHttpClient.new outside.libraries outside.url outside.readToString outside.builds
      endpoints ((outside.environment "PROXY_LIST_FILE").map OsString.text)
      (Duration.fromSecs 15) = .ok client ↔
    (∀ path error, outside.environment "PROXY_LIST_FILE" = some path →
      outside.readToString path.text = .error error → error = .notFound) ∧
      outside.builds outside.clientBuilder = true ∧
      client = ⟨outside.libraries, outside.clientBuilder, endpoints, hne⟩ := by
  rw [MojangHttpClient.new, dif_neg hne]
  constructor
  · intro h
    split at h
    · cases h
    · rename_i proxies hproxies
      obtain ⟨hreadable, rfl⟩ := proxies_ok_iff.mp hproxies
      dsimp only at h
      split at h
      · rename_i hbuilds
        exact ⟨hreadable, hbuilds, (Except.ok.inj h).symm⟩
      · cases h
  · rintro ⟨hreadable, hbuilds, rfl⟩
    rw [proxies_ok_iff.mpr ⟨hreadable, rfl⟩]
    exact if_pos hbuilds

/-- The sizes that are built in are accepted. -/
theorem builtInBatches :
    ∃ config, Batch.BatchConfig.new 10 (Duration.fromSecs 3) 1024 16 = .ok config := ⟨_, rfl⟩

/-- With the URLs of the program being URLs, it starts exactly if nothing outside stands in the
way, and then with this server. -/
theorem main_ok_iff {endpoints : MojangEndpoints U} (hne : endpoints.batchUrls ≠ [])
    (hendpoints : production outside.url.parse = .ok endpoints) {batch : Batch.BatchConfig}
    (hbatch : Batch.BatchConfig.new 10 (Duration.fromSecs 3) 1024 16 = .ok batch)
    {limiter : RateLimiter}
    (hlimiter : Router.buildRouter outside.now = .ok limiter) (server : Server U) :
    main outside = .ok server ↔ Startable outside ∧
      server = ⟨outside.port, outside.webhook,
        ⟨outside.libraries, outside.clientBuilder, endpoints, hne⟩, batch, .default, limiter⟩ := by
  rw [main]
  constructor
  · intro h
    obtain ⟨⟨⟩, htracing, h⟩ := bind_ok_iff.mp h
    obtain ⟨config, hconfig, h⟩ := bind_ok_iff.mp h
    obtain ⟨hport, hwebhook, rfl⟩ :=
      (fromEnv_ok_iff hendpoints).mp (mapError_ok_iff.mp hconfig)
    obtain ⟨client, hclient, h⟩ := bind_ok_iff.mp h
    obtain ⟨hproxies, hbuilds, rfl⟩ := (client_ok_iff hne).mp (mapError_ok_iff.mp hclient)
    obtain ⟨batch', hbatch', h⟩ := bind_ok_iff.mp h
    obtain rfl := Except.ok.inj (hbatch.symm.trans (mapError_ok_iff.mp hbatch'))
    obtain ⟨limiter', hlimiter', h⟩ := bind_ok_iff.mp h
    obtain rfl := Except.ok.inj (hlimiter.symm.trans (mapError_ok_iff.mp hlimiter'))
    obtain ⟨⟨⟩, hbinds, h⟩ := bind_ok_iff.mp h
    exact ⟨⟨check_ok_iff.mp htracing, hport, hwebhook, hproxies, hbuilds,
      check_ok_iff.mp hbinds⟩, (Except.ok.inj h).symm⟩
  · rintro ⟨hstart, rfl⟩
    refine bind_ok_iff.mpr ⟨(), check_ok_iff.mpr hstart.tracing, ?_⟩
    refine bind_ok_iff.mpr ⟨_, mapError_ok_iff.mpr
      ((fromEnv_ok_iff hendpoints).mpr ⟨hstart.port, hstart.webhook, rfl⟩), ?_⟩
    refine bind_ok_iff.mpr ⟨_, mapError_ok_iff.mpr
      ((client_ok_iff hne).mpr ⟨hstart.proxies, hstart.builds, rfl⟩), ?_⟩
    refine bind_ok_iff.mpr ⟨batch, mapError_ok_iff.mpr hbatch, ?_⟩
    refine bind_ok_iff.mpr ⟨limiter, mapError_ok_iff.mpr hlimiter, ?_⟩
    exact bind_ok_iff.mpr ⟨(), check_ok_iff.mpr hstart.binds, rfl⟩

end Starting

/-- With the URLs of the program being URLs, it starts exactly if nothing outside stands in the
way: a port or a webhook that is none, a proxy file that is there and cannot be read, the HTTP
client, or the socket. What has started listens on the port that was given, asks Mojang with the
client that takes HTTPS only and knows the proxies of the file, and in every run keeps to its
built-in limits: sixteen calls in progress, of ten names at most, a queue of 1024, and a thousand
names and skins for each client and minute, where a minute is as much shorter as a check of the
limiter may come after its reading of the clock. -/
theorem service_starts {U H : Type} [DecidableEq U] (outside : Outside U H)
    (hbuiltIn : BuiltIn outside.url.parse) :
    ((∃ server, main outside = .ok server) ↔ Startable outside) ∧
    ∀ server, main outside = .ok server → server.port = outside.port ∧
      server.client.client = outside.clientBuilder ∧
      ∀ (framework : Router.Framework) (es : List Router.Event) (s : Router.State),
        (server.system framework).run es = some s →
          s.app.lookup.processor.inProgress ≤ 16 ∧
          (∀ names ∈ s.app.lookup.processor.calls, 1 ≤ names.length ∧ names.length ≤ 10) ∧
          s.app.lookup.processor.channel.queue.length ≤ 1024 ∧
          ∀ late < Duration.fromMins 1, Router.Prompt late s →
            (s.app.lookup.processor.calls.map List.length).sum + s.app.skins.loads.length ≤
              (s.clients framework).length *
                (1000 * (s.now / (Duration.fromMins 1 - late) + 1)) := by
  obtain ⟨endpoints, hendpoints, hne⟩ := production_ok hbuiltIn
  obtain ⟨limiter, hlimiter, -⟩ := Router.buildRouter_ok outside.now
  obtain ⟨batch, hbatch⟩ := builtInBatches
  have hiff := main_ok_iff hne hendpoints hbatch hlimiter
  constructor
  · constructor
    · rintro ⟨server, hserver⟩
      exact ((hiff server).mp hserver).1
    · exact fun hstart => ⟨_, (hiff _).mpr ⟨hstart, rfl⟩⟩
  · intro server hserver
    obtain ⟨-, rfl⟩ := (hiff server).mp hserver
    refine ⟨rfl, rfl, ?_⟩
    intro framework es s hrun
    have hlookup := App.lookup_simulation.reachable (Machine.reachable_of_run (Router.app_run hrun))
    have hprocessor := Lookup.processor_simulation.reachable hlookup
    have hlimited := Batch.reachable_limited hprocessor
    have hpermits := hlimited.permits
    have hprogress := Batch.inProgress_le s.app.lookup.processor
    have hqueue := s.app.lookup.processor.channel.bounded
    obtain ⟨hsize, -, hcapacity, hinFlight⟩ := Batch.BatchConfig.new_ok hbatch
    have hcalls := hlimited.calls
    rw [hsize] at hcalls
    rw [hinFlight] at hpermits
    rw [hlimited.capacity, hcapacity] at hqueue
    refine ⟨by omega, hcalls, by omega, ?_⟩
    intro late hshort hprompt
    exact Router.load_le hlimiter hrun hshort hprompt

section Example

/-- URLs as texts. -/
def textUrl : UrlCrate Str Str where
  parse text := if "https://".toList.isPrefixOf text then some text else none
  parseHost := some
  scheme _ := "https".toList
  host := some
  portOrKnownDefault _ := some 443
  path _ := ['/']
  query _ := none
  fragment _ := none
  username _ := []
  password _ := none
  setUsername _ _ := none
  setPassword _ _ := none

/-- Only `PORT` is set. -/
def plainOutside : Outside Str Str where
  tracing := true
  environment name := if name = "PORT" then some ⟨"8080".toList, true⟩ else none
  url := textUrl
  readToString _ := .error .notFound
  libraries := plainLibraries
  builds _ := true
  binds _ := true
  now := 0

theorem service_starts_plain : ∃ server s, main plainOutside = .ok server ∧ server.port = 8080 ∧
    (server.system Router.plainFramework).run Router.anonymousRequests = some s ∧
    s.app.skins.loads.length = 1 ∧ s.app.lookup.processor.inProgress ≤ 16 := by
  have hbuiltIn : BuiltIn plainOutside.url.parse := by
    rw [BuiltIn]
    decide
  have hstart : Startable plainOutside :=
    ⟨rfl, by decide, by simp [envVar, plainOutside], by simp [plainOutside], rfl, rfl⟩
  obtain ⟨hiff, hserves⟩ := service_starts plainOutside hbuiltIn
  obtain ⟨server, hserver⟩ := hiff.mpr hstart
  obtain ⟨hport, -, hlimits⟩ := hserves server hserver
  have hrun : ((server.system Router.plainFramework).run Router.anonymousRequests).map
      (fun s => s.app.skins.loads.length) = some 1 := by
    have hendpoints : production plainOutside.url.parse =
        .ok ⟨batchUrls.map String.toList, profileBaseUrl.toList⟩ := by rfl
    obtain ⟨-, rfl⟩ := (main_ok_iff (by simp [batchUrls]) hendpoints rfl rfl server).mp hserver
    decide +kernel
  obtain ⟨s, hs, hloads⟩ := Option.map_eq_some_iff.mp hrun
  exact ⟨server, s, hserver, hport, hs, hloads, (hlimits _ _ s hs).1⟩

end Example
end MojangApi.Startup
