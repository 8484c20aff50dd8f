import MojangApi.Library.Traces
import MojangApi.RateLimit.RetryAfter
import MojangApi.Router.Responses

/-! # `build_router`

A request reads the clock and then waits for its shard of the limiter, so readings need
not come to the limiter in their order. If it is let in, it is routed some time later,
and its response is ready when the handler has answered. Matching paths, CORS and the
pages of Swagger belong to other crates.
-/

namespace MojangApi.Router
open MojangApi Library App RateLimit Mojang

structure HttpRequest extends RateLimit.Request where
  method : String
  path : Str

inductive Handler where
  | redirect
  | health
  | lookupUuid
  | lookupSkin
  deriving DecidableEq, Repr

/-- The paths of the router. -/
def routes : List (String × Handler) :=
  [("/", .redirect), ("/health", .health), ("/mojang/uuid/{name}", .lookupUuid),
    ("/mojang/skin/{uuid}", .lookupSkin)]

/-- What a request is matched to: a handler with the decoded parameter of its path, a
response of the framework (its pages, a preflight, a method or path it refuses), or nothing. -/
inductive Matched where
  | handler (handler : Handler) (parameter : Str)
  | framework (response : Response Body)
  | fallback

/-- What the router uses of other crates. -/
structure Framework where
  parse : Str → Option IpAddr
  hash : IpAddr → ℕ
  matchRoute : List (String × Handler) → HttpRequest → Matched
  cors : HttpRequest → Response Body → Response Body

/-- The headers that handlers set. -/
def handlerHeaders : List HeaderName := [contentType, cacheControl, location]

/-- Sending a response adds headers about origins, and drops the body of an answer to `HEAD`. -/
structure Framework.Reliable (framework : Framework) : Prop where
  status : ∀ request response, (framework.cors request response).status = response.status
  headers : ∀ request response, ∀ name ∈ handlerHeaders,
    (framework.cors request response).headers name = response.headers name
  body : ∀ request response, request.method ≠ "HEAD" →
    (framework.cors request response).body = response.body

/-- The limiter of `build_router`. -/
def buildRouter (now : ℕ) : Except RateLimitConfigError RateLimiter :=
  RateLimiter.new 1000 (Duration.fromMins 1) now

/-- The limiter of a router that is built at the start. -/
def startLimiter : RateLimiter :=
  RateLimiter.fresh 1000 (Duration.fromMins 1) 0 (.text (policyText 1000 (Duration.fromMins 1)))
    (by decide) (by decide)

/-- Where a request is: turned away, let in, answered without a lookup, or in the handler
call of that number. -/
inductive Handling where
  | denied
  | admitted
  | answered (response : Response Body)
  | uuid (k : ℕ)
  | skin (k : ℕ)

/-- A request with its reading of the clock. -/
structure Arrival where
  request : HttpRequest
  arrived : ℕ

/-- A request that the limiter has checked, with the time of the check and the limiter as the
request found it. -/
structure Visit extends Arrival where
  checked : ℕ
  limiter : RateLimiter
  handling : Handling

/-- The visits are in the order of their checks. -/
structure State where
  limiter : RateLimiter
  app : App.State
  arriving : List Arrival := []
  visits : List Visit := []

inductive Event where
  | receive (request : HttpRequest)
  | check (i : ℕ)
  | dispatch (j : ℕ)
  | app (e : App.Event)

/-- The calls of handlers that a routed request makes, and where it is then. -/
def handle (app : App.State) : Matched → List App.Event × Handling
  | .handler .redirect _ => ([], .answered redirect)
  | .handler .health _ => ([], .answered health)
  | .handler .lookupUuid name => ([.lookupUuid name], .uuid app.uuidHandlers.length)
  | .handler .lookupSkin uuid => ([.lookupSkin uuid], .skin app.skinHandlers.length)
  | .framework response => ([], .answered response)
  | .fallback => ([], .answered notFound)

namespace State

/-- The clock of the caches and of the limiter. -/
def now (s : State) : ℕ := s.app.lookup.cache.now

variable (framework : Framework)

/-- The request reads the clock before it takes the lock of a shard. -/
def receive (s : State) (request : HttpRequest) : State :=
  { s with arriving := s.arriving ++ [⟨request, s.now⟩] }

/-- What the limiter makes of a request, by the reading it comes with. -/
def visit (s : State) (arrival : Arrival) : Visit where
  toArrival := arrival
  checked := s.now
  limiter := s.limiter
  handling :=
    if admits framework.parse framework.hash s.limiter arrival.request.toRequest arrival.arrived
    then .admitted else .denied

def check (s : State) (i : ℕ) : Option State :=
  (s.arriving[i]?).map fun arrival =>
    { s with
      limiter := (s.limiter.check framework.hash
        (clientKey framework.parse arrival.request.toRequest) arrival.arrived).1
      arriving := s.arriving.eraseIdx i
      visits := s.visits ++ [s.visit framework arrival] }

/-- Whether a visit is waiting to be routed. -/
def waiting (s : State) (j : ℕ) : Option Visit :=
  (s.visits[j]?).filter fun visit => visit.handling matches .admitted

/-- How a visit is handled when it is routed in this state. -/
def handling (s : State) (visit : Visit) : List App.Event × Handling :=
  handle s.app (framework.matchRoute routes visit.request)

def dispatch (s : State) (app : Machine App.State App.Event) (j : ℕ) : Option State :=
  (s.waiting j).bind fun visit =>
    (app.runFrom s.app (s.handling framework visit).1).map fun after =>
      { s with
        app := after
        visits := s.visits.set j { visit with handling := (s.handling framework visit).2 } }

/-- What the handlers have answered to a visit. -/
def answer (s : State) (visit : Visit) : Option (Response Body) :=
  match visit.handling with
  | .denied | .admitted => none
  | .answered response => some response
  | .uuid k => (s.app.uuidResponse k).map uuidLookupResponse
  | .skin k => (s.app.skinResponse k).map skinLookupResponse

/-- The response to the visit with number `j`, once it is ready. Nothing runs for a visit
that was denied. -/
def response (s : State) (j : ℕ) : Option (Response Body) :=
  (s.visits[j]?).bind fun visit =>
    let respond (next : RateLimit.Request → Response Body) := (enforceRateLimit framework.parse
      framework.hash visit.limiter visit.request.toRequest visit.arrived next).2
    match visit.handling with
    | .denied => some (respond fun _ => notFound)
    | _ => (s.answer visit).map fun answer => respond fun _ => framework.cors visit.request answer

end State

/-- Handlers are only called by the router. -/
def isInternal : App.Event → Bool
  | .lookupUuid _ | .lookupSkin _ => false
  | _ => true

def system {U : Type} (expiry : Cache.OptionalValueExpiry) (config : Batch.BatchConfig)
    (client : MojangHttpClient U) (framework : Framework) (limiter : RateLimiter) :
    Machine State Event where
  init := { limiter := limiter, app := (App.system expiry config client).init }
  step s
    | .receive request => some (s.receive request)
    | .check i => s.check framework i
    | .dispatch j => s.dispatch framework (App.system expiry config client) j
    | .app e =>
      if isInternal e then
        ((App.system expiry config client).step s.app e).map fun app => { s with app := app }
      else none

end MojangApi.Router
