import MojangApi.RateLimit.Late
import MojangApi.Router.Visits

/-! # What every response says about the budget of its client

In any order of the readings, a visit is told what is left of the window that its client
opened last. If the readings come to the limiter in their order, that window has seen the
client's own earlier visits and nothing else.
-/

namespace MojangApi.Router
open MojangApi Library App RateLimit Mojang

section Headers
variable {β : Type*} {parse : Str → Option IpAddr} {hash : IpAddr → ℕ} {limiter : RateLimiter}
  {request : RateLimit.Request} {now : ℕ} {next : RateLimit.Request → Response β}

/-- The headers that the middleware puts on every response. -/
structure Marked (limiter : RateLimiter) (decision : Decision) (response : Response β) :
    Prop where
  limit : response.headers rateLimitLimit = some limiter.limitHeader
  policy : response.headers rateLimitPolicy = some limiter.policyHeader
  remaining : response.headers rateLimitRemaining = some (.num decision.remaining)
  reset : response.headers rateLimitReset =
    some (.num (max (Duration.asSecs decision.resetAfter) 1))
  sniff : response.headers xContentTypeOptions = some (.text "nosniff".toList)

@[simp] theorem check_limitHeader (key : IpAddr) :
    (limiter.check hash key now).1.limitHeader = limiter.limitHeader := rfl

@[simp] theorem check_policyHeader (key : IpAddr) :
    (limiter.check hash key now).1.policyHeader = limiter.policyHeader := rfl

theorem enforce_marked (parse : Str → Option IpAddr) (hash : IpAddr → ℕ) (limiter : RateLimiter)
    (request : RateLimit.Request) (now : ℕ) (next : RateLimit.Request → Response β) :
    Marked limiter (limiter.check hash (clientKey parse request) now).2
      (enforceRateLimit parse hash limiter request now next).2 := by
  constructor <;>
    cases hallowed : (limiter.check hash (clientKey parse request) now).2.allowed <;>
    simp +decide [enforceRateLimit, hallowed, Response.withHeader, HashMap.insert]

/-- Of a response that was let through, the middleware changes only those. -/
theorem enforce_through (h : admits parse hash limiter request now = true) {name : HeaderName}
    (hname : name ∉ [rateLimitLimit, rateLimitPolicy, rateLimitRemaining, rateLimitReset,
      xContentTypeOptions]) :
    (enforceRateLimit parse hash limiter request now next).2.headers name =
      (next request).headers name := by
  unfold admits at h
  simp only [List.mem_cons, List.not_mem_nil, or_false, not_or] at hname
  obtain ⟨h1, h2, h3, h4, h5⟩ := hname
  simp [enforceRateLimit, h, Response.withHeader, HashMap.insert, h1, h2, h3, h4, h5]

end Headers

section Limiter
variable {hash : IpAddr → ℕ} {limiter : RateLimiter} {calls : List (IpAddr × ℕ)}

theorem checks_limitHeader : (limiter.checks hash calls).limitHeader = limiter.limitHeader := by
  induction calls using List.reverseRecOn with
  | nil => rfl
  | append_singleton calls call ih => rw [checks_snoc, check_limitHeader, ih]

theorem checks_policyHeader : (limiter.checks hash calls).policyHeader = limiter.policyHeader := by
  induction calls using List.reverseRecOn with
  | nil => rfl
  | append_singleton calls call ih => rw [checks_snoc, check_policyHeader, ih]

/-- The limiter of the router: a thousand visits a minute, which its headers say. -/
theorem buildRouter_ok (now : ℕ) : ∃ limiter, buildRouter now = .ok limiter ∧
    (limiter.limit = 1000 ∧ limiter.window = Duration.fromMins 1 ∧
      ∀ i, limiter.shards i = { clients := HashMap.empty, lastCleanup := now }) ∧
    limiter.limitHeader = .num 1000 ∧ limiter.policyHeader = .text "1000;w=60".toList := by
  have hpolicy : policyText 1000 (Duration.fromMins 1) = "1000;w=60".toList := by decide
  exact ⟨_, rfl, ⟨rfl, rfl, fun _ => rfl⟩, rfl, congrArg HeaderValue.text hpolicy⟩

end Limiter

section Visits
variable {U : Type} {expiry : Cache.OptionalValueExpiry} {config : Batch.BatchConfig}
  {client : MojangHttpClient U} {framework : Framework} {limiter : RateLimiter} {s t : State}
  {j : ℕ} {visit : Visit} {response : Response Body}

/-- A response is an answer, or a refusal, as the middleware sends it. -/
theorem response_eq_some (h : s.response framework j = some response) :
    ∃ visit, s.visits[j]? = some visit ∧ ∃ next,
      response = (enforceRateLimit framework.parse framework.hash visit.limiter
        visit.request.toRequest visit.arrived next).2 ∧
      (visit.handling = .denied ∨ ∃ answer, s.answer visit = some answer ∧
        next = fun _ => framework.cors visit.request answer) := by
  obtain ⟨visit, hj, h⟩ := Option.bind_eq_some_iff.mp h
  refine ⟨visit, hj, ?_⟩
  dsimp only at h
  split at h
  · rename_i hdenied
    exact ⟨_, (Option.some.inj h).symm, .inl hdenied⟩
  · obtain ⟨answer, hanswer, rfl⟩ := Option.map_eq_some_iff.mp h
    exact ⟨_, rfl, .inr ⟨answer, hanswer, rfl⟩⟩

/-- The visits up to the one with number `j`, which is the last of them. -/
theorem history_upTo (hj : s.visits[j]? = some visit) :
    s.history.take (j + 1) =
      s.history.take j ++ [(visit.request.toRequest, visit.arrived)] := by
  rw [List.take_add_one, State.history, List.getElem?_map, hj]
  rfl

/-- What a window says to a visit that has seen the earlier visits of its client. -/
def budget (framework : Framework) (limit window : ℕ) (s : State) (j : ℕ) (visit : Visit) :
    FixedWindow.Verdict :=
  (FixedWindow.serve limit window (FixedWindow.run limit window
    (ownCalls (clientKey framework.parse visit.request.toRequest)
      (counted framework.parse (s.history.take j)))) visit.arrived).2

/-- What the limiter decides on a visit, as the checks before have left it. -/
def decision (framework : Framework) (limiter : RateLimiter) (s : State) (j : ℕ) (visit : Visit) :
    Decision :=
  limiter.decisionAfter framework.hash (counted framework.parse (s.history.take j))
    (clientKey framework.parse visit.request.toRequest) visit.arrived

theorem Checked.decides (h : Checked framework limiter s) (hj : s.visits[j]? = some visit) :
    (visit.limiter.check framework.hash (clientKey framework.parse visit.request.toRequest)
      visit.arrived).2 = decision framework limiter s j visit := by
  rw [h.met j visit hj, serves_eq]
  rfl

/-- A response shows the decision on its visit. -/
theorem Checked.shown (h : Checked framework limiter s) (hj : s.visits[j]? = some visit)
    (hresponse : s.response framework j = some response) :
    let decision := decision framework limiter s j visit
    let reset := HeaderValue.num (max (Duration.asSecs decision.resetAfter) 1)
    (visit.handling = .denied ↔ decision.allowed = false) ∧
      response.headers rateLimitLimit = some limiter.limitHeader ∧
      response.headers rateLimitPolicy = some limiter.policyHeader ∧
      response.headers rateLimitRemaining = some (.num decision.remaining) ∧
      response.headers rateLimitReset = some reset ∧
      response.headers xContentTypeOptions = some (.text "nosniff".toList) ∧
      (decision.allowed = false → response.status = 429 ∧
        response.body = .inl ⟨"Too Many Requests"⟩ ∧
        response.headers retryAfter = some reset) := by
  intro decision reset
  have hdenied := h.verdict visit (List.mem_of_getElem? hj)
  have hdecision := h.decides hj
  obtain ⟨visit', hj', next, rfl, -⟩ := response_eq_some hresponse
  obtain rfl := Option.some.inj (hj.symm.trans hj')
  have hmarked := enforce_marked framework.parse framework.hash visit.limiter
    visit.request.toRequest visit.arrived next
  have hmet := h.met j visit hj
  rw [serves_eq] at hmet
  rw [hdecision] at hmarked
  refine ⟨?_, ?_, ?_, hmarked.remaining, hmarked.reset, hmarked.sniff, ?_⟩
  · rw [hdenied, admits, hdecision]
  · rw [hmarked.limit, hmet, checks_limitHeader]
  · rw [hmarked.policy, hmet, checks_policyHeader]
  · intro hrefused
    have hadmits : admits framework.parse framework.hash visit.limiter visit.request.toRequest
        visit.arrived = false := (congrArg Decision.allowed hdecision).trans hrefused
    have hheader := (enforce_denied_headers next hadmits).1
    rw [hdecision] at hheader
    exact ⟨(enforce_denied hadmits).1, (enforce_denied hadmits).2, hheader⟩

theorem decision_reset (hcharged : Charged framework.hash limiter) (s : State) (j : ℕ)
    (visit : Visit) : 0 < (decision framework limiter s j visit).resetAfter ∧
      (decision framework limiter s j visit).resetAfter ≤ limiter.window := by
  obtain ⟨-, -, -, -, hpositive, hwindow, -⟩ := (hcharged.checks
    (counted framework.parse (s.history.take j))).decision
      (clientKey framework.parse visit.request.toRequest) visit.arrived
  rw [checks_window] at hwindow
  exact ⟨hpositive, hwindow⟩

/-- In any order, what is left and what was let in since the last opening make up the limit. -/
theorem remaining_upTo (hcharged : Charged framework.hash limiter)
    (hnone : ∀ key, limiter.client framework.hash key = none) (hj : s.visits[j]? = some visit) :
    ∃ before opened between,
      counted framework.parse (s.history.take (j + 1)) =
        before ++ (clientKey framework.parse visit.request.toRequest, opened) :: between ∧
      OpenedIn framework.hash limiter (clientKey framework.parse visit.request.toRequest) before
        opened between ∧
      (decision framework limiter s j visit).remaining +
        (limiter.checks framework.hash before).allowedCalls framework.hash
          (clientKey framework.parse visit.request.toRequest) allTimes
          ((clientKey framework.parse visit.request.toRequest, opened) :: between) =
        limiter.limit := by
  rw [history_upTo hj, counted_append]
  exact remaining_since hcharged (hnone _) _ visit.arrived

/-- If the readings came in their order, the decision is that of the client's own window. -/
theorem decision_budget (hnew : ∀ now, Tracks framework.hash limiter [] now)
    (hj : s.visits[j]? = some visit)
    (hsorted : ((s.history.take (j + 1)).map Prod.snd).Pairwise (· ≤ ·)) :
    (decision framework limiter s j visit).toVerdict =
      budget framework limiter.limit limiter.window s j visit := by
  rw [history_upTo hj, ← counted_times framework.parse, counted_append] at hsorted
  exact decision_eq_reference hnew hsorted

end Visits

/-- In every run, whatever other clients and the handlers do, every response shows what the
limiter has decided on its visit, and one to a visit that was turned away is a 429 that says
when to come back. In whatever order the readings of the clock come to the limiter, what is left
and what the client was let in with since its window was opened make up a thousand. If they come
in their order, the decision is that of a window of a minute and a thousand visits that has seen
the client's earlier visits only. -/
theorem budget_shown {U : Type} (expiry : Cache.OptionalValueExpiry) (config : Batch.BatchConfig)
    (client : MojangHttpClient U) (framework : Framework) (start : ℕ) :
    ∃ limiter, buildRouter start = .ok limiter ∧ ∀ (es : List Event) (s : State),
      (system expiry config client framework limiter).run es = some s → ∀ j visit response,
        s.visits[j]? = some visit → s.response framework j = some response →
          let key := clientKey framework.parse visit.request.toRequest
          let decision := decision framework limiter s j visit
          let reset := HeaderValue.num (max (Duration.asSecs decision.resetAfter) 1)
          ((visit.handling = .denied ↔ decision.allowed = false) ∧
            response.headers rateLimitLimit = some (.num 1000) ∧
            response.headers rateLimitPolicy = some (.text "1000;w=60".toList) ∧
            response.headers rateLimitRemaining = some (.num decision.remaining) ∧
            response.headers rateLimitReset = some reset ∧
            response.headers xContentTypeOptions = some (.text "nosniff".toList) ∧
            (decision.allowed = false → response.status = 429 ∧
              response.body = .inl ⟨"Too Many Requests"⟩ ∧
              response.headers retryAfter = some reset)) ∧
          (0 < decision.resetAfter ∧ decision.resetAfter ≤ Duration.fromMins 1 ∧
            ∃ before opened between,
              counted framework.parse (s.history.take (j + 1)) =
                before ++ (key, opened) :: between ∧
              OpenedIn framework.hash limiter key before opened between ∧
              decision.remaining + (limiter.checks framework.hash before).allowedCalls
                framework.hash key allTimes ((key, opened) :: between) = 1000) ∧
          (((s.history.take (j + 1)).map Prod.snd).Pairwise (· ≤ ·) →
            decision.toVerdict = budget framework 1000 (Duration.fromMins 1) s j visit) := by
  obtain ⟨limiter, hnew, hfields, hlimit, hpolicy⟩ := buildRouter_ok start
  refine ⟨limiter, hnew, ?_⟩
  intro es s hrun j visit response hj hresponse
  have hchecked := reachable_checked (Machine.reachable_of_run hrun)
  have hthousand : limiter.limit.val = 1000 := congrArg Fin.val hfields.1
  have hcharged := @charged_new framework.hash limiter start hfields.2.2
  refine ⟨?_, ⟨?_, ?_, ?_⟩, ?_⟩
  · have hshown := hchecked.shown hj hresponse
    rwa [hlimit, hpolicy] at hshown
  · exact (decision_reset hcharged s j visit).1
  · have hreset := (decision_reset hcharged s j visit).2
    rwa [hfields.2.1] at hreset
  · have hremaining := remaining_upTo hcharged (client_new hfields.2.2) hj
    rwa [hthousand] at hremaining
  · intro hsorted
    have hbudget := decision_budget (tracks_new framework.hash hfields) hj hsorted
    rwa [hthousand, hfields.2.1] at hbudget

section Example

/-- The parameter of a path that fits a pattern. -/
def matchSegments : List Str → List Str → Option Str
  | [], [] => some []
  | pattern :: patterns, segment :: segments =>
    if pattern.head? = some (Char.ofNat 123) then
      if segment.isEmpty then none else (matchSegments patterns segments).map fun _ => segment
    else if pattern = segment then matchSegments patterns segments else none
  | _, _ => none

/-- A framework without pages of its own, that knows nobody's address. -/
def plainFramework : Framework where
  parse _ := none
  hash _ := 0
  matchRoute table request :=
    if request.method = "GET" then
      (table.findSome? fun (pattern, handler) => (matchSegments (pattern.toList.splitOn '/')
        (request.path.splitOn '/')).map (Matched.handler handler)).getD .fallback
    else .framework ⟨405, HashMap.empty, .inr .empty⟩
  cors _ response := response.withHeader "access-control-allow-origin" (.text ['*'])

def plainGet (path : String) : HttpRequest := ⟨⟨HashMap.empty⟩, "GET", path.toList⟩

/-- Two requests of one client, of which the second is answered. -/
def twoRequests : List Event :=
  [.receive (plainGet "/"), .app (.elapse 7), .receive (plainGet "/health"), .check 0, .check 0,
    .dispatch 1]

/-- The second is told that 998 are left, as the client's own window says. -/
theorem budget_shown_second : ∃ s visit response, buildRouter 0 = .ok startLimiter ∧
    (system .default Batch.smallConfig productionClient plainFramework startLimiter).run
      twoRequests = some s ∧
    s.visits[1]? = some visit ∧ s.response plainFramework 1 = some response ∧
    response.headers rateLimitRemaining = some (.num 998) ∧
    (budget plainFramework 1000 (Duration.fromMins 1) s 1 visit).remaining = 998 := by
  obtain ⟨limiter, hnew, h⟩ :=
    budget_shown .default Batch.smallConfig productionClient plainFramework 0
  obtain rfl : startLimiter = limiter := Except.ok.inj hnew
  obtain ⟨⟨-, -, -, hremaining, -⟩, -, hinOrder⟩ := h twoRequests _ rfl 1 _ _ rfl rfl
  have hbudget := hinOrder (by decide)
  exact ⟨_, _, _, hnew, rfl, rfl, rfl, hremaining,
    (congrArg FixedWindow.Verdict.remaining hbudget).symm⟩

end Example
end MojangApi.Router
