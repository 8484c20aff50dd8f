import MojangApi.App.Answers
import MojangApi.Router.Budget

/-! # Where every response comes from

A request that was let in gets the answer of the handler its path belongs to, and a
lookup is answered with what happened upstream, as its status code says.
-/

namespace MojangApi.Router
open MojangApi Library App RateLimit Mojang

variable {U : Type} {expiry : Cache.OptionalValueExpiry} {config : Batch.BatchConfig}
  {client : MojangHttpClient U} {framework : Framework} {limiter : RateLimiter} {s t : State}
  {es : List Event} {e : Event} {trace : List App.Event}

/-- The answers that a request can get, each with where it comes from. -/
inductive Answered (expiry : Cache.OptionalValueExpiry) (config : Batch.BatchConfig)
    (client : MojangHttpClient U) (matched : Matched) (trace : List App.Event) :
    Response Body → Prop
  | redirect {parameter : Str} (hmatched : matched = .handler .redirect parameter) :
      Answered expiry config client matched trace redirect
  | health {parameter : Str} (hmatched : matched = .handler .health parameter) :
      Answered expiry config client matched trace health
  | framework {response : Response Body} (hmatched : matched = .framework response) :
      Answered expiry config client matched trace response
  | notFound (hmatched : matched = .fallback) :
      Answered expiry config client matched trace notFound
  | invalidName {name : Str} (hmatched : matched = .handler .lookupUuid name)
      (hinvalid : isValidMinecraftUsername name = false) :
      Answered expiry config client matched trace (intoResponse .invalidName)
  | uuid {name : Str} {names : List Str} {exchange : Exchange}
      (hmatched : matched = .handler .lookupUuid name)
      (hvalid : isValidMinecraftUsername name = true)
      (hended : CallEnded expiry config client trace names exchange)
      (hasked : asciiLowercase name ∈ names) :
      Answered expiry config client matched trace
        (uuidLookupResponse (answerName (namesOutcome client.libraries exchange) name))
  | disturbed {name : Str} (hmatched : matched = .handler .lookupUuid name)
      (hvalid : isValidMinecraftUsername name = true) (hdisturbed : Disturbed trace) :
      Answered expiry config client matched trace (intoResponse .internal)
  | invalidUuid {text : Str} (hmatched : matched = .handler .lookupSkin text)
      (hinvalid : parseMinecraftUuid client.libraries.parseStr text = none) :
      Answered expiry config client matched trace (intoResponse .invalidUuid)
  | skin {text : Str} {uuid : Uuid} {exchange : Exchange}
      (hmatched : matched = .handler .lookupSkin text)
      (hvalid : parseMinecraftUuid client.libraries.parseStr text = some uuid)
      (hended : LoadEnded expiry config client trace uuid exchange) :
      Answered expiry config client matched trace
        (skinLookupResponse (answerSkin (skinOutcome client.libraries exchange)))

theorem answered_of_handled {matched : Matched} {response : Response Body}
    (h : ∀ app, handle app matched = ([], .answered response)) (app : App.State) :
    Answered expiry config client matched trace response := by
  have happ := h app
  rcases matched with ⟨handler, parameter⟩ | library | _
  · cases handler with
    | redirect =>
      obtain rfl := Handling.answered.inj (congrArg Prod.snd happ)
      exact .redirect rfl
    | health =>
      obtain rfl := Handling.answered.inj (congrArg Prod.snd happ)
      exact .health rfl
    | lookupUuid => cases happ
    | lookupSkin => cases happ
  · obtain rfl := Handling.answered.inj (congrArg Prod.snd happ)
    exact .framework rfl
  · obtain rfl := Handling.answered.inj (congrArg Prod.snd happ)
    exact .notFound rfl

theorem answered_of_answer (hclient : client.Reliable)
    (h : (system expiry config client framework limiter).run es = some s) {visit : Visit}
    (hmem : visit ∈ s.visits) {answer : Response Body} (hanswer : s.answer visit = some answer) :
    Answered expiry config client (framework.matchRoute routes visit.request)
      (appTrace expiry config client framework limiter es) answer := by
  have hplaced := (routed_run h).placed visit hmem
  have happ := app_run h
  unfold State.answer at hanswer
  split at hanswer
  · cases hanswer
  · cases hanswer
  · rename_i response hhandling
    obtain rfl := Option.some.inj hanswer
    exact answered_of_handled (hplaced.answered response hhandling) s.app
  · rename_i k hhandling
    obtain ⟨result, hresult, rfl⟩ := Option.map_eq_some_iff.mp hanswer
    obtain ⟨name, hmatched, hname⟩ := hplaced.uuid k hhandling
    rcases nameAnswered hclient happ hresult hname with ⟨hinvalid, rfl⟩ |
      ⟨hvalid, ⟨names, exchange, hended, hasked, rfl⟩ | ⟨rfl, hdisturbed⟩⟩
    · exact .invalidName hmatched hinvalid
    · exact .uuid hmatched hvalid hended hasked
    · exact .disturbed hmatched hvalid hdisturbed
  · rename_i k hhandling
    obtain ⟨result, hresult, rfl⟩ := Option.map_eq_some_iff.mp hanswer
    obtain ⟨text, hmatched, htext⟩ := hplaced.skin k hhandling
    rcases skinAnswered hclient happ hresult htext with ⟨hinvalid, rfl⟩ |
      ⟨uuid, -, -, -, -, exchange, hvalid, -, -, -, -, hended, rfl⟩
    · exact .invalidUuid hmatched hinvalid
    · exact .skin hmatched hvalid hended

/-- What the middleware and the layers leave of the answer to a visit that was let in. -/
theorem response_of_letIn (hframework : framework.Reliable) (hchecked : Checked framework limiter s)
    {j : ℕ} {visit : Visit} {response : Response Body} (hj : s.visits[j]? = some visit)
    (hresponse : s.response framework j = some response) (hletIn : visit.handling ≠ .denied) :
    ∃ answer, s.answer visit = some answer ∧ response.status = answer.status ∧
      (∀ name ∈ handlerHeaders, response.headers name = answer.headers name) ∧
      (visit.request.method ≠ "HEAD" → response.body = answer.body) := by
  have hadmits : admits framework.parse framework.hash visit.limiter visit.request.toRequest
      visit.arrived = true := by
    rw [← Bool.not_eq_false, ← hchecked.verdict visit (List.mem_of_getElem? hj)]
    exact hletIn
  obtain ⟨visit', hj', next, rfl, hdenied | ⟨answer, hanswer, rfl⟩⟩ := response_eq_some hresponse
  all_goals obtain rfl := Option.some.inj (hj.symm.trans hj')
  · exact absurd hdenied hletIn
  · refine ⟨answer, hanswer, ?_, ?_, ?_⟩
    · exact (enforce_admitted hadmits).1.trans (hframework.status _ _)
    · intro name hname
      have hown : ∀ name ∈ handlerHeaders, name ∉ [rateLimitLimit, rateLimitPolicy,
          rateLimitRemaining, rateLimitReset, xContentTypeOptions] := by decide
      rw [enforce_through hadmits (hown name hname)]
      exact hframework.headers _ _ name hname
    · intro hmethod
      exact (enforce_admitted hadmits).2.trans (hframework.body _ _ hmethod)

/-- In every run, whatever the limiter: the response to a visit that was let in is the answer
of its path's handler, with the status, the body and the headers that the handler gave it. A
lookup's answer is an exchange's that ended a call with its name or a load of its skin, unless
the argument is rejected, or an internal error in a run with a shutdown or a panic. -/
theorem served {U : Type} (expiry : Cache.OptionalValueExpiry) (config : Batch.BatchConfig)
    (client : MojangHttpClient U) (hclient : client.Reliable) (framework : Framework)
    (hframework : framework.Reliable) (limiter : RateLimiter) (es : List Event) (s : State)
    (h : (system expiry config client framework limiter).run es = some s) (j : ℕ) (visit : Visit)
    (response : Response Body) (hj : s.visits[j]? = some visit)
    (hresponse : s.response framework j = some response) (hletIn : visit.handling ≠ .denied) :
    ∃ answer, Answered expiry config client (framework.matchRoute routes visit.request)
        (appTrace expiry config client framework limiter es) answer ∧
      response.status = answer.status ∧
      (∀ name ∈ handlerHeaders, response.headers name = answer.headers name) ∧
      (visit.request.method ≠ "HEAD" → response.body = answer.body) := by
  obtain ⟨answer, hanswer, hsent⟩ := response_of_letIn hframework
    (reachable_checked (Machine.reachable_of_run h)) hj hresponse hletIn
  exact ⟨answer, answered_of_answer hclient h (List.mem_of_getElem? hj) hanswer, hsent⟩

/-- A lookup of a name that Mojang does not know, a UUID that is none, and a path that is none. -/
def mixedVisits : List Event :=
  [.receive (plainGet "/mojang/uuid/Steve"), .receive (plainGet "/mojang/skin/Steve"), .check 0,
    .receive (plainGet "/nowhere"), .check 1, .check 0, .dispatch 0, .dispatch 2, .dispatch 1] ++
  [.enter 0, .reserve 0, .push 0, .process .firstTick, .process .recvBranch,
    .process .tickBranch, .process .acquire, .process (.pollTask 0),
    .process (.completeTask 0 (.responded 200 none [[0x5B, 0x5D]] none)), .receive 0].map
      fun e => .app (.names e)

theorem plainFramework_reliable : plainFramework.Reliable where
  status _ _ := rfl
  headers request response name hname := by
    have hne : ∀ name ∈ handlerHeaders, name ≠ "access-control-allow-origin" := by decide
    exact HashMap.insert_of_ne _ _ (hne name hname)
  body _ _ _ := rfl

theorem mixedVisits_run : ∃ s visit response,
    (system .default Batch.smallConfig productionClient plainFramework startLimiter).run
      mixedVisits = some s ∧
    s.visits[0]? = some visit ∧ s.response plainFramework 0 = some response ∧
    response.status = 200 ∧ visit.handling ≠ .denied ∧
    plainFramework.matchRoute routes visit.request = .handler .lookupUuid "Steve".toList := by
  have hrun : ((system .default Batch.smallConfig productionClient plainFramework
      startLimiter).run mixedVisits).bind (fun s => (s.visits[0]?).bind fun visit =>
        (s.response plainFramework 0).map fun response => (response.status,
          visit.handling.isLookup, visit.request.method, visit.request.path)) =
      some (200, true, "GET", "/mojang/uuid/Steve".toList) := by decide +kernel
  obtain ⟨s, hs, hrest⟩ := Option.bind_eq_some_iff.mp hrun
  obtain ⟨visit, hvisit, hrest⟩ := Option.bind_eq_some_iff.mp hrest
  obtain ⟨response, hresponse, hvalues⟩ := Option.map_eq_some_iff.mp hrest
  simp only [Prod.mk.injEq] at hvalues
  obtain ⟨hstatus, hlookup, hmethod, hpath⟩ := hvalues
  refine ⟨s, visit, response, hs, hvisit, hresponse, hstatus, ?_, ?_⟩
  · intro hdenied
    rw [hdenied] at hlookup
    cases hlookup
  · simp only [plainFramework, hmethod, hpath]
    rfl

theorem served_mixed : ∃ s response answer,
    (system .default Batch.smallConfig productionClient plainFramework startLimiter).run
      mixedVisits = some s ∧ s.response plainFramework 0 = some response ∧
    response.status = 200 ∧ answer.status = 200 ∧
    Answered .default Batch.smallConfig productionClient (.handler .lookupUuid "Steve".toList)
      (appTrace .default Batch.smallConfig productionClient plainFramework startLimiter mixedVisits)
      answer := by
  obtain ⟨s, visit, response, hs, hvisit, hresponse, hstatus, hletIn, hmatched⟩ := mixedVisits_run
  obtain ⟨answer, hanswered, hsame, -, -⟩ := served .default Batch.smallConfig productionClient
    productionClient_reliable plainFramework plainFramework_reliable startLimiter mixedVisits s hs 0
    visit response hvisit hresponse hletIn
  rw [hmatched] at hanswered
  exact ⟨s, response, answer, hs, hresponse, hstatus, hsame ▸ hstatus, hanswered⟩

section Statuses
variable {ν α : Type} {valid disturbed : Prop} {ended succeeded : Exchange → Prop}
  {response answer : Response Body} {serialize : α → Json}

/-- What the status of a lookup's response tells. -/
structure StatusMeans (valid disturbed : Prop) (ended succeeded : Exchange → Prop)
    (response : Response Body) : Prop where
  documented : response.status ∈ [200, 400, 500, 503]
  badRequest : response.status = 400 ↔ ¬ valid
  ok : response.status = 200 → ∃ exchange, ended exchange ∧ succeeded exchange
  unavailable : response.status = 503 → ∃ exchange, ended exchange ∧ exchange.TimedOut
  internal : response.status = 500 →
    (∃ exchange, ended exchange ∧ ¬ succeeded exchange ∧ ¬ exchange.TimedOut) ∨ disturbed
  cached : response.headers cacheControl =
    if response.status = 200 then some clientCacheControl else none

theorem StatusMeans.transfer (h : StatusMeans valid disturbed ended succeeded answer)
    (hstatus : response.status = answer.status)
    (hheaders : ∀ name ∈ handlerHeaders, response.headers name = answer.headers name) :
    StatusMeans valid disturbed ended succeeded response where
  documented := hstatus ▸ h.documented
  badRequest := hstatus ▸ h.badRequest
  ok := hstatus ▸ h.ok
  unavailable := hstatus ▸ h.unavailable
  internal := hstatus ▸ h.internal
  cached := by
    rw [hheaders cacheControl (by decide), hstatus]
    exact h.cached

/-- A status for each kind of result. -/
theorem statusMeans_lookup (serialize : α → Json) (result : Except AppError α)
    (hok : ∀ value, result = .ok value → valid ∧ ∃ exchange, ended exchange ∧ succeeded exchange)
    (hname : result = .error .invalidName → ¬ valid) (huuid : result = .error .invalidUuid → ¬ valid)
    (htimeout : result = .error .timeout →
      valid ∧ ∃ exchange, ended exchange ∧ exchange.TimedOut)
    (hinternal : result = .error .internal → valid ∧
      ((∃ exchange, ended exchange ∧ ¬ succeeded exchange ∧ ¬ exchange.TimedOut) ∨ disturbed)) :
    StatusMeans valid disturbed ended succeeded (lookupResponse serialize result) := by
  rcases result with error | value
  · have hnone : (intoResponse error).headers cacheControl = none := by cases error <;> rfl
    cases error with
    | invalidName =>
      have hvalid := hname rfl
      constructor <;> simp [lookupResponse, intoResponse, json, hvalid] at hnone ⊢
      exact hnone
    | invalidUuid =>
      have hvalid := huuid rfl
      constructor <;> simp [lookupResponse, intoResponse, json, hvalid] at hnone ⊢
      exact hnone
    | timeout =>
      have hvalid := htimeout rfl
      constructor <;> simp [lookupResponse, intoResponse, json, hvalid] at hnone ⊢
      exact hnone
    | internal =>
      have hvalid := hinternal rfl
      constructor <;> simp [lookupResponse, intoResponse, json, hvalid] at hnone ⊢
      exact hnone
  · have hvalid := hok value rfl
    constructor <;> simp [lookupResponse, cacheableJson, json, Response.withHeader, hvalid]

/-- The result of a lookup that an exchange has ended. -/
theorem statusMeans_outcome (outcome : Except UpstreamError ν) {result : Except AppError α}
    {exchange : Exchange} (hvalid : valid) (hended : ended exchange)
    (hsucceeded : succeeded exchange ↔ outcome.isOk = true)
    (htimedOut : outcome = .error .timeout ↔ exchange.TimedOut)
    (hok : ∀ value, outcome = .ok value → ∃ a, result = .ok a)
    (herror : ∀ error, outcome = .error error → result = .error (.fromUpstream error)) :
    StatusMeans valid disturbed ended succeeded (lookupResponse serialize result) := by
  cases houtcome : outcome with
  | ok value =>
    obtain ⟨a, rfl⟩ := hok value houtcome
    have hdone : succeeded exchange := hsucceeded.mpr (by rw [houtcome]; rfl)
    apply statusMeans_lookup
    · exact fun _ _ => ⟨hvalid, exchange, hended, hdone⟩
    all_goals
      intro h
      cases h
  | error error =>
    obtain rfl := herror error houtcome
    have hfailed : ¬ succeeded exchange := by
      rw [hsucceeded, houtcome]
      exact Bool.false_ne_true
    rw [houtcome] at htimedOut
    apply statusMeans_lookup
    · intro value h
      cases h
    · intro h
      cases error <;> cases h
    · intro h
      cases error <;> cases h
    · intro h
      refine ⟨hvalid, exchange, hended, htimedOut.mp ?_⟩
      cases error with
      | timeout => rfl
      | _ => cases h
    · intro h
      refine ⟨hvalid, .inl ⟨exchange, hended, hfailed, fun htimeout => ?_⟩⟩
      obtain rfl := Except.error.inj (htimedOut.mpr htimeout)
      cases h

end Statuses

/-- During the run a call with this name was in progress, and the exchange ended it. -/
def NameEnded (expiry : Cache.OptionalValueExpiry) (config : Batch.BatchConfig)
    (client : MojangHttpClient U) (trace : List App.Event) (name : Str) (exchange : Exchange) :
    Prop :=
  ∃ names, CallEnded expiry config client trace names exchange ∧ asciiLowercase name ∈ names

theorem name_statusMeans {name : Str} {answer : Response Body}
    (h : Answered expiry config client (.handler .lookupUuid name) trace answer) :
    StatusMeans (isValidMinecraftUsername name = true) (Disturbed trace)
      (NameEnded expiry config client trace name)
      (fun exchange => (namesOutcome client.libraries exchange).isOk = true) answer := by
  rcases h with h | h | h | h | ⟨hmatched, hinvalid⟩ | ⟨hmatched, hvalid, hended, hasked⟩ |
    ⟨hmatched, hvalid, hdisturbed⟩ | ⟨h, -⟩ | ⟨h, -, -⟩ <;> try cases h
  all_goals cases hmatched
  · refine statusMeans_lookup serializeUuidLookup (.error .invalidName)
      ?_ (fun _ => by simp [hinvalid]) ?_ ?_ ?_
    all_goals simp
  · refine statusMeans_outcome (namesOutcome client.libraries _) hvalid
      ⟨_, hended, hasked⟩ Iff.rfl names_timeout ?_ ?_
    · intro profiles houtcome
      rw [houtcome]
      exact ⟨_, rfl⟩
    · intro error houtcome
      rw [houtcome]
      rfl
  · refine statusMeans_lookup serializeUuidLookup (.error .internal)
      ?_ ?_ ?_ ?_ (fun _ => ⟨hvalid, .inr hdisturbed⟩)
    all_goals simp

theorem skin_statusMeans {text : Str} {answer : Response Body}
    (h : Answered expiry config client (.handler .lookupSkin text) trace answer) :
    StatusMeans ((parseMinecraftUuid client.libraries.parseStr text).isSome = true) False
      (fun exchange => ∃ uuid, parseMinecraftUuid client.libraries.parseStr text = some uuid ∧
        LoadEnded expiry config client trace uuid exchange)
      (fun exchange => (skinOutcome client.libraries exchange).isOk = true) answer := by
  rcases h with h | h | h | h | ⟨h, -⟩ | ⟨h, -, -, -⟩ | ⟨h, -, -⟩ | ⟨hmatched, hinvalid⟩ |
    ⟨hmatched, hvalid, hended⟩ <;> try cases h
  all_goals cases hmatched
  · refine statusMeans_lookup serializeSkinLookup (.error .invalidUuid)
      ?_ ?_ (fun _ => by simp [hinvalid]) ?_ ?_
    all_goals simp
  · refine statusMeans_outcome (skinOutcome client.libraries _) (by simp [hvalid])
      ⟨_, hvalid, hended⟩ Iff.rfl skin_timeout ?_ ?_
    · intro property houtcome
      rw [houtcome]
      exact ⟨_, rfl⟩
    · intro error houtcome
      rw [houtcome]
      rfl

/-- In every run the status of a lookup that was let in means what the API documents: 400 if
and only if the argument is no username or no UUID; and otherwise 200 when an exchange that
ended a call with the name, or a load of the skin, succeeded, 503 when one timed out, and 500
when one failed otherwise, or for names after a shutdown or a panic. Clients may only cache
what was answered with 200. -/
theorem statuses_documented {U : Type} (expiry : Cache.OptionalValueExpiry)
    (config : Batch.BatchConfig) (client : MojangHttpClient U) (hclient : client.Reliable)
    (framework : Framework) (hframework : framework.Reliable) (limiter : RateLimiter)
    (es : List Event) (s : State)
    (h : (system expiry config client framework limiter).run es = some s) (j : ℕ) (visit : Visit)
    (response : Response Body) (hj : s.visits[j]? = some visit)
    (hresponse : s.response framework j = some response) (hletIn : visit.handling ≠ .denied) :
    let trace := appTrace expiry config client framework limiter es
    (∀ name, framework.matchRoute routes visit.request = .handler .lookupUuid name →
      StatusMeans (isValidMinecraftUsername name = true) (Disturbed trace)
        (NameEnded expiry config client trace name)
        (fun exchange => (namesOutcome client.libraries exchange).isOk = true) response) ∧
    ∀ text, framework.matchRoute routes visit.request = .handler .lookupSkin text →
      StatusMeans ((parseMinecraftUuid client.libraries.parseStr text).isSome = true) False
        (fun exchange => ∃ uuid, parseMinecraftUuid client.libraries.parseStr text = some uuid ∧
          LoadEnded expiry config client trace uuid exchange)
        (fun exchange => (skinOutcome client.libraries exchange).isOk = true) response := by
  intro trace
  obtain ⟨answer, hanswer, hstatus, hheaders, -⟩ := response_of_letIn hframework
    (reachable_checked (Machine.reachable_of_run h)) hj hresponse hletIn
  have hanswered := answered_of_answer hclient h (List.mem_of_getElem? hj) hanswer
  constructor
  · intro name hname
    exact (name_statusMeans (hname ▸ hanswered)).transfer hstatus hheaders
  · intro text htext
    exact (skin_statusMeans (htext ▸ hanswered)).transfer hstatus hheaders

theorem statuses_documented_mixed : ∃ s response exchange,
    (system .default Batch.smallConfig productionClient plainFramework startLimiter).run
      mixedVisits = some s ∧ s.response plainFramework 0 = some response ∧
    response.status = 200 ∧ response.headers cacheControl = some clientCacheControl ∧
    NameEnded .default Batch.smallConfig productionClient
      (appTrace .default Batch.smallConfig productionClient plainFramework startLimiter mixedVisits)
      "Steve".toList exchange ∧
    (namesOutcome plainLibraries exchange).isOk = true := by
  obtain ⟨s, visit, response, hs, hvisit, hresponse, hstatus, hletIn, hmatched⟩ := mixedVisits_run
  obtain ⟨hnames, -⟩ := statuses_documented .default Batch.smallConfig productionClient
    productionClient_reliable plainFramework plainFramework_reliable startLimiter mixedVisits s hs 0
    visit response hvisit hresponse hletIn
  have hmeans := hnames _ hmatched
  obtain ⟨exchange, hended, hok⟩ := hmeans.ok hstatus
  have hcached := hmeans.cached
  rw [if_pos hstatus] at hcached
  exact ⟨s, response, exchange, hs, hresponse, hstatus, hcached, hended, hok⟩

end MojangApi.Router
