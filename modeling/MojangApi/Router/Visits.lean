import MojangApi.App.History
import MojangApi.Library.SingleFlight.Lasting
import MojangApi.Router.System

/-! # The visits along a run

The limiter has been through the visits in their order, each visit met it as the ones
before had left it, and a visit that was let in is in the handler its path belongs to.
-/

namespace MojangApi.Router
open MojangApi Library App RateLimit Mojang

variable {U : Type}

inductive Moves (expiry : Cache.OptionalValueExpiry) (config : Batch.BatchConfig)
    (client : MojangHttpClient U) (framework : Framework) (s : State) : Event → State → Prop
  | receive (request : HttpRequest) :
      Moves expiry config client framework s (.receive request) (s.receive request)
  | check {i : ℕ} {arrival : Arrival} (hi : s.arriving[i]? = some arrival) :
      Moves expiry config client framework s (.check i) { s with
        limiter := (s.limiter.check framework.hash
          (clientKey framework.parse arrival.request.toRequest) arrival.arrived).1
        arriving := s.arriving.eraseIdx i
        visits := s.visits ++ [s.visit framework arrival] }
  | dispatch {j : ℕ} {visit : Visit} {after : App.State} (hj : s.visits[j]? = some visit)
      (hadmitted : visit.handling = .admitted)
      (hafter : (App.system expiry config client).runFrom s.app (s.handling framework visit).1 =
        some after) :
      Moves expiry config client framework s (.dispatch j) { s with
        app := after
        visits := s.visits.set j { visit with handling := (s.handling framework visit).2 } }
  | app {e : App.Event} {after : App.State} (hinternal : isInternal e = true)
      (hafter : (App.system expiry config client).step s.app e = some after) :
      Moves expiry config client framework s (.app e) { s with app := after }

/-- What an event is for the handlers. -/
def emit (framework : Framework) (s : State) : Event → List App.Event
  | .receive _ | .check _ => []
  | .dispatch j => (s.waiting j).elim [] fun visit => (s.handling framework visit).1
  | .app e => [e]

/-- The events of the handlers along a run. -/
def appTrace (expiry : Cache.OptionalValueExpiry) (config : Batch.BatchConfig)
    (client : MojangHttpClient U) (framework : Framework) (limiter : RateLimiter)
    (es : List Event) : List App.Event :=
  (system expiry config client framework limiter).trace (emit framework) es

section Steps
variable {expiry : Cache.OptionalValueExpiry} {config : Batch.BatchConfig}
  {client : MojangHttpClient U} {framework : Framework} {limiter : RateLimiter} {s t : State}
  {es : List Event} {e : Event}

theorem waiting_eq_some {j : ℕ} {visit : Visit} :
    s.waiting j = some visit ↔ s.visits[j]? = some visit ∧ visit.handling = .admitted := by
  rw [State.waiting, Option.filter_eq_some_iff]
  cases visit.handling <;> simp

theorem step_moves (h : (system expiry config client framework limiter).step s e = some t) :
    Moves expiry config client framework s e t := by
  cases e with
  | receive request => exact Option.some.inj h ▸ .receive request
  | check i =>
    obtain ⟨arrival, hi, rfl⟩ := Option.map_eq_some_iff.mp h
    exact .check hi
  | dispatch j =>
    obtain ⟨visit, hwaiting, h⟩ := Option.bind_eq_some_iff.mp h
    obtain ⟨after, hafter, rfl⟩ := Option.map_eq_some_iff.mp h
    obtain ⟨hj, hadmitted⟩ := waiting_eq_some.mp hwaiting
    exact .dispatch hj hadmitted hafter
  | app e =>
    simp only [system, Option.ite_none_right_eq_some] at h
    obtain ⟨after, hafter, rfl⟩ := Option.map_eq_some_iff.mp h.2
    exact .app h.1 hafter

/-- The run of the router is one of the handlers. -/
theorem app_emits : Machine.Emits (system expiry config client framework limiter)
    (App.system expiry config client) State.app (emit framework) where
  init := rfl
  step s e t h := by
    cases step_moves h with
    | receive => rfl
    | check => rfl
    | dispatch hj hadmitted hafter =>
      rw [emit, waiting_eq_some.mpr ⟨hj, hadmitted⟩]
      exact hafter
    | app _ hafter => rwa [emit, Machine.runFrom_singleton]

theorem app_run (h : (system expiry config client framework limiter).run es = some s) :
    (App.system expiry config client).run (appTrace expiry config client framework limiter es) =
      some s.app := app_emits.run h

theorem app_leads (h : (system expiry config client framework limiter).step s e = some t) :
    (App.system expiry config client).Leads s.app t.app :=
  Machine.leads_of_runFrom (app_emits.step s e t h)

theorem now_step (h : (system expiry config client framework limiter).step s e = some t) :
    s.now ≤ t.now :=
  SingleFlight.now_leads (Lookup.cache_simulation.leads (lookup_simulation.leads (app_leads h)))

end Steps

section Checks
variable {expiry : Cache.OptionalValueExpiry} {config : Batch.BatchConfig}
  {client : MojangHttpClient U} {framework : Framework} {limiter : RateLimiter} {s t : State}
  {es : List Event} {e : Event}

/-- The requests in the order of their checks, each with its reading of the clock. -/
def State.history (s : State) : List (RateLimit.Request × ℕ) :=
  s.visits.map fun visit => (visit.request.toRequest, visit.arrived)

/-- What the limiter has seen. -/
structure Checked (framework : Framework) (limiter : RateLimiter) (s : State) : Prop where
  served : s.limiter = serves framework.parse framework.hash limiter s.history
  arriving : ∀ arrival ∈ s.arriving, arrival.arrived ≤ s.now
  read : ∀ visit ∈ s.visits, visit.arrived ≤ visit.checked
  past : ∀ visit ∈ s.visits, visit.checked ≤ s.now
  met : ∀ j visit, s.visits[j]? = some visit →
    visit.limiter = serves framework.parse framework.hash limiter (s.history.take j)
  verdict : ∀ visit ∈ s.visits, visit.handling = .denied ↔ admits framework.parse framework.hash
    visit.limiter visit.request.toRequest visit.arrived = false

theorem checked_init (limiter : RateLimiter) (app : App.State) :
    Checked framework limiter { limiter := limiter, app := app } where
  served := rfl
  arriving arrival hmem := by cases hmem
  read visit hmem := by cases hmem
  past visit hmem := by cases hmem
  met j visit hj := by cases hj
  verdict visit hmem := by cases hmem

theorem Checked.receive (h : Checked framework limiter s) (request : HttpRequest) :
    Checked framework limiter (s.receive request) where
  served := h.served
  arriving arrival hmem := by
    rcases List.mem_append.mp hmem with hmem | hmem
    · exact h.arriving arrival hmem
    · obtain rfl := List.mem_singleton.mp hmem
      exact Nat.le_refl _
  read := h.read
  past := h.past
  met := h.met
  verdict := h.verdict

/-- A check adds its visit to the history. -/
theorem history_check (arrival : Arrival) :
    (s.visits ++ [s.visit framework arrival]).map
      (fun visit => (visit.request.toRequest, visit.arrived)) =
        s.history ++ [(arrival.request.toRequest, arrival.arrived)] := List.map_append

/-- A request is checked, whatever the other readings. -/
theorem Checked.check (h : Checked framework limiter s) {i : ℕ} {arrival : Arrival}
    (hi : s.arriving[i]? = some arrival) :
    Checked framework limiter { s with
      limiter := (s.limiter.check framework.hash
        (clientKey framework.parse arrival.request.toRequest) arrival.arrived).1
      arriving := s.arriving.eraseIdx i
      visits := s.visits ++ [s.visit framework arrival] } where
  served := by
    rw [State.history, history_check]
    simp [serves, h.served]
  arriving a hmem := h.arriving a (List.mem_of_mem_eraseIdx hmem)
  read visit hmem := by
    rcases List.mem_append.mp hmem with hmem | hmem
    · exact h.read visit hmem
    · obtain rfl := List.mem_singleton.mp hmem
      exact h.arriving arrival (List.mem_of_getElem? hi)
  past visit hmem := by
    rcases List.mem_append.mp hmem with hmem | hmem
    · exact h.past visit hmem
    · obtain rfl := List.mem_singleton.mp hmem
      exact Nat.le_refl _
  met j visit hj := by
    have hlength : s.history.length = s.visits.length := List.length_map _
    rw [State.history, history_check]
    rcases getElem?_append_some _ hj with hj | ⟨rfl, rfl⟩
    · rw [List.take_append_of_le_length
        (hlength ▸ (List.getElem?_eq_some_iff.mp hj).1.le)]
      exact h.met j visit hj
    · rw [← hlength, List.take_left]
      exact h.served
  verdict visit hmem := by
    rcases List.mem_append.mp hmem with hmem | hmem
    · exact h.verdict visit hmem
    · obtain rfl := List.mem_singleton.mp hmem
      simp only [State.visit]
      split <;> simp_all

/-- The handlers may do what they do, as long as the clock does not go back. -/
theorem Checked.app (h : Checked framework limiter s) {after : App.State}
    (hnow : s.now ≤ after.lookup.cache.now) :
    Checked framework limiter { s with app := after } where
  served := h.served
  arriving arrival hmem := Nat.le_trans (h.arriving arrival hmem) hnow
  read := h.read
  past visit hmem := Nat.le_trans (h.past visit hmem) hnow
  met := h.met
  verdict := h.verdict

theorem history_set {j : ℕ} {visit : Visit} (hj : s.visits[j]? = some visit)
    (handling : Handling) :
    (s.visits.set j { visit with handling := handling }).map
      (fun visit => (visit.request.toRequest, visit.arrived)) = s.history := by
  obtain ⟨hlt, rfl⟩ := List.getElem?_eq_some_iff.mp hj
  rw [List.map_set, State.history]
  apply List.ext_getElem?
  intro i
  by_cases hi : j = i
  · subst hi
    simp [hlt]
  · simp [hi]

/-- A visit that was let in is handled, which changes nothing else about it. -/
theorem Checked.handle (h : Checked framework limiter s) {j : ℕ} {visit : Visit}
    (hj : s.visits[j]? = some visit) (hadmitted : visit.handling = .admitted)
    {handling : Handling} (hhandling : handling ≠ .denied) :
    Checked framework limiter
      { s with visits := s.visits.set j { visit with handling := handling } } where
  served := by
    rw [State.history, history_set hj]
    exact h.served
  arriving := h.arriving
  read v hmem := by
    rcases List.mem_or_eq_of_mem_set hmem with hmem | rfl
    · exact h.read v hmem
    · exact h.read visit (List.mem_of_getElem? hj)
  past v hmem := by
    rcases List.mem_or_eq_of_mem_set hmem with hmem | rfl
    · exact h.past v hmem
    · exact h.past visit (List.mem_of_getElem? hj)
  met i v hi := by
    rw [State.history, history_set hj]
    rw [getElem?_set_some hj] at hi
    split at hi
    · obtain rfl := Option.some.inj hi
      subst_vars
      exact h.met _ visit hj
    · exact h.met i v hi
  verdict v hmem := by
    rcases List.mem_or_eq_of_mem_set hmem with hmem | rfl
    · exact h.verdict v hmem
    · have hverdict := h.verdict visit (List.mem_of_getElem? hj)
      rw [hadmitted] at hverdict
      exact ⟨fun hdenied => absurd hdenied hhandling, fun hfalse => by simp_all⟩

theorem handle_ne_denied (app : App.State) (matched : Matched) :
    (handle app matched).2 ≠ .denied := by
  rcases matched with ⟨handler, parameter⟩ | response | _
  · cases handler <;> simp [handle]
  · simp [handle]
  · simp [handle]

theorem Checked.step (h : Checked framework limiter s)
    (ht : (system expiry config client framework limiter).step s e = some t) :
    Checked framework limiter t := by
  have hnow := now_step ht
  cases step_moves ht with
  | receive request => exact h.receive request
  | check hi => exact h.check hi
  | dispatch hj hadmitted _ =>
    exact (h.handle hj hadmitted (handle_ne_denied _ _)).app hnow
  | app => exact h.app hnow

theorem reachable_checked
    (h : (system expiry config client framework limiter).Reachable s) :
    Checked framework limiter s :=
  h.invariant (checked_init limiter _) fun _ _ _ _ hu hv => hu.step hv

end Checks

section Routing
variable {expiry : Cache.OptionalValueExpiry} {config : Batch.BatchConfig}
  {client : MojangHttpClient U} {framework : Framework} {limiter : RateLimiter} {s t : State}
  {es : List Event} {e : Event} {trace : List App.Event}

/-- Whether a visit has called a lookup handler. -/
def Handling.isLookup : Handling → Bool
  | .uuid _ | .skin _ => true
  | _ => false

/-- A visit is where its path leads. -/
structure Placed (framework : Framework) (trace : List App.Event) (request : HttpRequest)
    (handling : Handling) : Prop where
  answered : ∀ response, handling = .answered response →
    ∀ app, handle app (framework.matchRoute routes request) = ([], .answered response)
  uuid : ∀ k, handling = .uuid k → ∃ name,
    framework.matchRoute routes request = .handler .lookupUuid name ∧
      (nameTexts trace)[k]? = some name
  skin : ∀ k, handling = .skin k → ∃ text,
    framework.matchRoute routes request = .handler .lookupSkin text ∧
      (uuidTexts trace)[k]? = some text

/-- All visits are, and the calls of the lookup handlers are those of visits. -/
structure Routed (framework : Framework) (trace : List App.Event) (s : State) : Prop where
  placed : ∀ visit ∈ s.visits, Placed framework trace visit.request visit.handling
  calls : (nameTexts trace).length + (uuidTexts trace).length =
    s.visits.countP fun visit => visit.handling.isLookup

theorem nameTexts_append (l l' : List App.Event) :
    nameTexts (l ++ l') = nameTexts l ++ nameTexts l' := List.filterMap_append

theorem uuidTexts_append (l l' : List App.Event) :
    uuidTexts (l ++ l') = uuidTexts l ++ uuidTexts l' := List.filterMap_append

theorem placed_new {request : HttpRequest} {handling : Handling}
    (h : handling = .admitted ∨ handling = .denied) : Placed framework trace request handling := by
  rcases h with rfl | rfl
  all_goals
    constructor
    · intro response hresponse
      cases hresponse
    · intro k hk
      cases hk
    · intro k hk
      cases hk

theorem Placed.append {request : HttpRequest} {handling : Handling}
    (h : Placed framework trace request handling) (own : List App.Event) :
    Placed framework (trace ++ own) request handling where
  answered := h.answered
  uuid k hk := by
    obtain ⟨name, hmatched, hname⟩ := h.uuid k hk
    refine ⟨name, hmatched, ?_⟩
    rw [nameTexts_append]
    exact getElem?_append_of_some hname _
  skin k hk := by
    obtain ⟨text, hmatched, htext⟩ := h.skin k hk
    refine ⟨text, hmatched, ?_⟩
    rw [uuidTexts_append]
    exact getElem?_append_of_some htext _

theorem placed_answered {request : HttpRequest} {response : Response Body}
    (h : ∀ app, handle app (framework.matchRoute routes request) = ([], .answered response)) :
    Placed framework trace request (.answered response) where
  answered response' hresponse := by
    obtain rfl := Handling.answered.inj hresponse
    exact h
  uuid k hk := by cases hk
  skin k hk := by cases hk

/-- A visit that is routed gets the next number of the handler it calls. -/
theorem placed_handle {app : App.State} (request : HttpRequest)
    (hnames : (nameTexts trace).length = app.uuidHandlers.length)
    (huuids : (uuidTexts trace).length = app.skinHandlers.length) :
    Placed framework (trace ++ (handle app (framework.matchRoute routes request)).1) request
      (handle app (framework.matchRoute routes request)).2 := by
  cases hmatched : framework.matchRoute routes request with
  | framework response => exact placed_answered fun app => by rw [hmatched]; rfl
  | fallback => exact placed_answered fun app => by rw [hmatched]; rfl
  | handler handler parameter =>
    cases handler with
    | redirect => exact placed_answered fun app => by rw [hmatched]; rfl
    | health => exact placed_answered fun app => by rw [hmatched]; rfl
    | lookupUuid =>
      refine ⟨fun response hresponse => (by cases hresponse), ?_, fun k hk => (by cases hk)⟩
      intro k hk
      obtain rfl := Handling.uuid.inj hk
      refine ⟨parameter, hmatched, ?_⟩
      rw [nameTexts_append, ← hnames]
      simp [handle, nameTexts]
    | lookupSkin =>
      refine ⟨fun response hresponse => (by cases hresponse), fun k hk => (by cases hk), ?_⟩
      intro k hk
      obtain rfl := Handling.skin.inj hk
      refine ⟨parameter, hmatched, ?_⟩
      rw [uuidTexts_append, ← huuids]
      simp [handle, uuidTexts]

/-- A routed visit calls a lookup handler once, or none. -/
theorem calls_handle (app : App.State) (matched : Matched) :
    (nameTexts (handle app matched).1).length + (uuidTexts (handle app matched).1).length =
      if (handle app matched).2.isLookup then 1 else 0 := by
  rcases matched with ⟨handler, parameter⟩ | response | _
  · cases handler <;> rfl
  · rfl
  · rfl

/-- A visit that was only checked has called nothing. -/
theorem Routed.check (h : Routed framework trace s) (arrival : Arrival) (limiter : RateLimiter)
    (arriving : List Arrival) : Routed framework trace { s with
      limiter := limiter
      arriving := arriving
      visits := s.visits ++ [s.visit framework arrival] } where
  placed visit hmem := by
    rcases List.mem_append.mp hmem with hmem | hmem
    · exact h.placed visit hmem
    · obtain rfl := List.mem_singleton.mp hmem
      apply placed_new
      simp only [State.visit]
      split <;> simp
  calls := by
    rw [h.calls, List.countP_append, State.visit]
    split <;> rfl

theorem countP_handle {j : ℕ} {visit : Visit} (hj : s.visits[j]? = some visit)
    (hadmitted : visit.handling = .admitted) (handling : Handling) :
    ((s.visits.set j { visit with handling := handling }).countP fun v => v.handling.isLookup) =
      (s.visits.countP fun v => v.handling.isLookup) + if handling.isLookup then 1 else 0 := by
  obtain ⟨hlt, rfl⟩ := List.getElem?_eq_some_iff.mp hj
  have hbefore : ¬ s.visits[j].handling.isLookup = true := by
    rw [hadmitted]
    exact Bool.false_ne_true
  rw [List.countP_set hlt, if_neg hbefore, Nat.sub_zero]

theorem Routed.dispatch (h : Routed framework trace s) {j : ℕ} {visit : Visit}
    (hj : s.visits[j]? = some visit) (hadmitted : visit.handling = .admitted)
    (hnames : (nameTexts trace).length = s.app.uuidHandlers.length)
    (huuids : (uuidTexts trace).length = s.app.skinHandlers.length) (after : App.State) :
    Routed framework (trace ++ (s.handling framework visit).1)
      { s with
        app := after
        visits := s.visits.set j { visit with handling := (s.handling framework visit).2 } } where
  placed v hmem := by
    rcases List.mem_or_eq_of_mem_set hmem with hmem | rfl
    · exact (h.placed v hmem).append _
    · exact placed_handle visit.request hnames huuids
  calls := by
    rw [nameTexts_append, uuidTexts_append, List.length_append, List.length_append,
      countP_handle hj hadmitted, ← h.calls, State.handling, ← calls_handle]
    omega

/-- The handlers' own steps call no handler. -/
theorem texts_internal {e : App.Event} (h : isInternal e = true) :
    nameTexts [e] = [] ∧ uuidTexts [e] = [] := by
  cases e with
  | lookupUuid | lookupSkin => cases h
  | _ => exact ⟨rfl, rfl⟩

theorem Routed.app (h : Routed framework trace s) {e : App.Event} (hinternal : isInternal e = true)
    (after : App.State) : Routed framework (trace ++ [e]) { s with app := after } where
  placed visit hmem := (h.placed visit hmem).append _
  calls := by
    obtain ⟨hnames, huuids⟩ := texts_internal hinternal
    rw [nameTexts_append, uuidTexts_append, hnames, huuids, List.append_nil, List.append_nil]
    exact h.calls

theorem routed_run (h : (system expiry config client framework limiter).run es = some s) :
    Routed framework (appTrace expiry config client framework limiter es) s := by
  refine Machine.runFrom_history (P := fun es s =>
    Routed framework (appTrace expiry config client framework limiter es) s) ?_ ?_ h
  · exact ⟨fun visit hmem => (by cases hmem), rfl⟩
  · intro es u e v hu hrouted hv
    have hears := hears_run (app_run hu)
    rw [appTrace, Machine.trace_snoc hu hv]
    cases step_moves hv with
    | receive request =>
      rw [emit, List.append_nil]
      exact ⟨hrouted.placed, hrouted.calls⟩
    | check =>
      rw [emit, List.append_nil]
      exact hrouted.check _ _ _
    | @dispatch j visit after hj hadmitted _ =>
      rw [emit, waiting_eq_some.mpr ⟨hj, hadmitted⟩]
      exact hrouted.dispatch hj hadmitted hears.names.handled.length_eq
        hears.uuids.handled.length_eq after
    | @app e after hinternal _ => exact hrouted.app hinternal after

end Routing
end MojangApi.Router
