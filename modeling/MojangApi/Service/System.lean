import MojangApi.App.Lasting
import MojangApi.Report.ReadBack
import MojangApi.Router.Visits

/-! # The server with its reporter

The reporter starts before any request is served and follows the server's clock. It is
told of everything by the counters, each of which it may see late, as relaxed loads do.
-/

namespace MojangApi.Service
open MojangApi Library RateLimit Mojang

structure State where
  router : Router.State
  reporter : Reporter.State

inductive Event where
  | router (e : Router.Event)
  | reporter (e : Reporter.Event)

namespace State

/-- Whether `DiscordReporter::start` has returned. -/
def started (s : State) : Bool :=
  match s.reporter.phase with
  | .baseline _ _ => false
  | _ => true

/-- Requests come once the router is built, after the reporter. -/
def serves (s : State) : Router.Event → Bool
  | .receive _ => s.started
  | _ => true

/-- The reporter has no clock of its own, and sees no more of a counter than it shows. -/
def allows (s : State) : Reporter.Event → Bool
  | .elapse _ => false
  | .count c k => Reporter.noWrap s.reporter (.count c k) &&
      s.reporter.metrics.counter c + k ≤ s.router.app.metrics.counter c
  | _ => true

end State

def system {U : Type} (expiry : Cache.OptionalValueExpiry) (config : Batch.BatchConfig)
    (client : MojangHttpClient U) (framework : Router.Framework) (limiter : RateLimiter) :
    Machine State Event where
  init :=
    { router := (Router.system expiry config client framework limiter).init
      reporter := (Reporter.reporter {} 0).init }
  step s
    | .router e =>
      if s.serves e then
        ((Router.system expiry config client framework limiter).step s.router e).bind fun router =>
          ((Reporter.reporter {} 0).step s.reporter (.elapse (router.now - s.router.now))).map
            fun reporter => ⟨router, reporter⟩
      else none
    | .reporter e =>
      if s.allows e then
        ((Reporter.reporter {} 0).step s.reporter e).map fun reporter =>
          { s with reporter := reporter }
      else none

section Steps
variable {U : Type} {expiry : Cache.OptionalValueExpiry} {config : Batch.BatchConfig}
  {client : MojangHttpClient U} {framework : Router.Framework} {limiter : RateLimiter}
  {s t : State}

theorem router_step {e : Router.Event}
    (h : (system expiry config client framework limiter).step s (.router e) = some t) :
    s.serves e = true ∧ ∃ router,
      (Router.system expiry config client framework limiter).step s.router e = some router ∧
      t = ⟨router, { s.reporter with now := s.reporter.now + (router.now - s.router.now) }⟩ := by
  simp only [system, Option.ite_none_right_eq_some] at h
  obtain ⟨hserves, h⟩ := h
  obtain ⟨router, hrouter, h⟩ := Option.bind_eq_some_iff.mp h
  obtain ⟨reporter, hreporter, rfl⟩ := Option.map_eq_some_iff.mp h
  obtain rfl := Option.some.inj hreporter
  exact ⟨hserves, router, hrouter, rfl⟩

theorem reporter_step {e : Reporter.Event}
    (h : (system expiry config client framework limiter).step s (.reporter e) = some t) :
    s.allows e = true ∧ ∃ reporter,
      (Reporter.reporter {} 0).step s.reporter e = some reporter ∧
      t = { s with reporter := reporter } := by
  simp only [system, Option.ite_none_right_eq_some] at h
  obtain ⟨reporter, hreporter, rfl⟩ := Option.map_eq_some_iff.mp h.2
  exact ⟨h.1, reporter, hreporter, rfl⟩

theorem noWrap_of_allows {e : Reporter.Event} (h : s.allows e = true) :
    Reporter.noWrap s.reporter e = true := by
  cases e with
  | count c k =>
    rw [State.allows, Bool.and_eq_true] at h
    exact h.1
  | _ => rfl

theorem router_simulation : Machine.Simulation (system expiry config client framework limiter)
    (Router.system expiry config client framework limiter) State.router where
  init := rfl
  step s e t h := by
    cases e with
    | router e =>
      obtain ⟨-, router, hrouter, rfl⟩ := router_step h
      exact Machine.leads_step hrouter
    | reporter e =>
      obtain ⟨-, reporter, -, rfl⟩ := reporter_step h
      exact Machine.leads_refl _

theorem reporter_simulation : Machine.Simulation (system expiry config client framework limiter)
    ((Reporter.reporter {} 0).restrict Reporter.noWrap) State.reporter where
  init := rfl
  step s e t h := by
    cases e with
    | router e =>
      obtain ⟨-, router, -, rfl⟩ := router_step h
      exact Machine.leads_step (e := .elapse (router.now - s.router.now)) rfl
    | reporter e =>
      obtain ⟨hallows, reporter, hreporter, rfl⟩ := reporter_step h
      exact Machine.leads_step (Machine.step_restrict (noWrap_of_allows hallows) hreporter)

theorem app_simulation : Machine.Simulation (Router.system expiry config client framework limiter)
    (App.system expiry config client) Router.State.app where
  init := rfl
  step _ _ _ h := Router.app_leads h

theorem reachable_app (h : (system expiry config client framework limiter).Reachable s) :
    (App.system expiry config client).Reachable s.router.app :=
  app_simulation.reachable (router_simulation.reachable h)

end Steps
end MojangApi.Service
