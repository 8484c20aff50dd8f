import MojangApi.Report.Later
import MojangApi.Router.Load
import MojangApi.Service.System

/-! # What the reports tell

The reports never tell of more than has happened, and a report that is made after the
reporter has seen the counters as they are makes up for all that happened until then.
-/

namespace MojangApi.Service
open MojangApi Library App RateLimit Mojang Report

section Runs
variable {U : Type} {expiry : Cache.OptionalValueExpiry} {config : Batch.BatchConfig}
  {client : MojangHttpClient U} {framework : Router.Framework} {limiter : RateLimiter}
  {s t : State}

/-- The handler calls are those of visits. -/
theorem handlers_visits {router : Router.State}
    (h : (Router.system expiry config client framework limiter).Reachable router) :
    router.app.uuidHandlers.length + router.app.skinHandlers.length =
      router.visits.countP fun visit => visit.handling.isLookup := by
  obtain ⟨es, hrun⟩ := h.exists_run
  have hears := hears_run (Router.app_run hrun)
  rw [← (Router.routed_run hrun).calls, hears.names.handled.length_eq,
    hears.uuids.handled.length_eq]

/-- Without a visit there is nothing to count. -/
theorem total_unvisited (hclient : client.Reliable) {router : Router.State}
    (h : (Router.system expiry config client framework limiter).Reachable router)
    (hvisits : router.visits = []) (c : Counter) (hc : c.countsBytes = false) :
    router.app.total c = 0 := by
  have hvisited := handlers_visits h
  have happ := app_simulation.reachable h
  obtain ⟨hbounds, hrequests⟩ := total_bounds (reachable_counted hclient happ) happ
  have htotal := hbounds c hc
  rw [hvisits, List.countP_nil] at hvisited
  omega

/-- Before the reporter has started there are no requests, its first snapshot is empty, and it
never sees more than has happened. -/
structure Told (s : State) : Prop where
  unvisited : s.started = false → s.router.arriving = [] ∧ s.router.visits = []
  initial : ∀ c, c.countsBytes = false → s.reporter.initialSnapshot.counter c = 0
  seen : ∀ c, c.countsBytes = false → s.reporter.metrics.counter c ≤ s.router.app.total c

theorem told_init : Told (system expiry config client framework limiter).init where
  unvisited _ := ⟨rfl, rfl⟩
  initial c _ := by cases c <;> rfl
  seen c _ := by cases c <;> exact Nat.zero_le _

/-- Without requests the router makes no visits. -/
theorem unvisited_step {router router' : Router.State} {e : Router.Event}
    (harriving : router.arriving = []) (hvisits : router.visits = [])
    (he : ∀ request, e ≠ .receive request)
    (h : (Router.system expiry config client framework limiter).step router e = some router') :
    router'.arriving = [] ∧ router'.visits = [] := by
  cases Router.step_moves h with
  | receive request => exact absurd rfl (he request)
  | check hi => simp [harriving] at hi
  | dispatch hj => simp [hvisits] at hj
  | app => exact ⟨harriving, hvisits⟩

theorem Told.router (h : Told s) (hs : (system expiry config client framework limiter).Reachable s)
    {e : Router.Event}
    (ht : (system expiry config client framework limiter).step s (.router e) = some t) :
    Told t := by
  obtain ⟨hserves, router, hrouter, rfl⟩ := router_step ht
  refine ⟨fun hstarted => ?_, h.initial, fun c hc => ?_⟩
  · obtain ⟨harriving, hvisits⟩ := h.unvisited hstarted
    refine unvisited_step harriving hvisits (fun request he => ?_) hrouter
    subst he
    exact Bool.false_ne_true (hstarted.symm.trans hserves)
  · exact (h.seen c hc).trans (total_mono (reachable_app hs) (Router.app_leads hrouter) c)

/-- A step of the reporter that neither sees a counter nor begins the reports. -/
theorem Told.keep (h : Told s) {reporter : Reporter.State}
    (hstarted : State.started ⟨s.router, reporter⟩ = false → s.started = false)
    (hinitial : reporter.initialSnapshot = s.reporter.initialSnapshot)
    (hmetrics : reporter.metrics = s.reporter.metrics) : Told ⟨s.router, reporter⟩ where
  unvisited hfalse := h.unvisited (hstarted hfalse)
  initial c hc := by
    rw [hinitial]
    exact h.initial c hc
  seen c hc := by
    rw [hmetrics]
    exact h.seen c hc

theorem Told.count (h : Told s) (hcounted : Counted s.router.app) {c : Counter} {k : ℕ}
    (hallows : s.allows (.count c k) = true) :
    Told { s with reporter := { s.reporter with metrics := s.reporter.metrics.add c k } } := by
  simp only [State.allows, Reporter.noWrap, Bool.and_eq_true, decide_eq_true_eq] at hallows
  obtain ⟨hwrap, hshown⟩ := hallows
  refine ⟨h.unvisited, h.initial, fun d hd => ?_⟩
  rw [Metrics.counter_add]
  split
  · rename_i hcd
    subst hcd
    have hfollows := hcounted.follows c hd
    have hmod := Nat.mod_le (s.router.app.total c) (2 ^ 64)
    rw [fetchAdd_of_lt hwrap]
    change _ ≤ s.router.app.total c
    exact hshown.trans (hfollows ▸ hmod)
  · exact h.seen d hd

/-- The first snapshot is taken before there is anything to count. -/
theorem Told.start (h : Told s) (hclient : client.Reliable)
    (hs : (system expiry config client framework limiter).Reachable s) {snapshot : MetricsSnapshot}
    (hphase : s.reporter.phase = .baseline [] snapshot) (c : Counter)
    (hc : c.countsBytes = false) : snapshot.counter c = 0 := by
  have hloaded := (Reporter.reachable_balanced (reporter_simulation.reachable hs)).phase
  rw [hphase] at hloaded
  have hstarted : s.started = false := by rw [State.started, hphase]
  have hzero := total_unvisited hclient (router_simulation.reachable hs)
    (h.unvisited hstarted).2 c hc
  have hle := hloaded.2.2.2 c List.not_mem_nil
  have hseen := h.seen c hc
  omega

theorem Told.reporter (h : Told s) (hclient : client.Reliable)
    (hs : (system expiry config client framework limiter).Reachable s) {e : Reporter.Event}
    (ht : (system expiry config client framework limiter).step s (.reporter e) = some t) :
    Told t := by
  obtain ⟨hallows, reporter, hreporter, rfl⟩ := reporter_step ht
  cases Reporter.step_moves hreporter with
  | count c k => exact h.count (reachable_counted hclient (reachable_app hs)) hallows
  | elapse d => cases hallows
  | signalShutdown => exact h.keep id rfl rfl
  | loadBaseline hphase => exact h.keep (fun _ => by rw [State.started, hphase]) rfl rfl
  | start hphase =>
    exact ⟨(fun hfalse => by cases hfalse), h.start hclient hs hphase, h.seen⟩
  | _ => exact h.keep (fun hfalse => by cases hfalse) rfl rfl

theorem reachable_told (hclient : client.Reliable)
    (h : (system expiry config client framework limiter).Reachable s) : Told s := by
  refine h.invariant told_init fun u e v hu htold hv => ?_
  cases e with
  | router e => exact htold.router hu hv
  | reporter e => exact htold.reporter hclient hu hv

/-- What was reported is what the last accepted snapshot shows. -/
theorem reported_eq (hclient : client.Reliable)
    (h : (system expiry config client framework limiter).Reachable s) {c : Counter}
    (hc : c.countsBytes = false) :
    (s.reporter.accepted.map fun r => r.snapshot.counter c).sum =
      s.reporter.lastSuccessfulSnapshot.counter c := by
  have hcounted := (Reporter.reachable_balanced (reporter_simulation.reachable h)).counted c
  rwa [(reachable_told hclient h).initial c hc, Nat.add_zero] at hcounted

end Runs

/-- Read off the texts of the accepted reports, every count other than those of bytes adds up to no
more than has happened; and to no less than had happened at an earlier point at which the reporter
was waiting with the counter before it as it was, if a report was accepted since. The requests that
are counted are the visits that called a lookup handler. -/
theorem reports_tell {U : Type} (expiry : Cache.OptionalValueExpiry) (config : Batch.BatchConfig)
    (client : MojangHttpClient U) (hclient : client.Reliable) (framework : Router.Framework)
    (limiter : RateLimiter) (floats : Floats) (surroundings : Reporter.Report → Surroundings)
    (es es' : List Event) (s t : State)
    (hs : (system expiry config client framework limiter).run es = some s)
    (ht : (system expiry config client framework limiter).runFrom s es' = some t) :
    (t.router.app.total .uuidRequests + t.router.app.total .skinRequests =
      t.router.visits.countP fun visit => visit.handling.isLookup) ∧
    ∀ c, c.countsBytes = false → ∃ counts,
      (payloads floats surroundings t.reporter.accepted).mapM (·.counter c) = some counts ∧
      counts.sum ≤ t.router.app.total c ∧
      (s.reporter.phase = .waiting →
        s.reporter.metrics.counter c = s.router.app.metrics.counter c → Fits s.router.app →
        s.reporter.accepted.length < t.reporter.accepted.length →
          s.router.app.total c ≤ counts.sum) := by
  have hreachable := Machine.reachable_of_run hs
  have hleads := Machine.leads_of_runFrom ht
  have hlater := hreachable.leads hleads
  refine ⟨handlers_visits (router_simulation.reachable hlater), fun c hc => ?_⟩
  refine ⟨_, payloads_counter hc, ?_⟩
  rw [reported_eq hclient hlater hc]
  constructor
  · have hbalanced := Reporter.reachable_balanced (reporter_simulation.reachable hlater)
    exact (hbalanced.behind c).trans ((reachable_told hclient hlater).seen c hc)
  · intro hwaiting hseen hfits hmore
    have happ := reachable_app hreachable
    have htotal := counter_total (reachable_counted hclient happ) happ hfits c hc
    have hreaches := Reporter.reaches_leads hwaiting (reporter_simulation.leads hleads) hmore c
    rwa [hseen, htotal] at hreaches

section Example

def plainService : Machine State Event :=
  system .default Batch.smallConfig productionClient Router.plainFramework Router.startLimiter

/-- Two requests are served, and the reporter sees what they have counted. -/
def seenRequests : List Event :=
  List.replicate 12 (.reporter .load) ++ [.reporter .start, .reporter (.buildClient true)] ++
    Router.anonymousRequests.map .router ++
    [.reporter (.count .uuidRequests 1), .reporter (.count .skinRequests 1),
      .reporter (.count .mojangRequests 1)]

/-- Five minutes later it reports them. -/
def oneReport : List Event :=
  [.router (.app (.elapse (Duration.fromMins 5))), .reporter .tick] ++
    List.replicate 12 (.reporter .load) ++ [.reporter .send, .reporter (.answer true)]

theorem reports_tell_seen : ∃ s t counts, plainService.run seenRequests = some s ∧
    plainService.runFrom s oneReport = some t ∧
    (payloads plainFloats (fun _ => noFiles) t.reporter.accepted).mapM
      (·.counter .mojangRequests) = some counts ∧ counts.sum = 1 := by
  have hseen : (plainService.run seenRequests).map (fun s => (s.reporter.phase,
      s.reporter.metrics.mojangRequests, s.router.app.metrics.mojangRequests,
      s.reporter.accepted.length, s.router.app.total .mojangRequests)) =
      some (.waiting, 1, 1, 0, 1) := by decide +kernel
  have hfew : (plainService.run seenRequests).map (fun s => (s.router.app.uuidHandlers.length,
      s.router.app.skinHandlers.length, s.router.app.lookup.processor.calls.length,
      s.router.app.skins.loads.length)) = some (1, 1, 0, 1) := by decide +kernel
  have hreported : ((plainService.run seenRequests).bind fun s =>
      plainService.runFrom s oneReport).map (fun t =>
        (t.reporter.accepted.length, t.router.app.total .mojangRequests)) = some (1, 1) := by
    decide +kernel
  obtain ⟨s, hs, hvalues⟩ := Option.map_eq_some_iff.mp hseen
  rw [hs, Option.map_some, Option.some.injEq] at hfew
  rw [hs, Option.bind_some] at hreported
  obtain ⟨t, ht, hlater⟩ := Option.map_eq_some_iff.mp hreported
  simp only [Prod.mk.injEq] at hvalues hfew hlater
  obtain ⟨hwaiting, hview, hcounter, hnone, htotal⟩ := hvalues
  have hfits : Fits s.router.app := ⟨by omega, by omega, by omega⟩
  obtain ⟨-, htold⟩ := reports_tell .default Batch.smallConfig productionClient
    productionClient_reliable Router.plainFramework Router.startLimiter plainFloats (fun _ => noFiles)
    seenRequests oneReport s t hs ht
  obtain ⟨counts, hread, hle, hge⟩ := htold .mojangRequests rfl
  have hlow := hge hwaiting (hview.trans hcounter.symm) hfits (by omega)
  exact ⟨s, t, counts, hs, ht, hread, by omega⟩

end Example
end MojangApi.Service
