import MojangApi.App.Upstream
import MojangApi.Router.Budget
import Mathlib.Algebra.Order.BigOperators.Group.List

/-! # What the limiter lets through to Mojang

Every name and every skin that is asked for upstream was asked for by a visit of its own,
so that the clients' budgets bound the load. A check whose reading of the clock is late can
open a window early, by no more than it is late.
-/

namespace MojangApi.Router
open MojangApi Library App RateLimit Mojang

section Clients
variable {α κ : Type*} [DecidableEq κ]

/-- The elements that satisfy a predicate, counted for each of their keys. -/
theorem countP_le_sum (l : List α) (f : α → κ) (p : α → Bool) {keys : List κ}
    (hkeys : ∀ a ∈ l, f a ∈ keys) :
    l.countP p ≤ (keys.map fun k => l.countP fun a => f a == k && p a).sum := by
  induction l with
  | nil => exact Nat.zero_le _
  | cons a l ih =>
    have hrest := ih fun b hb => hkeys b (List.mem_cons_of_mem _ hb)
    have hsplit : (keys.map fun k => (a :: l).countP fun a => f a == k && p a).sum =
        (keys.map fun k => l.countP fun a => f a == k && p a).sum +
          (keys.map fun k => if f a == k && p a then 1 else 0).sum := by
      rw [← List.sum_map_add]
      simp only [List.countP_cons]
    rw [hsplit, List.countP_cons]
    by_cases hp : p a = true
    · have hmem : 1 ∈ keys.map fun k => if f a == k && p a then 1 else 0 :=
        List.mem_map.mpr ⟨f a, hkeys a List.mem_cons_self, by simp [hp]⟩
      have hone := List.le_sum_of_mem hmem
      rw [if_pos hp]
      omega
    · rw [if_neg hp]
      omega

end Clients

variable {U : Type} {expiry : Cache.OptionalValueExpiry} {config : Batch.BatchConfig}
  {client : MojangHttpClient U} {framework : Framework} {limiter : RateLimiter} {s t : State}
  {es : List Event} {e : Event}

def Handling.isDenied : Handling → Bool
  | .denied => true
  | _ => false

/-- Whether a client was let in with this visit. -/
def Visit.letIn (framework : Framework) (key : IpAddr) (visit : Visit) : Bool :=
  clientKey framework.parse visit.request.toRequest == key && !visit.handling.isDenied

theorem letIn_visit (key : IpAddr) (arrival : Arrival) :
    Visit.letIn framework key (s.visit framework arrival) =
      (clientKey framework.parse arrival.request.toRequest == key &&
        admits framework.parse framework.hash s.limiter arrival.request.toRequest
          arrival.arrived) := by
  rw [Visit.letIn, State.visit]
  cases admits framework.parse framework.hash s.limiter arrival.request.toRequest
    arrival.arrived <;> rfl

/-- Handling a visit does not change who was let in. -/
theorem letIn_handle {j : ℕ} {visit : Visit} (hj : s.visits[j]? = some visit)
    (hadmitted : visit.handling = .admitted) {handling : Handling} (hhandling : handling ≠ .denied)
    (key : IpAddr) :
    (s.visits.set j { visit with handling := handling }).countP (Visit.letIn framework key) =
      s.visits.countP (Visit.letIn framework key) := by
  have hsame : Visit.letIn framework key { visit with handling := handling } =
      Visit.letIn framework key visit := by
    rw [Visit.letIn, Visit.letIn, hadmitted]
    cases handling <;> simp_all [Handling.isDenied]
  obtain ⟨hlt, rfl⟩ := List.getElem?_eq_some_iff.mp hj
  have hle : (if Visit.letIn framework key s.visits[j] then 1 else 0) ≤
      s.visits.countP (Visit.letIn framework key) := by
    split
    · exact List.countP_pos_iff.mpr ⟨_, List.getElem_mem hlt, ‹_›⟩
    · exact Nat.zero_le _
  rw [List.countP_set hlt, hsame, Nat.sub_add_cancel hle]

/-- No check came later after its reading of the clock. -/
def Prompt (late : ℕ) (s : State) : Prop := ∀ visit ∈ s.visits, visit.checked ≤ visit.arrived + late

/-- What clients were let in with is paced. -/
def LetInPaced (framework : Framework) (late : ℕ) (s : State) : Prop :=
  ∀ key, Paced framework.hash s.limiter key late s.now (s.visits.countP (Visit.letIn framework key))

section Pacing
variable {late : ℕ}

/-- Checks are not forgotten. -/
theorem prompt_before (h : (system expiry config client framework limiter).step s e = some t)
    (ht : Prompt late t) : Prompt late s := by
  intro visit hmem
  cases step_moves h with
  | receive | app => exact ht visit hmem
  | check => exact ht visit (List.mem_append_left _ hmem)
  | @dispatch j routed after hj hadmitted hafter =>
    obtain ⟨i, hi⟩ := List.mem_iff_getElem?.mp hmem
    by_cases hij : j = i
    · subst hij
      obtain rfl := Option.some.inj (hj.symm.trans hi)
      exact ht { routed with handling := (s.handling framework routed).2 }
        (List.mem_of_getElem? (by rw [getElem?_set_some hj, if_pos rfl]))
    · exact ht visit (List.mem_of_getElem? (by rw [getElem?_set_some hj, if_neg hij]; exact hi))

theorem LetInPaced.check (h : LetInPaced framework late s) (hchecked : Checked framework limiter s)
    (hcharged : Charged framework.hash s.limiter) (hshort : late < s.limiter.window) {i : ℕ}
    {arrival : Arrival} (hi : s.arriving[i]? = some arrival)
    (hlate : s.now ≤ arrival.arrived + late) :
    LetInPaced framework late { s with
      limiter := (s.limiter.check framework.hash
        (clientKey framework.parse arrival.request.toRequest) arrival.arrived).1
      arriving := s.arriving.eraseIdx i
      visits := s.visits ++ [s.visit framework arrival] } := by
  intro key
  have hread := hchecked.arriving arrival (List.mem_of_getElem? hi)
  change Paced framework.hash _ key late s.now _
  rw [List.countP_append, List.countP_singleton, letIn_visit]
  by_cases hkey : clientKey framework.parse arrival.request.toRequest = key
  · have hown := (h key).own hcharged (Nat.le_refl s.now) hread hlate
    simpa [admits, hkey] using hown
  · have hother := (h key).other hcharged hshort (Nat.le_refl s.now) hread hkey
    simpa [hkey] using hother

/-- In every run whose checks come soon after their readings. -/
theorem reachable_paced {start : ℕ} (hnew : ∀ i,
      limiter.shards i = { clients := HashMap.empty, lastCleanup := start })
    (hshort : late < limiter.window)
    (h : (system expiry config client framework limiter).Reachable s) (hprompt : Prompt late s) :
    LetInPaced framework late s := by
  revert hprompt
  refine h.invariant (I := fun s => Prompt late s → LetInPaced framework late s) ?_ ?_
  · intro _ key
    exact .idle 0 (client_new hnew key) (Nat.zero_le _) (by simp)
  · intro u e v hu hpaced hv hprompt
    have hbefore := hpaced (prompt_before hv hprompt)
    have hnow := now_step hv
    have hchecked := reachable_checked hu
    have hserved := hchecked.served
    rw [serves_eq] at hserved
    cases step_moves hv with
    | receive => exact hbefore
    | check hi =>
      refine hbefore.check hchecked ?_ ?_ hi ?_
      · rw [hserved]
        exact (charged_new hnew).checks _
      · rwa [hserved, checks_window]
      · exact hprompt _ (List.mem_append_right _ (List.mem_singleton_self _))
    | @dispatch j visit after hj hadmitted _ =>
      intro key
      have hlater := (hbefore key).later hnow
      rwa [← letIn_handle hj hadmitted
        (handle_ne_denied u.app (framework.matchRoute routes visit.request))] at hlater
    | app => exact fun key => (hbefore key).later hnow

end Pacing

/-- The addresses that visits were counted under. -/
def State.clients (s : State) (framework : Framework) : List IpAddr :=
  (s.visits.map fun visit => clientKey framework.parse visit.request.toRequest).dedup

theorem letIn_le {start late : ℕ} (hnew : ∀ i,
      limiter.shards i = { clients := HashMap.empty, lastCleanup := start })
    (hshort : late < limiter.window)
    (h : (system expiry config client framework limiter).Reachable s) (hprompt : Prompt late s)
    (key : IpAddr) : s.visits.countP (Visit.letIn framework key) ≤
      limiter.limit * (s.now / (limiter.window - late) + 1) := by
  have hserved := (reachable_checked h).served
  rw [serves_eq] at hserved
  have hpaced := reachable_paced hnew hshort h hprompt key
  have hcharged := (@charged_new framework.hash limiter start hnew).checks
    (counted framework.parse s.history)
  rw [← hserved] at hcharged
  have hle := hpaced.le hcharged (by rwa [hserved, checks_window])
  rwa [hserved, checks_limit, checks_window] at hle

theorem load_le {start : ℕ} (hlimiter : buildRouter start = .ok limiter) {es : List Event}
    (hrun : (system expiry config client framework limiter).run es = some s) {late : ℕ}
    (hshort : late < Duration.fromMins 1) (hprompt : Prompt late s) :
    (s.app.lookup.processor.calls.map List.length).sum + s.app.skins.loads.length ≤
      (s.clients framework).length * (1000 * (s.now / (Duration.fromMins 1 - late) + 1)) := by
  obtain ⟨limiter', hnew, hfields, -, -⟩ := buildRouter_ok start
  obtain rfl := Except.ok.inj (hlimiter.symm.trans hnew)
  have hreachable := Machine.reachable_of_run hrun
  have hnames := names_le (app_run hrun)
  have hskins := skins_le (app_run hrun)
  have hrouted := (routed_run hrun).calls
  have hvalid := List.length_filter_le isValidMinecraftUsername
    (nameTexts (appTrace expiry config client framework limiter es))
  have hparsed := List.length_filterMap_le (parseMinecraftUuid client.libraries.parseStr)
    (uuidTexts (appTrace expiry config client framework limiter es))
  have hletIn : (s.visits.countP fun visit => visit.handling.isLookup) ≤
      s.visits.countP fun visit => !visit.handling.isDenied := by
    refine List.countP_mono_left fun visit _ hlookup => ?_
    cases hhandling : visit.handling <;> simp_all [Handling.isLookup, Handling.isDenied]
  have hclients : (s.visits.countP fun visit => !visit.handling.isDenied) ≤
      ((s.clients framework).map fun key => s.visits.countP (Visit.letIn framework key)).sum :=
    countP_le_sum s.visits (fun visit => clientKey framework.parse visit.request.toRequest) _
      fun visit hmem => List.mem_dedup.mpr (List.mem_map_of_mem hmem)
  rw [← hfields.2.1] at hshort
  have hbudgets := sum_le_mul_length (l := s.clients framework)
    fun key _ => letIn_le hfields.2.2 hshort hreachable hprompt key
  have hthousand : limiter.limit.val = 1000 := congrArg Fin.val hfields.1
  rw [hthousand, hfields.2.1, Nat.mul_comm] at hbudgets
  omega

/-- In every run whose checks come less than a minute after their readings of the clock: all the
names and skins that are asked of Mojang, from the start on, are no more than a thousand for each
client and each minute, begun or not, where a minute is as much shorter as a check may be late. -/
theorem upstream_load {U : Type} (expiry : Cache.OptionalValueExpiry) (config : Batch.BatchConfig)
    (client : MojangHttpClient U) (framework : Framework) (start : ℕ) :
    ∃ limiter, buildRouter start = .ok limiter ∧ ∀ (es : List Event) (s : State),
      (system expiry config client framework limiter).run es = some s →
        ∀ late < Duration.fromMins 1, Prompt late s →
          (s.app.lookup.processor.calls.map List.length).sum + s.app.skins.loads.length ≤
            (s.clients framework).length *
              (1000 * (s.now / (Duration.fromMins 1 - late) + 1)) := by
  obtain ⟨limiter, hnew, -⟩ := buildRouter_ok start
  exact ⟨limiter, hnew, fun es s hrun late hshort hprompt => load_le hnew hrun hshort hprompt⟩

/-- Requests whose addresses are not known count as one client's. The second waits for a second
before it is checked. -/
def anonymousRequests : List Event :=
  [.receive (plainGet "/mojang/uuid/Steve"), .check 0, .dispatch 0,
    .receive (plainGet "/mojang/skin/b1ae07784817436c96a3a72c67cda060"),
    .app (.elapse (Duration.fromSecs 1)), .check 0, .dispatch 1, .app (.enterSkin 0)]

theorem upstream_load_anonymous : ∃ s, buildRouter 0 = .ok startLimiter ∧
    (system .default Batch.smallConfig productionClient plainFramework startLimiter).run
      anonymousRequests = some s ∧ s.app.skins.loads.length = 1 ∧
    (s.app.lookup.processor.calls.map List.length).sum + s.app.skins.loads.length ≤ 1000 := by
  obtain ⟨limiter, hnew, h⟩ :=
    upstream_load .default Batch.smallConfig productionClient plainFramework 0
  obtain rfl : startLimiter = limiter := Except.ok.inj hnew
  have hrun : ((system .default Batch.smallConfig productionClient plainFramework startLimiter).run
      anonymousRequests).map (fun s => (s.now, (s.clients plainFramework).length,
        s.app.skins.loads.length, s.visits.map fun visit => (visit.arrived, visit.checked))) =
      some (Duration.fromSecs 1, 1, 1, [(0, 0), (0, Duration.fromSecs 1)]) := by decide +kernel
  obtain ⟨s, hs, hvalues⟩ := Option.map_eq_some_iff.mp hrun
  obtain ⟨hnow, hclients, hloads, htimes⟩ := by simpa only [Prod.mk.injEq] using hvalues
  have hprompt : Prompt (Duration.fromSecs 1) s := by
    intro visit hmem
    have htime := List.mem_map_of_mem (f := fun visit => (visit.arrived, visit.checked)) hmem
    simp only [htimes, List.mem_cons, Prod.mk.injEq, List.not_mem_nil, or_false] at htime
    omega
  have hbound := h anonymousRequests s hs (Duration.fromSecs 1) (by decide) hprompt
  rw [hnow, hclients] at hbound
  exact ⟨s, hnew, hs, hloads, hbound⟩

end MojangApi.Router
