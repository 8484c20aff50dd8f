import MojangApi.Lookup.Settled

/-! # Every lookup can be answered

A requester, its loader or the processor can always go on until every lookup has
returned, whether the queue is full, closed or draining, and all of them together
have only so many steps to take. Only a requester that leaves makes others start over.
-/

namespace MojangApi.Lookup
open MojangApi Library

variable {ρ : Type*}

/-- A step of a requester, a loader or the processor. Neither a new call nor a leaving
requester nor the clock is one. -/
def Event.isService : Event ρ → Bool
  | .enter _ | .reserve _ | .push _ | .sendError _ | .receive _ | .wake _ => true
  | .process e => e.isWork
  | _ => false

/-- All such steps but the tick, which may find nothing to flush. -/
def Event.isPaid : Event ρ → Bool
  | .process .tickBranch => false
  | e => e.isService

/-- Service in which every call that ends is answered with `outcome`. -/
def Event.Serves (outcome : ρ) : Event ρ → Prop
  | .process e => e.Answers outcome
  | e => e.isService = true

def SendPhase.cost : SendPhase → ℕ
  | .sending => 8
  | .granted => 7
  | .receiving => 0

/-- An upper bound on the steps that are left without a further call: a pushed lookup is
paid for by the work it makes for the processor, and a load by the loader's message. -/
def State.cost (s : State) : ℕ :=
  s.cache.cost 7 + (s.sends.map SendPhase.cost).sum + s.processor.work

theorem Event.Serves.isService {outcome : ρ} {e : Event ρ} (h : e.Serves outcome) :
    e.isService = true := by
  cases e with
  | process e => exact Batch.Event.Answers.isWork h
  | _ => exact h

section Costs
variable {expiry : Cache.OptionalValueExpiry} {config : Batch.BatchConfig}
  {service : Batch.MojangService ρ} {s t : State} {i : ℕ}

theorem cost_setSend (processor : Batch.State) {phase : SendPhase} (phase' : SendPhase)
    (hsend : s.sends[i]? = some phase) :
    ((s.setProcessor processor).setSend i phase').cost + phase.cost + s.processor.work =
      s.cost + phase'.cost + processor.work := by
  have hsum := sum_set SendPhase.cost hsend phase'
  simp only [State.cost, State.setSend, State.setProcessor]
  omega

/-- What the requesters and loaders do, they pay for. -/
theorem cost_lt_of_requester (hc : SingleFlight.Coherent expiry.ttlFor s.cache) {e : Event ρ}
    (he : e.isService = true) (hown : ∀ own, e ≠ .process own)
    (hm : Moves expiry config service s e t) : t.cost < s.cost := by
  cases hm with
  | enter hcache hloads =>
    rcases SingleFlight.enter_cost (n := 7) hcache with ⟨-, hlt⟩ | ⟨key, hloads', -⟩
    · change _ + _ + s.processor.work < _ + _ + s.processor.work
      exact Nat.add_lt_add_right (Nat.add_lt_add_right hlt _) _
    · rw [hloads] at hloads'
      exact absurd hloads' (by simp)
  | @load r cache key hcache hrunning hloads =>
    rcases SingleFlight.enter_cost (n := 7) hcache with ⟨hloads', -⟩ | ⟨-, -, hle⟩
    · rw [hloads] at hloads'
      exact absurd hloads' (by simp)
    · change cache.cost 7 + ((s.sends ++ [SendPhase.sending]).map SendPhase.cost).sum +
        s.processor.work < _ + _ + s.processor.work
      rw [List.map_append, List.sum_append]
      simp only [List.map_cons, List.map_nil, List.sum_singleton, SendPhase.cost]
      omega
  | @reserve i lookup processor hmessage hprocessor =>
    obtain ⟨-, hsend, -⟩ := message_eq_some hmessage
    have hsum := cost_setSend processor .granted hsend
    have hwork : processor.work = s.processor.work := by
      unfold Batch.State.reserve at hprocessor
      split at hprocessor <;> try contradiction
      split at hprocessor <;> try contradiction
      rename_i channel hchannel
      obtain rfl := Option.some.inj hprocessor
      simp only [Batch.State.work, (Channel.reserve_granted hchannel).2.1]
    simp only [SendPhase.cost] at hsum
    omega
  | @push i lookup processor hmessage hprocessor =>
    obtain ⟨-, hsend, -⟩ := message_eq_some hmessage
    have hsum := cost_setSend processor .receiving hsend
    obtain ⟨channel, hchannel, rfl⟩ := Option.map_eq_some_iff.mp hprocessor
    have hqueue := congrArg List.length (Channel.push_eq_some hchannel).2.1
    rw [List.length_append, List.length_singleton] at hqueue
    simp only [SendPhase.cost, Batch.State.work] at hsum
    omega
  | sendError _ _ hcache =>
    have hlt := SingleFlight.finish_cost (n := 7) hc hcache
    exact Nat.add_lt_add_right (Nat.add_lt_add_right hlt _) _
  | receive _ _ hcache =>
    have hlt := SingleFlight.finish_cost (n := 7) hc hcache
    exact Nat.add_lt_add_right (Nat.add_lt_add_right hlt _) _
  | wake hcache =>
    have hlt := SingleFlight.wake_cost (n := 7) hcache
    exact Nat.add_lt_add_right (Nat.add_lt_add_right hlt _) _
  | process => exact absurd rfl (hown _)
  | _ => cases he

/-- What the processor does is paid for, except for a tick in an idle loop. -/
theorem cost_lt_of_process {own : Batch.Event ρ} (he : own.isWork = true)
    (h : (system expiry config service).step s (.process own) = some t) :
    t.cost < s.cost ∨ own = .tickBranch ∧ t = s := by
  simp only [system, State.process, Option.ite_none_right_eq_some] at h
  obtain ⟨-, h⟩ := h
  obtain ⟨processor, hprocessor, rfl⟩ := Option.map_eq_some_iff.mp h
  rcases Batch.worked he hprocessor with hworked | ⟨htick, -, rfl⟩
  · exact .inl (Nat.add_lt_add_left hworked.work _)
  · exact .inr ⟨htick, rfl⟩

/-- Service lowers the cost, except for a tick in an idle loop. -/
theorem cost_lt (h : (system expiry config service).Reachable s) {e : Event ρ}
    (he : e.isService = true) (ht : (system expiry config service).step s e = some t) :
    t.cost < s.cost ∨ e = .process .tickBranch ∧ t = s := by
  cases e with
  | process own =>
    rcases cost_lt_of_process he ht with hlt | ⟨rfl, hsame⟩
    · exact .inl hlt
    · exact .inr ⟨rfl, hsame⟩
  | _ => exact .inl (cost_lt_of_requester (reachable_coherent h) he (by simp) (step_moves ht))

theorem cost_pays : Machine.Pays (system expiry config service)
    (system expiry config service).Reachable (fun e => e.isService = true) Event.isPaid
    State.cost where
  keeps s e t hs _ ht := hs.next ht
  le s e t hs he ht := by
    rcases cost_lt hs he ht with hlt | ⟨-, rfl⟩
    · exact Nat.le_of_lt hlt
    · exact Nat.le_refl _
  lt s e t hs he hpaid ht := by
    refine (cost_lt hs he ht).resolve_right ?_
    rintro ⟨rfl, -⟩
    cases hpaid

end Costs

section Liveness
variable {expiry : Cache.OptionalValueExpiry} {config : Batch.BatchConfig}
  {service : Batch.MojangService ρ} {s t : State} {i r : ℕ} {key : Str}

/-- Some service is possible, and brings the lookups nearer to their end. -/
def CanServe (expiry : Cache.OptionalValueExpiry) (config : Batch.BatchConfig)
    (service : Batch.MojangService ρ) (outcome : ρ) (s : State) : Prop :=
  ∃ e t, Event.Serves outcome e ∧ (system expiry config service).step s e = some t ∧
    t.cost < s.cost

/-- An enabled step of a requester or a loader. -/
theorem canServe_of_requester {outcome : ρ} (h : (system expiry config service).Reachable s)
    {e : Event ρ} (he : e.isService = true) (hown : ∀ own, e ≠ .process own)
    (ht : (system expiry config service).step s e = some t) :
    CanServe expiry config service outcome s := by
  refine ⟨e, t, ?_, ht, cost_lt_of_requester (reachable_coherent h) he hown (step_moves ht)⟩
  cases e with
  | process own => exact absurd rfl (hown own)
  | _ => exact he

/-- A processor that is not quiet goes on. -/
theorem canServe_of_busy (outcome : ρ) (h : (system expiry config service).Reachable s)
    (hquiet : ¬ s.processor.Quiet) : CanServe expiry config service outcome s := by
  have hreachable := processor_simulation.reachable h
  have hcan : Batch.CanWork config service outcome s.processor := Batch.canWork outcome
    (Batch.reachable_conserved hreachable) (Batch.reachable_limited hreachable) hquiet
  obtain ⟨own, processor, hanswers, hprocessor, hworked⟩ := hcan
  have hguard : (own.own && (settled s.cache || !own.isDropSenders)) = true := by
    have hwork := hanswers.isWork
    cases own <;> simp_all [Batch.Event.isWork, Batch.Event.own, Batch.Event.isDropSenders]
  have hstep : (system expiry config service).step s (.process own) =
      s.process config service own := rfl
  rw [State.process, if_pos hguard, hprocessor, Option.map_some] at hstep
  exact ⟨.process own, _, hanswers, hstep, Nat.add_lt_add_left hworked.work _⟩

theorem message_of_running {phase : SendPhase}
    (hload : s.cache.loads[i]? = some ⟨key, r, .running⟩) (hsend : s.sends[i]? = some phase) :
    s.message i phase = some ⟨key, i⟩ := by
  simp [State.message, hload, hsend]

/-- A slot that is held can be used. -/
theorem canServe_of_granted (outcome : ρ) (h : (system expiry config service).Reachable s)
    (hload : s.cache.loads[i]? = some ⟨key, r, .running⟩) (hsend : s.sends[i]? = some .granted) :
    CanServe expiry config service outcome s := by
  have hmem := (reachable_placed h).granted i key r hload hsend
  have hpush : (system expiry config service).step s (.push i) = s.push i := rfl
  rw [State.push, message_of_running hload hsend, Option.bind_some, Batch.State.push,
    Channel.push, dif_pos hmem, Option.map_some, Option.map_some] at hpush
  exact canServe_of_requester h rfl (by simp) hpush

theorem canServe_of_slot (outcome : ρ) (h : (system expiry config service).Reachable s)
    (hslots : s.processor.channel.granted ≠ []) : CanServe expiry config service outcome s := by
  obtain ⟨lookup, hmem⟩ := List.exists_mem_of_ne_nil _ hslots
  obtain ⟨⟨key, r, state⟩, hload, hrun⟩ := (reachable_placed h).slots lookup hmem
  obtain rfl : state = .running := hrun
  exact canServe_of_granted outcome h hload ((reachable_linked h).granted lookup hmem).1

/-- A quiet processor has an empty queue. -/
theorem queue_of_quiet (h : (system expiry config service).Reachable s)
    (hquiet : s.processor.Quiet) : s.processor.channel.queue = [] := by
  obtain ⟨-, hquiet⟩ := hquiet
  cases hpoint : s.processor.point with
  | selecting =>
    rw [hpoint] at hquiet
    exact (Channel.recv_pending hquiet.2.1).1
  | draining =>
    rw [hpoint] at hquiet
    exact (Channel.recv_pending hquiet).1
  | returned => exact ((reachable_conserved h).returned hpoint).1
  | _ =>
    rw [hpoint] at hquiet
    exact hquiet.elim

/-- A loader that has not got a slot yet gets one, or learns that there is none, as soon
as the queue has room. -/
theorem canServe_of_sending (outcome : ρ) (h : (system expiry config service).Reachable s)
    (hload : s.cache.loads[i]? = some ⟨key, r, .running⟩) (hsend : s.sends[i]? = some .sending) :
    CanServe expiry config service outcome s := by
  have hmessage := message_of_running hload hsend
  by_cases hclosed : s.processor.channel.closed = true
  · obtain ⟨cache, hcache⟩ := SingleFlight.finish_enabled (reachable_coherent h) hload
      (.error .transport)
    have hstep : (system expiry config service).step s (.sendError i) = s.sendError i := rfl
    rw [State.sendError, hmessage, Option.bind_some, if_pos hclosed, State.resolve, hcache,
      Option.map_some] at hstep
    exact canServe_of_requester h rfl (by simp) hstep
  · by_cases hroom : s.processor.channel.queue.length + s.processor.channel.granted.length <
        s.processor.channel.capacity
    · have hgone : s.processor.sendersGone = false := by
        by_contra hgone
        have hsettled := settled_of_sendersGone h (by simpa using hgone)
        exact (reachable_coherent h).no_load (settled_iff.mp hsettled) hload rfl
      have hfresh : i ∉ s.processor.issued := by
        intro hmem
        obtain ⟨phase, hphase, hne⟩ := (reachable_placed h).issued i hmem
        exact hne (Option.some.inj (hphase.symm.trans hsend))
      have hstep : (system expiry config service).step s (.reserve i) = s.reserve i := rfl
      rw [State.reserve, hmessage, Option.bind_some, Batch.State.reserve,
        if_neg (by simpa using ⟨hgone, hfresh⟩), Channel.reserve, if_neg hclosed, dif_pos hroom,
        Option.map_some] at hstep
      exact canServe_of_requester h rfl (by simp) hstep
    · by_cases hslots : s.processor.channel.granted = []
      · -- the queue itself is full, so that the processor has something to receive
        refine canServe_of_busy outcome h fun hquiet => hroom ?_
        have hcapacity := (Batch.reachable_limited (processor_simulation.reachable h)).capacity
        rw [queue_of_quiet h hquiet, hslots, hcapacity]
        exact config.queueCapacity_pos
      · exact canServe_of_slot outcome h hslots

/-- A loader that awaits its answer gets it, or its lookup is still on its way. -/
theorem canServe_of_receiving (outcome : ρ) (h : (system expiry config service).Reachable s)
    (hload : s.cache.loads[i]? = some ⟨key, r, .running⟩)
    (hsend : s.sends[i]? = some .receiving) : CanServe expiry config service outcome s := by
  have haccepted := (reachable_placed h).receiving i key r hload hsend
  by_cases hresolved : s.processor.isResolved ⟨key, i⟩ = true
  · have hfind : (s.processor.disposals.find? fun p => p.1 = i).isSome = true := by
      simpa [Batch.State.isResolved, List.find?_isSome] using hresolved
    obtain ⟨disposal, hdisposal⟩ := Option.isSome_iff_exists.mp hfind
    obtain ⟨cache, hcache⟩ := SingleFlight.finish_enabled (reachable_coherent h) hload
      disposal.2.received
    obtain ⟨t, ht⟩ : ∃ t, s.receive i = some t := by
      rw [State.receive, message_of_running hload hsend, Option.bind_some, hdisposal,
        Option.bind_some, State.resolve]
      exact ⟨_, Option.map_eq_some_iff.mpr ⟨cache, hcache, rfl⟩⟩
    exact canServe_of_requester (e := .receive i) h rfl (by simp) ht
  · by_cases hslots : s.processor.channel.granted = []
    · refine canServe_of_busy outcome h fun hquiet => ?_
      have hunresolved : ⟨key, i⟩ ∈ s.processor.unresolved :=
        List.mem_filter.mpr ⟨haccepted, by simpa using hresolved⟩
      rw [Batch.unresolved_of_quiet (reachable_conserved h) hslots hquiet] at hunresolved
      cases hunresolved
    · exact canServe_of_slot outcome h hslots

/-- As long as some requester waits, somebody can go on. -/
theorem canServe (outcome : ρ) (h : (system expiry config service).Reachable s)
    (hopen : settled s.cache = false) : CanServe expiry config service outcome s := by
  have hwaits : ∃ r : ℕ, ∃ c, s.cache.callers[r]? = some c ∧ ¬ c.Over := by
    by_contra hall
    push Not at hall
    exact absurd (settled_iff.mpr hall) (by simp [hopen])
  obtain ⟨r, c, hr, hover⟩ := hwaits
  rcases (reachable_coherent h).not_over hr hover with
    hentering | ⟨i, load, hwaiting, hload, hended⟩ | ⟨i, ⟨key, q, state⟩, hload, hrun⟩
  · obtain ⟨cache, hcache⟩ := SingleFlight.enter_enabled expiry.ttlFor hr hentering
    exact canServe_of_requester (e := .enter r) h rfl (by simp)
      (Option.map_eq_some_iff.mpr ⟨cache, hcache, rfl⟩)
  · obtain ⟨cache, hcache⟩ := SingleFlight.wake_enabled hr hwaiting hload hended
    exact canServe_of_requester (e := .wake r) h rfl (by simp)
      (Option.map_eq_some_iff.mpr ⟨cache, hcache, rfl⟩)
  · obtain rfl : state = .running := hrun
    have hlength := (List.getElem?_eq_some_iff.mp hload).1
    rw [← (reachable_linked h).sends] at hlength
    have hsend := List.getElem?_eq_getElem hlength
    cases hphase : s.sends[i] with
    | sending => exact canServe_of_sending outcome h hload (hphase ▸ hsend)
    | granted => exact canServe_of_granted outcome h hload (hphase ▸ hsend)
    | receiving => exact canServe_of_receiving outcome h hload (hphase ▸ hsend)

end Liveness

/-- Service drops no requester. -/
theorem stays_of_serves {expiry : Cache.OptionalValueExpiry} {config : Batch.BatchConfig}
    {service : Batch.MojangService ρ} {s t : State} {e : Event ρ} (he : e.isService = true)
    (h : (system expiry config service).step s e = some t) :
    SingleFlight.Stays s.cache t.cache := by
  have hstays := fun ce hstep hne =>
    SingleFlight.stays_step expiry.ttlFor (s := s.cache) (t := t.cache) (e := ce) hstep hne
  cases step_moves h with
  | @enter r cache hcache => exact hstays (.enter r) hcache (by simp)
  | @load r cache key hcache => exact hstays (.enter r) hcache (by simp)
  | @sendError i lookup cache _ _ hcache => exact hstays (.finish i _) hcache (by simp)
  | @receive i lookup disposal cache _ _ hcache => exact hstays (.finish i _) hcache (by simp)
  | @wake r cache hcache => exact hstays (.wake r) hcache (by simp)
  | reserve => exact SingleFlight.Stays.refl _
  | push => exact SingleFlight.Stays.refl _
  | process => exact SingleFlight.Stays.refl _
  | _ => cases he

/-- Whatever has happened before, the requesters, loaders and the processor can take only
`cost` further steps without a new call, and are never stuck before every lookup is over. So
each lookup that was not dropped returns, however upstream answers, and even when the queue
is full or closed or the processor has been told to stop. -/
theorem always_answerable (expiry : Cache.OptionalValueExpiry) (config : Batch.BatchConfig)
    (service : Batch.MojangService ρ) (s : State)
    (h : (system expiry config service).Reachable s) :
    (∀ es t, (∀ e ∈ es, Event.isService e = true) →
      (system expiry config service).runFrom s es = some t →
      es.countP Event.isPaid + t.cost ≤ s.cost) ∧
    (settled s.cache = false → ∀ outcome, ∃ e t, Event.Serves outcome e ∧
      (system expiry config service).step s e = some t ∧ t.cost < s.cost) ∧
    ∀ outcome, ∃ es t, (∀ e ∈ es, Event.Serves outcome e) ∧ es.length ≤ s.cost ∧
      (system expiry config service).runFrom s es = some t ∧
      ∀ (r : ℕ) c, s.cache.callers[r]? = some c → c.phase ≠ .dropped →
        ∃ c' result origin, t.cache.callers[r]? = some c' ∧ c'.key = c.key ∧
          c'.phase = .returned result origin := by
  refine ⟨fun es t hall hrun => cost_pays.countP_le h hall hrun,
    fun hopen outcome => canServe outcome h hopen, fun outcome => ?_⟩
  have hlive : ∀ u, ((system expiry config service).Reachable u ∧
      SingleFlight.Stays s.cache u.cache) → ¬ settled u.cache = true →
      ∃ e v, Event.Serves outcome e ∧ (system expiry config service).step u e = some v ∧
        ((system expiry config service).Reachable v ∧ SingleFlight.Stays s.cache v.cache) ∧
        v.cost < u.cost := by
    rintro u ⟨hu, hstays⟩ hopen
    obtain ⟨e, v, he, hv, hlt⟩ := canServe outcome hu (by simpa using hopen)
    exact ⟨e, v, he, hv, ⟨hu.next hv, hstays.trans (stays_of_serves he.isService hv)⟩, hlt⟩
  obtain ⟨es, t, hall, hrun, ⟨-, hstays⟩, hsettled, hlength⟩ :=
    Machine.exists_run hlive ⟨h, SingleFlight.Stays.refl s.cache⟩
  refine ⟨es, t, hall, hlength, hrun, fun r c hr hp => ?_⟩
  obtain ⟨c', hr', hkey, hp'⟩ := hstays r c hr hp
  obtain ⟨result, origin, hreturned⟩ := (settled_iff.mp hsettled r c' hr').resolve_right hp'
  exact ⟨c', result, origin, hr', hkey, hreturned⟩

/-- Two requesters share a load whose message is queued when the queue is closed. -/
def closedBefore : List (Event Unit) :=
  (soleLookup "steve".toList).take 4 ++ [.lookup "STEVE".toList, .enter 1,
    .process .firstTick, .process .signalShutdown, .process .shutdownBranch]

theorem always_answerable_closedBefore : ∃ s,
    (system .default Batch.smallConfig Batch.nobody).run closedBefore = some s ∧
    s.processor.channel.closed = true ∧ settled s.cache = false ∧
    ∃ es t, es.length ≤ s.cost ∧
      (system .default Batch.smallConfig Batch.nobody).runFrom s es = some t ∧
      ∃ c result origin, t.cache.callers[1]? = some c ∧ c.key = "steve".toList ∧
        c.phase = .returned result origin := by
  have hrun : ((system .default Batch.smallConfig Batch.nobody).run closedBefore).map (fun s =>
      (s.processor.channel.closed, settled s.cache, s.cache.callers[1]?)) =
        some (true, false, some ⟨"steve".toList, .waiting 0, 0, 0⟩) := by
    rfl
  obtain ⟨s, hs, hvalues⟩ := Option.map_eq_some_iff.mp hrun
  simp only [Prod.mk.injEq] at hvalues
  obtain ⟨hclosed, hopen, hcaller⟩ := hvalues
  obtain ⟨-, -, hanswers⟩ := always_answerable .default Batch.smallConfig Batch.nobody s
    (Machine.reachable_of_run hs)
  obtain ⟨es, t, -, hlength, hfrom, hreturned⟩ := hanswers ()
  obtain ⟨c, result, origin, hr, hkey, hp⟩ := hreturned 1 _ hcaller (by simp)
  exact ⟨s, hs, hclosed, hopen, es, t, hlength, hfrom, c, result, origin, hr, hkey, hp⟩

end MojangApi.Lookup
