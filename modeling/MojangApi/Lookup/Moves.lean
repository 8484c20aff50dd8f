import MojangApi.Library.SingleFlight.Counting
import MojangApi.Lookup.System

/-! # What one step of the lookup system can do

Each event moves the cache, the processor, or both. Seen alone, the cache runs
as a coalescing cache and the processor as a processor with some environment.
-/

namespace MojangApi.Lookup
open MojangApi Library

variable {ρ : Type*}

inductive Moves (expiry : Cache.OptionalValueExpiry) (config : Batch.BatchConfig)
    (service : Batch.MojangService ρ) (s : State) : Event ρ → State → Prop
  | lookup (name : Str) :
      Moves expiry config service s (.lookup name) { s with
        cache := s.cache.call (asciiLowercase name), requests := s.requests ++ [name] }
  | enter {r : ℕ} {cache : CacheState} (hcache : s.cache.enter expiry.ttlFor r = some cache)
      (hloads : cache.loads = s.cache.loads) :
      Moves expiry config service s (.enter r)
        ((s.setCache cache).countMetrics (countHit cache r s.processor.metrics))
  | load {r : ℕ} {cache : CacheState} {key : Str}
      (hcache : s.cache.enter expiry.ttlFor r = some cache)
      (hrunning : s.cache.running key = none)
      (hloads : cache.loads = s.cache.loads ++ [⟨key, r, .running⟩]) :
      Moves expiry config service s (.enter r) { s.setCache cache with
        sends := s.sends ++ [.sending]
        processor := s.processor.count s.processor.metrics.incrementUuidCacheMisses }
  | reserve {i : ℕ} {lookup : Batch.PendingLookup} {processor : Batch.State}
      (hmessage : s.message i .sending = some lookup)
      (hprocessor : s.processor.reserve lookup = some processor) :
      Moves expiry config service s (.reserve i) ((s.setProcessor processor).setSend i .granted)
  | push {i : ℕ} {lookup : Batch.PendingLookup} {processor : Batch.State}
      (hmessage : s.message i .granted = some lookup)
      (hprocessor : s.processor.push lookup = some processor) :
      Moves expiry config service s (.push i) ((s.setProcessor processor).setSend i .receiving)
  | sendError {i : ℕ} {lookup : Batch.PendingLookup} {cache : CacheState}
      (hmessage : s.message i .sending = some lookup) (hclosed : s.processor.channel.closed = true)
      (hcache : s.cache.finish i (.error .transport) = some cache) :
      Moves expiry config service s (.sendError i) (s.setCache cache)
  | receive {i : ℕ} {lookup : Batch.PendingLookup} {disposal : Batch.Disposal}
      {cache : CacheState} (hmessage : s.message i .receiving = some lookup)
      (hdisposal : (i, disposal) ∈ s.processor.disposals)
      (hcache : s.cache.finish i disposal.received = some cache) :
      Moves expiry config service s (.receive i)
        ((s.setCache cache).setProcessor (s.processor.dropReceiver i))
  | wake {r : ℕ} {cache : CacheState} (hcache : s.cache.wake r = some cache) :
      Moves expiry config service s (.wake r)
        ((s.setCache cache).countMetrics (countHit cache r s.processor.metrics))
  | drop {r : ℕ} {cache : CacheState} (hcache : s.cache.drop r = some cache)
      (hloads : cache.loads = s.cache.loads) :
      Moves expiry config service s (.drop r) (s.setCache cache)
  | abandon {r i : ℕ} {key : Str} {cache : CacheState} {processor : Batch.State}
      (hcache : s.cache.drop r = some cache)
      (hloads : cache.loads = s.cache.loads.set i ⟨key, r, .abandoned⟩)
      (hphase : ∃ caller, s.cache.callers[r]? = some caller ∧ caller.phase = .loading i ∧
        caller.key = key)
      (hprocessor : s.sends[i]? = some .sending ∧ processor = s.processor ∨
        s.sends[i]? = some .granted ∧ s.processor.revoke ⟨key, i⟩ = some processor ∨
        s.sends[i]? = some .receiving ∧ processor = s.processor.dropReceiver i) :
      Moves expiry config service s (.drop r) ((s.setCache cache).setProcessor processor)
  | elapse (d : ℕ) : Moves expiry config service s (.elapse d) (s.setCache (s.cache.elapse d))
  | evict (name : Str) :
      Moves expiry config service s (.evict name) (s.setCache (s.cache.evict name))
  | process {e : Batch.Event ρ} {processor : Batch.State} (hown : e.own = true)
      (hprocessor : (Batch.processor config service).step s.processor e = some processor) :
      Moves expiry config service s (.process e) (s.setProcessor processor)
  | count (metrics : Metrics) :
      Moves expiry config service s (.count metrics) (s.countMetrics metrics)

section Steps
variable {expiry : Cache.OptionalValueExpiry} {config : Batch.BatchConfig}
  {service : Batch.MojangService ρ} {s t : State}

theorem message_eq_some {i : ℕ} {phase : SendPhase} {lookup : Batch.PendingLookup}
    (h : s.message i phase = some lookup) : lookup.response = i ∧ s.sends[i]? = some phase ∧
      ∃ r, s.cache.loads[i]? = some ⟨lookup.name, r, .running⟩ := by
  unfold State.message at h
  split at h <;> try contradiction
  rename_i key r phase' hload hsend
  split at h <;> try contradiction
  rename_i hphase
  obtain rfl := Option.some.inj h
  subst hphase
  exact ⟨rfl, hsend, r, hload⟩

theorem lookup_eq_some {name : Str} (h : s.lookup name = some t) : t = { s with
    cache := s.cache.call (asciiLowercase name), requests := s.requests ++ [name] } := by
  simp only [State.lookup, Option.ite_none_left_eq_some, Option.some.injEq] at h
  exact h.2.symm

theorem moves_of_enter {r : ℕ} (h : s.enter expiry r = some t) :
    Moves expiry config service s (.enter r) t := by
  obtain ⟨cache, hcache, rfl⟩ := Option.map_eq_some_iff.mp h
  obtain ⟨c, -, -, ⟨e, -, rfl⟩ | ⟨i, -, rfl⟩ | ⟨-, hrunning, rfl⟩⟩ :=
    SingleFlight.enter_cases hcache
  · rw [if_pos (by simp)]
    exact .enter hcache rfl
  · rw [if_pos (by simp)]
    exact .enter hcache rfl
  · rw [if_neg (by simp)]
    exact .load hcache hrunning rfl

/-- The owner of a load gets a fresh value, so that it counts no hit. -/
theorem resolve_eq_some {i : ℕ} {result : Batch.LookupResult} (h : s.resolve i result = some t) :
    ∃ cache, s.cache.finish i result = some cache ∧ t = s.setCache cache := by
  obtain ⟨cache, hcache, rfl⟩ := Option.map_eq_some_iff.mp h
  refine ⟨cache, hcache, ?_⟩
  obtain ⟨k, r, -, hload, -⟩ := SingleFlight.finish_cases hcache
  simp only [hload, Option.elim_some, countHit, SingleFlight.finish_served hcache hload]
  rfl

theorem moves_of_receive {i : ℕ} (h : s.receive i = some t) :
    Moves expiry config service s (.receive i) t := by
  obtain ⟨lookup, hmessage, h⟩ := Option.bind_eq_some_iff.mp h
  obtain ⟨⟨r, disposal⟩, hfind, h⟩ := Option.bind_eq_some_iff.mp h
  obtain ⟨cache, hcache, rfl⟩ := resolve_eq_some h
  have hr : r = i := by simpa using List.find?_some hfind
  subst hr
  exact .receive hmessage (List.mem_of_find?_eq_some hfind) hcache

theorem moves_of_abandon {r i : ℕ} {key : Str} {cache : CacheState}
    (hcache : s.cache.drop r = some cache)
    (hloads : cache.loads = s.cache.loads.set i ⟨key, r, .abandoned⟩)
    (hphase : ∃ caller, s.cache.callers[r]? = some caller ∧ caller.phase = .loading i ∧
      caller.key = key) (h : (s.setCache cache).abandon i key = some t) :
    Moves expiry config service s (.drop r) t := by
  unfold State.abandon at h
  split at h <;> try contradiction
  · rename_i hsend
    exact Option.some.inj h ▸ .abandon hcache hloads hphase (.inl ⟨hsend, rfl⟩)
  · rename_i hsend
    obtain ⟨processor, hprocessor, rfl⟩ := Option.map_eq_some_iff.mp h
    exact .abandon hcache hloads hphase (.inr (.inl ⟨hsend, hprocessor⟩))
  · rename_i hsend
    exact Option.some.inj h ▸ .abandon hcache hloads hphase (.inr (.inr ⟨hsend, rfl⟩))

theorem moves_of_drop {r : ℕ} (h : s.drop r = some t) :
    Moves expiry config service s (.drop r) t := by
  obtain ⟨cache, hcache, h⟩ := Option.bind_eq_some_iff.mp h
  obtain ⟨caller, hcaller, ⟨hphase, rfl⟩ | ⟨i, hphase, rfl⟩⟩ := SingleFlight.drop_cases hcache
  · rw [hcaller] at h
    obtain ⟨key, phase, loads, reads⟩ := caller
    have ht : some (s.setCache (s.cache.setPhase r ⟨key, phase, loads, reads⟩ .dropped)) =
        some t := by
      rcases hphase with hphase | ⟨i, hphase⟩ <;> subst hphase <;> exact h
    exact Option.some.inj ht ▸ .drop hcache rfl
  · rw [hcaller] at h
    obtain ⟨key, phase, loads, reads⟩ := caller
    subst hphase
    refine moves_of_abandon hcache rfl ⟨_, hcaller, rfl, rfl⟩ h

theorem step_moves {e : Event ρ} (h : (system expiry config service).step s e = some t) :
    Moves expiry config service s e t := by
  cases e with
  | lookup name =>
    obtain rfl := lookup_eq_some h
    exact .lookup name
  | enter r => exact moves_of_enter h
  | reserve i =>
    obtain ⟨lookup, hmessage, h⟩ := Option.bind_eq_some_iff.mp h
    obtain ⟨processor, hprocessor, rfl⟩ := Option.map_eq_some_iff.mp h
    exact .reserve hmessage hprocessor
  | push i =>
    obtain ⟨lookup, hmessage, h⟩ := Option.bind_eq_some_iff.mp h
    obtain ⟨processor, hprocessor, rfl⟩ := Option.map_eq_some_iff.mp h
    exact .push hmessage hprocessor
  | sendError i =>
    obtain ⟨lookup, hmessage, h⟩ := Option.bind_eq_some_iff.mp h
    rw [Option.ite_none_right_eq_some] at h
    obtain ⟨hclosed, h⟩ := h
    obtain ⟨cache, hcache, rfl⟩ := resolve_eq_some h
    exact .sendError hmessage hclosed hcache
  | receive i => exact moves_of_receive h
  | wake r =>
    obtain ⟨cache, hcache, rfl⟩ := Option.map_eq_some_iff.mp h
    exact .wake hcache
  | drop r => exact moves_of_drop h
  | elapse d => exact Option.some.inj h ▸ .elapse d
  | evict name => exact Option.some.inj h ▸ .evict name
  | process e =>
    simp only [system, State.process, Option.ite_none_right_eq_some, Bool.and_eq_true] at h
    obtain ⟨⟨hown, -⟩, h⟩ := h
    obtain ⟨processor, hprocessor, rfl⟩ := Option.map_eq_some_iff.mp h
    exact .process hown hprocessor
  | count metrics => exact Option.some.inj h ▸ .count metrics

/-- A step moves the cache by one of its own events, or not at all. -/
theorem cache_step {e : Event ρ} (h : (system expiry config service).step s e = some t) :
    t.cache = s.cache ∨
      ∃ ce, (SingleFlight.machine expiry.ttlFor).step s.cache ce = some t.cache := by
  cases step_moves h with
  | lookup name => exact .inr ⟨.call (asciiLowercase name), rfl⟩
  | @enter r cache hcache => exact .inr ⟨.enter r, hcache⟩
  | @load r cache key hcache => exact .inr ⟨.enter r, hcache⟩
  | reserve => exact .inl rfl
  | push => exact .inl rfl
  | @sendError i lookup cache _ _ hcache => exact .inr ⟨.finish i _, hcache⟩
  | @receive i lookup disposal cache _ _ hcache => exact .inr ⟨.finish i _, hcache⟩
  | @wake r cache hcache => exact .inr ⟨.wake r, hcache⟩
  | @drop r cache hcache => exact .inr ⟨.drop r, hcache⟩
  | @abandon r i key cache processor hcache => exact .inr ⟨.drop r, hcache⟩
  | elapse d => exact .inr ⟨.elapse d, rfl⟩
  | evict name => exact .inr ⟨.evict name, rfl⟩
  | process => exact .inl rfl
  | count => exact .inl rfl

/-- The cache alone is a coalescing cache. -/
theorem cache_simulation : Machine.Simulation (system expiry config service)
    (SingleFlight.machine expiry.ttlFor) State.cache where
  init := rfl
  step s e t h := by
    rcases cache_step h with hsame | ⟨ce, hstep⟩
    · rw [hsame]
      exact Machine.leads_refl _
    · exact Machine.leads_step hstep

/-- A step moves the processor by one event, or not at all. -/
theorem processor_step {e : Event ρ} (h : (system expiry config service).step s e = some t) :
    t.processor = s.processor ∨ ∃ pe, (pe.own = true → e = .process pe) ∧
      (Batch.processor config service).step s.processor pe = some t.processor := by
  cases step_moves h with
  | lookup | sendError | drop | elapse | evict => exact .inl rfl
  | enter | load | wake => exact .inr ⟨.count _, Bool.noConfusion, rfl⟩
  | reserve _ hprocessor => exact .inr ⟨.reserve _, Bool.noConfusion, hprocessor⟩
  | push _ hprocessor => exact .inr ⟨.push _, Bool.noConfusion, hprocessor⟩
  | @receive i => exact .inr ⟨.dropReceiver i, Bool.noConfusion, rfl⟩
  | @abandon r i key cache processor _ _ _ hprocessor =>
    rcases hprocessor with ⟨-, rfl⟩ | ⟨-, hrevoke⟩ | ⟨-, rfl⟩
    · exact .inl rfl
    · exact .inr ⟨.revoke _, Bool.noConfusion, hrevoke⟩
    · exact .inr ⟨.dropReceiver i, Bool.noConfusion, rfl⟩
  | process _ hprocessor => exact .inr ⟨_, fun _ => rfl, hprocessor⟩
  | count metrics => exact .inr ⟨.count metrics, Bool.noConfusion, rfl⟩

/-- The processor alone is the batch processor in an environment of senders. -/
theorem processor_simulation : Machine.Simulation (system expiry config service)
    (Batch.processor config service) State.processor where
  init := rfl
  step s e t h := by
    rcases processor_step h with hsame | ⟨pe, -, hstep⟩
    · rw [hsame]
      exact Machine.leads_refl _
    · exact Machine.leads_step hstep

theorem reachable_coherent (h : (system expiry config service).Reachable s) :
    SingleFlight.Coherent expiry.ttlFor s.cache :=
  SingleFlight.reachable_coherent (cache_simulation.reachable h)

theorem reachable_conserved (h : (system expiry config service).Reachable s) :
    Batch.Conserved s.processor :=
  Batch.reachable_conserved (processor_simulation.reachable h)

end Steps
end MojangApi.Lookup
