import MojangApi.Batch.Tally
import MojangApi.Lookup.Linked

/-! # What lookups count

A load is a miss, a read is a hit, and the rest is counted by the batch tasks.
No more usernames are asked for than loads were started, since every accepted
lookup is the message of a load of its own.
-/

namespace MojangApi.Lookup
open MojangApi Library

variable {ρ : Type*}

/-- What the callers of the name cache have counted so far. -/
def cacheTotal (cache : CacheState) : Counter → ℕ
  | .uuidCacheHits => cache.reads
  | .uuidCacheMisses => cache.loads.length
  | _ => 0

def State.total (s : State) (c : Counter) : ℕ := cacheTotal s.cache c + s.processor.total c

theorem total_call (s : State) (name : Str) (c : Counter) : State.total { s with
    cache := s.cache.call (asciiLowercase name), requests := s.requests ++ [name] } c =
      s.total c := by
  cases c with
  | uuidCacheHits => exact congrArg (· + _) (SingleFlight.call_reads _)
  | _ => rfl

section Moves
variable {expiry : Cache.OptionalValueExpiry} {config : Batch.BatchConfig}
  {service : Batch.MojangService ρ} {s t : State} {e : Event ρ} {base : Counter → ℕ}

/-- A caller that may have read a value counts a hit if it has. -/
theorem follows_countHit {cache : CacheState} {r : ℕ}
    (h : s.processor.metrics.Follows fun c => base c + s.total c)
    (hreads : cache.reads = s.cache.reads + if cache.servedFromCache r then 1 else 0)
    (hloads : cache.loads = s.cache.loads) :
    (countHit cache r s.processor.metrics).Follows fun c =>
      base c + (cacheTotal cache c + s.processor.total c) := by
  apply (h.addIf (cache.servedFromCache r) .uuidCacheHits).congr
  intro c
  cases c <;> simp [State.total, cacheTotal, hloads, hreads, Nat.add_assoc, Nat.add_comm]

/-- A step that counts nothing adds nothing to the totals. -/
theorem follows_keep {cache : CacheState} {metrics : Metrics}
    (h : metrics.Follows fun c => base c + s.total c) (hreads : cache.reads = s.cache.reads)
    (hloads : cache.loads.length = s.cache.loads.length) :
    metrics.Follows fun c => base c + (cacheTotal cache c + s.processor.total c) := by
  apply h.congr
  intro c
  cases c <;> simp [State.total, cacheTotal, hreads, hloads]

/-- The counters keep up with the lookups. A step that counts on behalf of others is left
to them. -/
theorem follows_moves (ha : Batch.Accounts service)
    (h : s.processor.metrics.Follows fun c => base c + s.total c) (hne : ∀ metrics, e ≠ .count metrics)
    (hm : Moves expiry config service s e t) :
    t.processor.metrics.Follows fun c => base c + t.total c := by
  cases hm with
  | count metrics => exact absurd rfl (hne metrics)
  | lookup name => exact h.congr fun c => congrArg (base c + ·) (total_call s name c)
  | enter hcache hloads => exact follows_countHit h (SingleFlight.enter_reads hcache) hloads
  | @load r cache key hcache _ hloads =>
    have hserved : cache.servedFromCache r = false := by
      rcases SingleFlight.enter_loads hcache with hsame | ⟨-, -, hserved⟩
      · simp [hsame] at hloads
      · exact hserved
    have hreads := SingleFlight.enter_reads hcache
    apply (h.add .uuidCacheMisses 1).congr
    intro c
    cases c <;>
      simp [State.total, cacheTotal, State.setCache, Batch.State.count, Batch.State.total, hloads,
        hreads, hserved, Nat.add_comm, Nat.add_left_comm]
  | reserve _ hprocessor =>
    unfold Batch.State.reserve at hprocessor
    split at hprocessor <;> try contradiction
    split at hprocessor <;> try contradiction
    obtain rfl := Option.some.inj hprocessor
    exact h
  | push _ hprocessor =>
    obtain ⟨channel, -, rfl⟩ := Option.map_eq_some_iff.mp hprocessor
    exact h
  | sendError _ _ hcache =>
    obtain ⟨k, r, -, hloads⟩ := SingleFlight.finish_loads hcache
    have hkeep := follows_keep h (SingleFlight.finish_reads hcache)
      ((congrArg List.length hloads).trans List.length_set)
    exact hkeep
  | receive _ _ hcache =>
    obtain ⟨k, r, -, hloads⟩ := SingleFlight.finish_loads hcache
    have hkeep := follows_keep h (SingleFlight.finish_reads hcache)
      ((congrArg List.length hloads).trans List.length_set)
    exact hkeep
  | wake hcache =>
    exact follows_countHit h (SingleFlight.wake_reads hcache) (SingleFlight.wake_loads hcache)
  | drop hcache hloads =>
    have hkeep := follows_keep h (SingleFlight.drop_reads hcache) (congrArg List.length hloads)
    exact hkeep
  | abandon hcache hloads _ hprocessor =>
    have hkeep := follows_keep h (SingleFlight.drop_reads hcache)
      ((congrArg List.length hloads).trans List.length_set)
    rcases hprocessor with ⟨-, rfl⟩ | ⟨-, hrevoke⟩ | ⟨-, rfl⟩
    · exact hkeep
    · obtain ⟨channel, -, rfl⟩ := Option.map_eq_some_iff.mp hrevoke
      exact hkeep
    · exact hkeep
  | elapse => exact h
  | evict => exact h
  | process hown hprocessor =>
    have hmoves := Batch.step_moves hprocessor
    rw [hown] at hmoves
    have hbase : s.processor.metrics.Follows fun c =>
        base c + cacheTotal s.cache c + s.processor.total c :=
      h.congr fun c => Nat.add_assoc _ _ _
    exact (Batch.follows_moves ha hbase hmoves).congr fun c => (Nat.add_assoc _ _ _).symm

/-- Every accepted lookup is the message of a load of its own. -/
theorem accepted_le (h : Linked s) (hs : Batch.Conserved s.processor) :
    s.processor.accepted.length ≤ s.cache.loads.length := by
  have hsub : Batch.responses s.processor.accepted ⊆ List.range s.cache.loads.length := by
    intro i hi
    obtain ⟨lookup, hmem, rfl⟩ := List.mem_map.mp hi
    obtain ⟨-, load, hload, -⟩ := h.accepted lookup hmem
    exact List.mem_range.mpr (List.getElem?_eq_some_iff.mp hload).1
  simpa [Batch.responses] using (List.subperm_of_subset hs.accepted_nodup hsub).length_le

/-- The batches are not empty and not too long, and no load is asked for twice. -/
theorem usernames_bounds (h : (system expiry config service).Reachable s) :
    s.processor.calls.length ≤ (s.processor.calls.map List.length).sum ∧
      (s.processor.calls.map List.length).sum ≤ config.size * s.processor.calls.length ∧
      (s.processor.calls.map List.length).sum ≤ s.cache.loads.length := by
  have hp := processor_simulation.reachable h
  have hcalls := (Batch.reachable_limited hp).calls
  have hnames := (Batch.reachable_tallied hp).usernames
  have haccepted := accepted_le (reachable_linked h) (reachable_conserved h)
  refine ⟨length_le_sum fun call hmem => (hcalls call hmem).1,
    sum_le_mul_length fun call hmem => (hcalls call hmem).2, ?_⟩
  omega

/-- An error was counted for a call at most. -/
theorem errors_le (h : (system expiry config service).Reachable s) :
    (s.processor.answered.map fun answer => failures answer.2).sum ≤ s.processor.calls.length := by
  have hanswers := (Batch.reachable_tallied (processor_simulation.reachable h)).answers
  have hsum : (s.processor.answered.map fun answer => failures answer.2).sum ≤
      1 * s.processor.answered.length :=
    sum_le_mul_length fun answer _ => failures_le answer.2
  omega

end Moves
end MojangApi.Lookup
