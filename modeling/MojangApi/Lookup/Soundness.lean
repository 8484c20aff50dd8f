import MojangApi.Lookup.Linked
import MojangApi.Library.SingleFlight.Failures

/-! # What a lookup returns is what upstream said of its name

Along the whole way from the name as written, over the cache, the queue and a
batch of unrelated names, back to the requester and into the cache.
-/

namespace MojangApi.Lookup
open MojangApi Library

variable {ρ : Type*} {expiry : Cache.OptionalValueExpiry} {config : Batch.BatchConfig}
  {service : Batch.MojangService ρ} {s : State}

theorem reachable_recent (h : (system expiry config service).Reachable s) :
    SingleFlight.Recent expiry.ttlFor s.cache :=
  SingleFlight.reachable_recent (cache_simulation.reachable h)

/-- The key of a caller is its name in lower case. -/
theorem Linked.key_eq (h : Linked s) {r : ℕ}
    {c : SingleFlight.Caller Str (Option Uuid) UpstreamError} (hr : s.cache.callers[r]? = some c) :
    ∃ name, s.requests[r]? = some name ∧ c.key = asciiLowercase name := by
  have hkey := congrArg (fun keys : List Str => keys[r]?) h.keys
  simp only [List.getElem?_map, hr, Option.map_some] at hkey
  obtain ⟨name, hname, heq⟩ := Option.map_eq_some_iff.mp hkey.symm
  exact ⟨name, hname, heq.symm⟩

/-- A value that a lookup returned came from a call that listed its name. -/
theorem returned_backed (h : (system expiry config service).Reachable s) {r : ℕ}
    {c : SingleFlight.Caller Str (Option Uuid) UpstreamError} {value : Option Uuid}
    {origin : SingleFlight.Origin} (hr : s.cache.callers[r]? = some c)
    (hp : c.phase = .returned (.ok value) origin) :
    ∃ name, s.requests[r]? = some name ∧ Backed s.processor (asciiLowercase name) value ∧
      ∀ load storedAt readAt, origin = .cached load storedAt readAt →
        storedAt ≤ readAt ∧ readAt < storedAt + expiry.ttlFor value := by
  have hlinked := reachable_linked h
  have hok := (reachable_coherent h).callers r c hr
  simp only [SingleFlight.CallerOk, hp] at hok
  obtain ⟨-, q, time, hload, htime⟩ := hok
  obtain ⟨name, hname, hkey⟩ := hlinked.key_eq hr
  refine ⟨name, hname, hkey ▸ hlinked.backed _ _ _ _ _ hload, ?_⟩
  rintro load storedAt readAt rfl
  exact htime.2

/-- Entering the cache is never held up by the rest of the system. -/
theorem step_of_enter {r : ℕ} {cache : CacheState}
    (h : s.cache.enter expiry.ttlFor r = some cache) :
    ∃ t, (system expiry config service).step s (.enter r) = some t ∧
      t.cache.loads = cache.loads := by
  have ht : (system expiry config service).step s (.enter r) = s.enter expiry r := rfl
  rw [ht, State.enter, h]
  refine ⟨_, rfl, ?_⟩
  by_cases hlength : cache.loads.length = s.cache.loads.length
  · simp only [if_pos hlength]
    rfl
  · simp only [if_neg hlength]
    rfl

/-- In every reachable state: a lookup that returned a value got the answer of a call that
succeeded and listed its lowercased name, and a value read from the cache had time left.
Only values are stored. An error goes to the lookups of its own load, and the next lookup
of the name starts a new load. -/
theorem lookups_sound (expiry : Cache.OptionalValueExpiry) (config : Batch.BatchConfig)
    (service : Batch.MojangService ρ) (s : State)
    (h : (system expiry config service).Reachable s) :
    (∀ (r : ℕ) c value origin, s.cache.callers[r]? = some c →
      c.phase = .returned (.ok value) origin →
      ∃ name, s.requests[r]? = some name ∧
        (∃ names profiles, (names, .ok profiles) ∈ s.processor.answered ∧
          asciiLowercase name ∈ names ∧
          value = Batch.lastProfile profiles (asciiLowercase name)) ∧
        ∀ load storedAt readAt, origin = .cached load storedAt readAt → storedAt ≤ readAt ∧
          readAt < storedAt +
            if value.isSome then expiry.positiveTtl else expiry.negativeTtl) ∧
    (∀ key entry, s.cache.entries key = some entry → ∃ owner,
      s.cache.loads[entry.load]? =
        some ⟨key, owner, .finished (.ok entry.value) entry.storedAt⟩) ∧
    (∀ e t, (system expiry config service).step s e = some t →
      ∀ (r : ℕ) c c' error origin, s.cache.callers[r]? = some c →
        t.cache.callers[r]? = some c' → c'.phase = .returned (.error error) origin →
        c'.phase = c.phase ∨ ∃ (i : ℕ) (owner time : ℕ),
          (c.phase = .waiting i ∨ c.phase = .loading i) ∧
            t.cache.loads[i]? = some ⟨c.key, owner, .finished (.error error) time⟩) ∧
    ∀ (i : ℕ) key owner error time,
      s.cache.loads[i]? = some ⟨key, owner, .finished (.error error) time⟩ →
      (∀ (j : ℕ) load, i < j → s.cache.loads[j]? = some load → load.key ≠ key) →
      ∀ (r : ℕ) c, s.cache.callers[r]? = some c → c.phase = .entering → c.key = key →
        ∃ t, (system expiry config service).step s (.enter r) = some t ∧
          t.cache.loads = s.cache.loads ++ [⟨key, r, .running⟩] := by
  refine ⟨?_, ?_, ?_, ?_⟩
  · intro r c value origin hr hp
    exact returned_backed h hr hp
  · intro key entry hentry
    exact ((reachable_coherent h).entries key entry hentry).2
  · intro e t ht r c c' error origin hr hr' hp
    rcases cache_step ht with hsame | ⟨ce, hstep⟩
    · rw [hsame] at hr'
      exact .inl (congrArg SingleFlight.Caller.phase (Option.some.inj (hr'.symm.trans hr)))
    · exact SingleFlight.error_reaches (reachable_coherent h) hstep hr hr' hp
  · rintro i key owner error time hload hnewest r c hr hp rfl
    have hfailed : ¬ SingleFlight.LoadState.Succeeded (ν := Option Uuid)
        (.finished (.error error) time) := by
      rintro ⟨v, n, heq⟩
      cases heq
    have henter := SingleFlight.enter_of_failed (reachable_recent h) hload hnewest (by simp)
      hfailed hr hp rfl
    exact step_of_enter henter

/-- A lookup written in capitals. -/
theorem lookups_sound_capitals : ∃ s,
    (system .default Batch.smallConfig (Batch.listing [("Steve".toList, 7)])).run
      (soleLookup "STEVE".toList) = some s ∧
    (∃ c origin, s.cache.callers[0]? = some c ∧ c.phase = .returned (.ok (some 7)) origin) ∧
    ∃ names profiles, (names, .ok profiles) ∈ s.processor.answered ∧
      "steve".toList ∈ names ∧ some 7 = Batch.lastProfile profiles "steve".toList := by
  have hrun : ((system .default Batch.smallConfig
      (Batch.listing [("Steve".toList, 7)])).run (soleLookup "STEVE".toList)).map
      (fun s => (s.cache.callers[0]?, s.requests)) =
      some (some ⟨"steve".toList, .returned (.ok (some 7)) (.loaded 0), 1, 0⟩, ["STEVE".toList]) := by
    rfl
  obtain ⟨s, hs, hpair⟩ := Option.map_eq_some_iff.mp hrun
  obtain ⟨hcaller, hrequests⟩ := Prod.mk.inj hpair
  have hsound := lookups_sound .default Batch.smallConfig (Batch.listing [("Steve".toList, 7)]) s
    (Machine.reachable_of_run hs)
  obtain ⟨name, hname, hbacked, -⟩ := hsound.1 0 _ _ _ hcaller rfl
  obtain rfl : "STEVE".toList = name := by simpa [hrequests] using hname
  exact ⟨s, hs, ⟨_, _, hcaller, rfl⟩, hbacked⟩

end MojangApi.Lookup
