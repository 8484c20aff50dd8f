import MojangApi.App.Accounting
import MojangApi.Library.SingleFlight.Lasting

/-! # What lasts

The handlers, the cache calls and the loads of a run are never taken back, so that what has
been counted stays counted.
-/

namespace MojangApi.App
open MojangApi Library Mojang

variable {U : Type} {expiry : Cache.OptionalValueExpiry} {config : Batch.BatchConfig}
  {client : MojangHttpClient U} {s t : State}

/-- Handler calls are never taken back. -/
theorem handlers_step {e : Event} (h : (system expiry config client).step s e = some t) :
    s.uuidHandlers <+: t.uuidHandlers ∧ s.skinHandlers <+: t.skinHandlers := by
  cases step_moves h with
  | rejectName => exact ⟨List.prefix_append _ _, List.prefix_refl _⟩
  | callName => exact ⟨List.prefix_append _ _, List.prefix_refl _⟩
  | rejectUuid => exact ⟨List.prefix_refl _, List.prefix_append _ _⟩
  | callUuid => exact ⟨List.prefix_refl _, List.prefix_append _ _⟩
  | _ => exact ⟨List.prefix_refl _, List.prefix_refl _⟩

theorem handlers_leads (h : (system expiry config client).Leads s t) :
    s.uuidHandlers <+: t.uuidHandlers ∧ s.skinHandlers <+: t.skinHandlers := by
  refine h.invariant (I := fun u => s.uuidHandlers <+: u.uuidHandlers ∧
    s.skinHandlers <+: u.skinHandlers) ⟨List.prefix_refl _, List.prefix_refl _⟩ ?_
  rintro u e v ⟨huuid, hskin⟩ hv
  exact ⟨huuid.trans (handlers_step hv).1, hskin.trans (handlers_step hv).2⟩

theorem loads_mono {κ ν ε : Type} [DecidableEq κ] {ttl : ν → ℕ}
    {cache after : SingleFlight.State κ ν ε} (hc : (SingleFlight.machine ttl).Reachable cache)
    (h : (SingleFlight.machine ttl).Leads cache after) : cache.loads.length ≤ after.loads.length := by
  rw [← sum_map_one cache.loads, ← sum_map_one after.loads]
  exact SingleFlight.weight_leads hc h fun _ _ _ => Nat.le_refl _

theorem skinTotal_mono {ttl : Option SkinProperty → ℕ} {skins after : SkinCache}
    (hs : (SingleFlight.machine ttl).Reachable skins)
    (h : (SingleFlight.machine ttl).Leads skins after) (c : Counter) :
    skinTotal skins c ≤ skinTotal after c := by
  cases c with
  | skinCacheHits => exact SingleFlight.reads_leads h
  | skinCacheMisses => exact loads_mono hs h
  | mojangRequests => exact loads_mono hs h
  | mojangErrors => exact SingleFlight.weight_leads hs h fun _ _ _ => Nat.zero_le _
  | _ => exact Nat.le_refl _

theorem cacheTotal_mono {ttl : Option Uuid → ℕ} {cache after : Lookup.CacheState}
    (hs : (SingleFlight.machine ttl).Reachable cache)
    (h : (SingleFlight.machine ttl).Leads cache after) (c : Counter) :
    Lookup.cacheTotal cache c ≤ Lookup.cacheTotal after c := by
  cases c with
  | uuidCacheHits => exact SingleFlight.reads_leads h
  | uuidCacheMisses => exact loads_mono hs h
  | _ => exact Nat.le_refl _

theorem handlerTotal_mono (h : (system expiry config client).Leads s t) (c : Counter) :
    handlerTotal s c ≤ handlerTotal t c := by
  cases c with
  | uuidRequests => exact (handlers_leads h).1.length_le
  | skinRequests => exact (handlers_leads h).2.length_le
  | _ => exact Nat.le_refl _

theorem total_mono (hs : (system expiry config client).Reachable s)
    (h : (system expiry config client).Leads s t) (c : Counter) : s.total c ≤ t.total c := by
  have hlookup := lookup_simulation.reachable hs
  have hnames := lookup_simulation.leads h
  have hhandlers := handlerTotal_mono h c
  have hskins := skinTotal_mono (skins_simulation.reachable hs) (skins_simulation.leads h) c
  have hcache := cacheTotal_mono (Lookup.cache_simulation.reachable hlookup)
    (Lookup.cache_simulation.leads hnames) c
  have hprocessor := Batch.total_leads (Lookup.processor_simulation.leads hnames) c
  simp only [State.total, Lookup.State.total]
  omega

end MojangApi.App
