import MojangApi.Batch.Log
import MojangApi.Lookup.Distinct

/-! # What upstream is asked for, and what is recorded of its answers

A call lists lowercased names of lookups, each name once: messages, batches and the
filter add nothing of their own. Only the processor's own events write records.
-/

namespace MojangApi.Lookup
open MojangApi Library

variable {ρ : Type*} {expiry : Cache.OptionalValueExpiry} {config : Batch.BatchConfig}
  {service : Batch.MojangService ρ} {s t : State}

/-- The list of names in a call: names that somebody asked for, in lower case. -/
structure AskedFor (requests : List Str) (call : List Str) : Prop where
  nodup : call.Nodup
  requested : ∀ name ∈ call, ∃ request ∈ requests, asciiLowercase request = name

theorem AskedFor.mono {requests requests' call : List Str} (h : AskedFor requests call)
    (hsub : requests ⊆ requests') : AskedFor requests' call where
  nodup := h.nodup
  requested name hname := by
    obtain ⟨request, hmem, heq⟩ := h.requested name hname
    exact ⟨request, hsub hmem, heq⟩

/-- Requests are never taken back. -/
theorem requests_moves {e : Event ρ} (h : Moves expiry config service s e t) :
    s.requests ⊆ t.requests := by
  cases h with
  | lookup name => exact List.subset_append_left _ _
  | _ => exact List.Subset.refl _

/-- An open lookup is that of a requester who still waits, and has its name. -/
theorem request_of_open (hc : SingleFlight.Coherent expiry.ttlFor s.cache) (h : Linked s)
    {lookup : Batch.PendingLookup} (hmem : lookup ∈ s.processor.accepted)
    (hopen : lookup.response ∉ s.processor.gone) :
    ∃ request ∈ s.requests, asciiLowercase request = lookup.name := by
  obtain ⟨load, hload, hkey, hrun⟩ := h.load_of_open hmem hopen
  obtain ⟨⟨c, hr, hp⟩, -⟩ := hc.loads _ load hload hrun
  have hok := hc.callers _ _ hr
  simp only [SingleFlight.CallerOk, hp] at hok
  have hsame : load.key = c.key := by
    have heq := Option.some.inj (hload.symm.trans hok.2.2)
    exact congrArg SingleFlight.Load.key heq
  have hcaller : c.key ∈ s.requests.map asciiLowercase :=
    h.keys ▸ List.mem_map_of_mem (List.mem_of_getElem? hr)
  obtain ⟨request, hrequest, heq⟩ := List.mem_map.mp hcaller
  exact ⟨request, hrequest, heq.trans (hsame.symm.trans hkey)⟩

theorem reachable_asked (h : (system expiry config service).Reachable s) :
    ∀ call ∈ s.processor.calls, AskedFor s.requests call := by
  apply h.invariant (I := fun s => ∀ call ∈ s.processor.calls, AskedFor s.requests call)
  · intro call hmem
    cases hmem
  · intro u e v hu ih hstep call hmem
    have hmoves := step_moves hstep
    have hl := reachable_linked hu
    have hc := reachable_coherent hu
    have hs := reachable_conserved hu
    rcases calls_moves hmoves with hcalls | ⟨i, batch, htask, -, -, hcalls⟩
    · exact (ih call (hcalls ▸ hmem)).mono (requests_moves hmoves)
    · rw [hcalls] at hmem
      rcases List.mem_append.mp hmem with hmem | hmem
      · exact (ih call hmem).mono (requests_moves hmoves)
      · obtain rfl := List.mem_singleton.mp hmem
        have hhanded := hs.traced.1 _ (List.mem_of_getElem? htask)
        refine AskedFor.mono ⟨names_nodup hc hl hs hhanded, ?_⟩ (requests_moves hmoves)
        intro name hname
        obtain ⟨lookup, hkept, rfl⟩ := List.mem_map.mp hname
        obtain ⟨hbatch, hopen⟩ := mem_keptOf.mp hkept
        exact request_of_open hc hl ((batch_sublist_accepted hs hhanded).subset hbatch) hopen

/-- What the requesters do to the processor leaves no record. -/
theorem log_step {e : Event ρ} (h : (system expiry config service).step s e = some t) :
    Batch.SameLog s.processor t.processor ∨
      ∃ own, e = .process own ∧ Batch.Logs service s.processor t.processor own := by
  have same := Batch.SameLog.refl s.processor
  have counted : ∀ metrics, Batch.SameLog s.processor (s.processor.count metrics) :=
    fun _ => .of_closed rfl rfl rfl rfl
  cases step_moves h with
  | enter => exact .inl (counted _)
  | load => exact .inl (counted _)
  | reserve _ hprocessor => exact .inl (Batch.sameLog_reserve hprocessor)
  | push _ hprocessor =>
    obtain ⟨channel, hchannel, rfl⟩ := Option.map_eq_some_iff.mp hprocessor
    exact .inl (.of_closed rfl rfl rfl (Channel.push_eq_some hchannel).2.2.2.1)
  | receive => exact .inl (.of_closed rfl rfl rfl rfl)
  | wake => exact .inl (counted _)
  | abandon _ _ _ hprocessor =>
    rcases hprocessor with ⟨-, rfl⟩ | ⟨-, hrevoke⟩ | ⟨-, rfl⟩
    · exact .inl same
    · obtain ⟨channel, hchannel, rfl⟩ := Option.map_eq_some_iff.mp hrevoke
      exact .inl (.of_closed rfl rfl rfl (Channel.revoke_eq_some hchannel).2.2.2.1)
    · exact .inl (.of_closed rfl rfl rfl rfl)
  | process _ hprocessor =>
    exact (Batch.log_step hprocessor).imp_right fun hlogs => ⟨_, rfl, hlogs⟩
  | count => exact .inl (counted _)
  | _ => exact .inl same

end MojangApi.Lookup
