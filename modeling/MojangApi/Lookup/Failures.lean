import MojangApi.Lookup.Soundness

/-! # Where the error of a lookup comes from

An error that upstream gave to a call reaches the lookups of the names of that call.
The one error the program makes up, `transport`, stands for a queue that was closed
before the loader got its slot, or for a message that was lost. Only a panic loses one,
as long as the processor is not aborted.
-/

namespace MojangApi.Lookup
open MojangApi Library

variable {ρ : Type*} {expiry : Cache.OptionalValueExpiry} {config : Batch.BatchConfig}
  {service : Batch.MojangService ρ} {s t : State} {aborted : Prop}

/-- Some call that failed listed the name, or the message of load `i` found the queue closed
or was lost in a panic or an abort. -/
def Blames (aborted : Prop) (processor : Batch.State) (sends : List SendPhase) (i : ℕ) (key : Str)
    (error : UpstreamError) : Prop :=
  (∃ names, (names, .error error) ∈ processor.answered ∧ key ∈ names) ∨
    error = .transport ∧ (processor.channel.closed = true ∧ sends[i]? = some .sending ∨
      (∃ kept ∈ processor.panicked, i ∈ Batch.responses kept) ∨
      aborted ∧ i ∈ Batch.responses processor.accepted)

/-- Every load that failed has a reason. -/
def Blamed (aborted : Prop) (s : State) : Prop :=
  ∀ (i : ℕ) (key : Str) (q : ℕ) (error : UpstreamError) (time : ℕ),
    s.cache.loads[i]? = some ⟨key, q, .finished (.error error) time⟩ →
      Blames aborted s.processor s.sends i key error

/-- What can be blamed does not go away. -/
structure Grown (p p' : Batch.State) : Prop where
  answered : p.answered ⊆ p'.answered
  panicked : p.panicked ⊆ p'.panicked
  accepted : p.accepted ⊆ p'.accepted
  closed : p.channel.closed = true → p'.channel.closed = true

theorem Grown.refl (p : Batch.State) : Grown p p :=
  ⟨List.Subset.refl _, List.Subset.refl _, List.Subset.refl _, id⟩

theorem grown_moves {p p' : Batch.State} {own : Bool} (h : Batch.Moves config service p own p') :
    Grown p p' := by
  have same := List.Subset.refl p.answered
  have same' := List.Subset.refl p.panicked
  have same'' := List.Subset.refl p.accepted
  cases h with
  | reserve _ _ hchannel =>
    exact ⟨same, same', same'', fun hc => (Channel.reserve_granted hchannel).2.2.2.1.trans hc⟩
  | push hchannel =>
    exact ⟨same, same', List.subset_append_left _ _,
      fun hc => (Channel.push_eq_some hchannel).2.2.2.1.trans hc⟩
  | revoke hchannel =>
    exact ⟨same, same', same'', fun hc => (Channel.revoke_eq_some hchannel).2.2.2.1.trans hc⟩
  | close => exact ⟨same, same', same'', fun _ => rfl⟩
  | @collect lookup channel site _ _ hrecv =>
    have hclosed := (Channel.recv_item hrecv).2.2.1
    rcases Batch.collect_cases config (p.setChannel channel) lookup site with
      ⟨-, hc⟩ | ⟨-, hc⟩ <;> rw [hc] <;> exact ⟨same, same', same'', fun h => hclosed.trans h⟩
  | answer => exact ⟨List.subset_append_left _ _, same', same'', id⟩
  | panic => exact ⟨same, List.subset_append_left _ _, same'', id⟩
  | _ => exact ⟨same, same', same'', id⟩

theorem grown_step {e : Event ρ} (h : (system expiry config service).step s e = some t) :
    Grown s.processor t.processor := by
  refine (processor_simulation.step s e t h).invariant (Grown.refl _) ?_
  intro p e p' hp hstep
  have hnext := grown_moves (Batch.step_moves hstep)
  exact ⟨List.Subset.trans hp.answered hnext.answered,
    List.Subset.trans hp.panicked hnext.panicked,
    List.Subset.trans hp.accepted hnext.accepted, fun hc => hnext.closed (hp.closed hc)⟩

theorem Blames.mono {p p' : Batch.State} {sends sends' : List SendPhase} {i : ℕ} {key : Str}
    {error : UpstreamError} (h : Blames aborted p sends i key error) (hgrown : Grown p p')
    (hsends : sends[i]? = some .sending → sends'[i]? = some .sending) :
    Blames aborted p' sends' i key error := by
  rcases h with ⟨names, hmem, hname⟩ | ⟨rfl, ⟨hclosed, hsend⟩ | ⟨kept, hkept, hi⟩ | ⟨ha, hi⟩⟩
  · exact .inl ⟨names, hgrown.answered hmem, hname⟩
  · exact .inr ⟨rfl, .inl ⟨hgrown.closed hclosed, hsends hsend⟩⟩
  · exact .inr ⟨rfl, .inr (.inl ⟨kept, hgrown.panicked hkept, hi⟩)⟩
  · exact .inr ⟨rfl, .inr (.inr ⟨ha, List.map_subset _ hgrown.accepted hi⟩)⟩

/-- No load fails, and no message of a load that has failed moves. -/
theorem Blamed.same (h : Blamed aborted s) (hgrown : Grown s.processor t.processor)
    (hloads : t.cache.loads = s.cache.loads)
    (hsends : ∀ i : ℕ, ¬ Runs s.cache.loads i → s.sends[i]? = some .sending →
      t.sends[i]? = some .sending) : Blamed aborted t := by
  intro i key q error time hi
  rw [hloads] at hi
  refine (h i key q error time hi).mono hgrown (hsends i ?_)
  rintro ⟨load, hload, hrun⟩
  obtain rfl := Option.some.inj (hi.symm.trans hload)
  cases hrun

/-- A message that moves is the one of a running load. -/
theorem Blamed.moveMessage (h : Blamed aborted s) {i : ℕ} {phase phase' : SendPhase}
    {lookup : Batch.PendingLookup} {processor : Batch.State} (hm : s.message i phase = some lookup)
    (hgrown : Grown s.processor processor) :
    Blamed aborted ((s.setProcessor processor).setSend i phase') := by
  obtain ⟨-, -, r, hload⟩ := message_eq_some hm
  refine h.same hgrown rfl fun j hj hsend => ?_
  have hne : i ≠ j := by
    rintro rfl
    exact hj ⟨_, hload, rfl⟩
  exact (List.getElem?_set_ne hne).trans hsend

theorem Blamed.endLoad (h : Blamed aborted s) {cache : CacheState} {processor : Batch.State} {i r : ℕ}
    {key : Str} {st : SingleFlight.LoadState (Option Uuid) UpstreamError}
    (hload : s.cache.loads[i]? = some ⟨key, r, .running⟩)
    (hloads : cache.loads = s.cache.loads.set i ⟨key, r, st⟩)
    (hgrown : Grown s.processor processor) (hreason : ∀ error time,
      st = .finished (.error error) time → Blames aborted processor s.sends i key error) :
    Blamed aborted ((s.setCache cache).setProcessor processor) := by
  intro j key' q error time hj
  change cache.loads[j]? = _ at hj
  rw [hloads, getElem?_set_some hload] at hj
  by_cases hij : i = j
  · subst hij
    rw [if_pos rfl] at hj
    obtain ⟨rfl, -, rfl⟩ := SingleFlight.Load.mk.inj (Option.some.inj hj)
    exact hreason error time rfl
  · rw [if_neg hij] at hj
    exact (h j key' q error time hj).mono hgrown id

/-- A failed load got the error of a call with its key, or its sender was lost. -/
theorem blames_of_received (hl : Linked s)
    (hs : Batch.ExplainedOr (Batch.Lost aborted s.processor) s.processor) {i r : ℕ} {key : Str}
    {disposal : Batch.Disposal} {error : UpstreamError} (sends : List SendPhase)
    (hload : s.cache.loads[i]? = some ⟨key, r, .running⟩)
    (hdisposal : (i, disposal) ∈ s.processor.disposals)
    (herror : disposal.received = .error error) :
    Blames aborted s.processor sends i key error := by
  have hexplained := hs _ hdisposal
  cases disposal with
  | dropped =>
    refine .inr ⟨(Except.error.inj herror).symm, .inr ?_⟩
    rcases hexplained with (hgone | hpanicked) | hlost
    · exact absurd ⟨_, hload, rfl⟩ (hl.gone i hgone).2
    · exact .inl hpanicked
    · exact .inr hlost.2
  | sent result =>
    obtain ⟨lookup, haccepted, hresponse, names, answer, hanswer, hname, hreply⟩ :=
      hexplained.resolve_right fun hlost => by cases hlost.1
    change lookup.response = i at hresponse
    obtain ⟨-, load, hsent, hkey⟩ := hl.accepted lookup haccepted
    rw [hresponse, hload] at hsent
    obtain rfl := Option.some.inj hsent
    change key = lookup.name at hkey
    change result = .error error at herror
    rw [herror] at hreply
    cases answer with
    | ok profiles => cases hreply
    | error error' =>
      obtain rfl : error = error' := Except.error.inj hreply
      exact .inl ⟨names, hanswer, hkey ▸ hname⟩

theorem Blamed.moves (h : Blamed aborted s) (hl : Linked s)
    (hc : SingleFlight.Coherent expiry.ttlFor s.cache)
    (hs : Batch.ExplainedOr (Batch.Lost aborted s.processor) s.processor)
    {e : Event ρ} (hm : Moves expiry config service s e t)
    (hgrown : Grown s.processor t.processor) : Blamed aborted t := by
  cases hm with
  | enter _ hloads => exact h.same hgrown hloads fun _ _ hsend => hsend
  | @load r cache key _ _ hloads =>
    intro i key' q error time hi
    change cache.loads[i]? = _ at hi
    rw [hloads] at hi
    rcases getElem?_append_some _ hi with hi | ⟨-, heq⟩
    · exact (h i key' q error time hi).mono hgrown fun hsend => getElem?_append_of_some hsend _
    · cases heq
  | reserve hmessage => exact h.moveMessage hmessage hgrown
  | push hmessage => exact h.moveMessage hmessage hgrown
  | @sendError i lookup cache hmessage hclosed hcache =>
    obtain ⟨-, hsend, -⟩ := message_eq_some hmessage
    obtain ⟨k, r, hload, hloads⟩ := SingleFlight.finish_loads hcache
    refine h.endLoad hload hloads hgrown fun error time hst => ?_
    obtain rfl := Except.error.inj (SingleFlight.LoadState.finished.inj hst).1
    exact .inr ⟨rfl, .inl ⟨hclosed, hsend⟩⟩
  | @receive i lookup disposal cache hmessage hdisposal hcache =>
    obtain ⟨k, r, hload, hloads⟩ := SingleFlight.finish_loads hcache
    refine h.endLoad hload hloads hgrown fun error time hst => ?_
    have hreceived := (SingleFlight.LoadState.finished.inj hst).1
    exact (blames_of_received hl hs s.sends hload hdisposal hreceived).mono hgrown id
  | wake hcache => exact h.same hgrown (SingleFlight.wake_loads hcache) fun _ _ hsend => hsend
  | drop _ hloads => exact h.same hgrown hloads fun _ _ hsend => hsend
  | abandon _ hloads hphase =>
    obtain ⟨caller, hcaller, hp, rfl⟩ := hphase
    have hok := hc.callers _ _ hcaller
    simp only [SingleFlight.CallerOk, hp] at hok
    exact h.endLoad hok.2.2 hloads hgrown fun error time hst => by cases hst
  | _ => exact h.same hgrown rfl fun _ _ hsend => hsend

theorem reachable_blamed (h : (system expiry config service).Reachable s) : Blamed False s :=
  h.invariant (fun _ _ _ _ _ hi => by cases hi) fun _ _ _ hr hu he =>
    hu.moves (reachable_linked hr) (reachable_coherent hr)
      ((reachable_conserved hr).explainedOr _) (step_moves he) (grown_step he)

/-- The load whose error a lookup returned has a reason. -/
theorem returned_blamed (h : (system expiry config service).Reachable s) {r : ℕ}
    {c : SingleFlight.Caller Str (Option Uuid) UpstreamError} {error : UpstreamError}
    {origin : SingleFlight.Origin} (hr : s.cache.callers[r]? = some c)
    (hp : c.phase = .returned (.error error) origin) :
    ∃ name, s.requests[r]? = some name ∧
      Blames False s.processor s.sends origin.load (asciiLowercase name) error := by
  have hok := (reachable_coherent h).callers r c hr
  simp only [SingleFlight.CallerOk, hp] at hok
  obtain ⟨-, q, time, hload, -⟩ := hok
  obtain ⟨name, hname, hkey⟩ := (reachable_linked h).key_eq hr
  exact ⟨name, hname, hkey ▸ reachable_blamed h _ _ _ _ _ hload⟩

end MojangApi.Lookup
