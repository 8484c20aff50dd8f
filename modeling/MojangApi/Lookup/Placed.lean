import MojangApi.Lookup.Linked

/-! # Where the message of a running load is

`Linked` says of every message which load it belongs to. Here is the converse: a
running load that was granted a slot still holds it, and one that awaits its answer
has its message among the accepted ones. A slot is held by nobody else, and a
response channel is issued once.
-/

namespace MojangApi.Lookup
open MojangApi Library

variable {ρ : Type*} {expiry : Cache.OptionalValueExpiry} {config : Batch.BatchConfig}
  {service : Batch.MojangService ρ} {s t : State}

structure Placed (s : State) : Prop where
  issued : ∀ i ∈ s.processor.issued, ∃ phase, s.sends[i]? = some phase ∧ phase ≠ .sending
  granted : ∀ (i : ℕ) (key : Str) (r : ℕ), s.cache.loads[i]? = some ⟨key, r, .running⟩ →
    s.sends[i]? = some .granted → ⟨key, i⟩ ∈ s.processor.channel.granted
  receiving : ∀ (i : ℕ) (key : Str) (r : ℕ), s.cache.loads[i]? = some ⟨key, r, .running⟩ →
    s.sends[i]? = some .receiving → ⟨key, i⟩ ∈ s.processor.accepted
  slots : ∀ lookup ∈ s.processor.channel.granted, Runs s.cache.loads lookup.response

/-- The processor's own moves issue no response channel. -/
theorem own_issued {p p' : Batch.State} (h : Batch.Moves config service p true p') :
    p'.issued = p.issued := by
  cases h with
  | @collect lookup channel site =>
    rcases Batch.collect_cases config (p.setChannel channel) lookup site with
      ⟨-, hc⟩ | ⟨-, hc⟩ <;> rw [hc] <;> rfl
  | _ => rfl

theorem placed_init : Placed (system expiry config service).init where
  issued := by simp [system, Batch.State.init]
  granted := by simp [system]
  receiving := by simp [system]
  slots := by simp [system, Batch.State.init, Channel.empty]

/-- Loads and messages stay where they are. -/
theorem Placed.same (h : Placed s) (hloads : t.cache.loads = s.cache.loads)
    (hsends : t.sends = s.sends) (hissued : t.processor.issued = s.processor.issued)
    (hgranted : t.processor.channel.granted = s.processor.channel.granted)
    (haccepted : t.processor.accepted = s.processor.accepted) : Placed t where
  issued := by simpa only [hissued, hsends] using h.issued
  granted := by simpa only [hloads, hsends, hgranted] using h.granted
  receiving := by simpa only [hloads, hsends, haccepted] using h.receiving
  slots := by simpa only [hloads, hgranted] using h.slots

/-- A load that starts has not got a slot yet. -/
theorem Placed.startLoad (h : Placed s) (hl : Linked s) {cache : CacheState} {metrics : Metrics}
    {key : Str} {r : ℕ} (hloads : cache.loads = s.cache.loads ++ [⟨key, r, .running⟩]) :
    Placed ⟨cache, s.requests, s.sends ++ [.sending], s.processor.count metrics⟩ := by
  have hold : ∀ (i : ℕ) phase, phase ≠ .sending → (s.sends ++ [.sending])[i]? = some phase →
      s.sends[i]? = some phase := by
    intro i phase hne hi
    rcases getElem?_append_some _ hi with hi | ⟨-, rfl⟩
    · exact hi
    · exact absurd rfl hne
  have hload : ∀ (i : ℕ) phase load, s.sends[i]? = some phase → cache.loads[i]? = some load →
      s.cache.loads[i]? = some load := by
    intro i phase load hi hc
    rw [hloads] at hc
    rcases getElem?_append_some _ hc with hc | ⟨rfl, -⟩
    · exact hc
    · have hlt := (List.getElem?_eq_some_iff.mp hi).1
      rw [hl.sends] at hlt
      omega
  refine ⟨?_, ?_, ?_, ?_⟩
  · intro i hi
    obtain ⟨phase, hphase, hne⟩ := h.issued i hi
    exact ⟨phase, getElem?_append_of_some hphase _, hne⟩
  · intro i k q hi hsend
    have hsend' := hold i _ (by decide) hsend
    exact h.granted i k q (hload i _ _ hsend' hi) hsend'
  · intro i k q hi hsend
    have hsend' := hold i _ (by decide) hsend
    exact h.receiving i k q (hload i _ _ hsend' hi) hsend'
  · intro lookup hmem
    obtain ⟨load, hrun, hst⟩ := h.slots lookup hmem
    exact ⟨load, by rw [hloads]; exact getElem?_append_of_some hrun _, hst⟩

/-- The message of a load moves on, and the others stay. -/
theorem Placed.moveMessage (h : Placed s) {i : ℕ} {phase phase' : SendPhase}
    {lookup : Batch.PendingLookup} {processor : Batch.State} (hm : s.message i phase = some lookup)
    (hphase : phase' ≠ .sending)
    (hissued : ∀ j ∈ processor.issued, j = i ∨ j ∈ s.processor.issued)
    (hgranted : ∀ l : Batch.PendingLookup, l ∈ processor.channel.granted ↔
      l ∈ s.processor.channel.granted ∧ l.response ≠ i ∨ l = lookup ∧ phase' = .granted)
    (haccepted : ∀ l ∈ s.processor.accepted, l ∈ processor.accepted)
    (hreceiving : phase' = .receiving → lookup ∈ processor.accepted) :
    Placed ((s.setProcessor processor).setSend i phase') := by
  obtain ⟨rfl, hsend, r, hload⟩ := message_eq_some hm
  have hsends : ∀ j : ℕ, (s.sends.set lookup.response phase')[j]? =
      if lookup.response = j then some phase' else s.sends[j]? := getElem?_set_some hsend _
  refine ⟨?_, ?_, ?_, ?_⟩
  · intro j hj
    change ∃ p, (s.sends.set lookup.response phase')[j]? = some p ∧ p ≠ .sending
    rw [hsends]
    by_cases hij : lookup.response = j
    · exact ⟨phase', if_pos hij, hphase⟩
    · rw [if_neg hij]
      exact h.issued j ((hissued j hj).resolve_left (Ne.symm hij))
  · intro j key q hj hgrant
    change (s.sends.set lookup.response phase')[j]? = _ at hgrant
    rw [hsends] at hgrant
    refine (hgranted _).mpr ?_
    by_cases hij : lookup.response = j
    · subst hij
      rw [if_pos rfl] at hgrant
      obtain rfl : lookup.name = key := by
        have heq := Option.some.inj (hload.symm.trans hj)
        exact congrArg SingleFlight.Load.key heq
      exact .inr ⟨rfl, Option.some.inj hgrant⟩
    · rw [if_neg hij] at hgrant
      exact .inl ⟨h.granted j key q hj hgrant, Ne.symm hij⟩
  · intro j key q hj hreceive
    change (s.sends.set lookup.response phase')[j]? = _ at hreceive
    rw [hsends] at hreceive
    by_cases hij : lookup.response = j
    · subst hij
      rw [if_pos rfl] at hreceive
      obtain rfl : lookup.name = key := by
        have heq := Option.some.inj (hload.symm.trans hj)
        exact congrArg SingleFlight.Load.key heq
      exact hreceiving (Option.some.inj hreceive)
    · rw [if_neg hij] at hreceive
      exact haccepted _ (h.receiving j key q hj hreceive)
  · intro l hl
    rcases (hgranted l).mp hl with ⟨hl, -⟩ | ⟨rfl, -⟩
    · exact h.slots l hl
    · exact ⟨_, hload, rfl⟩

/-- A load ends, and its slot, if it held one, is free again. -/
theorem Placed.endLoad (h : Placed s) {cache : CacheState} (processor : Batch.State) {i r : ℕ}
    {key : Str} {st : SingleFlight.LoadState (Option Uuid) UpstreamError}
    (hload : s.cache.loads[i]? = some ⟨key, r, .running⟩) (hst : st ≠ .running)
    (hloads : cache.loads = s.cache.loads.set i ⟨key, r, st⟩)
    (hissued : processor.issued = s.processor.issued)
    (hgranted : ∀ l : Batch.PendingLookup, l ∈ processor.channel.granted ↔
      l ∈ s.processor.channel.granted ∧ l.response ≠ i)
    (haccepted : processor.accepted = s.processor.accepted) :
    Placed ((s.setCache cache).setProcessor processor) := by
  have hold : ∀ (j : ℕ) (k : Str) (q : ℕ), cache.loads[j]? = some ⟨k, q, .running⟩ →
      s.cache.loads[j]? = some ⟨k, q, .running⟩ ∧ j ≠ i := by
    intro j k q hj
    rw [hloads, getElem?_set_some hload] at hj
    by_cases hij : i = j
    · rw [if_pos hij] at hj
      exact absurd (congrArg SingleFlight.Load.state (Option.some.inj hj)) hst
    · rw [if_neg hij] at hj
      exact ⟨hj, Ne.symm hij⟩
  refine ⟨?_, ?_, ?_, ?_⟩
  · intro j hj
    exact h.issued j (hissued ▸ hj)
  · intro j k q hj hsend
    obtain ⟨hj, hne⟩ := hold j k q hj
    exact (hgranted _).mpr ⟨h.granted j k q hj hsend, hne⟩
  · intro j k q hj hsend
    obtain ⟨hj, -⟩ := hold j k q hj
    change _ ∈ processor.accepted
    rw [haccepted]
    exact h.receiving j k q hj hsend
  · intro l hl
    obtain ⟨hl, hne⟩ := (hgranted l).mp hl
    change Runs cache.loads l.response
    rw [hloads, runs_set_iff hload hst]
    exact ⟨h.slots l hl, hne⟩

/-- The slots are held for different response channels. -/
theorem mem_erase_granted {p : Batch.State} (h : Batch.Fresh p) {lookup l : Batch.PendingLookup}
    (hmem : lookup ∈ p.channel.granted) : l ∈ p.channel.granted.erase lookup ↔
      l ∈ p.channel.granted ∧ l.response ≠ lookup.response := by
  have hnodup : (Batch.responses (lookup :: p.channel.granted.erase lookup)).Nodup := by
    have hsub := h.1.sublist ((List.sublist_append_right _ _).map _)
    exact ((List.perm_cons_erase hmem).map _).nodup_iff.mp hsub
  constructor
  · intro hl
    refine ⟨List.mem_of_mem_erase hl, fun heq => ?_⟩
    exact (List.nodup_cons.mp hnodup).1 (heq ▸ List.mem_map_of_mem hl)
  · rintro ⟨hl, hne⟩
    exact (List.mem_erase_of_ne fun heq => hne (congrArg _ heq)).mpr hl

/-- A slot is held by the load whose message has come that far. -/
theorem Linked.granted_ne (h : Linked s) {i : ℕ} {phase : SendPhase}
    (hsend : s.sends[i]? = some phase) (hne : phase ≠ .granted) {l : Batch.PendingLookup}
    (hl : l ∈ s.processor.channel.granted) : l.response ≠ i :=
  Ne.symm (sends_ne_of_sent hsend (h.granted l hl) hne)

theorem Placed.moves (h : Placed s) (hl : Linked s)
    (hc : SingleFlight.Coherent expiry.ttlFor s.cache) (hs : Batch.Conserved s.processor)
    {e : Event ρ} (hm : Moves expiry config service s e t) : Placed t := by
  cases hm with
  | lookup => exact h.same rfl rfl rfl rfl rfl
  | enter _ hloads => exact h.same hloads rfl rfl rfl rfl
  | load _ _ hloads => exact h.startLoad hl hloads
  | @reserve i lookup processor hmessage hprocessor =>
    obtain ⟨hresponse, hsend, -⟩ := message_eq_some hmessage
    unfold Batch.State.reserve at hprocessor
    split at hprocessor <;> try contradiction
    split at hprocessor <;> try contradiction
    rename_i channel hchannel
    obtain rfl := Option.some.inj hprocessor
    refine h.moveMessage hmessage (by decide) ?_ ?_ (fun l hmem => hmem) (fun heq => by cases heq)
    · intro j hj
      exact (List.mem_cons.mp hj).imp_left fun heq => heq.trans hresponse
    · intro l
      rw [(Channel.reserve_granted hchannel).2.2.1, List.mem_append, List.mem_singleton]
      refine or_congr ⟨fun hmem => ⟨hmem, hl.granted_ne hsend (by decide) hmem⟩, And.left⟩ ?_
      simp
  | @push i lookup processor hmessage hprocessor =>
    obtain ⟨hresponse, -⟩ := message_eq_some hmessage
    obtain ⟨channel, hchannel, rfl⟩ := Option.map_eq_some_iff.mp hprocessor
    obtain ⟨hmem, -, hgranted, -⟩ := Channel.push_eq_some hchannel
    refine h.moveMessage hmessage (by decide) (fun j hj => .inr hj) ?_
      (fun l hmem => List.mem_append_left _ hmem) (fun _ => List.mem_append_right _ (by simp))
    intro l
    rw [hgranted, mem_erase_granted hs.fresh hmem, hresponse]
    simp
  | @sendError i lookup cache hmessage _ hcache =>
    obtain ⟨-, hsend, -⟩ := message_eq_some hmessage
    obtain ⟨k, r, hload, hloads⟩ := SingleFlight.finish_loads hcache
    refine h.endLoad s.processor hload (by simp) hloads rfl (fun l => ?_) rfl
    exact ⟨fun hmem => ⟨hmem, hl.granted_ne hsend (by decide) hmem⟩, And.left⟩
  | @receive i lookup disposal cache hmessage _ hcache =>
    obtain ⟨-, hsend, -⟩ := message_eq_some hmessage
    obtain ⟨k, r, hload, hloads⟩ := SingleFlight.finish_loads hcache
    refine h.endLoad (s.processor.dropReceiver i) hload (by simp) hloads rfl (fun l => ?_) rfl
    exact ⟨fun hmem => ⟨hmem, hl.granted_ne hsend (by decide) hmem⟩, And.left⟩
  | wake hcache => exact h.same (SingleFlight.wake_loads hcache) rfl rfl rfl rfl
  | drop _ hloads => exact h.same hloads rfl rfl rfl rfl
  | @abandon r i key cache processor hcache hloads hphase hprocessor =>
    obtain ⟨caller, hcaller, hp, rfl⟩ := hphase
    have hok := hc.callers _ _ hcaller
    simp only [SingleFlight.CallerOk, hp] at hok
    have hend := h.endLoad processor hok.2.2 (by simp) hloads
    rcases hprocessor with ⟨hsend, rfl⟩ | ⟨hsend, hrevoke⟩ | ⟨hsend, rfl⟩
    · exact hend rfl (fun l => ⟨fun hmem => ⟨hmem, hl.granted_ne hsend (by decide) hmem⟩,
        And.left⟩) rfl
    · obtain ⟨channel, hchannel, rfl⟩ := Option.map_eq_some_iff.mp hrevoke
      obtain ⟨hmem, -, hgranted, -⟩ := Channel.revoke_eq_some hchannel
      refine hend rfl (fun l => ?_) rfl
      change l ∈ channel.granted ↔ _
      rw [hgranted]
      exact mem_erase_granted hs.fresh hmem
    · exact hend rfl (fun l => ⟨fun hmem => ⟨hmem, hl.granted_ne hsend (by decide) hmem⟩,
        And.left⟩) rfl
  | elapse => exact h.same rfl rfl rfl rfl rfl
  | evict => exact h.same rfl rfl rfl rfl rfl
  | process hown hprocessor =>
    have hp := Batch.step_moves hprocessor
    rw [hown] at hp
    obtain ⟨haccepted, hgranted, -⟩ := own_frame hp
    exact h.same rfl rfl (own_issued hp) hgranted haccepted
  | count => exact h.same rfl rfl rfl rfl rfl

theorem reachable_placed (h : (system expiry config service).Reachable s) : Placed s :=
  h.invariant placed_init fun _ _ _ hr hu he =>
    hu.moves (reachable_linked hr) (reachable_coherent hr) (reachable_conserved hr) (step_moves he)

end MojangApi.Lookup
