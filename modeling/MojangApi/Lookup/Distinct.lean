import MojangApi.Lookup.Linked

/-! # No call asks for a name twice

The queue and the pending lookups may hold several messages for one name, left
behind by dropped requesters. An open receiver belongs to a running load, and
only one load of a name runs, so the filter leaves at most one of them.
-/

namespace MojangApi.Lookup
open MojangApi Library

variable {ρ : Type*} {expiry : Cache.OptionalValueExpiry} {config : Batch.BatchConfig}
  {service : Batch.MojangService ρ} {s t : State}

/-- What the filter of a batch task keeps. -/
def keptOf (s : State) (batch : List Batch.PendingLookup) : List Batch.PendingLookup :=
  Batch.openLookups s.processor.isClosed batch

theorem mem_keptOf {batch : List Batch.PendingLookup} {lookup : Batch.PendingLookup} :
    lookup ∈ keptOf s batch ↔ lookup ∈ batch ∧ lookup.response ∉ s.processor.gone := by
  simp [keptOf, Batch.mem_openLookups, Batch.State.isClosed]

theorem batch_sublist_accepted (hs : Batch.Conserved s.processor)
    {batch : List Batch.PendingLookup} (hmem : batch ∈ s.processor.handed) :
    batch.Sublist s.processor.accepted := by
  rw [hs.inOrder, List.append_assoc]
  exact (List.sublist_flatten_of_mem hmem).trans (List.sublist_append_left _ _)

/-- An accepted message with an open receiver is the one of a running load. -/
theorem Linked.load_of_open (h : Linked s) {lookup : Batch.PendingLookup}
    (hmem : lookup ∈ s.processor.accepted) (hopen : lookup.response ∉ s.processor.gone) :
    ∃ load, s.cache.loads[lookup.response]? = some load ∧ load.key = lookup.name ∧
      load.state = .running := by
  obtain ⟨-, load, hload, hkey⟩ := h.accepted lookup hmem
  obtain ⟨load', hload', hrun⟩ := (h.waiting lookup hmem).resolve_left hopen
  obtain rfl := Option.some.inj (hload.symm.trans hload')
  exact ⟨load, hload, hkey, hrun⟩

theorem response_inj (hs : Batch.Conserved s.processor) {l l' : Batch.PendingLookup}
    (hl : l ∈ s.processor.accepted) (hl' : l' ∈ s.processor.accepted)
    (hr : l.response = l'.response) : l = l' :=
  List.inj_on_of_nodup_map hs.accepted_nodup hl hl' hr

/-- Two open messages of one name are the same message. -/
theorem open_unique (hc : SingleFlight.Coherent expiry.ttlFor s.cache) (h : Linked s)
    (hs : Batch.Conserved s.processor) {l l' : Batch.PendingLookup}
    (hl : l ∈ s.processor.accepted) (hl' : l' ∈ s.processor.accepted)
    (hopen : l.response ∉ s.processor.gone) (hopen' : l'.response ∉ s.processor.gone)
    (hname : l.name = l'.name) : l = l' := by
  obtain ⟨a, ha, hka, hra⟩ := h.load_of_open hl hopen
  obtain ⟨b, hb, hkb, hrb⟩ := h.load_of_open hl' hopen'
  refine response_inj hs hl hl' (hc.single _ _ a b ha hb hra hrb ?_)
  rw [hka, hkb, hname]

theorem names_nodup (hc : SingleFlight.Coherent expiry.ttlFor s.cache) (h : Linked s)
    (hs : Batch.Conserved s.processor) {batch : List Batch.PendingLookup}
    (hmem : batch ∈ s.processor.handed) : (Batch.names (keptOf s batch)).Nodup := by
  have hsub := batch_sublist_accepted hs hmem
  have hnodup : (keptOf s batch).Nodup :=
    (List.Nodup.of_map _ hs.accepted_nodup).sublist (List.filter_sublist.trans hsub)
  refine List.Nodup.map_on ?_ hnodup
  intro l hl l' hl' hname
  obtain ⟨hb, hopen⟩ := mem_keptOf.mp hl
  obtain ⟨hb', hopen'⟩ := mem_keptOf.mp hl'
  exact open_unique hc h hs (hsub.subset hb) (hsub.subset hb') hopen hopen' hname

/-- A receiver is open as long as its requester waits in its loader. -/
theorem open_iff_loading (hc : SingleFlight.Coherent expiry.ttlFor s.cache) (h : Linked s)
    {lookup : Batch.PendingLookup} (hmem : lookup ∈ s.processor.accepted) :
    lookup.response ∉ s.processor.gone ↔
      ∃ (r : ℕ) (c : SingleFlight.Caller Str (Option Uuid) UpstreamError),
        s.cache.callers[r]? = some c ∧ c.phase = .loading lookup.response := by
  constructor
  · intro hopen
    obtain ⟨load, hload, -, hrun⟩ := h.load_of_open hmem hopen
    obtain ⟨⟨c, hr, hp⟩, -⟩ := hc.loads _ load hload hrun
    exact ⟨load.owner, c, hr, hp⟩
  · rintro ⟨r, c, hr, hp⟩ hgone
    have hok := hc.callers r c hr
    simp only [SingleFlight.CallerOk, hp] at hok
    exact (h.gone _ hgone).2 ⟨_, hok.2.2, rfl⟩

/-- The processor starts a call only from the filter of a batch task. -/
theorem calls_moves {e : Event ρ} (hm : Moves expiry config service s e t) :
    t.processor.calls = s.processor.calls ∨ ∃ (i : ℕ) (batch : List Batch.PendingLookup),
      s.processor.tasks[i]? = some (.spawned batch) ∧ keptOf s batch ≠ [] ∧
        t.processor.tasks = s.processor.tasks.set i (.calling (keptOf s batch)) ∧
        t.processor.calls = s.processor.calls ++ [Batch.names (keptOf s batch)] := by
  rcases processor_cases hm with ⟨-, hcalls, -⟩ | ⟨-, hmoves⟩
  · exact .inl hcalls
  · generalize t.processor = processor at hmoves
    cases hmoves with
    | @collect lookup channel site =>
      rcases Batch.collect_cases config (s.processor.setChannel channel) lookup
        site with ⟨-, hc⟩ | ⟨-, hc⟩ <;> rw [hc] <;> exact .inl rfl
    | @call i batch htask hkept => exact .inr ⟨i, batch, htask, hkept, rfl, rfl⟩
    | _ => exact .inl rfl

theorem pollTask_none {i : ℕ} {batch : List Batch.PendingLookup}
    (htask : s.processor.tasks[i]? = some (.spawned batch)) (hkept : keptOf s batch = [])
    (h : (system expiry config service).step s (.process (.pollTask i)) = some t) :
    t.processor.calls = s.processor.calls := by
  rw [keptOf] at hkept
  simp only [system, State.process, Batch.Event.own, Batch.Event.isDropSenders, Batch.processor,
    Batch.State.pollTask, htask, hkept] at h
  simp only [Bool.not_false, Bool.or_true, Bool.and_self, if_true, List.isEmpty_nil,
    Option.map_some, Option.some.injEq] at h
  subst h
  rfl

/-- Every call that a step starts has the distinct names of those lookups of one handed
batch, in their order, whose requesters still wait; a batch without any makes no call. -/
theorem calls_distinct (expiry : Cache.OptionalValueExpiry) (config : Batch.BatchConfig)
    (service : Batch.MojangService ρ) (s t : State) (e : Event ρ)
    (h : (system expiry config service).Reachable s)
    (ht : (system expiry config service).step s e = some t) :
    (t.processor.calls = s.processor.calls ∨
      ∃ (i : ℕ) (batch kept : List Batch.PendingLookup),
        s.processor.tasks[i]? = some (.spawned batch) ∧
        batch ∈ s.processor.handed ∧ batch.Sublist s.processor.accepted ∧
        kept = batch.filter (fun lookup => !s.processor.isClosed lookup.response) ∧
        (∀ lookup ∈ batch, lookup ∈ kept ↔ ∃ (r : ℕ) (c : SingleFlight.Caller Str (Option Uuid)
          UpstreamError), s.cache.callers[r]? = some c ∧ c.phase = .loading lookup.response) ∧
        kept ≠ [] ∧ (Batch.names kept).Nodup ∧
        t.processor.calls = s.processor.calls ++ [Batch.names kept]) ∧
    ∀ (i : ℕ) (batch : List Batch.PendingLookup), e = .process (.pollTask i) →
      s.processor.tasks[i]? = some (.spawned batch) →
      batch.filter (fun lookup => !s.processor.isClosed lookup.response) = [] →
      t.processor.calls = s.processor.calls := by
  have hc := reachable_coherent h
  have hl := reachable_linked h
  have hs := reachable_conserved h
  constructor
  · rcases calls_moves (step_moves ht) with hcalls | ⟨i, batch, htask, hkept, -, hcalls⟩
    · exact .inl hcalls
    · have hhanded := hs.traced.1 _ (List.mem_of_getElem? htask)
      have hsub := batch_sublist_accepted hs hhanded
      refine .inr ⟨i, batch, keptOf s batch, htask, hhanded, hsub, rfl, ?_, hkept,
        names_nodup hc hl hs hhanded, hcalls⟩
      intro lookup hmem
      rw [mem_keptOf, ← open_iff_loading hc hl (hsub.subset hmem)]
      exact ⟨And.right, fun hopen => ⟨hmem, hopen⟩⟩
  · rintro i batch rfl htask hkept
    exact pollTask_none htask hkept ht

/-- The batch of a lookup that has the system for itself. -/
theorem calls_distinct_sole : ∃ s t,
    (system .default Batch.smallConfig Batch.nobody).run
      ((soleLookup "STEVE".toList).take 8) = some s ∧
    (system .default Batch.smallConfig Batch.nobody).step s (.process (.pollTask 0)) = some t ∧
    t.processor.calls = s.processor.calls ++ [["steve".toList]] ∧
    ∃ kept, kept ≠ [] ∧ (Batch.names kept).Nodup ∧
      t.processor.calls = s.processor.calls ++ [Batch.names kept] := by
  have hrun : ((system .default Batch.smallConfig Batch.nobody).run
      ((soleLookup "STEVE".toList).take 8)).map (fun s => (s.processor.calls,
        ((system .default Batch.smallConfig Batch.nobody).step s (.process (.pollTask 0))).map
          fun t => t.processor.calls)) = some ([], some [["steve".toList]]) := by rfl
  obtain ⟨s, hs, hpair⟩ := Option.map_eq_some_iff.mp hrun
  obtain ⟨hbefore, hafter⟩ := Prod.mk.inj hpair
  obtain ⟨t, ht, hcalls⟩ := Option.map_eq_some_iff.mp hafter
  have hdistinct := (calls_distinct .default Batch.smallConfig Batch.nobody s t _
    (Machine.reachable_of_run hs) ht).1
  refine ⟨s, t, hs, ht, by simp [hbefore, hcalls], ?_⟩
  rcases hdistinct with hsame | ⟨-, -, kept, -, -, -, -, -, hkept, hnodup, hcalls⟩
  · simp [hbefore, hcalls] at hsame
  · exact ⟨kept, hkept, hnodup, hcalls⟩

end MojangApi.Lookup
