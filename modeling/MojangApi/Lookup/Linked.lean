import MojangApi.Lookup.Moves

/-! # Loads, messages and receivers belong together

A message in the queue is the one of the load with its number. Its receiver is
open exactly as long as that load runs, and a load that ends with a value got it
from a call whose names contain the key.
-/

namespace MojangApi.Lookup
open MojangApi Library

variable {ρ : Type*}

abbrev Loads := List (SingleFlight.Load Str (Option Uuid) UpstreamError)

/-- A message is the one of its load, whose future has come as far as `phase`. -/
def Sent (loads : Loads) (sends : List SendPhase) (phase : SendPhase)
    (lookup : Batch.PendingLookup) : Prop :=
  sends[lookup.response]? = some phase ∧
    ∃ load, loads[lookup.response]? = some load ∧ load.key = lookup.name

def Runs (loads : Loads) (i : ℕ) : Prop := ∃ load, loads[i]? = some load ∧ load.state = .running

/-- Some call that succeeded listed the name and gave this answer. -/
def Backed (processor : Batch.State) (name : Str) (value : Option Uuid) : Prop :=
  ∃ names profiles, (names, .ok profiles) ∈ processor.answered ∧ name ∈ names ∧
    value = Batch.lastProfile profiles name

structure Linked (s : State) : Prop where
  sends : s.sends.length = s.cache.loads.length
  keys : s.cache.callers.map SingleFlight.Caller.key = s.requests.map asciiLowercase
  granted : ∀ lookup ∈ s.processor.channel.granted, Sent s.cache.loads s.sends .granted lookup
  accepted : ∀ lookup ∈ s.processor.accepted, Sent s.cache.loads s.sends .receiving lookup
  gone : ∀ i ∈ s.processor.gone, i < s.cache.loads.length ∧ ¬ Runs s.cache.loads i
  waiting : ∀ lookup ∈ s.processor.accepted, lookup.response ∈ s.processor.gone ∨
    Runs s.cache.loads lookup.response
  backed : ∀ (i : ℕ) (key : Str) (q : ℕ) (value : Option Uuid) (time : ℕ),
    s.cache.loads[i]? = some ⟨key, q, .finished (.ok value) time⟩ → Backed s.processor key value

/-- What the processor's own moves leave alone. -/
theorem own_frame {config : Batch.BatchConfig} {service : Batch.MojangService ρ}
    {p p' : Batch.State} (h : Batch.Moves config service p true p') :
    p'.accepted = p.accepted ∧ p'.channel.granted = p.channel.granted ∧ p'.gone = p.gone ∧
      p.answered ⊆ p'.answered := by
  have same := List.Subset.refl p.answered
  cases h with
  | @collect lookup channel site _ _ hrecv =>
    have hgranted := (Channel.recv_item hrecv).2.1
    rcases Batch.collect_cases config (p.setChannel channel) lookup site with
      ⟨-, hc⟩ | ⟨-, hc⟩ <;> rw [hc] <;> exact ⟨rfl, hgranted, rfl, same⟩
  | answer => exact ⟨rfl, rfl, rfl, List.subset_append_left _ _⟩
  | _ => exact ⟨rfl, rfl, rfl, same⟩

/-- What the moves of the requesters leave alone. -/
def SameWork (p p' : Batch.State) : Prop :=
  p'.tasks = p.tasks ∧ p'.calls = p.calls ∧ p'.answered = p.answered ∧
    p'.disposals = p.disposals ∧ p'.panicked = p.panicked

theorem requester_frame {config : Batch.BatchConfig} {service : Batch.MojangService ρ}
    {p p' : Batch.State} (h : Batch.Moves config service p false p') : SameWork p p' := by
  cases h <;> exact ⟨rfl, rfl, rfl, rfl, rfl⟩

/-- A step either leaves the work of the processor alone, or is a move of its own. -/
theorem processor_cases {expiry : Cache.OptionalValueExpiry} {config : Batch.BatchConfig}
    {service : Batch.MojangService ρ} {s t : State} {e : Event ρ}
    (h : Moves expiry config service s e t) :
    SameWork s.processor t.processor ∨ t = s.setProcessor t.processor ∧
      Batch.Moves config service s.processor true t.processor := by
  have same : ∀ p : Batch.State, SameWork p p := fun _ => ⟨rfl, rfl, rfl, rfl, rfl⟩
  cases h with
  | reserve _ hprocessor =>
    have hmoves : Batch.Moves config service s.processor false _ := Batch.moves_of_reserve hprocessor
    exact .inl (requester_frame hmoves)
  | push _ hprocessor =>
    obtain ⟨channel, hchannel, rfl⟩ := Option.map_eq_some_iff.mp hprocessor
    exact .inl (same s.processor)
  | abandon _ _ _ hprocessor =>
    rcases hprocessor with ⟨-, rfl⟩ | ⟨-, hrevoke⟩ | ⟨-, rfl⟩
    · exact .inl (same _)
    · obtain ⟨channel, hchannel, rfl⟩ := Option.map_eq_some_iff.mp hrevoke
      exact .inl (same s.processor)
    · exact .inl (same s.processor)
  | process hown hprocessor =>
    have hmoves := Batch.step_moves hprocessor
    rw [hown] at hmoves
    exact .inr ⟨rfl, hmoves⟩
  | _ => exact .inl (same s.processor)

section Loads
variable {loads loads' : Loads} {sends sends' : List SendPhase} {phase : SendPhase}
  {lookup : Batch.PendingLookup} {i j r : ℕ} {key : Str}

theorem Sent.append (h : Sent loads sends phase lookup)
    (load : SingleFlight.Load Str (Option Uuid) UpstreamError) (phase' : SendPhase) :
    Sent (loads ++ [load]) (sends ++ [phase']) phase lookup := by
  obtain ⟨hsend, l, hl, hkey⟩ := h
  exact ⟨getElem?_append_of_some hsend _, l, getElem?_append_of_some hl _, hkey⟩

/-- Another message moves on. -/
theorem Sent.setSend (h : Sent loads sends phase lookup) (hne : i ≠ lookup.response)
    (phase' : SendPhase) : Sent loads (sends.set i phase') phase lookup :=
  ⟨by rw [List.getElem?_set_ne hne]; exact h.1, h.2⟩

theorem Sent.setLoad (h : Sent loads sends phase lookup) (hi : loads[i]? = some ⟨key, r, .running⟩)
    (st : SingleFlight.LoadState (Option Uuid) UpstreamError) :
    Sent (loads.set i ⟨key, r, st⟩) sends phase lookup := by
  obtain ⟨hsend, l, hl, hkey⟩ := h
  refine ⟨hsend, ?_⟩
  rw [getElem?_set_some hi]
  by_cases hij : i = lookup.response
  · subst hij
    obtain rfl := Option.some.inj (hi.symm.trans hl)
    exact ⟨_, if_pos rfl, hkey⟩
  · exact ⟨l, by rw [if_neg hij, hl], hkey⟩

theorem runs_append_iff {load : SingleFlight.Load Str (Option Uuid) UpstreamError}
    (hj : j < loads.length) : Runs (loads ++ [load]) j ↔ Runs loads j := by
  simp [Runs, List.getElem?_append_left hj]

/-- Ending a load changes which loads run at its own number only. -/
theorem runs_set_iff (hi : loads[i]? = some ⟨key, r, .running⟩)
    {st : SingleFlight.LoadState (Option Uuid) UpstreamError} (hst : st ≠ .running) :
    Runs (loads.set i ⟨key, r, st⟩) j ↔ Runs loads j ∧ j ≠ i := by
  unfold Runs
  rw [getElem?_set_some hi]
  by_cases hij : i = j
  · subst hij
    simp [hst]
  · simp [hij, Ne.symm hij]

end Loads

section Preservation
variable {expiry : Cache.OptionalValueExpiry} {config : Batch.BatchConfig}
  {service : Batch.MojangService ρ} {s t : State}

theorem linked_init : Linked (system expiry config service).init where
  sends := rfl
  keys := rfl
  granted := by simp [system, Batch.State.init, Channel.empty]
  accepted := by simp [system, Batch.State.init]
  gone := by simp [system, Batch.State.init]
  waiting := by simp [system, Batch.State.init]
  backed := by simp [system]

/-- A caller moves on without touching loads or queue. -/
theorem Linked.moveCaller (h : Linked s) (metrics : Metrics) {cache : CacheState}
    {requests : List Str} (hloads : cache.loads = s.cache.loads)
    (hkeys : cache.callers.map SingleFlight.Caller.key = requests.map asciiLowercase) :
    Linked ⟨cache, requests, s.sends, s.processor.count metrics⟩ where
  sends := by simpa [hloads] using h.sends
  keys := hkeys
  granted := by simpa [hloads] using h.granted
  accepted := by simpa [hloads] using h.accepted
  gone := by simpa [hloads] using h.gone
  waiting := by simpa [hloads] using h.waiting
  backed := by simpa [hloads, Backed] using h.backed

/-- A new load has no message yet. -/
theorem Linked.startLoad (h : Linked s) {cache : CacheState} {metrics : Metrics} {key : Str} {r : ℕ}
    (hloads : cache.loads = s.cache.loads ++ [⟨key, r, .running⟩])
    (hkeys : cache.callers.map SingleFlight.Caller.key = s.requests.map asciiLowercase) :
    Linked ⟨cache, s.requests, s.sends ++ [.sending], s.processor.count metrics⟩ where
  sends := by simp [hloads, h.sends]
  keys := hkeys
  granted lookup hmem := hloads ▸ (h.granted lookup hmem).append _ _
  accepted lookup hmem := hloads ▸ (h.accepted lookup hmem).append _ _
  gone i hmem := by
    obtain ⟨hi, hruns⟩ := h.gone i hmem
    rw [hloads, runs_append_iff hi, List.length_append]
    exact ⟨Nat.lt_add_right _ hi, hruns⟩
  waiting lookup hmem := by
    obtain ⟨-, load, hload, -⟩ := h.accepted lookup hmem
    rw [hloads, runs_append_iff (List.getElem?_eq_some_iff.mp hload).1]
    exact h.waiting lookup hmem
  backed i key q value time hload := by
    rw [hloads] at hload
    rcases getElem?_append_some _ hload with hload | ⟨-, hload⟩
    · exact h.backed i key q value time hload
    · cases hload

/-- The message of a running load goes from one phase to the next. -/
theorem Linked.moveMessage (h : Linked s) {i : ℕ} {phase phase' : SendPhase}
    {lookup : Batch.PendingLookup} {processor : Batch.State}
    (hm : s.message i phase = some lookup) (hgone : processor.gone = s.processor.gone)
    (hanswered : processor.answered = s.processor.answered)
    (hgranted : ∀ l ∈ processor.channel.granted, l ∈ s.processor.channel.granted ∧
      i ≠ l.response ∨ l = lookup ∧ phase' = .granted)
    (haccepted : ∀ l ∈ processor.accepted, l ∈ s.processor.accepted ∧ i ≠ l.response ∨
      l = lookup ∧ phase' = .receiving) :
    Linked ((s.setProcessor processor).setSend i phase') := by
  obtain ⟨rfl, hsend, r, hload⟩ := message_eq_some hm
  have hnew : Sent s.cache.loads (s.sends.set lookup.response phase') phase' lookup :=
    ⟨by rw [getElem?_set_some hsend, if_pos rfl], _, hload, rfl⟩
  refine ⟨?_, h.keys, ?_, ?_, ?_, ?_, ?_⟩
  · exact (List.length_set ..).trans h.sends
  · intro l hl
    rcases hgranted l hl with ⟨hl, hne⟩ | ⟨rfl, rfl⟩
    · exact (h.granted l hl).setSend hne phase'
    · exact hnew
  · intro l hl
    rcases haccepted l hl with ⟨hl, hne⟩ | ⟨rfl, rfl⟩
    · exact (h.accepted l hl).setSend hne phase'
    · exact hnew
  · intro j hj
    exact h.gone j (hgone ▸ hj)
  · intro l hl
    rcases haccepted l hl with ⟨hl, -⟩ | ⟨rfl, -⟩
    · exact (h.waiting l hl).imp_left fun hmem => hgone.symm ▸ hmem
    · exact .inr ⟨_, hload, rfl⟩
  · intro j key q value time hfinished
    obtain ⟨names, profiles, hmem, hrest⟩ := h.backed j key q value time hfinished
    exact ⟨names, profiles, hanswered.symm ▸ hmem, hrest⟩

theorem sends_ne_of_sent {loads : Loads} {sends : List SendPhase} {phase phase' : SendPhase}
    {i : ℕ} {l : Batch.PendingLookup} (hi : sends[i]? = some phase)
    (h : Sent loads sends phase' l) (hne : phase ≠ phase') : i ≠ l.response := by
  rintro rfl
  exact hne (Option.some.inj (hi.symm.trans h.1))

theorem Linked.reserve (h : Linked s) {i : ℕ} {lookup : Batch.PendingLookup}
    {processor : Batch.State} (hm : s.message i .sending = some lookup)
    (hp : s.processor.reserve lookup = some processor) :
    Linked ((s.setProcessor processor).setSend i .granted) := by
  obtain ⟨-, hsend, -⟩ := message_eq_some hm
  unfold Batch.State.reserve at hp
  split at hp <;> try contradiction
  split at hp <;> try contradiction
  rename_i channel hchannel
  obtain rfl := Option.some.inj hp
  refine h.moveMessage hm rfl rfl ?_ ?_
  · intro l hl
    rw [(Channel.reserve_granted hchannel).2.2.1] at hl
    rcases List.mem_append.mp hl with hl | hl
    · exact .inl ⟨hl, sends_ne_of_sent hsend (h.granted l hl) (by decide)⟩
    · exact .inr ⟨List.mem_singleton.mp hl, rfl⟩
  · intro l hl
    exact .inl ⟨hl, sends_ne_of_sent hsend (h.accepted l hl) (by decide)⟩

theorem Linked.push (h : Linked s) (hfresh : Batch.Fresh s.processor) {i : ℕ}
    {lookup : Batch.PendingLookup} {processor : Batch.State}
    (hm : s.message i .granted = some lookup) (hp : s.processor.push lookup = some processor) :
    Linked ((s.setProcessor processor).setSend i .receiving) := by
  obtain ⟨rfl, hsend, -⟩ := message_eq_some hm
  obtain ⟨channel, hchannel, rfl⟩ := Option.map_eq_some_iff.mp hp
  obtain ⟨hmem, -, hgranted, -⟩ := Channel.push_eq_some hchannel
  refine h.moveMessage hm rfl rfl ?_ ?_
  · intro l hl
    change l ∈ channel.granted at hl
    rw [hgranted] at hl
    have hnodup : (Batch.responses (lookup :: s.processor.channel.granted.erase lookup)).Nodup := by
      have hsub := hfresh.1.sublist ((List.sublist_append_right _ _).map _)
      exact ((List.perm_cons_erase hmem).map _).nodup_iff.mp hsub
    refine .inl ⟨List.mem_of_mem_erase hl, fun heq => ?_⟩
    exact (List.nodup_cons.mp hnodup).1 (heq ▸ List.mem_map_of_mem hl)
  · intro l hl
    rcases List.mem_append.mp hl with hl | hl
    · exact .inl ⟨hl, sends_ne_of_sent hsend (h.accepted l hl) (by decide)⟩
    · exact .inr ⟨List.mem_singleton.mp hl, rfl⟩

/-- The processor goes on by itself. -/
theorem Linked.process (h : Linked s) {processor : Batch.State}
    (hp : Batch.Moves config service s.processor true processor) :
    Linked (s.setProcessor processor) := by
  obtain ⟨haccepted, hgranted, hgone, hanswered⟩ := own_frame hp
  refine ⟨h.sends, h.keys, ?_, ?_, ?_, ?_, ?_⟩
  · exact fun l hl => h.granted l (hgranted ▸ hl)
  · exact fun l hl => h.accepted l (haccepted ▸ hl)
  · exact fun i hi => h.gone i (hgone ▸ hi)
  · exact fun l hl => (h.waiting l (haccepted ▸ hl)).imp_left fun hmem => hgone.symm ▸ hmem
  · intro j key q value time hfinished
    obtain ⟨names, profiles, hmem, hrest⟩ := h.backed j key q value time hfinished
    exact ⟨names, profiles, hanswered hmem, hrest⟩

/-- A load ends; unless its message was never accepted, its receiver goes with it. -/
theorem Linked.endLoad (h : Linked s) {cache : CacheState} (processor : Batch.State) {i r : ℕ}
    {key : Str} {st : SingleFlight.LoadState (Option Uuid) UpstreamError}
    (hload : s.cache.loads[i]? = some ⟨key, r, .running⟩) (hst : st ≠ .running)
    (hloads : cache.loads = s.cache.loads.set i ⟨key, r, st⟩)
    (hkeys : cache.callers.map SingleFlight.Caller.key = s.cache.callers.map SingleFlight.Caller.key)
    (hgranted : processor.channel.granted ⊆ s.processor.channel.granted)
    (haccepted : processor.accepted = s.processor.accepted)
    (hanswered : processor.answered = s.processor.answered)
    (hgone : processor.gone = i :: s.processor.gone ∨
      processor.gone = s.processor.gone ∧ s.sends[i]? ≠ some .receiving)
    (hbacked : ∀ value time, st = .finished (.ok value) time → Backed s.processor key value) :
    Linked ((s.setCache cache).setProcessor processor) := by
  have hlength : cache.loads.length = s.cache.loads.length := by simp [hloads]
  have hsubset : s.processor.gone ⊆ processor.gone := by
    rcases hgone with hgone | ⟨hgone, -⟩ <;> rw [hgone]
    · exact List.subset_cons_self _ _
    · exact List.Subset.refl _
  refine ⟨h.sends.trans hlength.symm, hkeys.trans h.keys, ?_, ?_, ?_, ?_, ?_⟩
  · intro l hl
    exact hloads ▸ (h.granted l (hgranted hl)).setLoad hload st
  · intro l hl
    exact hloads ▸ (h.accepted l (haccepted ▸ hl)).setLoad hload st
  · intro j hj
    change _ < cache.loads.length ∧ ¬ Runs cache.loads j
    rw [hlength, hloads, runs_set_iff hload hst]
    by_cases hji : j = i
    · exact ⟨hji ▸ (List.getElem?_eq_some_iff.mp hload).1, fun hruns => hruns.2 hji⟩
    · have hold : j ∈ s.processor.gone := by
        rcases hgone with hgone | ⟨hgone, -⟩
        · exact (List.mem_cons.mp (hgone ▸ hj)).resolve_left hji
        · exact hgone ▸ hj
      exact ⟨(h.gone j hold).1, fun hruns => (h.gone j hold).2 hruns.1⟩
  · intro l hl
    have hl' : l ∈ s.processor.accepted := haccepted ▸ hl
    change l.response ∈ processor.gone ∨ Runs cache.loads l.response
    rw [hloads, runs_set_iff hload hst]
    rcases h.waiting l hl' with hmem | hruns
    · exact .inl (hsubset hmem)
    · by_cases hji : l.response = i
      · rcases hgone with hgone | ⟨-, hsend⟩
        · exact .inl (by simp [hgone, hji])
        · exact absurd (hji ▸ (h.accepted l hl').1) hsend
      · exact .inr ⟨hruns, hji⟩
  · intro j key' q value time hfinished
    change cache.loads[j]? = _ at hfinished
    rw [hloads, getElem?_set_some hload] at hfinished
    by_cases hij : i = j
    · rw [if_pos hij] at hfinished
      cases Option.some.inj hfinished
      obtain ⟨names, profiles, hmem, hrest⟩ := hbacked value time rfl
      exact ⟨names, profiles, hanswered.symm ▸ hmem, hrest⟩
    · rw [if_neg hij] at hfinished
      obtain ⟨names, profiles, hmem, hrest⟩ := h.backed j key' q value time hfinished
      exact ⟨names, profiles, hanswered.symm ▸ hmem, hrest⟩

/-- A value received over the response channel of a load answers the key of the load. -/
theorem Linked.backed_of_received (h : Linked s) {aborted : Prop}
    (hs : Batch.ExplainedOr (Batch.Lost aborted s.processor) s.processor) {i r : ℕ}
    {key : Str} {disposal : Batch.Disposal} {value : Option Uuid}
    (hload : s.cache.loads[i]? = some ⟨key, r, .running⟩)
    (hdisposal : (i, disposal) ∈ s.processor.disposals)
    (hvalue : disposal.received = .ok value) : Backed s.processor key value := by
  cases disposal with
  | dropped => cases hvalue
  | sent result =>
    obtain ⟨lookup, haccepted, hresponse, names, answer, hanswer, hname, hreply⟩ :=
      (hs _ hdisposal).resolve_right fun hlost => by cases hlost.1
    change lookup.response = i at hresponse
    obtain ⟨-, load, hl, hkey⟩ := h.accepted lookup haccepted
    rw [hresponse, hload] at hl
    obtain rfl := Option.some.inj hl
    change result = .ok value at hvalue
    rw [hvalue] at hreply
    cases answer with
    | error error => cases hreply
    | ok profiles =>
      change key = lookup.name at hkey
      exact ⟨names, profiles, hanswer, hkey ▸ hname, hkey ▸ Except.ok.inj hreply⟩

theorem Linked.moves (h : Linked s) (hc : SingleFlight.Coherent expiry.ttlFor s.cache)
    (hfresh : Batch.Fresh s.processor) {aborted : Prop}
    (hs : Batch.ExplainedOr (Batch.Lost aborted s.processor) s.processor) {e : Event ρ}
    (hm : Moves expiry config service s e t) : Linked t := by
  cases hm with
  | lookup name => 
    exact h.moveCaller s.processor.metrics rfl (by simp [SingleFlight.State.call, h.keys])
  | enter hcache hloads =>
    exact h.moveCaller _ hloads ((SingleFlight.enter_keys hcache).trans h.keys)
  | load hcache _ hloads =>
    exact h.startLoad hloads ((SingleFlight.enter_keys hcache).trans h.keys)
  | reserve hmessage hprocessor => exact h.reserve hmessage hprocessor
  | push hmessage hprocessor => exact h.push hfresh hmessage hprocessor
  | sendError hmessage _ hcache =>
    obtain ⟨k, r, hload, hloads⟩ := SingleFlight.finish_loads hcache
    obtain ⟨-, hsend, -⟩ := message_eq_some hmessage
    exact h.endLoad _ hload (by simp) hloads (SingleFlight.finish_keys hcache)
      (List.Subset.refl _) rfl rfl (.inr ⟨rfl, by simp [hsend]⟩) (by simp)
  | receive hmessage hdisposal hcache =>
    obtain ⟨k, r, hload, hloads⟩ := SingleFlight.finish_loads hcache
    refine h.endLoad _ hload (by simp) hloads (SingleFlight.finish_keys hcache)
      (List.Subset.refl _) rfl rfl (.inl rfl) ?_
    intro value time hst
    exact h.backed_of_received hs hload hdisposal (SingleFlight.LoadState.finished.inj hst).1
  | wake hcache =>
    exact h.moveCaller _ (SingleFlight.wake_loads hcache)
      ((SingleFlight.wake_keys hcache).trans h.keys)
  | drop hcache hloads =>
    exact h.moveCaller s.processor.metrics hloads
      ((SingleFlight.drop_keys hcache).trans h.keys)
  | @abandon r i key cache processor hcache hloads hphase hprocessor =>
    obtain ⟨caller, hcaller, hp, rfl⟩ := hphase
    have hok := hc.callers _ _ hcaller
    simp only [SingleFlight.CallerOk, hp] at hok
    have hend := h.endLoad processor hok.2.2 (by simp) hloads (SingleFlight.drop_keys hcache)
    rcases hprocessor with ⟨hsend, rfl⟩ | ⟨hsend, hrevoke⟩ | ⟨-, rfl⟩
    · exact hend (List.Subset.refl _) rfl rfl (.inr ⟨rfl, by simp [hsend]⟩) (by simp)
    · obtain ⟨channel, hchannel, rfl⟩ := Option.map_eq_some_iff.mp hrevoke
      have hsub : channel.granted ⊆ s.processor.channel.granted := by
        rw [(Channel.revoke_eq_some hchannel).2.2.1]
        exact List.erase_subset
      exact hend hsub rfl rfl (.inr ⟨rfl, by simp [hsend]⟩) (by simp)
    · exact hend (List.Subset.refl _) rfl rfl (.inl rfl) (by simp)
  | elapse d => exact h.moveCaller s.processor.metrics rfl h.keys
  | evict name => exact h.moveCaller s.processor.metrics rfl h.keys
  | process hown hprocessor =>
    have hp := Batch.step_moves hprocessor
    rw [hown] at hp
    exact h.process hp
  | count metrics => exact h.moveCaller metrics rfl h.keys

theorem reachable_linked (h : (system expiry config service).Reachable s) : Linked s :=
  h.invariant linked_init fun _ _ _ hr hu he =>
    hu.moves (reachable_coherent hr) (reachable_conserved hr).fresh
      ((reachable_conserved hr).explainedOr (Batch.Lost False _)) (step_moves he)

end Preservation
end MojangApi.Lookup
