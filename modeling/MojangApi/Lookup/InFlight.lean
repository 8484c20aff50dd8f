import MojangApi.Lookup.Distinct

/-! # One call for one name, as long as its requester stays

A call in progress outlives the load that asked for it: when the requester is
dropped, the cache forgets the load while the batch task goes on. A second load
of the name may then be dispatched beside the first call.
-/

namespace MojangApi.Lookup
open MojangApi Library

variable {ρ : Type*}

/-- The names a batch task has asked for and not yet got an answer to. -/
def asked : Batch.Task → List Str
  | .calling kept => Batch.names kept
  | _ => []

/-- How often the calls in progress list a name. -/
def callsFor (s : State) (name : Str) : ℕ :=
  (s.processor.tasks.map fun task => (asked task).count name).sum

/-- Whether a step starts no load of a name that a call in progress lists. With one permit
there is never a second call. -/
def startsNoSecondLoad (expiry : Cache.OptionalValueExpiry) (config : Batch.BatchConfig)
    (s : State) : Event ρ → Bool
  | .enter r => config.maxInFlightBatches = 1 ||
    (s.cache.callers[r]?).all fun caller =>
      (s.cache.live expiry.ttlFor caller.key).isSome || (s.cache.running caller.key).isSome ||
        callsFor s caller.key = 0
  | _ => true

/-- The calls in progress list no name twice, and a running load of a name that a call
lists is the one the call was made for. -/
structure Alone (s : State) : Prop where
  once : ∀ name, callsFor s name ≤ 1
  own : ∀ kept, .calling kept ∈ s.processor.tasks → ∀ lookup ∈ kept, ∀ (i : ℕ) load,
    s.cache.loads[i]? = some load → load.state = .running → load.key = lookup.name →
      i = lookup.response

section Counting
variable {s : State} {kept : List Batch.PendingLookup} {i : ℕ} {name : Str}

theorem exists_of_callsFor (h : 0 < callsFor s name) : ∃ (i : ℕ) (kept : List Batch.PendingLookup),
    s.processor.tasks[i]? = some (.calling kept) ∧ name ∈ Batch.names kept := by
  by_contra hnone
  have hzero : ∀ n ∈ s.processor.tasks.map fun task => (asked task).count name, n = 0 := by
    intro n hn
    obtain ⟨task, hmem, rfl⟩ := List.mem_map.mp hn
    obtain ⟨i, hi⟩ := List.mem_iff_getElem?.mp hmem
    cases task with
    | calling kept => exact List.count_eq_zero.mpr fun hname => hnone ⟨i, kept, hi, hname⟩
    | _ => rfl
  exact absurd (List.sum_eq_zero hzero) (Nat.ne_of_gt h)

end Counting

section Preservation
variable {expiry : Cache.OptionalValueExpiry} {config : Batch.BatchConfig}
  {service : Batch.MojangService ρ} {s t : State} {e : Event ρ}

/-- The calls go on while loads end. -/
theorem Alone.frame (h : Alone s) (htasks : t.processor.tasks = s.processor.tasks)
    (hloads : ∀ (i : ℕ) load, t.cache.loads[i]? = some load → load.state = .running →
      s.cache.loads[i]? = some load) : Alone t where
  once name := by
    rw [callsFor, htasks]
    exact h.once name
  own kept hmem lookup hl i load hload hrun hkey := by
    rw [htasks] at hmem
    exact h.own kept hmem lookup hl i load (hloads i load hload hrun) hrun hkey

theorem running_of_set {loads : Loads} {i j : ℕ} {load load' : SingleFlight.Load Str
    (Option Uuid) UpstreamError} (hstate : load'.state ≠ .running)
    (h : (loads.set i load')[j]? = some load) (hrun : load.state = .running) :
    loads[j]? = some load := by
  by_cases hij : i = j
  · rw [List.getElem?_set, if_pos hij] at h
    obtain rfl := Option.some.inj (Option.ite_none_right_eq_some.mp h).2
    exact absurd hrun hstate
  · rwa [List.getElem?_set_ne hij] at h

/-- A load of a name that no call lists. -/
theorem Alone.startLoad (h : Alone s) {r : ℕ} {key : Str} (hzero : callsFor s key = 0)
    (htasks : t.processor.tasks = s.processor.tasks)
    (hloads : t.cache.loads = s.cache.loads ++ [⟨key, r, .running⟩]) : Alone t where
  once name := by
    rw [callsFor, htasks]
    exact h.once name
  own kept hmem lookup hl i load hload hrun hkey := by
    rw [htasks] at hmem
    rw [hloads] at hload
    rcases getElem?_append_some _ hload with hload | ⟨-, rfl⟩
    · exact h.own kept hmem lookup hl i load hload hrun hkey
    · obtain ⟨j, hj⟩ := List.mem_iff_getElem?.mp hmem
      have hcount : (Batch.names kept).count key ≤ callsFor s key :=
        Nat.le.intro ((Nat.add_comm _ _).trans
          (sum_eraseIdx (fun task => (asked task).count key) hj))
      have hpos : 0 < (Batch.names kept).count key :=
        List.count_pos_iff.mpr (List.mem_map.mpr ⟨lookup, hl, hkey.symm⟩)
      omega

/-- The tasks change, but no call begins. -/
theorem Alone.tasks (h : Alone s) (hcache : t.cache = s.cache)
    (hle : ∀ name, callsFor t name ≤ callsFor s name)
    (hmem : ∀ kept, .calling kept ∈ t.processor.tasks → .calling kept ∈ s.processor.tasks) :
    Alone t where
  once name := Nat.le_trans (hle name) (h.once name)
  own kept hkept lookup hl i load hload hrun hkey := by
    rw [hcache] at hload
    exact h.own kept (hmem kept hkept) lookup hl i load hload hrun hkey

theorem Alone.endTask (h : Alone s) {i : ℕ} {task : Batch.Task} {panicked : Bool}
    (htask : s.processor.tasks[i]? = some task) (hcache : t.cache = s.cache)
    (htasks : t.processor.tasks = s.processor.tasks.set i (.finished panicked)) : Alone t := by
  apply h.tasks hcache
  · intro name
    have hsum := sum_set (fun task => (asked task).count name) htask (.finished panicked)
    rw [← htasks] at hsum
    change callsFor t name + _ = callsFor s name + 0 at hsum
    omega
  · intro kept hmem
    rw [htasks] at hmem
    exact (List.mem_or_eq_of_mem_set hmem).resolve_right (by simp)

/-- Two tasks never hold the sender of one response channel. -/
theorem response_held_once (hs : Batch.Conserved s.processor) {i j : ℕ} {task task' : Batch.Task}
    (hi : s.processor.tasks[i]? = some task) (hj : s.processor.tasks[j]? = some task') (hne : i ≠ j)
    {response : ℕ} (hr : response ∈ Batch.responses task.lookups) :
    response ∉ Batch.responses task'.lookups := by
  intro hr'
  have hsum := add_le_sum (fun task => (Batch.responses task.lookups).count response) hi hj hne
  have hpos := List.count_pos_iff.mpr hr
  have hpos' := List.count_pos_iff.mpr hr'
  have haccounted := hs.accounted response
  have hhanded := hs.count_handed_le response
  have haccepted := List.nodup_iff_count_le_one.mp hs.accepted_nodup response
  rw [Batch.State.heldBy] at haccounted
  omega

/-- No call in progress lists a name that the filter keeps. -/
theorem Alone.callsFor_kept (h : Alone s) (hl : Linked s) (hs : Batch.Conserved s.processor)
    {i : ℕ} {batch : List Batch.PendingLookup}
    (htask : s.processor.tasks[i]? = some (.spawned batch)) {lookup : Batch.PendingLookup}
    (hkept : lookup ∈ keptOf s batch) : callsFor s lookup.name = 0 := by
  by_contra hcalls
  obtain ⟨j, kept, hj, hname⟩ := exists_of_callsFor (Nat.pos_of_ne_zero hcalls)
  obtain ⟨lookup', hl', hname'⟩ := List.mem_map.mp hname
  obtain ⟨hmem, hopen⟩ := mem_keptOf.mp hkept
  have hhanded := hs.traced.1 _ (List.mem_of_getElem? htask)
  have haccepted := (batch_sublist_accepted hs hhanded).subset hmem
  obtain ⟨load, hload, hkey, hrun⟩ := hl.load_of_open haccepted hopen
  have hsame := h.own kept (List.mem_of_getElem? hj) lookup' hl' _ load hload hrun
    (hkey.trans hname'.symm)
  have hne : i ≠ j := by
    rintro rfl
    cases htask.symm.trans hj
  apply response_held_once hs htask hj hne (List.mem_map_of_mem hmem)
  rw [hsame]
  exact List.mem_map_of_mem hl'

theorem Alone.startCall (h : Alone s) (hc : SingleFlight.Coherent expiry.ttlFor s.cache)
    (hl : Linked s) (hs : Batch.Conserved s.processor) {i : ℕ} {batch : List Batch.PendingLookup}
    (htask : s.processor.tasks[i]? = some (.spawned batch)) (hcache : t.cache = s.cache)
    (htasks : t.processor.tasks = s.processor.tasks.set i (.calling (keptOf s batch))) :
    Alone t where
  once name := by
    have hsum := sum_set (fun task => (asked task).count name) htask (.calling (keptOf s batch))
    rw [← htasks] at hsum
    change callsFor t name + 0 = callsFor s name + (Batch.names (keptOf s batch)).count name at hsum
    have hhanded := hs.traced.1 _ (List.mem_of_getElem? htask)
    have hone := List.nodup_iff_count_le_one.mp (names_nodup hc hl hs hhanded) name
    have hold := h.once name
    by_cases hname : name ∈ Batch.names (keptOf s batch)
    · obtain ⟨lookup, hmem, rfl⟩ := List.mem_map.mp hname
      have hzero := h.callsFor_kept hl hs htask hmem
      omega
    · rw [List.count_eq_zero.mpr hname] at hsum
      omega
  own kept hmem lookup hmem' j load hload hrun hkey := by
    rw [htasks] at hmem
    rw [hcache] at hload
    rcases List.mem_or_eq_of_mem_set hmem with hmem | heq
    · exact h.own kept hmem lookup hmem' j load hload hrun hkey
    · obtain rfl := Batch.Task.calling.inj heq
      obtain ⟨hb, hopen⟩ := mem_keptOf.mp hmem'
      have hhanded := hs.traced.1 _ (List.mem_of_getElem? htask)
      obtain ⟨load', hload', hkey', hrun'⟩ :=
        hl.load_of_open ((batch_sublist_accepted hs hhanded).subset hb) hopen
      exact hc.single j _ load load' hload hload' hrun hrun' (hkey.trans hkey'.symm)

theorem Alone.process (h : Alone s) (hc : SingleFlight.Coherent expiry.ttlFor s.cache)
    (hl : Linked s) (hs : Batch.Conserved s.processor) {processor : Batch.State}
    (hp : Batch.Moves config service s.processor true processor) :
    Alone (s.setProcessor processor) := by
  cases hp with
  | @collect lookup channel site =>
    rcases Batch.collect_cases config (s.processor.setChannel channel) lookup site with
      ⟨-, hc⟩ | ⟨-, hc⟩ <;> rw [hc] <;> exact h.frame rfl fun _ _ hload _ => hload
  | join htask =>
    refine h.tasks rfl ?_ fun kept hmem => List.mem_of_mem_eraseIdx hmem
    intro name
    exact Nat.le.intro (sum_eraseIdx (fun task => (asked task).count name) htask)
  | @spawn batch =>
    refine h.tasks rfl ?_ ?_
    · intro name
      simp [callsFor, State.setProcessor, asked]
    · intro kept hmem
      simpa [State.setProcessor] using hmem
  | skip htask => exact h.endTask htask rfl rfl
  | call htask => exact h.startCall hc hl hs htask rfl rfl
  | answer htask => exact h.endTask htask rfl rfl
  | panic htask => exact h.endTask htask rfl rfl
  | _ => exact h.frame rfl fun _ _ hload _ => hload

/-- A caller that enters starts a load only of a name that no call lists. -/
theorem Alone.enter (h : Alone s) (hseveral : config.maxInFlightBatches ≠ 1) {r : ℕ}
    (hok : startsNoSecondLoad (ρ := ρ) expiry config s (.enter r) = true)
    (ht : s.enter expiry r = some t) : Alone t := by
  obtain ⟨cache, hcache, rfl⟩ := Option.map_eq_some_iff.mp ht
  obtain ⟨c, hr, -, ⟨entry, -, rfl⟩ | ⟨i, -, rfl⟩ | ⟨hlive, hrunning, rfl⟩⟩ :=
    SingleFlight.enter_cases hcache
  · rw [if_pos (by simp)]
    exact h.frame rfl fun _ _ hload _ => hload
  · rw [if_pos (by simp)]
    exact h.frame rfl fun _ _ hload _ => hload
  · rw [if_neg (by simp)]
    have hzero : callsFor s c.key = 0 := by
      simpa [startsNoSecondLoad, hseveral, hr, hlive, hrunning] using hok
    exact h.startLoad hzero rfl rfl

theorem Alone.moves (h : Alone s) (hc : SingleFlight.Coherent expiry.ttlFor s.cache)
    (hl : Linked s) (hs : Batch.Conserved s.processor) (hne : ∀ r, e ≠ .enter r)
    (hm : Moves expiry config service s e t) : Alone t := by
  cases hm with
  | enter => exact absurd rfl (hne _)
  | load => exact absurd rfl (hne _)
  | reserve _ hprocessor =>
    have hmoves : Batch.Moves config service s.processor false _ := Batch.moves_of_reserve hprocessor
    exact h.frame (requester_frame hmoves).1 fun _ _ hload _ => hload
  | push _ hprocessor =>
    obtain ⟨channel, -, rfl⟩ := Option.map_eq_some_iff.mp hprocessor
    exact h.frame rfl fun _ _ hload _ => hload
  | sendError _ _ hcache =>
    obtain ⟨k, r, -, hloads⟩ := SingleFlight.finish_loads hcache
    exact h.frame rfl fun _ _ hload hrun => running_of_set (by simp) (hloads ▸ hload) hrun
  | receive _ _ hcache =>
    obtain ⟨k, r, -, hloads⟩ := SingleFlight.finish_loads hcache
    exact h.frame rfl fun _ _ hload hrun => running_of_set (by simp) (hloads ▸ hload) hrun
  | wake hcache =>
    exact h.frame rfl fun _ _ hload _ => SingleFlight.wake_loads hcache ▸ hload
  | drop hcache hloads => exact h.frame rfl fun _ _ hload _ => hloads ▸ hload
  | abandon _ hloads _ hprocessor =>
    refine h.frame ?_ fun _ _ hload hrun => running_of_set (by simp) (hloads ▸ hload) hrun
    rcases hprocessor with ⟨-, rfl⟩ | ⟨-, hrevoke⟩ | ⟨-, rfl⟩
    · rfl
    · obtain ⟨channel, -, rfl⟩ := Option.map_eq_some_iff.mp hrevoke
      rfl
    · rfl
  | process hown hprocessor =>
    have hmoves := Batch.step_moves hprocessor
    rw [hown] at hmoves
    exact h.process hc hl hs hmoves
  | _ => exact h.frame rfl fun _ _ hload _ => hload

end Preservation

end MojangApi.Lookup
