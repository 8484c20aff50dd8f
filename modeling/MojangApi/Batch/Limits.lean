import MojangApi.Batch.Delivery

/-! # Batch, concurrency and backlog limits

The pending lookups stay below the batch size, a permit is held exactly as long
as its task, and the lookups without an answer fit into the queue, the running
batches and one batch more.
-/

namespace MojangApi.Batch
open MojangApi Library

variable {ρ : Type*}

def Task.isCalling : Task → Bool
  | .calling _ => true
  | _ => false

/-- The number of calls in progress. -/
def State.inProgress (s : State) : ℕ := (s.tasks.filter Task.isCalling).length

def State.unfinished (s : State) : ℕ := (s.tasks.map Task.unfinished).sum

def State.isResolved (s : State) (lookup : PendingLookup) : Bool :=
  (s.disposals.map Prod.fst).contains lookup.response

/-- The accepted lookups whose sender is still somewhere. -/
def State.unresolved (s : State) : List PendingLookup :=
  s.accepted.filter fun lookup => !s.isResolved lookup

/-- How much is collected at each point. -/
def PointSized (size : ℕ) (pending : List PendingLookup) : Point → Prop
  | .firstTick | .selecting | .draining => pending.length < size
  | .acquiring batch _ => batch ≠ [] ∧ batch.length ≤ size
  | .joining | .returned => True

structure Limited (config : BatchConfig) (s : State) : Prop where
  point : PointSized config.size s.pending s.point
  tasks : ∀ task ∈ s.tasks, task.lookups.length ≤ config.size * task.unfinished
  calls : ∀ call ∈ s.calls, 1 ≤ call.length ∧ call.length ≤ config.size
  permits : s.permits + s.unfinished = config.maxInFlightBatches
  capacity : s.channel.capacity = config.queueCapacity

section Preservation
variable {config : BatchConfig} {service : MojangService ρ} {s t : State} {own : Bool}

theorem limited_init (config : BatchConfig) : Limited config (.init config) where
  point := config.size_pos
  tasks := by simp [State.init]
  calls := by simp [State.init]
  permits := rfl
  capacity := rfl

theorem Limited.sized (h : Limited config s) {p : Point} (hp : s.point = p) :
    PointSized config.size s.pending p := hp ▸ h.point

theorem Limited.setPoint (h : Limited config s) {p : Point}
    (hp : PointSized config.size s.pending p) : Limited config (s.setPoint p) :=
  ⟨hp, h.tasks, h.calls, h.permits, h.capacity⟩

theorem Limited.setChannel (h : Limited config s) {channel : Channel PendingLookup}
    (hchannel : channel.capacity = s.channel.capacity) : Limited config (s.setChannel channel) :=
  ⟨h.point, h.tasks, h.calls, h.permits, hchannel.trans h.capacity⟩

theorem Limited.flush (h : Limited config s) {batch : List PendingLookup} (hne : batch ≠ [])
    (hle : batch.length ≤ config.size) (site : Site) : Limited config (s.flush batch site) :=
  ⟨⟨hne, hle⟩, h.tasks, h.calls, h.permits, h.capacity⟩

theorem Limited.collect (h : Limited config s) (hpoint : s.point = .selecting ∨ s.point = .draining)
    (lookup : PendingLookup) (site : Site) : Limited config (s.collect config lookup site) := by
  have hlt : s.pending.length < config.size := by
    rcases hpoint with hpoint | hpoint
    · exact h.sized hpoint
    · exact h.sized hpoint
  rcases collect_cases config s lookup site with ⟨-, hc⟩ | ⟨hroom, hc⟩ <;> rw [hc]
  · exact h.flush (by simp) (by simpa using Nat.succ_le_of_lt hlt) site
  · refine ⟨?_, h.tasks, h.calls, h.permits, h.capacity⟩
    rcases hpoint with hpoint | hpoint <;> rw [hpoint] <;> simpa [PointSized] using hroom

/-- A task ends and gives its permit back. -/
theorem Limited.endTask (h : Limited config s) {i : ℕ} {task : Task} {panicked : Bool}
    (htask : s.tasks[i]? = some task) (hrunning : task.unfinished = 1)
    (ht : t.tasks = s.tasks.set i (.finished panicked) ∧ t.permits = s.permits + 1 ∧
      t.point = s.point ∧ t.pending = s.pending ∧ t.calls = s.calls ∧ t.channel = s.channel) :
    Limited config t where
  point := by
    rw [ht.2.2.1, ht.2.2.2.1]
    exact h.point
  tasks task' hmem := by
    rw [ht.1] at hmem
    rcases List.mem_or_eq_of_mem_set hmem with hmem | rfl
    · exact h.tasks task' hmem
    · exact Nat.zero_le _
  calls := ht.2.2.2.2.1 ▸ h.calls
  permits := by
    have hsum := sum_set Task.unfinished htask (.finished panicked)
    have hpermits := h.permits
    rw [hrunning] at hsum
    change _ + 1 = _ + 0 at hsum
    rw [State.unfinished, ht.1, ht.2.1]
    rw [State.unfinished] at hpermits
    omega
  capacity := by
    rw [ht.2.2.2.2.2]
    exact h.capacity

/-- A flushed batch becomes a task that takes a permit. -/
theorem Limited.spawn (h : Limited config s) (hs : Conserved s) {batch : List PendingLookup}
    {site : Site} (hpoint : s.point = .acquiring batch site) (hpermits : 0 < s.permits) :
    Limited config { s with
      point := site.resume
      permits := s.permits - 1
      tasks := s.tasks ++ [.spawned batch] } where
  point := by
    have hpending := hs.flushed
    have hsize := config.size_pos
    simp only [Flushed, hpoint] at hpending
    cases site <;> simp [PointSized, Site.resume, hpending, hsize]
  tasks task hmem := by
    rcases List.mem_append.mp hmem with hmem | hmem
    · exact h.tasks task hmem
    · obtain rfl := List.mem_singleton.mp hmem
      simpa [Task.lookups, Task.unfinished] using (h.sized hpoint).2
  calls := h.calls
  permits := by
    have hsum := h.permits
    simp only [State.unfinished, List.map_append, List.sum_append, List.map_cons, List.map_nil,
      List.sum_cons, List.sum_nil, Task.unfinished] at hsum ⊢
    omega
  capacity := h.capacity

/-- A task asks for some of its lookups and keeps its permit. -/
theorem Limited.startCall (h : Limited config s) {i : ℕ} {batch kept : List PendingLookup}
    (htask : s.tasks[i]? = some (.spawned batch)) (hne : kept ≠ [])
    (hle : kept.length ≤ batch.length)
    (ht : t.tasks = s.tasks.set i (.calling kept) ∧ t.calls = s.calls ++ [names kept] ∧
      t.permits = s.permits ∧ t.point = s.point ∧ t.pending = s.pending ∧
      t.channel = s.channel) : Limited config t := by
  obtain ⟨htasks, hcalls, hpermits, hpoint, hpending, hchannel⟩ := ht
  have hbatch : batch.length ≤ config.size * 1 := h.tasks _ (List.mem_of_getElem? htask)
  refine ⟨?_, ?_, ?_, ?_, hchannel ▸ h.capacity⟩
  · rw [hpoint, hpending]
    exact h.point
  · intro task hmem
    rw [htasks] at hmem
    rcases List.mem_or_eq_of_mem_set hmem with hmem | rfl
    · exact h.tasks task hmem
    · exact Nat.le_trans hle hbatch
  · intro call hmem
    rw [hcalls] at hmem
    rcases List.mem_append.mp hmem with hmem | hmem
    · exact h.calls call hmem
    · obtain rfl := List.mem_singleton.mp hmem
      have hpos := List.length_pos_iff.mpr hne
      rw [names, List.length_map]
      omega
  · have hsum := sum_set Task.unfinished htask (.calling kept)
    have hheld := h.permits
    rw [← htasks] at hsum
    rw [State.unfinished] at hheld
    change _ + 1 = _ + 1 at hsum
    rw [State.unfinished, hpermits]
    omega

theorem Limited.moves (h : Limited config s) (hs : Conserved s)
    (hm : Moves config service s own t) : Limited config t := by
  cases hm with
  | reserve _ _ hchannel =>
    exact ⟨h.point, h.tasks, h.calls, h.permits,
      (Channel.reserve_granted hchannel).2.2.2.2.trans h.capacity⟩
  | push hchannel =>
    exact ⟨h.point, h.tasks, h.calls, h.permits,
      (Channel.push_eq_some hchannel).2.2.2.2.trans h.capacity⟩
  | revoke hchannel => exact h.setChannel (Channel.revoke_eq_some hchannel).2.2.2.2
  | dropReceiver => exact ⟨h.point, h.tasks, h.calls, h.permits, h.capacity⟩
  | dropSenders => exact ⟨h.point, h.tasks, h.calls, h.permits, h.capacity⟩
  | signalShutdown => exact ⟨h.point, h.tasks, h.calls, h.permits, h.capacity⟩
  | count => exact ⟨h.point, h.tasks, h.calls, h.permits, h.capacity⟩
  | firstTick hpoint =>
    have hsized := h.sized hpoint
    exact h.setPoint hsized
  | close hpoint =>
    have hsized := h.sized hpoint
    have hchannel : Limited config (s.setChannel s.channel.close) := h.setChannel rfl
    exact hchannel.setPoint hsized
  | @collect lookup channel site hpoint hsite hrecv =>
    refine (h.setChannel (Channel.recv_item hrecv).2.2.2).collect ?_ lookup site
    change s.point = .selecting ∨ s.point = .draining
    cases site
    · exact .inl hpoint
    · exact .inr hpoint
    · exact absurd rfl hsite
  | exhausted hpoint =>
    have hsized := h.sized hpoint
    exact h.setPoint hsized
  | tick hpoint hpending =>
    have hsized := h.sized hpoint
    exact h.flush hpending (Nat.le_of_lt hsized) .loop
  | idle => exact h
  | join htask =>
    refine ⟨h.point, fun task hmem => h.tasks task (List.mem_of_mem_eraseIdx hmem), h.calls, ?_,
      h.capacity⟩
    have hsum := sum_eraseIdx Task.unfinished htask
    have hpermits := h.permits
    rw [State.unfinished] at hpermits
    change _ + 0 = _ at hsum
    change s.permits + ((s.tasks.eraseIdx _).map Task.unfinished).sum = _
    omega
  | drained => exact h.setPoint trivial
  | lastBatch hpoint _ hpending =>
    have hsized := h.sized hpoint
    exact h.flush hpending (Nat.le_of_lt hsized) .final
  | spawn hpoint _ hpermits => exact h.spawn hs hpoint hpermits
  | reject _ hclosed => exact absurd hclosed (by simp [hs.unrejected.1])
  | finish => exact h.setPoint trivial
  | skip htask => exact h.endTask htask rfl ⟨rfl, rfl, rfl, rfl, rfl, rfl⟩
  | call htask hkept =>
    exact h.startCall htask hkept (List.length_filter_le _ _) ⟨rfl, rfl, rfl, rfl, rfl, rfl⟩
  | answer htask => exact h.endTask htask rfl ⟨rfl, rfl, rfl, rfl, rfl, rfl⟩
  | panic htask => exact h.endTask htask rfl ⟨rfl, rfl, rfl, rfl, rfl, rfl⟩

theorem reachable_limited (h : (processor config service).Reachable s) : Limited config s :=
  h.invariant (limited_init config) fun _ _ _ hr hu he =>
    hu.moves (reachable_conserved hr) (step_moves he)

end Preservation

section Backlog
variable {config : BatchConfig} {s : State}

/-- The senders that are held, pending or queued. -/
def State.outstanding (s : State) : List ℕ :=
  s.tasks.flatMap (fun task => responses task.lookups) ++ responses s.point.batch ++
    responses s.pending ++ responses s.channel.queue

theorem mem_outstanding_of_held {r : ℕ} (h : 0 < s.heldBy r) : r ∈ s.outstanding := by
  have hcount : (s.tasks.flatMap (fun task => responses task.lookups) ++
      responses s.point.batch).count r = s.heldBy r := by
    rw [List.count_append, List.count_flatMap, State.heldBy]
    rfl
  have hmem := List.count_pos_iff.mp (hcount ▸ h)
  exact List.mem_append_left _ (List.mem_append_left _ hmem)

theorem Conserved.outstanding_of_unresolved (h : Conserved s) {lookup : PendingLookup}
    (hmem : lookup ∈ s.unresolved) : lookup.response ∈ s.outstanding := by
  obtain ⟨haccepted, hresolved⟩ := List.mem_filter.mp hmem
  have hnot : (s.disposals.map Prod.fst).count lookup.response = 0 :=
    List.count_eq_zero.mpr (by simpa [State.isResolved] using hresolved)
  rw [h.inOrder] at haccepted
  rcases List.mem_append.mp haccepted with hl | hl
  · rcases List.mem_append.mp hl with hl | hl
    · have hhanded : 0 < (responses s.handed.flatten).count lookup.response :=
        List.count_pos_iff.mpr (List.mem_map_of_mem hl)
      have hcount := h.accounted lookup.response
      exact mem_outstanding_of_held (by omega)
    · exact List.mem_append_left _ (List.mem_append_right _ (List.mem_map_of_mem hl))
  · exact List.mem_append_right _ (List.mem_map_of_mem hl)

theorem Conserved.unresolved_le (h : Conserved s) : s.unresolved.length ≤ s.outstanding.length := by
  have hnodup : (responses s.unresolved).Nodup :=
    h.accepted_nodup.sublist (List.filter_sublist.map _)
  have hsub : responses s.unresolved ⊆ s.outstanding := by
    intro r hr
    obtain ⟨lookup, hl, rfl⟩ := List.mem_map.mp hr
    exact h.outstanding_of_unresolved hl
  simpa [responses] using (List.subperm_of_subset hnodup hsub).length_le

theorem Limited.outstanding_le (h : Limited config s) (hs : Conserved s) :
    s.outstanding.length ≤
      config.queueCapacity + config.size * (config.maxInFlightBatches + 1) := by
  have htasks := sum_le_mul_sum (l := s.tasks) h.tasks
  have hunfinished : config.size * s.unfinished ≤ config.size * config.maxInFlightBatches :=
    Nat.mul_le_mul_left _ (Nat.le.intro (Nat.add_comm _ _ ▸ h.permits))
  have hqueue := s.channel.bounded
  have hcollected : s.point.batch.length + s.pending.length ≤ config.size := by
    have hsized := h.point
    have hflushed := hs.flushed
    cases hp : s.point <;> rw [hp] at hsized <;> simp_all [PointSized, Flushed, Point.batch] <;> omega
  rw [h.capacity] at hqueue
  simp only [State.outstanding, List.length_append, List.length_flatMap, responses,
    List.length_map, Nat.mul_add, Nat.mul_one]
  rw [State.unfinished] at hunfinished
  omega

theorem Limited.pending_lt (h : Limited config s) (hs : Conserved s) :
    s.pending.length < config.size := by
  have hsized := h.point
  have hflushed := hs.flushed
  have hsize := config.size_pos
  cases hp : s.point <;> rw [hp] at hsized <;> simp_all [PointSized, Flushed]

/-- Every call in progress belongs to an unfinished task. -/
theorem inProgress_le (s : State) : s.inProgress ≤ s.unfinished := by
  unfold State.inProgress State.unfinished
  induction s.tasks with
  | nil => simp
  | cons task tasks ih =>
    cases task <;>
      simp only [Task.isCalling, Task.unfinished, List.filter_cons, List.map_cons, List.sum_cons,
        List.length_cons, Bool.false_eq_true, if_true, if_false] <;>
      omega

end Backlog

/-- The limits a configuration promises, in every reachable state. -/
theorem limits_hold (size interval queueCapacity maxInFlightBatches : ℕ) (config : BatchConfig)
    (hconfig : BatchConfig.new size interval queueCapacity maxInFlightBatches = .ok config)
    (service : MojangService ρ) (s : State) (h : (processor config service).Reachable s) :
    s.pending.length < size ∧
    (∀ call ∈ s.calls, 1 ≤ call.length ∧ call.length ≤ size) ∧
    s.inProgress ≤ maxInFlightBatches ∧
    s.permits + s.unfinished = maxInFlightBatches ∧
    s.unresolved.length ≤ queueCapacity + size * (maxInFlightBatches + 1) ∧
    s.rejected = [] := by
  obtain ⟨rfl, -, rfl, rfl⟩ := BatchConfig.new_ok hconfig
  have hs := reachable_conserved h
  have hl := reachable_limited h
  have hpermits := hl.permits
  have hprogress := inProgress_le s
  exact ⟨hl.pending_lt hs, hl.calls, by omega, hpermits,
    Nat.le_trans hs.unresolved_le (hl.outstanding_le hs), hs.unrejected.2⟩

/-- While the half-full batch of the shutdown is being looked up. -/
theorem limits_hold_halfFull : ∃ s,
    (processor smallConfig nobody).run (halfFullShutdown.take 9) = some s ∧ s.inProgress = 1 ∧
      s.permits + s.unfinished = 1 ∧ s.unresolved.length ≤ 4 + 2 * (1 + 1) := by
  have hrun : ((processor smallConfig nobody).run (halfFullShutdown.take 9)).map
      State.inProgress = some 1 := by rfl
  obtain ⟨s, hs, hprogress⟩ := Option.map_eq_some_iff.mp hrun
  obtain ⟨-, -, -, hpermits, hbacklog, -⟩ :=
    limits_hold 2 1 4 1 smallConfig rfl nobody s (Machine.reachable_of_run hs)
  exact ⟨s, hs, hprogress, hpermits, hbacklog⟩

end MojangApi.Batch
