import MojangApi.Batch.Drain

/-! # `BatchProcessor::shutdown`

The owner signals the shutdown and waits for the processor's task, but only for so
long; then it aborts the task. With the task's future its queue, its lookups and its
set of batch tasks are dropped, and each batch task is cancelled in its own time. An
abort takes effect between two steps, and the processor may take some before it does.
-/

namespace MojangApi.Batch
open MojangApi Library

variable {ρ : Type*}

def batchShutdownTimeout : ℕ := Duration.fromSecs 30

/-- Where the owner is, and since when it waits for the processor. -/
inductive Owner where
  | running
  | waiting (since : ℕ)
  | aborting (since : ℕ)
  | returned (since : ℕ)
  deriving DecidableEq, Repr

/-- The processor with its owner; the flag tells that its future was dropped. -/
structure Owned where
  processor : State
  now : ℕ := 0
  owner : Owner := .running
  aborted : Bool := false

inductive OwnerEvent (ρ : Type*) where
  | processor (e : Event ρ)
  | elapse (d : ℕ)
  | shutdown
  | taskEnded
  | timeout
  | abort
  | cancelTask (i : ℕ)
  | freeQueue

/-- What is left to do when the processor's future was dropped. -/
def OwnerEvent.isCleanup : OwnerEvent ρ → Bool
  | .cancelTask _ | .freeQueue => true
  | _ => false

def Event.isSignalShutdown : Event ρ → Bool
  | .signalShutdown => true
  | _ => false

namespace State

/-- The future of `run_batch_processor` is dropped where it is suspended. -/
def drop (s : State) : State :=
  { s with
    channel := s.channel.dropReceiver
    pending := []
    point := .returned
    disposals := s.disposals ++
      droppedSenders (s.point.batch ++ s.pending ++ s.channel.queue) }

/-- A batch task that was aborted with its set drops its lookups. -/
def cancelTask (s : State) (i : ℕ) : Option State :=
  match s.tasks[i]? with
  | some (.spawned batch) => some ((s.dispose (droppedSenders batch)).endTask i false)
  | some (.calling kept) => some ((s.dispose (droppedSenders kept)).endTask i false)
  | _ => none

/-- With the last sender the channel is freed, and with it what was pushed too late. -/
def freeQueue (s : State) : Option State :=
  if s.sendersGone then some { s with
    channel := s.channel.dropReceiver
    disposals := s.disposals ++ droppedSenders s.channel.queue }
  else none

end State

namespace Owned

def setProcessor (s : Owned) (processor : State) : Owned := { s with processor := processor }

def shutdown (s : Owned) : Option Owned :=
  match s.owner with
  | .running => some { s with
      processor := { s.processor with shutdown := true }
      owner := .waiting s.now }
  | _ => none

/-- `timeout` looks at the task first, and an aborted task may still return by itself. -/
def taskEnded (s : Owned) : Option Owned :=
  match s.owner with
  | .waiting since | .aborting since =>
    if s.processor.point = .returned then some { s with owner := .returned since } else none
  | _ => none

def timeout (s : Owned) : Option Owned :=
  match s.owner with
  | .waiting since =>
    if since + batchShutdownTimeout ≤ s.now then some { s with owner := .aborting since } else none
  | _ => none

def abort (s : Owned) : Option Owned :=
  match s.owner with
  | .aborting _ =>
    if s.processor.point = .returned then none
    else some { s with processor := s.processor.drop, aborted := true }
  | _ => none

end Owned

def owned (config : BatchConfig) (service : MojangService ρ) :
    Machine Owned (OwnerEvent ρ) where
  init := { processor := .init config }
  step s
    | .processor e =>
      if e.isSignalShutdown then none
      else ((processor config service).step s.processor e).map s.setProcessor
    | .elapse d => some { s with now := s.now + d }
    | .shutdown => s.shutdown
    | .taskEnded => s.taskEnded
    | .timeout => s.timeout
    | .abort => s.abort
    | .cancelTask i => if s.aborted then (s.processor.cancelTask i).map s.setProcessor else none
    | .freeQueue => if s.aborted then s.processor.freeQueue.map s.setProcessor else none

section Dropped
variable {config : BatchConfig} {service : MojangService ρ} {s t : State} {own : Bool}

/-- Every sender of an accepted lookup is held, waits in the queue, or was disposed of. -/
def Balance (s : State) : Prop :=
  ∀ r, (s.disposals.map Prod.fst).count r + s.heldBy r + (responses s.channel.queue).count r =
    (responses s.accepted).count r

/-- A sender that was dropped for a reason outside of the processor. -/
def isDropped (p : ℕ × Disposal) : Prop := p.2 = .dropped

theorem droppedSenders_isDropped (lookups : List PendingLookup) :
    ∀ p ∈ droppedSenders lookups, isDropped p := by
  intro p hp
  obtain ⟨lookup, -, rfl⟩ := List.mem_map.mp hp
  rfl

/-- What stays true of a processor whose future was dropped. -/
structure Dropped (s : State) : Prop where
  point : s.point = .returned
  pending : s.pending = []
  closed : s.channel.closed = true
  balance : Balance s
  fresh : Fresh s
  unrejected : Unrejected s
  tasksAccepted : TasksAccepted s
  explained : ExplainedOr isDropped s

theorem Conserved.dropped (h : Conserved s) : Dropped s.drop where
  point := rfl
  pending := rfl
  closed := rfl
  balance := by
    intro r
    have horder := congrArg (fun l => (responses l).count r) h.inOrder
    have haccounted := h.accounted r
    simp only [responses_append, List.count_append] at horder
    simp only [State.heldBy, State.drop, Channel.dropReceiver, Point.batch, responses_nil,
      List.count_nil, List.map_append, List.count_append, droppedSenders_fst,
      responses_append] at haccounted ⊢
    omega
  fresh := h.fresh
  unrejected := h.unrejected
  tasksAccepted := h.tasksAccepted
  explained := by
    have same := fun (α : Type) (l : List α) => List.Subset.refl l
    exact (h.explainedOr isDropped).append rfl
      (fun p hp => .inr (droppedSenders_isDropped _ p hp)) (same _ _) (same _ _) (same _ _)
      (same _ _)

theorem Balance.setTask (h : Balance s) {i : ℕ} {task : Task}
    (htask : s.tasks[i]? = some task) (task' : Task) (disposals : List (ℕ × Disposal))
    (hbalance : ∀ r, (disposals.map Prod.fst).count r + (responses task'.lookups).count r =
      (responses task.lookups).count r)
    (ht : t.disposals = s.disposals ++ disposals ∧ t.tasks = s.tasks.set i task' ∧
      t.point = s.point ∧ t.channel = s.channel ∧ t.accepted = s.accepted) : Balance t := by
  intro r
  have hr := h r
  have hsum := sum_set (fun task => (responses task.lookups).count r) htask task'
  have hb := hbalance r
  simp only [State.heldBy, ht.1, ht.2.1, ht.2.2.1, ht.2.2.2.1, ht.2.2.2.2, List.map_append,
    List.count_append] at hr hsum ⊢
  omega

theorem Balance.moves (h : Balance s) (hpoint : s.point = .returned)
    (hm : Moves config service s own t) : Balance t := by
  cases hm with
  | reserve _ _ hchannel =>
    simpa [Balance, State.heldBy, (Channel.reserve_granted hchannel).2.1] using h
  | revoke hchannel =>
    simpa [Balance, State.heldBy, State.setChannel, (Channel.revoke_eq_some hchannel).2.1] using h
  | push hchannel =>
    intro r
    have hr := h r
    simp only [State.heldBy, (Channel.push_eq_some hchannel).2.1, responses_append,
      List.count_append] at hr ⊢
    omega
  | join htask =>
    intro r
    have hr := h r
    have hsum := sum_eraseIdx (fun task => (responses task.lookups).count r) htask
    simp only [State.heldBy, Task.lookups, responses, List.map_nil, List.count_nil] at hr hsum ⊢
    omega
  | @skip i batch htask hkept =>
    refine h.setTask htask (.finished false) _ ?_ ⟨rfl, rfl, rfl, rfl, rfl⟩
    intro r
    have hsplit := count_open_add_closed s.isClosed batch r
    rw [hkept] at hsplit
    simpa [Task.lookups] using hsplit
  | @call i batch htask hkept =>
    refine h.setTask htask (.calling (openLookups s.isClosed batch)) _ ?_ ⟨rfl, rfl, rfl, rfl, rfl⟩
    intro r
    simpa [Task.lookups] using count_open_add_closed s.isClosed batch r
  | @answer i kept htask outcome =>
    refine h.setTask htask (.finished false) _ ?_ ⟨rfl, rfl, rfl, rfl, rfl⟩
    intro r
    simp [Task.lookups, responses]
  | @panic i kept htask =>
    refine h.setTask htask (.finished true) _ ?_ ⟨rfl, rfl, rfl, rfl, rfl⟩
    intro r
    simp [Task.lookups, responses]
  | collect site hsite => cases site <;> simp_all [Site.resume]
  | firstTick hp => rw [hpoint] at hp; cases hp
  | close hp => rw [hpoint] at hp; cases hp
  | exhausted hp => rw [hpoint] at hp; cases hp
  | tick hp => rw [hpoint] at hp; cases hp
  | drained hp => rw [hpoint] at hp; cases hp
  | lastBatch hp => rw [hpoint] at hp; cases hp
  | spawn hp => rw [hpoint] at hp; cases hp
  | reject hp => rw [hpoint] at hp; cases hp
  | finish hp => rw [hpoint] at hp; cases hp
  | _ => exact h

theorem returned_moves (hpoint : s.point = .returned) (hm : Moves config service s own t) :
    t.point = .returned ∧ t.pending = s.pending := by
  cases hm
  case collect site hp _ _ => cases site <;> simp_all [Site.resume]
  all_goals first
    | exact ⟨hpoint, rfl⟩
    | simp_all

theorem TasksAccepted.setTask (h : TasksAccepted s) {i : ℕ} {task task' : Task}
    (htask : s.tasks[i]? = some task) (hsub : task'.lookups ⊆ task.lookups)
    (ht : t.tasks = s.tasks.set i task' ∧ t.accepted = s.accepted) : TasksAccepted t := by
  intro other hmem
  rw [ht.1] at hmem
  rw [ht.2]
  rcases List.mem_or_eq_of_mem_set hmem with hmem | rfl
  · exact h other hmem
  · exact List.Subset.trans hsub (h task (List.mem_of_getElem? htask))

/-- A dropped future spawns no more batch tasks. -/
theorem TasksAccepted.moves (h : TasksAccepted s) (hpoint : s.point = .returned)
    (hm : Moves config service s own t) : TasksAccepted t := by
  cases hm with
  | push =>
    exact fun task hmem => List.Subset.trans (h task hmem) (List.subset_append_left _ _)
  | join => exact fun task hmem => h task (List.mem_of_mem_eraseIdx hmem)
  | skip htask => exact h.setTask htask (List.nil_subset _) ⟨rfl, rfl⟩
  | call htask => exact h.setTask htask (List.filter_sublist.subset) ⟨rfl, rfl⟩
  | answer htask => exact h.setTask htask (List.nil_subset _) ⟨rfl, rfl⟩
  | panic htask => exact h.setTask htask (List.nil_subset _) ⟨rfl, rfl⟩
  | spawn hp => rw [hpoint] at hp; cases hp
  | @collect lookup channel site hp hsite _ => cases site <;> simp_all [Site.resume]
  | _ => exact h

theorem Dropped.moves (h : Dropped s) (hm : Moves config service s own t) : Dropped t where
  point := (returned_moves h.point hm).1
  pending := (returned_moves h.point hm).2.trans h.pending
  closed := (closedSince_moves ⟨h.closed, List.Subset.refl _⟩ hm).1
  balance := h.balance.moves h.point hm
  fresh := fresh_moves h.fresh hm
  unrejected := unrejected_moves h.unrejected hm
  tasksAccepted := h.tasksAccepted.moves h.point hm
  explained := explained_moves h.explained h.tasksAccepted h.unrejected.1 hm

theorem Dropped.cancelTask (h : Dropped s) {i : ℕ} (ht : s.cancelTask i = some t) :
    Dropped t := by
  unfold State.cancelTask at ht
  split at ht <;> try contradiction
  all_goals
    rename_i htask
    obtain rfl := Option.some.inj ht
    have same := fun (α : Type) (l : List α) => List.Subset.refl l
    refine ⟨h.point, h.pending, h.closed, ?_, h.fresh, h.unrejected, ?_, ?_⟩
    · refine h.balance.setTask htask (.finished false) _ ?_ ⟨rfl, rfl, rfl, rfl, rfl⟩
      intro r
      simp [Task.lookups]
    · exact h.tasksAccepted.setTask htask (List.nil_subset _) ⟨rfl, rfl⟩
    · exact h.explained.append rfl (fun p hp => .inr (droppedSenders_isDropped _ p hp)) (same _ _)
        (same _ _) (same _ _) (same _ _)

theorem Dropped.freeQueue (h : Dropped s) (ht : s.freeQueue = some t) : Dropped t := by
  unfold State.freeQueue at ht
  split at ht <;> try contradiction
  obtain rfl := Option.some.inj ht
  have same := fun (α : Type) (l : List α) => List.Subset.refl l
  refine ⟨h.point, h.pending, rfl, ?_, h.fresh, h.unrejected, h.tasksAccepted, ?_⟩
  · intro r
    have hr := h.balance r
    simp only [State.heldBy, Channel.dropReceiver, List.map_append, List.count_append,
      droppedSenders_fst, responses_nil, List.count_nil] at hr ⊢
    omega
  · exact h.explained.append rfl (fun p hp => .inr (droppedSenders_isDropped _ p hp)) (same _ _)
      (same _ _) (same _ _) (same _ _)

/-- What was lost in the abort had been accepted. -/
theorem Dropped.explainedOr (h : Dropped s) {aborted : Prop} (ha : aborted) :
    ExplainedOr (Lost aborted s) s := by
  intro p hp
  refine (h.explained p hp).imp_right fun hdropped => ⟨hdropped, ha, ?_⟩
  have hpos : 0 < (s.disposals.map Prod.fst).count p.1 :=
    List.count_pos_iff.mpr (List.mem_map_of_mem hp)
  have hbalance := h.balance p.1
  exact List.count_pos_iff.mp (by omega)

end Dropped

section Runs
variable {config : BatchConfig} {service : MojangService ρ} {s t : Owned}

/-- The processor runs as it does alone, until its owner aborts it, which is not before the
deadline. -/
structure Supervised (config : BatchConfig) (service : MojangService ρ) (s : Owned) : Prop where
  running : s.aborted = false → (processor config service).Reachable s.processor
  dropped : s.aborted = true → Dropped s.processor
  returned : ∀ since, s.owner = .returned since → s.processor.point = .returned
  deadline : ∀ since, s.owner = .aborting since → since + batchShutdownTimeout ≤ s.now
  late : s.aborted = true → ∃ since, (s.owner = .aborting since ∨ s.owner = .returned since) ∧
    since + batchShutdownTimeout ≤ s.now

theorem supervised_init : Supervised config service (owned config service).init where
  running _ := .init
  dropped h := by cases h
  returned _ h := by cases h
  deadline _ h := by cases h
  late h := by cases h

theorem Supervised.setProcessor (h : Supervised config service s) {p : State}
    (hrunning : s.aborted = false → (processor config service).Reachable p)
    (hdropped : s.aborted = true → Dropped p)
    (hpoint : s.processor.point = .returned → p.point = .returned) :
    Supervised config service (s.setProcessor p) where
  running := hrunning
  dropped := hdropped
  returned since hsince := hpoint (h.returned since hsince)
  deadline := h.deadline
  late := h.late

theorem Supervised.step (h : Supervised config service s) {e : OwnerEvent ρ}
    (ht : (owned config service).step s e = some t) : Supervised config service t := by
  cases e with
  | processor e =>
    simp only [owned, Option.ite_none_left_eq_some] at ht
    obtain ⟨p, hp, rfl⟩ := Option.map_eq_some_iff.mp ht.2
    refine h.setProcessor (fun ha => (h.running ha).next hp)
      (fun ha => (h.dropped ha).moves (step_moves hp))
      (fun hpoint => (returned_moves hpoint (step_moves hp)).1)
  | elapse d =>
    obtain rfl := Option.some.inj ht
    refine ⟨h.running, h.dropped, h.returned, ?_, ?_⟩
    · exact fun since hsince => Nat.le_trans (h.deadline since hsince) (Nat.le_add_right _ _)
    · intro ha
      obtain ⟨since, howner, hlate⟩ := h.late ha
      exact ⟨since, howner, Nat.le_trans hlate (Nat.le_add_right _ _)⟩
  | shutdown =>
    simp only [owned, Owned.shutdown] at ht
    split at ht <;> try contradiction
    rename_i howner
    obtain rfl := Option.some.inj ht
    have halive : s.aborted = false := by
      rw [← Bool.not_eq_true]
      intro ha
      obtain ⟨since, hsince, -⟩ := h.late ha
      simp [howner] at hsince
    refine ⟨fun _ => ?_, fun ha => ?_, fun since hsince => ?_, fun since hsince => ?_, fun ha => ?_⟩
    · exact (h.running halive).next (e := .signalShutdown) rfl
    · exact absurd ha (by simp [halive])
    · cases hsince
    · cases hsince
    · exact absurd ha (by simp [halive])
  | taskEnded =>
    simp only [owned, Owned.taskEnded] at ht
    split at ht <;> try contradiction
    all_goals
      rename_i since howner
      split at ht <;> try contradiction
      rename_i hpoint
      obtain rfl := Option.some.inj ht
      refine ⟨h.running, h.dropped, fun _ _ => hpoint, fun _ hsince => ?_, fun ha => ?_⟩
      · cases hsince
      obtain ⟨since', hsince, hlate⟩ := h.late ha
      rcases hsince with hsince | hsince
      · rw [howner] at hsince
        cases hsince <;> exact ⟨_, .inr rfl, hlate⟩
      · rw [howner] at hsince
        cases hsince
  | timeout =>
    simp only [owned, Owned.timeout] at ht
    split at ht <;> try contradiction
    rename_i since howner
    split at ht <;> try contradiction
    rename_i hdeadline
    obtain rfl := Option.some.inj ht
    refine ⟨h.running, h.dropped, fun _ hsince => ?_, ?_, fun ha => ?_⟩
    · cases hsince
    · intro since' hsince
      obtain rfl := Owner.aborting.inj hsince
      exact hdeadline
    · exact ⟨since, .inl rfl, hdeadline⟩
  | abort =>
    simp only [owned, Owned.abort] at ht
    split at ht <;> try contradiction
    rename_i since howner
    split at ht <;> try contradiction
    rename_i hpoint
    obtain rfl := Option.some.inj ht
    have halive : s.aborted = false := by
      rw [← Bool.not_eq_true]
      exact fun ha => hpoint (h.dropped ha).point
    refine ⟨fun ha => ?_, fun _ => ?_, fun _ _ => rfl, h.deadline, fun _ => ?_⟩
    · cases ha
    · exact (reachable_conserved (h.running halive)).dropped
    · exact ⟨since, .inl howner, h.deadline since howner⟩
  | cancelTask i =>
    simp only [owned, Option.ite_none_right_eq_some] at ht
    obtain ⟨p, hp, rfl⟩ := Option.map_eq_some_iff.mp ht.2
    have hdropped := (h.dropped ht.1).cancelTask hp
    exact h.setProcessor (fun ha => absurd ht.1 (by simp [ha])) (fun _ => hdropped)
      fun _ => hdropped.point
  | freeQueue =>
    simp only [owned, Option.ite_none_right_eq_some] at ht
    obtain ⟨p, hp, rfl⟩ := Option.map_eq_some_iff.mp ht.2
    have hdropped := (h.dropped ht.1).freeQueue hp
    exact h.setProcessor (fun ha => absurd ht.1 (by simp [ha])) (fun _ => hdropped)
      fun _ => hdropped.point

theorem reachable_supervised (h : (owned config service).Reachable s) :
    Supervised config service s :=
  h.invariant supervised_init fun _ _ _ _ hu he => hu.step he

theorem cancelTask_enabled {p : State} {i : ℕ} {task : Task} (hi : p.tasks[i]? = some task)
    (htask : 0 < task.unfinished) : ∃ q, p.cancelTask i = some q ∧
      q.unfinished + 1 = p.unfinished ∧ q.accepted = p.accepted ∧
      q.sendersGone = p.sendersGone := by
  have hsum := sum_set Task.unfinished hi (.finished false)
  cases task with
  | finished => exact absurd htask (Nat.lt_irrefl 0)
  | spawned batch =>
    exact ⟨(p.dispose (droppedSenders batch)).endTask i false, by simp only [State.cancelTask, hi],
      hsum, rfl, rfl⟩
  | calling kept =>
    exact ⟨(p.dispose (droppedSenders kept)).endTask i false, by simp only [State.cancelTask, hi],
      hsum, rfl, rfl⟩

/-- Of an aborted processor, the batch tasks that are left can all be cancelled. -/
theorem cancels (n : ℕ) (ha : s.aborted = true) (hn : s.processor.unfinished = n) :
    ∃ (es : List (OwnerEvent ρ)) (t : Owned), (∀ e ∈ es, e.isCleanup = true) ∧ es.length = n ∧
      (owned config service).runFrom s es = some t ∧ t.aborted = true ∧
      t.processor.unfinished = 0 ∧ t.processor.accepted = s.processor.accepted ∧
      t.processor.sendersGone = s.processor.sendersGone := by
  induction n generalizing s with
  | zero => exact ⟨[], s, by simp, rfl, rfl, ha, hn, rfl, rfl⟩
  | succ n ih =>
    have hpos : 0 < s.processor.unfinished := by omega
    obtain ⟨k, hk, hpositive⟩ := List.sum_pos_iff_exists_pos_nat.mp hpos
    obtain ⟨task, hmem, rfl⟩ := List.mem_map.mp hk
    obtain ⟨i, hi⟩ := List.mem_iff_getElem?.mp hmem
    obtain ⟨p, hp, hleft, haccepted, hgone⟩ := cancelTask_enabled hi hpositive
    obtain ⟨es, t, hes, hlength, hrun, ht⟩ := ih (s := s.setProcessor p) ha
      (by change p.unfinished = n; omega)
    refine ⟨.cancelTask i :: es, t, ?_, by simp [hlength], ?_, ht.1, ht.2.1,
      ht.2.2.1.trans haccepted, ht.2.2.2.trans hgone⟩
    · exact List.forall_mem_cons.mpr ⟨rfl, hes⟩
    · simpa [Machine.runFrom, owned, ha, hp] using hrun

theorem Dropped.disposed {p : State} (h : Dropped p) (hleft : p.unfinished = 0)
    {lookup : PendingLookup} (hmem : lookup ∈ p.accepted) :
    lookup.response ∈ responses p.channel.queue ∨
      ∃ disposal, (lookup.response, disposal) ∈ p.disposals := by
  have hheld : p.heldBy lookup.response = 0 := by
    rw [State.heldBy, h.point]
    refine List.sum_eq_zero fun k hk => ?_
    obtain ⟨task, htask, rfl⟩ := List.mem_map.mp hk
    have hzero : task.unfinished = 0 :=
      List.sum_eq_zero_iff_forall_eq_nat.mp hleft _ (List.mem_map_of_mem htask)
    cases task with
    | finished => rfl
    | spawned batch => cases hzero
    | calling kept => cases hzero
  have hbalance := h.balance lookup.response
  have hpos : 0 < (responses p.accepted).count lookup.response :=
    List.count_pos_iff.mpr (List.mem_map_of_mem hmem)
  by_cases hqueue : lookup.response ∈ responses p.channel.queue
  · exact .inl hqueue
  · rw [List.count_eq_zero_of_not_mem hqueue, hheld] at hbalance
    obtain ⟨⟨r, disposal⟩, hp, rfl⟩ := List.mem_map.mp (List.count_pos_iff.mp
      (show 0 < (p.disposals.map Prod.fst).count lookup.response by omega))
    exact .inr ⟨disposal, hp⟩

theorem freeQueue_enabled {p : State} (h : p.sendersGone = true) : ∃ q, p.freeQueue = some q ∧
    q.unfinished = p.unfinished ∧ q.accepted = p.accepted ∧ q.channel.queue = [] :=
  ⟨_, if_pos h, rfl, rfl, rfl⟩

theorem Supervised.leads (h : Supervised config service s)
    (ht : (owned config service).Leads s t) : Supervised config service t :=
  ht.invariant h fun _ _ _ hu he => hu.step he

/-- A processor that has ended takes no more lookups. -/
theorem Supervised.refuses (h : Supervised config service s)
    (hpoint : s.processor.point = .returned) (lookup : PendingLookup) :
    (owned config service).step s (.processor (.reserve lookup)) = none := by
  have hrefused : (processor config service).step s.processor (.reserve lookup) = none := by
    cases ha : s.aborted with
    | true => exact reserve_after_close (h.dropped ha).closed lookup
    | false =>
      have hsealed := (reachable_conserved (h.running ha)).sealedOff
      rw [Sealed, hpoint] at hsealed
      rcases hsealed.1 with hclosed | hgone
      · exact reserve_after_close hclosed lookup
      · simp [processor, State.reserve, hgone]
  simp [owned, hrefused]

theorem Dropped.disposals_nodup {p : State} (h : Dropped p) :
    (p.disposals.map Prod.fst).Nodup := by
  have haccepted : (responses p.accepted).Nodup :=
    h.fresh.1.sublist ((List.sublist_append_left _ _).map _)
  rw [List.nodup_iff_count_le_one] at haccepted ⊢
  intro r
  have hr := haccepted r
  have hbalance := h.balance r
  omega

end Runs

/-- When `shutdown` has returned, no lookup gets a slot any more and no sender was used twice.
Either the processor has returned by itself, with every accepted lookup disposed of; or it was
aborted, not before the deadline, and then cancelling the batch tasks that are left, one step
each, disposes of every accepted lookup but those that came into the queue afterwards, and of
these too once the last sender is gone. -/
theorem shutdown_settles (config : BatchConfig) (service : MojangService ρ) (s : Owned)
    (since : ℕ) (h : (owned config service).Reachable s) (hreturned : s.owner = .returned since) :
    (∀ lookup, (owned config service).step s (.processor (.reserve lookup)) = none) ∧
    (s.processor.disposals.map Prod.fst).Nodup ∧
    (s.aborted = false → ∀ lookup ∈ s.processor.accepted,
      ∃ disposal, (lookup.response, disposal) ∈ s.processor.disposals) ∧
    (s.aborted = true → since + batchShutdownTimeout ≤ s.now ∧
      ∃ (es : List (OwnerEvent ρ)) (t : Owned), (∀ e ∈ es, e.isCleanup = true) ∧
        es.length ≤ s.processor.unfinished + 1 ∧
        (owned config service).runFrom s es = some t ∧
        t.processor.accepted = s.processor.accepted ∧ ∀ lookup ∈ t.processor.accepted,
          (lookup.response ∈ responses t.processor.channel.queue ∧
            s.processor.sendersGone = false) ∨
          ∃ disposal, (lookup.response, disposal) ∈ t.processor.disposals) := by
  have hs := reachable_supervised h
  have hpoint := hs.returned since hreturned
  refine ⟨?_, ?_, ?_, ?_⟩
  · exact fun lookup => hs.refuses hpoint lookup
  · cases ha : s.aborted with
    | false => exact (reachable_conserved (hs.running ha)).disposals_nodup
    | true => exact (hs.dropped ha).disposals_nodup
  · intro ha lookup hmem
    exact (reachable_conserved (hs.running ha)).disposed_of_returned hpoint hmem
  · intro ha
    obtain ⟨since', howner, hlate⟩ := hs.late ha
    rw [hreturned] at howner
    obtain rfl : since = since' := by simpa using howner
    refine ⟨hlate, ?_⟩
    obtain ⟨es, t, hes, hlength, hrun, hta, hleft, haccepted, hgone⟩ := cancels _ ha rfl
    have ht := (hs.leads (Machine.leads_of_runFrom hrun)).dropped hta
    by_cases hsenders : s.processor.sendersGone = true
    · obtain ⟨p, hp, hpleft, hpaccepted, hpqueue⟩ := freeQueue_enabled (hgone.trans hsenders)
      refine ⟨es ++ [.freeQueue], t.setProcessor p, ?_, by simp [hlength], ?_,
        hpaccepted.trans haccepted, fun lookup hmem => ?_⟩
      · exact List.forall_mem_append.mpr ⟨hes, by simp [OwnerEvent.isCleanup]⟩
      · rw [Machine.runFrom_append, hrun]
        simp [Machine.runFrom, owned, hta, hp]
      · refine .inr (((ht.freeQueue hp).disposed (hpleft.trans hleft) hmem).resolve_left ?_)
        rw [hpqueue]
        exact List.not_mem_nil
    · refine ⟨es, t, hes, by omega, hrun, haccepted, fun lookup hmem => ?_⟩
      rcases ht.disposed hleft hmem with hqueue | hdisposed
      · exact .inl ⟨hqueue, by simpa using hsenders⟩
      · exact .inr hdisposed

/-- A shutdown during a call that Mojang does not answer. -/
def hungShutdown : List (OwnerEvent Unit) :=
  [.processor .firstTick, .processor (.reserve lonelyLookup), .processor (.push lonelyLookup),
    .processor .dropSenders, .processor .recvBranch, .shutdown, .processor .shutdownBranch,
    .processor .drainRecv, .processor .acquire, .processor (.pollTask 0),
    .elapse batchShutdownTimeout, .timeout, .abort, .taskEnded]

/-- Two steps after it the requester of the lookup has heard. -/
theorem shutdown_settles_hung : ∃ s, (owned smallConfig nobody).run hungShutdown = some s ∧
    s.aborted = true ∧ ∃ es t, es.length ≤ 2 ∧
      (owned smallConfig nobody).runFrom s es = some t ∧
      ∃ disposal, (lonelyLookup.response, disposal) ∈ t.processor.disposals := by
  have hrun : ((owned smallConfig nobody).run hungShutdown).map (fun s => (s.owner, s.aborted,
      s.processor.unfinished, s.processor.sendersGone, s.processor.accepted)) =
        some (.returned 0, true, 1, true, [lonelyLookup]) := by rfl
  obtain ⟨s, hs, hvalues⟩ := Option.map_eq_some_iff.mp hrun
  simp only [Prod.mk.injEq] at hvalues
  obtain ⟨howner, haborted, hleft, hgone, haccepted⟩ := hvalues
  obtain ⟨-, -, -, hcleanup⟩ := shutdown_settles smallConfig nobody s 0
    (Machine.reachable_of_run hs) howner
  obtain ⟨-, es, t, -, hlength, ht, hkept, hdisposed⟩ := hcleanup haborted
  refine ⟨s, hs, haborted, es, t, by omega, ht, ?_⟩
  have hmem : lonelyLookup ∈ t.processor.accepted := by simp [hkept, haccepted]
  exact (hdisposed lonelyLookup hmem).resolve_left fun h => by simp [hgone] at h

end MojangApi.Batch
