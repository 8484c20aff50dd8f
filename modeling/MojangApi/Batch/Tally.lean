import MojangApi.Batch.Limits

/-! # The processor's share of the counters

Every username that is asked for was accepted once, and every answer belongs to
a call. The batches, the usernames, the upstream requests and the errors that
the batch tasks count are those of the recorded calls and answers.
-/

namespace MojangApi.Batch
open MojangApi Library

variable {ρ : Type*}

/-- The lookups of a task that has not made its call. -/
def Task.unasked : Task → ℕ
  | .spawned batch => batch.length
  | _ => 0

def Task.awaited : Task → ℕ
  | .calling _ => 1
  | _ => 0

/-- The accepted lookups that may still be asked for. -/
def State.uncalled (s : State) : ℕ :=
  (s.tasks.map Task.unasked).sum + s.point.batch.length + s.pending.length +
    s.channel.queue.length

structure Tallied (s : State) : Prop where
  usernames : (s.calls.map List.length).sum + s.uncalled ≤ s.accepted.length
  answers : s.answered.length + (s.tasks.map Task.awaited).sum ≤ s.calls.length

/-- What the batch tasks have counted so far. -/
def State.total (s : State) : Counter → ℕ
  | .batchesProcessed => s.calls.length
  | .usernamesBatched => (s.calls.map List.length).sum
  | .mojangRequests => s.calls.length
  | .mojangErrors => (s.answered.map fun answer => failures answer.2).sum
  | _ => 0

/-- A service counts one request for a call, and an error exactly when it returns one. -/
structure Accounts (service : MojangService ρ) : Prop where
  begin : ∀ names metrics total, metrics.Follows total →
    (service.begin names metrics).Follows fun c =>
      total c + if .mojangRequests = c then 1 else 0
  finish : ∀ names outcome metrics total, metrics.Follows total →
    (service.finish names outcome metrics).1.Follows fun c =>
      total c + if .mojangErrors = c then failures (service.finish names outcome metrics).2 else 0

section Preservation
variable {config : BatchConfig} {service : MojangService ρ} {s t : State} {own : Bool}

theorem tallied_init (config : BatchConfig) : Tallied (.init config) where
  usernames := Nat.le_refl 0
  answers := Nat.le_refl 0

/-- Lookups move on through the processor. -/
theorem Tallied.pass (h : Tallied s) (hcalls : t.calls = s.calls) (htasks : t.tasks = s.tasks)
    (hanswered : t.answered = s.answered) (haccepted : t.accepted.length + s.uncalled =
      s.accepted.length + t.uncalled) : Tallied t where
  usernames := by
    have husernames := h.usernames
    rw [hcalls]
    omega
  answers := by
    rw [hcalls, htasks, hanswered]
    exact h.answers

theorem Tallied.setPoint (h : Tallied s) {p q : Point} (hpoint : s.point = p)
    (hbatch : p.batch = q.batch) : Tallied (s.setPoint q) :=
  h.pass rfl rfl rfl (by simp [State.uncalled, State.setPoint, hpoint, hbatch])

theorem Tallied.flush (h : Tallied s) (hpoint : s.point.batch = []) {batch : List PendingLookup}
    (hbatch : batch.length = s.pending.length) (site : Site) : Tallied (s.flush batch site) := by
  refine h.pass rfl rfl rfl ?_
  simp only [State.uncalled, State.flush, Point.batch_acquiring, hpoint, List.length_nil, hbatch]
  omega

/-- A task goes on to its next stage. -/
theorem Tallied.setTask (h : Tallied s) {i : ℕ} {task task' : Task} (call : List (List Str))
    (htask : s.tasks[i]? = some task) (htasks : t.tasks = s.tasks.set i task')
    (hcalls : t.calls = s.calls ++ call)
    (hframe : t.point = s.point ∧ t.pending = s.pending ∧ t.channel = s.channel ∧
      t.accepted = s.accepted)
    (hlength : (call.map List.length).sum + task'.unasked ≤ task.unasked)
    (hanswers : t.answered.length + task'.awaited ≤ s.answered.length + task.awaited + call.length) :
    Tallied t where
  usernames := by
    have husernames := h.usernames
    have hsum := sum_set Task.unasked htask task'
    obtain ⟨hpoint, hpending, hchannel, haccepted⟩ := hframe
    rw [← htasks] at hsum
    simp only [State.uncalled, hpoint, hpending, hchannel, haccepted, hcalls, List.map_append,
      List.sum_append] at husernames ⊢
    omega
  answers := by
    have hold := h.answers
    have hsum := sum_set Task.awaited htask task'
    rw [← htasks] at hsum
    rw [hcalls, List.length_append]
    omega

theorem Tallied.moves (h : Tallied s) (hm : Moves config service s own t) : Tallied t := by
  cases hm with
  | reserve _ _ hchannel =>
    exact h.pass rfl rfl rfl (by simp [State.uncalled, (Channel.reserve_granted hchannel).2.1])
  | push hchannel =>
    refine h.pass rfl rfl rfl ?_
    simp only [State.uncalled, (Channel.push_eq_some hchannel).2.1, List.length_append]
    omega
  | revoke hchannel =>
    exact h.pass rfl rfl rfl (by simp [State.uncalled, State.setChannel,
      (Channel.revoke_eq_some hchannel).2.1])
  | firstTick hpoint => exact h.setPoint hpoint rfl
  | close hpoint =>
    have hchannel : Tallied (s.setChannel s.channel.close) := h.pass rfl rfl rfl rfl
    exact hchannel.setPoint hpoint rfl
  | @collect lookup channel site hpoint hsite hrecv =>
    have hqueue := (Channel.recv_item hrecv).1
    have hbatch : s.point.batch = [] := by rw [hpoint, Site.batch_resume]
    rcases collect_cases config (s.setChannel channel) lookup site with ⟨-, hc⟩ | ⟨-, hc⟩ <;>
      rw [hc] <;> refine h.pass rfl rfl rfl ?_ <;>
      simp only [State.uncalled, State.flush, State.setChannel, Point.batch_acquiring, hbatch,
        hqueue, List.length_append, List.length_cons, List.length_nil] <;>
      omega
  | exhausted hpoint => exact h.setPoint hpoint rfl
  | tick hpoint => exact h.flush (congrArg Point.batch hpoint) rfl _
  | join htask =>
    have hunasked := sum_eraseIdx Task.unasked htask
    have hawaited := sum_eraseIdx Task.awaited htask
    have husernames := h.usernames
    have hanswers := h.answers
    simp only [Task.unasked, Task.awaited, State.uncalled] at hunasked hawaited husernames
    constructor
    · simp only [State.uncalled]
      omega
    · change s.answered.length + ((s.tasks.eraseIdx _).map Task.awaited).sum ≤ s.calls.length
      omega
  | drained hpoint => exact h.setPoint hpoint rfl
  | lastBatch hpoint => exact h.flush (congrArg Point.batch hpoint) rfl _
  | @spawn batch site hpoint =>
    have husernames := h.usernames
    have hanswers := h.answers
    constructor
    · simp only [State.uncalled, hpoint, Point.batch_acquiring, Site.batch_resume, List.map_append,
        List.map_cons, List.map_nil, List.sum_append, List.sum_cons, List.sum_nil, Task.unasked,
        List.length_nil] at husernames ⊢
      omega
    · simpa [Task.awaited] using hanswers
  | @reject batch site hpoint =>
    have husernames := h.usernames
    refine ⟨?_, h.answers⟩
    simp only [State.uncalled, hpoint, Point.batch_acquiring, Site.batch_resume,
      List.length_nil] at husernames ⊢
    omega
  | finish hpoint => exact h.setPoint hpoint rfl
  | skip htask =>
    exact h.setTask [] htask rfl (List.append_nil _).symm ⟨rfl, rfl, rfl, rfl⟩
      (Nat.zero_le _) (Nat.le_refl _)
  | @call i batch htask =>
    refine h.setTask _ htask rfl rfl ⟨rfl, rfl, rfl, rfl⟩ ?_ (Nat.le_refl _)
    simpa [names, openLookups, Task.unasked] using List.length_filter_le _ batch
  | answer htask =>
    refine h.setTask [] htask rfl (List.append_nil _).symm ⟨rfl, rfl, rfl, rfl⟩
      (Nat.zero_le _) ?_
    simp [Task.awaited]
  | panic htask =>
    exact h.setTask [] htask rfl (List.append_nil _).symm ⟨rfl, rfl, rfl, rfl⟩
      (Nat.zero_le _) (Nat.le_succ _)
  | _ => exact ⟨h.usernames, h.answers⟩

theorem reachable_tallied (h : (processor config service).Reachable s) : Tallied s :=
  reachable_invariant (tallied_init config) (fun _ _ _ hu hm => hu.moves hm) h

/-- The counters keep up with the calls and their answers. -/
theorem follows_moves (ha : Accounts service) {base : Counter → ℕ}
    (h : s.metrics.Follows fun c => base c + s.total c) (hm : Moves config service s true t) :
    t.metrics.Follows fun c => base c + t.total c := by
  cases hm with
  | @collect lookup channel site =>
    rcases collect_cases config (s.setChannel channel) lookup site with ⟨-, hc⟩ | ⟨-, hc⟩ <;>
      rw [hc] <;> exact h
  | @call i batch =>
    have hbatch := (h.add .batchesProcessed 1).add .usernamesBatched
      (names (openLookups s.isClosed batch)).length
    have hbegin := ha.begin (names (openLookups s.isClosed batch)) _ _ hbatch
    apply hbegin.congr
    intro c
    cases c <;> simp [State.total, Nat.add_assoc]
  | @answer i kept _ outcome =>
    have hfinish := ha.finish (names kept) outcome _ _ h
    apply hfinish.congr
    intro c
    cases c <;> simp [State.total, Nat.add_assoc]
  | _ => exact h

/-- What has been counted stays counted. -/
theorem total_moves (hm : Moves config service s own t) (c : Counter) : s.total c ≤ t.total c := by
  cases hm with
  | @collect lookup channel site =>
    rcases collect_cases config (s.setChannel channel) lookup site with ⟨-, hc⟩ | ⟨-, hc⟩ <;>
      rw [hc] <;> exact Nat.le_refl _
  | call => cases c <;> simp [State.total]
  | answer => cases c <;> simp [State.total]
  | _ => exact Nat.le_refl _

theorem total_leads (h : (processor config service).Leads s t) (c : Counter) :
    s.total c ≤ t.total c :=
  h.invariant (I := fun u => s.total c ≤ u.total c) (Nat.le_refl _) fun _ _ _ hu hv =>
    Nat.le_trans hu (total_moves (step_moves hv) c)

end Preservation
end MojangApi.Batch
