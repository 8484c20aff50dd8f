import MojangApi.Batch.Limits
import MojangApi.Library.Progress

/-! # The processor runs out of work, and not before it is done

Every step of the loop or of a batch task is paid for by what is queued, pending
or running, except for a tick that finds nothing to flush. As long as something is
left the processor can take such a step, unless it has to wait for a sender.
-/

namespace MojangApi.Batch
open MojangApi Library

variable {ρ : Type*}

/-- A step of the loop or of a batch task, as opposed to what others do to the processor. -/
def Event.isWork : Event ρ → Bool
  | .reserve _ | .push _ | .revoke _ | .dropReceiver _ | .count _ | .dropSenders
  | .signalShutdown => false
  | _ => true

/-- Work in which every call that ends is answered with `outcome`. -/
def Event.Answers (outcome : ρ) : Event ρ → Prop
  | .panicTask _ => False
  | .completeTask _ answer => answer = outcome
  | e => e.isWork = true

def Task.cost : Task → ℕ
  | .spawned _ => 3
  | .calling _ => 2
  | .finished _ => 1

def Site.cost : Site → ℕ
  | .loop => 3
  | .drain => 2
  | .final => 1

def Point.cost : Point → ℕ
  | .firstTick => 4
  | .selecting => 3
  | .draining => 2
  | .acquiring _ site => site.cost + 4
  | .joining => 1
  | .returned => 0

/-- An upper bound on the steps that are left without a further lookup: a queued lookup
may need a batch of its own, which has to be flushed, spawned, run and joined. -/
def State.work (s : State) : ℕ :=
  s.point.cost + 5 * s.pending.length + (s.tasks.map Task.cost).sum + 6 * s.channel.queue.length

@[simp] theorem Point.cost_acquiring (batch : List PendingLookup) (site : Site) :
    (Point.acquiring batch site).cost = site.cost + 4 := rfl

@[simp] theorem Site.resume_cost (site : Site) : site.resume.cost = site.cost := by
  cases site <;> rfl

section Steps
variable {config : BatchConfig} {service : MojangService ρ} {s t : State}

/-- What a step of the loop or of a task does to the channel. -/
structure Worked (s t : State) : Prop where
  work : t.work < s.work
  granted : t.channel.granted = s.channel.granted
  capacity : t.channel.capacity = s.channel.capacity
  closed : s.channel.closed = true → t.channel.closed = true
  shutdown : t.shutdown = s.shutdown
  sendersGone : t.sendersGone = s.sendersGone
  accepted : t.accepted = s.accepted
  queue : t.channel.queue = s.channel.queue ∨
    s.point = .selecting ∧ s.shutdown = false ∨ s.point = .draining

/-- A step that leaves the channel alone. -/
theorem Worked.internal (hwork : t.work < s.work) (hchannel : t.channel = s.channel)
    (hshutdown : t.shutdown = s.shutdown) (hgone : t.sendersGone = s.sendersGone)
    (haccepted : t.accepted = s.accepted) : Worked s t where
  work := hwork
  granted := by rw [hchannel]
  capacity := by rw [hchannel]
  closed h := by rw [hchannel, h]
  shutdown := hshutdown
  sendersGone := hgone
  accepted := haccepted
  queue := .inl (by rw [hchannel])

theorem work_setPoint {p q : Point} (hpoint : s.point = p) (hlt : q.cost < p.cost) :
    (s.setPoint q).work < s.work := by
  simp only [State.work, State.setPoint, hpoint]
  omega

theorem work_setTask {i : ℕ} {task task' : Task} (htask : s.tasks[i]? = some task)
    (hcost : task'.cost < task.cost) (htasks : t.tasks = s.tasks.set i task')
    (hpoint : t.point = s.point) (hpending : t.pending = s.pending)
    (hchannel : t.channel = s.channel) : t.work < s.work := by
  have hsum := sum_set Task.cost htask task'
  rw [← htasks] at hsum
  simp only [State.work, hpoint, hpending, hchannel]
  omega

/-- Handing a batch on costs less than the lookups in it. -/
theorem work_flush {batch : List PendingLookup} {site : Site} (hpoint : s.point = site.resume)
    (hpending : s.pending ≠ []) : (s.flush batch site).work < s.work := by
  have hpos := List.length_pos_iff.mpr hpending
  simp only [State.work, State.flush, Point.cost_acquiring, hpoint, Site.resume_cost,
    List.length_nil]
  omega

theorem work_collect (config : BatchConfig) {lookup : PendingLookup} {channel : Channel PendingLookup} {site : Site}
    (hpoint : s.point = site.resume) (hrecv : s.channel.recv s.sendersGone = .item lookup channel) :
    ((s.setChannel channel).collect config lookup site).work < s.work := by
  have hqueue := (Channel.recv_item hrecv).1
  rcases collect_cases config (s.setChannel channel) lookup site with ⟨-, hc⟩ | ⟨-, hc⟩ <;>
    rw [hc] <;>
    simp only [State.work, State.flush, State.setChannel, Point.cost_acquiring, hpoint,
      Site.resume_cost, hqueue, List.length_append, List.length_cons, List.length_nil] <;>
    omega

theorem worked_collect {lookup : PendingLookup} {channel : Channel PendingLookup} {site : Site}
    (hpoint : s.point = site.resume) (hrecv : s.channel.recv s.sendersGone = .item lookup channel)
    (hreceives : s.point = .selecting ∧ s.shutdown = false ∨ s.point = .draining) :
    Worked s ((s.setChannel channel).collect config lookup site) := by
  have hwork := work_collect config hpoint hrecv
  obtain ⟨-, hgranted, hclosed, hcapacity⟩ := Channel.recv_item hrecv
  rcases collect_cases config (s.setChannel channel) lookup site with ⟨-, hc⟩ | ⟨-, hc⟩ <;>
    rw [hc] at hwork ⊢ <;>
    exact ⟨hwork, hgranted, hcapacity, fun h => hclosed.trans h, rfl, rfl, rfl, .inr hreceives⟩

theorem worked_join {i : ℕ} (h : s.join i = some t) : Worked s t := by
  unfold State.join at h
  split at h <;> try contradiction
  rename_i panicked htask
  obtain rfl := Option.some.inj h
  refine .internal ?_ rfl rfl rfl rfl
  have hsum := sum_eraseIdx Task.cost htask
  have hcost : (Task.finished panicked).cost = 1 := rfl
  simp only [State.work]
  omega

theorem worked_recvBranch (h : s.recvBranch config = some t) : Worked s t := by
  unfold State.recvBranch at h
  split at h <;> try contradiction
  rename_i hpoint
  simp only [Bool.and_eq_true, decide_eq_true_eq, Bool.not_eq_true'] at hpoint
  split at h <;> try contradiction
  · rename_i hrecv
    obtain rfl := Option.some.inj h
    exact worked_collect hpoint.1 hrecv (.inl hpoint)
  · obtain rfl := Option.some.inj h
    exact .internal (work_setPoint hpoint.1 (by decide)) rfl rfl rfl rfl

theorem worked_drainRecv (h : s.drainRecv config = some t) : Worked s t := by
  unfold State.drainRecv at h
  split at h <;> try contradiction
  rename_i hpoint
  split at h <;> try contradiction
  · rename_i hrecv
    obtain rfl := Option.some.inj h
    exact worked_collect hpoint hrecv (.inr hpoint)
  · split at h <;> rename_i hpending <;> obtain rfl := Option.some.inj h
    · exact .internal (work_setPoint hpoint (by decide)) rfl rfl rfl rfl
    · have hne : s.pending ≠ [] := by simpa using hpending
      have hpos := List.length_pos_iff.mpr hne
      refine .internal ?_ rfl rfl rfl rfl
      simp only [State.work, State.flush, Point.cost, Site.cost, hpoint, List.length_nil]
      omega

theorem worked_acquire (h : s.acquire = some t) : Worked s t := by
  unfold State.acquire at h
  split at h <;> try contradiction
  rename_i hpoint
  split at h
  · obtain rfl := Option.some.inj h
    refine .internal ?_ rfl rfl rfl rfl
    simp only [State.work, Point.cost_acquiring, hpoint, Site.resume_cost]
    omega
  · split at h <;> try contradiction
    obtain rfl := Option.some.inj h
    refine .internal ?_ rfl rfl rfl rfl
    simp only [State.work, Point.cost_acquiring, hpoint, Site.resume_cost, List.map_append,
      List.map_cons, List.map_nil, List.sum_append, List.sum_cons, List.sum_nil, Task.cost]
    omega

theorem worked_pollTask {i : ℕ} (h : s.pollTask service i = some t) : Worked s t := by
  unfold State.pollTask at h
  split at h <;> try contradiction
  rename_i batch htask
  dsimp only at h
  split at h <;> obtain rfl := Option.some.inj h
  · refine .internal (work_setTask htask ?_ rfl rfl rfl rfl) rfl rfl rfl rfl
    simp [Task.cost]
  · refine .internal (work_setTask htask ?_ rfl rfl rfl rfl) rfl rfl rfl rfl
    simp [Task.cost]

theorem worked_endCall {i : ℕ} {kept : List PendingLookup} {panicked : Bool}
    (htask : s.tasks[i]? = some (.calling kept)) (htasks : t.tasks = s.tasks.set i (.finished panicked))
    (hpoint : t.point = s.point) (hpending : t.pending = s.pending)
    (hchannel : t.channel = s.channel) (hshutdown : t.shutdown = s.shutdown)
    (hgone : t.sendersGone = s.sendersGone) (haccepted : t.accepted = s.accepted) : Worked s t := by
  refine .internal (work_setTask htask ?_ htasks hpoint hpending hchannel) hchannel hshutdown hgone
    haccepted
  simp [Task.cost]

theorem worked_completeTask {i : ℕ} {outcome : ρ} (h : s.completeTask service i outcome = some t) :
    Worked s t := by
  unfold State.completeTask at h
  split at h <;> try contradiction
  rename_i htask
  obtain rfl := Option.some.inj h
  exact worked_endCall htask rfl rfl rfl rfl rfl rfl rfl

theorem worked_panicTask {i : ℕ} (h : s.panicTask i = some t) : Worked s t := by
  unfold State.panicTask at h
  split at h <;> try contradiction
  rename_i htask
  obtain rfl := Option.some.inj h
  exact worked_endCall htask rfl rfl rfl rfl rfl rfl rfl

/-- Every step of the loop or of a task is work done, or a tick in an idle loop. -/
theorem worked {e : Event ρ} (he : e.isWork = true)
    (h : (processor config service).step s e = some t) :
    Worked s t ∨ e = .tickBranch ∧ s.idle = true ∧ t = s := by
  cases e with
  | reserve | push | revoke | dropReceiver | count | dropSenders | signalShutdown => cases he
  | firstTick =>
    simp only [processor, State.firstTick, Option.ite_none_right_eq_some, Option.some.injEq] at h
    obtain ⟨hpoint, rfl⟩ := h
    exact .inl (.internal (work_setPoint hpoint (by decide)) rfl rfl rfl rfl)
  | shutdownBranch =>
    simp only [processor, State.shutdownBranch, Option.ite_none_right_eq_some, Option.some.injEq,
      Bool.and_eq_true, decide_eq_true_eq] at h
    obtain ⟨⟨hpoint, -⟩, rfl⟩ := h
    have hwork : ((s.setChannel s.channel.close).setPoint .draining).work < s.work :=
      work_setPoint (s := s.setChannel s.channel.close) hpoint (by decide)
    exact .inl ⟨hwork, rfl, rfl, fun _ => rfl, rfl, rfl, rfl, .inl rfl⟩
  | recvBranch => exact .inl (worked_recvBranch h)
  | tickBranch =>
    simp only [processor, State.tickBranch, Option.ite_none_right_eq_some] at h
    obtain ⟨hidle, h⟩ := h
    split at h <;> rename_i hpending <;> obtain rfl := Option.some.inj h
    · exact .inr ⟨rfl, hidle, rfl⟩
    · simp only [State.idle, Bool.and_eq_true, decide_eq_true_eq] at hidle
      exact .inl (.internal (work_flush hidle.1.1 (by simpa using hpending)) rfl rfl rfl rfl)
  | joinBranch i =>
    simp only [processor, State.joinBranch, Option.ite_none_right_eq_some] at h
    exact .inl (worked_join h.2)
  | drainRecv => exact .inl (worked_drainRecv h)
  | acquire => exact .inl (worked_acquire h)
  | joinNext i =>
    simp only [processor, State.joinNext, Option.ite_none_right_eq_some] at h
    exact .inl (worked_join h.2)
  | finish =>
    simp only [processor, State.finish, Option.ite_none_right_eq_some, Option.some.injEq,
      Bool.and_eq_true, decide_eq_true_eq] at h
    obtain ⟨⟨hpoint, -⟩, rfl⟩ := h
    exact .inl (.internal (work_setPoint hpoint (by decide)) rfl rfl rfl rfl)
  | pollTask i => exact .inl (worked_pollTask h)
  | completeTask i outcome => exact .inl (worked_completeTask h)
  | panicTask i => exact .inl (worked_panicTask h)

end Steps

/-- Nothing is left to do until a sender moves. -/
def State.Quiet (s : State) : Prop :=
  s.unfinished = 0 ∧ match s.point with
    | .selecting => s.shutdown = false ∧ s.channel.recv s.sendersGone = .pending ∧ s.pending = []
    | .draining => s.channel.recv s.sendersGone = .pending
    | .returned => True
    | _ => False

theorem Event.Answers.isWork {outcome : ρ} {e : Event ρ} (h : e.Answers outcome) :
    e.isWork = true := by
  cases e with
  | panicTask i => exact h.elim
  | completeTask i answer => rfl
  | _ => exact h

section Liveness
variable {config : BatchConfig} {service : MojangService ρ} {s t : State}

theorem worked_of_busy {e : Event ρ} (hbusy : s.idle = false) (he : e.isWork = true)
    (h : (processor config service).step s e = some t) : Worked s t :=
  (worked he h).resolve_right (by simp [hbusy])

theorem exists_unfinished (h : s.unfinished ≠ 0) : ∃ (i : ℕ) (task : Task),
    s.tasks[i]? = some task ∧ ∀ panicked, task ≠ .finished panicked := by
  by_contra hall
  push Not at hall
  apply h
  rw [State.unfinished, List.sum_eq_zero_iff_forall_eq_nat]
  intro n hn
  obtain ⟨task, hmem, rfl⟩ := List.mem_map.mp hn
  obtain ⟨i, hi⟩ := List.mem_iff_getElem?.mp hmem
  obtain ⟨panicked, rfl⟩ := hall i task hi
  rfl

/-- Some work can be done, with every call that ends answered by the given outcome. -/
def CanWork (config : BatchConfig) (service : MojangService ρ) (outcome : ρ) (s : State) : Prop :=
  ∃ e t, Event.Answers outcome e ∧ (processor config service).step s e = some t ∧ Worked s t

theorem canWork_task (outcome : ρ) (h : s.unfinished ≠ 0) : CanWork config service outcome s := by
  obtain ⟨i, task, htask, hunfinished⟩ := exists_unfinished h
  cases task with
  | spawned batch =>
    have hpoll : ∃ t, s.pollTask service i = some t := by
      rw [State.pollTask, htask]
      dsimp only
      split
      · exact ⟨_, rfl⟩
      · exact ⟨_, rfl⟩
    obtain ⟨t, ht⟩ := hpoll
    exact ⟨.pollTask i, t, rfl, ht, worked_pollTask ht⟩
  | calling kept =>
    have hcomplete : ∃ t, s.completeTask service i outcome = some t := by
      rw [State.completeTask, htask]
      exact ⟨_, rfl⟩
    obtain ⟨t, ht⟩ := hcomplete
    exact ⟨.completeTask i outcome, t, rfl, ht, worked_completeTask ht⟩
  | finished panicked => exact absurd rfl (hunfinished panicked)

/-- An enabled step of a loop that is not idle. -/
theorem canWork_of_busy {outcome : ρ} {e : Event ρ} (hbusy : s.idle = false)
    (he : e.Answers outcome) (h : (processor config service).step s e = some t) :
    CanWork config service outcome s :=
  ⟨e, t, he, h, worked_of_busy hbusy he.isWork h⟩

theorem canWork_selecting (outcome : ρ) (hpoint : s.point = .selecting)
    (h : ¬ (s.shutdown = false ∧ s.channel.recv s.sendersGone = .pending ∧ s.pending = [])) :
    CanWork config service outcome s := by
  by_cases hshutdown : s.shutdown = true
  · have hbusy : s.idle = false := by simp [State.idle, hshutdown]
    exact canWork_of_busy (e := .shutdownBranch) hbusy rfl
      (if_pos (by simp [hpoint, hshutdown]))
  · have hrecvBranch : (processor config service).step s .recvBranch = s.recvBranch config := rfl
    rw [State.recvBranch, if_pos (by simp [hpoint, hshutdown])] at hrecvBranch
    cases hrecv : s.channel.recv s.sendersGone with
    | item lookup channel =>
      rw [hrecv] at hrecvBranch
      have hbusy : s.idle = false := by simp [State.idle, hrecv, Channel.Received.isPending]
      exact canWork_of_busy (e := .recvBranch) hbusy rfl hrecvBranch
    | finished =>
      rw [hrecv] at hrecvBranch
      have hbusy : s.idle = false := by simp [State.idle, hrecv, Channel.Received.isPending]
      exact canWork_of_busy (e := .recvBranch) hbusy rfl hrecvBranch
    | pending =>
      have hpending : s.pending ≠ [] := fun hnil => h ⟨by simpa using hshutdown, hrecv, hnil⟩
      have hidle : s.idle = true := by
        simp [State.idle, hpoint, hrecv, hshutdown, Channel.Received.isPending]
      have htick : (processor config service).step s .tickBranch = s.tickBranch := rfl
      rw [State.tickBranch, if_pos hidle, if_neg (by simpa using hpending)] at htick
      exact ⟨.tickBranch, _, rfl, htick, .internal (work_flush hpoint hpending) rfl rfl rfl rfl⟩

theorem canWork_draining (outcome : ρ) (hpoint : s.point = .draining)
    (h : s.channel.recv s.sendersGone ≠ .pending) : CanWork config service outcome s := by
  have hbusy : s.idle = false := by simp [State.idle, hpoint]
  have hdrain : (processor config service).step s .drainRecv = s.drainRecv config := rfl
  rw [State.drainRecv, if_pos hpoint] at hdrain
  cases hrecv : s.channel.recv s.sendersGone with
  | item lookup channel =>
    rw [hrecv] at hdrain
    exact canWork_of_busy (e := .drainRecv) hbusy rfl hdrain
  | finished =>
    rw [hrecv] at hdrain
    dsimp only at hdrain
    split at hdrain
    · exact canWork_of_busy (e := .drainRecv) hbusy rfl hdrain
    · exact canWork_of_busy (e := .drainRecv) hbusy rfl hdrain
  | pending => exact absurd hrecv h

/-- A permit is free when no task is running, and the semaphore is open. -/
theorem canWork_acquiring (outcome : ρ) {batch : List PendingLookup} {site : Site}
    (hpoint : s.point = .acquiring batch site) (hs : Conserved s) (hl : Limited config s)
    (hunfinished : s.unfinished = 0) : CanWork config service outcome s := by
  have hpermits : s.permits ≠ 0 := by
    have hmax := config.maxInFlightBatches_pos
    have hsum := hl.permits
    omega
  have hopen : ¬ s.semaphoreClosed = true := by simp [hs.unrejected.1]
  have hacquire : (processor config service).step s .acquire = s.acquire := rfl
  rw [State.acquire, hpoint] at hacquire
  dsimp only at hacquire
  rw [if_neg hopen, if_neg hpermits] at hacquire
  exact canWork_of_busy (e := .acquire) (by simp [State.idle, hpoint]) rfl hacquire

theorem canWork_joining (outcome : ρ) (hpoint : s.point = .joining)
    (hunfinished : s.unfinished = 0) : CanWork config service outcome s := by
  have hbusy : s.idle = false := by simp [State.idle, hpoint]
  cases htasks : s.tasks with
  | nil =>
    exact canWork_of_busy (e := .finish) hbusy rfl (if_pos (by simp [hpoint, htasks]))
  | cons task tasks =>
    cases task with
    | finished panicked =>
      have hjoin : (processor config service).step s (.joinNext 0) = s.joinNext 0 := rfl
      rw [State.joinNext, if_pos hpoint, State.join, htasks] at hjoin
      exact canWork_of_busy (e := .joinNext 0) hbusy rfl hjoin
    | spawned batch => simp [State.unfinished, htasks, Task.unfinished] at hunfinished
    | calling kept => simp [State.unfinished, htasks, Task.unfinished] at hunfinished

/-- As long as it is not quiet, the processor can go on. -/
theorem canWork (outcome : ρ) (hs : Conserved s) (hl : Limited config s) (h : ¬ s.Quiet) :
    CanWork config service outcome s := by
  by_cases hunfinished : s.unfinished = 0
  · cases hpoint : s.point with
    | firstTick =>
      exact canWork_of_busy (e := .firstTick) (by simp [State.idle, hpoint]) rfl (if_pos hpoint)
    | selecting =>
      exact canWork_selecting outcome hpoint fun hquiet => h ⟨hunfinished, by rw [hpoint]; exact hquiet⟩
    | draining =>
      exact canWork_draining outcome hpoint fun hquiet => h ⟨hunfinished, by rw [hpoint]; exact hquiet⟩
    | acquiring batch site => exact canWork_acquiring outcome hpoint hs hl hunfinished
    | joining => exact canWork_joining outcome hpoint hunfinished
    | returned => exact absurd ⟨hunfinished, by rw [hpoint]; trivial⟩ h
  · exact canWork_task outcome hunfinished

end Liveness
end MojangApi.Batch
