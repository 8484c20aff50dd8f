import MojangApi.Batch.Moves
import MojangApi.Library.Lists
import Mathlib.Data.List.Perm.Basic

/-! # No lookup is lost, reordered or answered twice

Accepted lookups lie, in their order, in the batches handed on, the pending
lookups and the queue. Every response sender of a handed batch is either still
held by one batch task, or was disposed of once, by an answer or for a reason.
-/

namespace MojangApi.Batch
open MojangApi Library

variable {ρ : Type*}

/-- The batch that waits for a permit. -/
def Point.batch : Point → List PendingLookup
  | .acquiring batch _ => batch
  | _ => []

@[simp] theorem Point.batch_acquiring (batch : List PendingLookup) (site : Site) :
    (Point.acquiring batch site).batch = batch := rfl

@[simp] theorem Site.batch_resume (site : Site) : site.resume.batch = [] := by
  cases site <;> rfl

/-- How many of a channel's senders the batch tasks and a waiting batch hold. -/
def State.heldBy (s : State) (r : ℕ) : ℕ :=
  (s.tasks.map fun task => (responses task.lookups).count r).sum +
    (responses s.point.batch).count r

def InOrder (s : State) : Prop :=
  s.accepted = s.handed.flatten ++ s.pending ++ s.channel.queue

/-- Pending lookups are gone once a batch waits, and when only tasks are left. -/
def Flushed (s : State) : Prop :=
  match s.point with
  | .acquiring _ _ | .joining | .returned => s.pending = []
  | _ => True

/-- Every sender of a handed batch is held or disposed of, as often as it was handed. -/
def Accounted (s : State) : Prop :=
  ∀ r, (s.disposals.map Prod.fst).count r + s.heldBy r = (responses s.handed.flatten).count r

/-- Every lookup that has a slot or was accepted has a response channel of its own. -/
def Fresh (s : State) : Prop :=
  (responses (s.accepted ++ s.channel.granted)).Nodup ∧
    ∀ r ∈ responses (s.accepted ++ s.channel.granted), r ∈ s.issued

/-- After the main loop no sender gets a slot, and after the drain loop none is left. -/
def Sealed (s : State) : Prop :=
  match s.point with
  | .firstTick | .selecting | .acquiring _ .loop => True
  | .draining | .acquiring _ .drain => s.channel.closed = true ∨ s.sendersGone = true
  | .acquiring _ .final | .joining | .returned => (s.channel.closed = true ∨
      s.sendersGone = true) ∧ s.channel.queue = [] ∧ s.channel.granted = []

def Ended (s : State) : Prop := s.point = .returned → s.tasks = []

/-- Nothing closes the semaphore. -/
def Unrejected (s : State) : Prop := s.semaphoreClosed = false ∧ s.rejected = []

/-- A batch task works on a batch that was handed to it. -/
def Task.From (handed : List (List PendingLookup)) : Task → Prop
  | .spawned batch => batch ∈ handed
  | .calling kept => ∃ batch ∈ handed, kept.Sublist batch
  | .finished _ => True

def Traced (s : State) : Prop :=
  (∀ task ∈ s.tasks, task.From s.handed) ∧
    ∀ batch site, s.point = .acquiring batch site → batch ∈ s.handed

/-- Why a sender was disposed of: by an answer to a call with its name, because the
requester had left, or in a panic. -/
def Explained (s : State) (r : ℕ) : Disposal → Prop
  | .sent result => ∃ lookup ∈ s.accepted, lookup.response = r ∧ ∃ names answer,
      (names, answer) ∈ s.answered ∧ lookup.name ∈ names ∧ result = reply answer lookup.name
  | .dropped => r ∈ s.gone ∨ ∃ kept ∈ s.panicked, r ∈ responses kept

section Order
variable {config : BatchConfig} {service : MojangService ρ} {s t : State} {own : Bool}

theorem collect_cases (config : BatchConfig) (s : State) (lookup : PendingLookup) (site : Site) :
    (config.size ≤ s.pending.length + 1 ∧
        s.collect config lookup site = s.flush (s.pending ++ [lookup]) site) ∨
      (s.pending.length + 1 < config.size ∧
        s.collect config lookup site = { s with pending := s.pending ++ [lookup] }) := by
  by_cases h : config.size ≤ s.pending.length + 1
  · exact .inl ⟨h, by simp [State.collect, h]⟩
  · exact .inr ⟨Nat.not_le.mp h, by simp [State.collect, h]⟩

theorem inOrder_flush (h : InOrder s) (site : Site) : InOrder (s.flush s.pending site) := by
  simpa [InOrder, State.flush] using h

theorem inOrder_moves (h : InOrder s) (hm : Moves config service s own t) : InOrder t := by
  cases hm with
  | reserve _ _ hchannel => simpa [InOrder, (Channel.reserve_granted hchannel).2.1] using h
  | push hchannel =>
    rw [InOrder] at h ⊢
    simp [(Channel.push_eq_some hchannel).2.1, h]
  | revoke hchannel =>
    simpa [InOrder, State.setChannel, (Channel.revoke_eq_some hchannel).2.1] using h
  | @collect lookup channel site _ _ hrecv =>
    have hqueue := (Channel.recv_item hrecv).1
    rw [InOrder, hqueue] at h
    rcases collect_cases config (s.setChannel channel) lookup site with
      ⟨-, hc⟩ | ⟨-, hc⟩ <;> rw [hc] <;>
      simpa [InOrder, State.flush, State.setChannel] using h
  | tick => exact inOrder_flush h _
  | lastBatch => exact inOrder_flush h _
  | _ => exact h

theorem flushed_moves (h : Flushed s) (hm : Moves config service s own t) : Flushed t := by
  cases hm with
  | firstTick => trivial
  | close => trivial
  | @collect lookup channel site hpoint hsite _ =>
    rcases collect_cases config (s.setChannel channel) lookup site with
      ⟨-, hc⟩ | ⟨-, hc⟩ <;> rw [hc]
    · rfl
    · cases site <;> simp_all [Flushed, State.setChannel, Site.resume]
  | exhausted => trivial
  | tick => rfl
  | drained _ _ hpending => exact hpending
  | lastBatch => rfl
  | @spawn batch site hpoint =>
    cases site <;> simp_all [Flushed, Site.resume]
  | @reject batch site hpoint =>
    cases site <;> simp_all [Flushed, Site.resume]
  | finish => simp_all [Flushed, State.setPoint]
  | _ => exact h

theorem fresh_moves (h : Fresh s) (hm : Moves config service s own t) : Fresh t := by
  cases hm with
  | reserve _ hfresh hchannel =>
    have hgranted := (Channel.reserve_granted hchannel).2.2.1
    have hnot := fun hmem => hfresh (h.2 _ hmem)
    constructor
    · rw [hgranted, ← List.append_assoc, responses, List.map_append, List.nodup_append_comm]
      exact List.nodup_cons.mpr ⟨hnot, h.1⟩
    · intro r hr
      rw [hgranted, ← List.append_assoc, responses, List.map_append, List.mem_append] at hr
      rcases hr with hr | hr
      · exact List.mem_cons_of_mem _ (h.2 r hr)
      · simp_all
  | @push lookup channel hchannel =>
    obtain ⟨hmem, -, hgranted, -⟩ := Channel.push_eq_some hchannel
    have hperm : (s.accepted ++ [lookup] ++ channel.granted).Perm
        (s.accepted ++ s.channel.granted) := by
      rw [hgranted, List.append_assoc]
      exact (List.perm_cons_erase hmem).symm.append_left _
    exact ⟨(hperm.map _).nodup_iff.mpr h.1, fun r hr => h.2 r ((hperm.map _).mem_iff.mp hr)⟩
  | revoke hchannel =>
    obtain ⟨-, -, hgranted, -⟩ := Channel.revoke_eq_some hchannel
    have hsub := List.Sublist.append (List.Sublist.refl s.accepted)
      (hgranted ▸ List.erase_sublist)
    exact ⟨h.1.sublist (hsub.map _), fun r hr => h.2 r ((hsub.map _).subset hr)⟩
  | @collect lookup channel site _ _ hrecv =>
    have hgranted := (Channel.recv_item hrecv).2.1
    rcases collect_cases config (s.setChannel channel) lookup site with
      ⟨-, hc⟩ | ⟨-, hc⟩ <;> rw [hc] <;>
      simpa [Fresh, State.flush, State.setChannel, hgranted] using h
  | _ => exact h

theorem sealed_moves (h : Sealed s) (hm : Moves config service s own t) : Sealed t := by
  cases hm with
  | reserve hopen _ hchannel =>
    have hclosed := (Channel.reserve_granted hchannel).1
    cases hp : s.point with
    | acquiring _ site => cases site <;> simp_all [Sealed]
    | _ => simp_all [Sealed]
  | push hchannel =>
    obtain ⟨hmem, -, -, hclosed, -⟩ := Channel.push_eq_some hchannel
    have hne := List.ne_nil_of_mem hmem
    cases hp : s.point with
    | acquiring _ site => cases site <;> simp_all [Sealed]
    | _ => simp_all [Sealed]
  | revoke hchannel =>
    obtain ⟨hmem, -, -, hclosed, -⟩ := Channel.revoke_eq_some hchannel
    have hne := List.ne_nil_of_mem hmem
    cases hp : s.point with
    | acquiring _ site => cases site <;> simp_all [Sealed, State.setChannel]
    | _ => simp_all [Sealed, State.setChannel]
  | dropSenders hgranted =>
    cases hp : s.point with
    | acquiring _ site => cases site <;> simp_all [Sealed]
    | _ => simp_all [Sealed]
  | firstTick => trivial
  | close => exact .inl rfl
  | @collect lookup channel site hpoint hsite hrecv =>
    have hclosed := (Channel.recv_item hrecv).2.2.1
    rcases collect_cases config (s.setChannel channel) lookup site with
      ⟨-, hc⟩ | ⟨-, hc⟩ <;> rw [hc] <;>
      cases site <;> simp_all [Sealed, State.setChannel, State.flush, Site.resume]
  | exhausted _ hrecv => exact (Channel.recv_finished hrecv).2.2
  | tick => trivial
  | drained _ hrecv _ =>
    obtain ⟨hqueue, hgranted, hclosed⟩ := Channel.recv_finished hrecv
    exact ⟨hclosed, hqueue, hgranted⟩
  | lastBatch _ hrecv _ =>
    obtain ⟨hqueue, hgranted, hclosed⟩ := Channel.recv_finished hrecv
    exact ⟨hclosed, hqueue, hgranted⟩
  | @spawn batch site hpoint => cases site <;> simp_all [Sealed, Site.resume]
  | @reject batch site hpoint => cases site <;> simp_all [Sealed, Site.resume]
  | finish => simp_all [Sealed, State.setPoint]
  | _ => exact h

theorem ended_moves (h : Ended s) (hm : Moves config service s own t) : Ended t := by
  intro hreturned
  cases hm with
  | finish _ htasks => exact htasks
  | @collect lookup channel site hpoint hsite =>
    rcases collect_cases config (s.setChannel channel) lookup site with
      ⟨-, hc⟩ | ⟨-, hc⟩ <;> rw [hc] at hreturned ⊢
    · cases hreturned
    · cases site <;> simp_all [State.setChannel, Site.resume]
  | @spawn batch site => cases site <;> cases hreturned
  | @reject batch site => cases site <;> cases hreturned
  | join htask => simp [h hreturned] at htask
  | skip htask => simp [h hreturned] at htask
  | call htask => simp [h hreturned] at htask
  | answer htask => simp [h hreturned] at htask
  | panic htask => simp [h hreturned] at htask
  | firstTick => cases hreturned
  | close => cases hreturned
  | exhausted => cases hreturned
  | tick => cases hreturned
  | drained => cases hreturned
  | lastBatch => cases hreturned
  | _ => exact h hreturned

theorem unrejected_moves (h : Unrejected s) (hm : Moves config service s own t) : Unrejected t := by
  cases hm with
  | @collect lookup channel site =>
    rcases collect_cases config (s.setChannel channel) lookup site with
      ⟨-, hc⟩ | ⟨-, hc⟩ <;> rw [hc] <;> exact h
  | reject _ hclosed => exact absurd hclosed (by simp [h.1])
  | _ => exact h

end Order

section Holders
variable {config : BatchConfig} {service : MojangService ρ} {s t : State} {own : Bool}

/-- The filter splits the senders of a batch into kept ones and closed ones. -/
theorem count_open_add_closed (isClosed : ℕ → Bool) (batch : List PendingLookup) (r : ℕ) :
    (responses (batch.filter fun lookup => isClosed lookup.response)).count r +
      (responses (openLookups isClosed batch)).count r = (responses batch).count r := by
  induction batch with
  | nil => rfl
  | cons lookup batch ih =>
    simp only [responses, openLookups] at ih ⊢
    by_cases h : isClosed lookup.response = true
    · simp only [List.filter_cons, h, Bool.not_true, if_true, Bool.false_eq_true, if_false,
        List.map_cons, List.count_cons]
      omega
    · simp only [List.filter_cons, h, Bool.not_false, if_true, Bool.false_eq_true, if_false,
        List.map_cons, List.count_cons]
      omega

@[simp] theorem droppedSenders_fst (lookups : List PendingLookup) :
    (droppedSenders lookups).map Prod.fst = responses lookups := by
  simp [droppedSenders, responses]

@[simp] theorem sentResponses_fst (sent : List (ℕ × LookupResult)) :
    (sentResponses sent).map Prod.fst = sent.map Prod.fst := by
  simp [sentResponses]

@[simp] theorem rejectBatch_fst (batch : List PendingLookup) (error : UpstreamError) :
    (rejectBatch batch error).map Prod.fst = responses batch := by
  simp [rejectBatch, rejectResponses, Function.comp_def]

@[simp] theorem finishBatch_fst (kept : List PendingLookup) (outcome : ρ) (metrics : Metrics) :
    (finishBatch service kept outcome metrics).2.map Prod.fst = responses kept := by
  simp [finishBatch_sent, responses]

theorem accounted_flush (h : Accounted s) (hpoint : s.point.batch = [])
    (batch : List PendingLookup) (site : Site) : Accounted (s.flush batch site) := by
  intro r
  have hr := h r
  simp only [State.heldBy, hpoint, State.flush, Point.batch_acquiring, responses_nil,
    List.count_nil, List.flatten_append, responses_append, List.count_append,
    List.flatten_singleton] at hr ⊢
  omega

/-- Replacing a task and disposing of senders balance out. -/
theorem accounted_setTask (h : Accounted s) {i : ℕ} {task : Task}
    (htask : s.tasks[i]? = some task) (task' : Task) (disposals : List (ℕ × Disposal))
    (hbalance : ∀ r, (disposals.map Prod.fst).count r + (responses task'.lookups).count r =
      (responses task.lookups).count r)
    (ht : t.disposals = s.disposals ++ disposals ∧ t.tasks = s.tasks.set i task' ∧
      t.point = s.point ∧ t.handed = s.handed) : Accounted t := by
  intro r
  have hr := h r
  have hsum := sum_set (fun task => (responses task.lookups).count r) htask task'
  have hb := hbalance r
  simp only [State.heldBy, ht.1, ht.2.1, ht.2.2.1, ht.2.2.2, List.map_append,
    List.count_append] at hr hsum ⊢
  omega

theorem accounted_moves (h : Accounted s) (hm : Moves config service s own t) : Accounted t := by
  cases hm with
  | @collect lookup channel site hpoint =>
    rcases collect_cases config (s.setChannel channel) lookup site with
      ⟨-, hc⟩ | ⟨-, hc⟩ <;> rw [hc]
    · refine accounted_flush (s := s.setChannel channel) h ?_ _ _
      cases site <;> simp [State.setChannel, hpoint, Site.resume, Point.batch]
    · exact h
  | tick hpoint => exact accounted_flush h (by simp [hpoint, Point.batch]) _ _
  | lastBatch hpoint => exact accounted_flush h (by simp [hpoint, Point.batch]) _ _
  | firstTick hpoint =>
    simpa [Accounted, State.heldBy, State.setPoint, hpoint, Point.batch] using h
  | close hpoint =>
    simpa [Accounted, State.heldBy, State.setPoint, State.setChannel, hpoint, Point.batch] using h
  | exhausted hpoint =>
    simpa [Accounted, State.heldBy, State.setPoint, hpoint, Point.batch] using h
  | drained hpoint =>
    simpa [Accounted, State.heldBy, State.setPoint, hpoint, Point.batch] using h
  | finish hpoint =>
    simpa [Accounted, State.heldBy, State.setPoint, hpoint, Point.batch] using h
  | join htask =>
    intro r
    have hr := h r
    have hsum := sum_eraseIdx (fun task => (responses task.lookups).count r) htask
    simp only [State.heldBy, Task.lookups, responses, List.map_nil, List.count_nil] at hr hsum ⊢
    omega
  | @spawn batch site hpoint =>
    intro r
    have hr := h r
    simp only [State.heldBy, hpoint, Site.batch_resume, Point.batch_acquiring, List.map_append,
      List.map_cons, List.map_nil, List.sum_append, List.sum_cons, List.sum_nil, responses_nil,
      List.count_nil] at hr ⊢
    change _ + (_ + ((responses batch).count r + 0) + 0) = _
    omega
  | @reject batch site hpoint =>
    intro r
    have hr := h r
    simp only [State.heldBy, hpoint, Site.batch_resume, Point.batch_acquiring, List.map_append,
      List.count_append, sentResponses_fst, rejectBatch_fst, responses_nil, List.count_nil] at hr ⊢
    omega
  | @skip i batch htask hkept =>
    refine accounted_setTask h htask (.finished false) _ ?_ ⟨rfl, rfl, rfl, rfl⟩
    intro r
    have hsplit := count_open_add_closed s.isClosed batch r
    rw [hkept] at hsplit
    simpa [Task.lookups] using hsplit
  | @call i batch htask hkept =>
    refine accounted_setTask h htask (.calling (openLookups s.isClosed batch)) _ ?_
      ⟨rfl, rfl, rfl, rfl⟩
    intro r
    simpa [Task.lookups] using count_open_add_closed s.isClosed batch r
  | @answer i kept htask outcome =>
    refine accounted_setTask h htask (.finished false) _ ?_ ⟨rfl, rfl, rfl, rfl⟩
    intro r
    simp [Task.lookups, responses]
  | @panic i kept htask =>
    refine accounted_setTask h htask (.finished true) _ ?_ ⟨rfl, rfl, rfl, rfl⟩
    intro r
    simp [Task.lookups, responses]
  | _ => exact h

theorem Task.From.mono {handed handed' : List (List PendingLookup)} {task : Task}
    (h : task.From handed) (hsub : handed ⊆ handed') : task.From handed' := by
  cases task with
  | spawned batch => exact hsub h
  | calling kept =>
    obtain ⟨batch, hmem, hkept⟩ := h
    exact ⟨batch, hsub hmem, hkept⟩
  | finished panicked => trivial

theorem traced_flush (h : Traced s) (batch : List PendingLookup) (site : Site) :
    Traced (s.flush batch site) := by
  constructor
  · intro task hmem
    exact (h.1 task hmem).mono (List.subset_append_left _ _)
  · intro batch' site' hpoint
    cases hpoint
    exact List.mem_append_right _ (by simp)

theorem traced_setTask (h : Traced s) {i : ℕ} (task : Task) (hfrom : task.From s.handed)
    (ht : t.tasks = s.tasks.set i task ∧ t.point = s.point ∧ t.handed = s.handed) : Traced t := by
  constructor
  · intro task' hmem
    rw [ht.1] at hmem
    rw [ht.2.2]
    rcases List.mem_or_eq_of_mem_set hmem with hmem | rfl
    · exact h.1 task' hmem
    · exact hfrom
  · intro batch site hpoint
    rw [ht.2.2]
    exact h.2 batch site (ht.2.1 ▸ hpoint)

theorem traced_moves (h : Traced s) (hm : Moves config service s own t) : Traced t := by
  cases hm with
  | @collect lookup channel site =>
    rcases collect_cases config (s.setChannel channel) lookup site with
      ⟨-, hc⟩ | ⟨-, hc⟩ <;> rw [hc]
    · exact traced_flush (s := s.setChannel channel) h _ _
    · exact h
  | tick => exact traced_flush h _ _
  | lastBatch => exact traced_flush h _ _
  | firstTick => exact ⟨h.1, by simp [State.setPoint]⟩
  | close => exact ⟨h.1, by simp [State.setPoint]⟩
  | exhausted => exact ⟨h.1, by simp [State.setPoint]⟩
  | drained => exact ⟨h.1, by simp [State.setPoint]⟩
  | finish => exact ⟨h.1, by simp [State.setPoint]⟩
  | join => exact ⟨fun task hmem => h.1 task (List.mem_of_mem_eraseIdx hmem), h.2⟩
  | @spawn batch site hpoint =>
    constructor
    · intro task hmem
      rcases List.mem_append.mp hmem with hmem | hmem
      · exact h.1 task hmem
      · obtain rfl := List.mem_singleton.mp hmem
        exact h.2 batch site hpoint
    · intro batch' site' hpoint'
      cases site <;> cases hpoint'
  | @reject batch site =>
    refine ⟨h.1, fun batch' site' hpoint' => ?_⟩
    cases site <;> cases hpoint'
  | @skip i batch htask => exact traced_setTask h (.finished false) trivial ⟨rfl, rfl, rfl⟩
  | @call i batch htask =>
    have hbatch := h.1 _ (List.mem_of_getElem? htask)
    exact traced_setTask h (.calling (openLookups s.isClosed batch))
      ⟨batch, hbatch, List.filter_sublist⟩ ⟨rfl, rfl, rfl⟩
  | answer => exact traced_setTask h (.finished false) trivial ⟨rfl, rfl, rfl⟩
  | panic => exact traced_setTask h (.finished true) trivial ⟨rfl, rfl, rfl⟩
  | _ => exact h

end Holders
end MojangApi.Batch
