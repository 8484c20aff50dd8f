import MojangApi.Batch.Conservation

/-! # Every accepted lookup is answered, or nobody is there to hear

The invariants of the processor together. A sender is dropped only when its
requester has left or its batch task has panicked, and when the processor
returns no accepted lookup is without an answer or such a reason.
-/

namespace MojangApi.Batch
open MojangApi Library

variable {ρ : Type*}

structure Conserved (s : State) : Prop where
  inOrder : InOrder s
  flushed : Flushed s
  accounted : Accounted s
  fresh : Fresh s
  sealedOff : Sealed s
  ended : Ended s
  unrejected : Unrejected s
  traced : Traced s
  explained : ∀ p ∈ s.disposals, Explained s p.1 p.2

section Explanations
variable {config : BatchConfig} {service : MojangService ρ} {s t : State} {own : Bool}

theorem Explained.mono {r : ℕ} {d : Disposal} (h : Explained s r d) (haccepted : s.accepted ⊆ t.accepted)
    (hanswered : s.answered ⊆ t.answered) (hgone : s.gone ⊆ t.gone)
    (hpanicked : s.panicked ⊆ t.panicked) : Explained t r d := by
  cases d with
  | sent result =>
    obtain ⟨lookup, hl, hr, names, answer, ha, hn, hresult⟩ := h
    exact ⟨lookup, haccepted hl, hr, names, answer, hanswered ha, hn, hresult⟩
  | dropped =>
    rcases h with h | ⟨kept, hk, hr⟩
    · exact .inl (hgone h)
    · exact .inr ⟨kept, hpanicked hk, hr⟩

/-- Every sender was disposed of for a reason, or for one outside of the processor. -/
def ExplainedOr (outside : ℕ × Disposal → Prop) (s : State) : Prop :=
  ∀ p ∈ s.disposals, Explained s p.1 p.2 ∨ outside p

theorem ExplainedOr.append {outside : ℕ × Disposal → Prop} (h : ExplainedOr outside s)
    {disposals : List (ℕ × Disposal)} (ht : t.disposals = s.disposals ++ disposals)
    (hnew : ∀ p ∈ disposals, Explained t p.1 p.2 ∨ outside p) (haccepted : s.accepted ⊆ t.accepted)
    (hanswered : s.answered ⊆ t.answered) (hgone : s.gone ⊆ t.gone)
    (hpanicked : s.panicked ⊆ t.panicked) : ExplainedOr outside t := by
  intro p hp
  rw [ht] at hp
  rcases List.mem_append.mp hp with hp | hp
  · exact (h p hp).imp_left fun hold => hold.mono haccepted hanswered hgone hpanicked
  · exact hnew p hp

theorem ExplainedOr.keep {outside : ℕ × Disposal → Prop} (h : ExplainedOr outside s)
    (ht : t.disposals = s.disposals) (haccepted : s.accepted ⊆ t.accepted)
    (hanswered : s.answered ⊆ t.answered) (hgone : s.gone ⊆ t.gone)
    (hpanicked : s.panicked ⊆ t.panicked) : ExplainedOr outside t :=
  h.append (by simp [ht] : t.disposals = s.disposals ++ []) (by simp) haccepted hanswered hgone
    hpanicked

/-- The sender of an accepted lookup, dropped when the processor was aborted. -/
def Lost (aborted : Prop) (s : State) (p : ℕ × Disposal) : Prop :=
  p.2 = .dropped ∧ aborted ∧ p.1 ∈ responses s.accepted

/-- What the batch tasks hold was accepted. -/
def TasksAccepted (s : State) : Prop := ∀ task ∈ s.tasks, task.lookups ⊆ s.accepted

theorem handed_subset_accepted (h : InOrder s) {batch : List PendingLookup}
    (hmem : batch ∈ s.handed) : batch ⊆ s.accepted := by
  intro lookup hl
  rw [h, List.append_assoc]
  exact List.mem_append_left _ (List.mem_flatten.mpr ⟨batch, hmem, hl⟩)

theorem closed_explained (s : State) (batch : List PendingLookup) (p : ℕ × Disposal)
    (hp : p ∈ droppedSenders (batch.filter fun lookup => s.isClosed lookup.response)) :
    p.2 = .dropped ∧ p.1 ∈ s.gone := by
  obtain ⟨lookup, hl, rfl⟩ := List.mem_map.mp hp
  exact ⟨rfl, by simpa [State.isClosed] using (List.mem_filter.mp hl).2⟩

theorem Conserved.tasksAccepted (h : Conserved s) : TasksAccepted s := by
  intro task hmem lookup hl
  have hfrom := h.traced.1 task hmem
  cases task with
  | spawned batch => exact handed_subset_accepted h.inOrder hfrom hl
  | calling kept =>
    obtain ⟨batch, hbatch, hsub⟩ := hfrom
    exact handed_subset_accepted h.inOrder hbatch (hsub.subset hl)
  | finished => cases hl

theorem explained_moves {outside : ℕ × Disposal → Prop} (h : ExplainedOr outside s)
    (htasks : TasksAccepted s) (hsemaphore : s.semaphoreClosed = false)
    (hm : Moves config service s own t) : ExplainedOr outside t := by
  have same := fun (α : Type) (l : List α) => List.Subset.refl l
  cases hm with
  | push => exact h.keep rfl (List.subset_append_left _ _) (same _ _) (same _ _) (same _ _)
  | dropReceiver => exact h.keep rfl (same _ _) (same _ _) (List.subset_cons_self _ _) (same _ _)
  | @collect lookup channel site =>
    rcases collect_cases config (s.setChannel channel) lookup site with
      ⟨-, hc⟩ | ⟨-, hc⟩ <;> rw [hc] <;> exact h
  | reject _ hclosed => exact absurd hclosed (by simp [hsemaphore])
  | @skip i batch =>
    refine h.append rfl ?_ (same _ _) (same _ _) (same _ _) (same _ _)
    intro p hp
    obtain ⟨hd, hgone⟩ := closed_explained s batch p hp
    rw [hd]
    exact .inl (.inl hgone)
  | @call i batch =>
    refine h.append rfl ?_ (same _ _) (same _ _) (same _ _) (same _ _)
    intro p hp
    obtain ⟨hd, hgone⟩ := closed_explained s batch p hp
    rw [hd]
    exact .inl (.inl hgone)
  | @answer i kept htask outcome =>
    refine h.append rfl ?_ (same _ _) (List.subset_append_left _ _) (same _ _) (same _ _)
    intro p hp
    obtain ⟨message, hmessage, rfl⟩ := List.mem_map.mp hp
    rw [finishBatch_sent] at hmessage
    obtain ⟨lookup, hl, rfl⟩ := List.mem_map.mp hmessage
    exact .inl ⟨lookup, htasks _ (List.mem_of_getElem? htask) hl, rfl, names kept, _,
      List.mem_append_right _ (List.mem_singleton.mpr rfl), List.mem_map_of_mem hl, rfl⟩
  | @panic i kept =>
    refine h.append rfl ?_ (same _ _) (same _ _) (same _ _) (List.subset_append_left _ _)
    intro p hp
    obtain ⟨lookup, hl, rfl⟩ := List.mem_map.mp hp
    exact .inl (.inr ⟨kept, List.mem_append_right _ (List.mem_singleton.mpr rfl),
      List.mem_map_of_mem hl⟩)
  | _ => exact h.keep rfl (same _ _) (same _ _) (same _ _) (same _ _)

theorem Conserved.explainedOr (h : Conserved s) (outside : ℕ × Disposal → Prop) :
    ExplainedOr outside s := fun p hp => .inl (h.explained p hp)

theorem Conserved.moves (h : Conserved s) (hm : Moves config service s own t) : Conserved t where
  inOrder := inOrder_moves h.inOrder hm
  flushed := flushed_moves h.flushed hm
  accounted := accounted_moves h.accounted hm
  fresh := fresh_moves h.fresh hm
  sealedOff := sealed_moves h.sealedOff hm
  ended := ended_moves h.ended hm
  unrejected := unrejected_moves h.unrejected hm
  traced := traced_moves h.traced hm
  explained p hp := (explained_moves (h.explainedOr fun _ => False) h.tasksAccepted
    h.unrejected.1 hm p hp).resolve_right id

theorem conserved_init (config : BatchConfig) : Conserved (.init config) where
  inOrder := rfl
  flushed := trivial
  accounted := fun _ => rfl
  fresh := ⟨List.nodup_nil, by simp [State.init, Channel.empty]⟩
  sealedOff := trivial
  ended := fun h => by cases h
  unrejected := ⟨rfl, rfl⟩
  traced := ⟨by simp [State.init], fun _ _ h => by cases h⟩
  explained := by simp [State.init]

theorem reachable_conserved (h : (processor config service).Reachable s) : Conserved s :=
  reachable_invariant (conserved_init config) (fun _ _ _ hu hm => hu.moves hm) h

end Explanations

section Consequences
variable {config : BatchConfig} {service : MojangService ρ} {s t : State} {own : Bool}

theorem Conserved.accepted_nodup (h : Conserved s) : (responses s.accepted).Nodup :=
  h.fresh.1.sublist ((List.sublist_append_left _ _).map _)

theorem Conserved.count_handed_le (h : Conserved s) (r : ℕ) :
    (responses s.handed.flatten).count r ≤ (responses s.accepted).count r := by
  have hsub : s.handed.flatten.Sublist s.accepted := by
    rw [h.inOrder, List.append_assoc]
    exact List.sublist_append_left _ _
  exact (hsub.map _).count_le r

/-- No sender is used twice. -/
theorem Conserved.disposals_nodup (h : Conserved s) : (s.disposals.map Prod.fst).Nodup := by
  rw [List.nodup_iff_count_le_one]
  intro r
  have haccounted := h.accounted r
  have hhanded := h.count_handed_le r
  have haccepted := List.nodup_iff_count_le_one.mp h.accepted_nodup r
  omega

/-- When the processor has returned, nothing is held any more. -/
theorem Conserved.returned (h : Conserved s) (hpoint : s.point = .returned) :
    s.channel.queue = [] ∧ s.channel.granted = [] ∧ s.pending = [] ∧ s.tasks = [] := by
  have hsealed := h.sealedOff
  have hflushed := h.flushed
  simp only [Sealed, Flushed, hpoint] at hsealed hflushed
  exact ⟨hsealed.2.1, hsealed.2.2, hflushed, h.ended hpoint⟩

theorem Conserved.disposed_of_returned (h : Conserved s) (hpoint : s.point = .returned)
    {lookup : PendingLookup} (hmem : lookup ∈ s.accepted) :
    ∃ disposal, (lookup.response, disposal) ∈ s.disposals := by
  obtain ⟨hqueue, -, hpending, htasks⟩ := h.returned hpoint
  have hheld : s.heldBy lookup.response = 0 := by
    simp [State.heldBy, htasks, hpoint, Point.batch]
  have hhanded : s.handed.flatten = s.accepted := by
    have horder := h.inOrder
    rw [InOrder, hqueue, hpending] at horder
    simpa using horder.symm
  have hcount := h.accounted lookup.response
  rw [hheld, hhanded] at hcount
  have hpos : 0 < (responses s.accepted).count lookup.response :=
    List.count_pos_iff.mpr (List.mem_map_of_mem hmem)
  have hdisposed : lookup.response ∈ s.disposals.map Prod.fst :=
    List.count_pos_iff.mp (by omega)
  obtain ⟨⟨r, disposal⟩, hp, rfl⟩ := List.mem_map.mp hdisposed
  exact ⟨disposal, hp⟩

/-- Once the queue is closed, a lookup can be accepted only in a slot it already has. -/
def ClosedSince (s t : State) : Prop :=
  t.channel.closed = true ∧
    t.accepted ++ t.channel.granted ⊆ s.accepted ++ s.channel.granted

theorem closedSince_moves {u : State} (h : ClosedSince u s) (hm : Moves config service s own t) :
    ClosedSince u t := by
  cases hm with
  | reserve _ _ hchannel =>
    exact absurd (Channel.reserve_granted hchannel).1 (by simp [h.1])
  | @push lookup channel hchannel =>
    obtain ⟨hmem, -, hgranted, hclosed, -⟩ := Channel.push_eq_some hchannel
    refine ⟨hclosed.trans h.1, fun l hl => h.2 ?_⟩
    rw [hgranted, List.append_assoc] at hl
    exact ((List.perm_cons_erase hmem).symm.append_left _).subset hl
  | @revoke lookup channel hchannel =>
    obtain ⟨-, -, hgranted, hclosed, -⟩ := Channel.revoke_eq_some hchannel
    refine ⟨hclosed.trans h.1, fun l hl => h.2 ?_⟩
    change l ∈ s.accepted ++ channel.granted at hl
    rw [hgranted] at hl
    exact (List.Sublist.append (List.Sublist.refl _) List.erase_sublist).subset hl
  | close => exact ⟨rfl, h.2⟩
  | @collect lookup channel site _ _ hrecv =>
    obtain ⟨-, hgranted, hclosed, -⟩ := Channel.recv_item hrecv
    rcases collect_cases config (s.setChannel channel) lookup site with
      ⟨-, hc⟩ | ⟨-, hc⟩ <;> rw [hc] <;>
      exact ⟨hclosed.trans h.1, by simpa [State.setChannel, State.flush, hgranted] using h.2⟩
  | _ => exact h

theorem closedSince_leads (hclosed : s.channel.closed = true)
    (h : (processor config service).Leads s t) : ClosedSince s t :=
  h.invariant ⟨hclosed, List.Subset.refl _⟩ fun _ _ _ hu he => closedSince_moves hu (step_moves he)

theorem reserve_after_close (hclosed : s.channel.closed = true) (lookup : PendingLookup) :
    (processor config service).step s (.reserve lookup) = none := by
  simp [processor, State.reserve, Channel.reserve_closed hclosed]

end Consequences

/-- In every reachable state the accepted lookups are, in order, the batches handed to
`spawn_batch`, the pending lookups and the queue; each sender was used at most once, by an
answer or for a reason. When the processor has returned, every accepted lookup's was. After
the queue is closed no lookup gets a slot. -/
theorem lookups_conserved (config : BatchConfig) (service : MojangService ρ) (s : State)
    (h : (processor config service).Reachable s) :
    s.accepted = s.handed.flatten ++ s.pending ++ s.channel.queue ∧
    (s.disposals.map Prod.fst).Nodup ∧
    (∀ r disposal, (r, disposal) ∈ s.disposals → match disposal with
      | .sent result => ∃ lookup ∈ s.accepted, lookup.response = r ∧ ∃ names answer,
          (names, answer) ∈ s.answered ∧ lookup.name ∈ names ∧ result = reply answer lookup.name
      | .dropped => Disposal.dropped.received = .error .transport ∧
          (r ∈ s.gone ∨ ∃ kept ∈ s.panicked, r ∈ responses kept)) ∧
    (s.point = .returned → s.channel.queue = [] ∧ s.pending = [] ∧ s.tasks = [] ∧
      ∀ lookup ∈ s.accepted, ∃ disposal, (lookup.response, disposal) ∈ s.disposals) ∧
    (s.channel.closed = true →
      (∀ lookup, (processor config service).step s (.reserve lookup) = none) ∧
      ∀ t, (processor config service).Leads s t → ∀ lookup ∈ t.accepted,
        lookup ∈ s.accepted ∨ lookup ∈ s.channel.granted) := by
  have hs := reachable_conserved h
  refine ⟨hs.inOrder, hs.disposals_nodup, ?_, ?_, ?_⟩
  · intro r disposal hmem
    have hexplained := hs.explained _ hmem
    cases disposal with
    | sent result => exact hexplained
    | dropped => exact ⟨rfl, hexplained⟩
  · intro hpoint
    obtain ⟨hqueue, -, hpending, htasks⟩ := hs.returned hpoint
    exact ⟨hqueue, hpending, htasks, fun lookup hmem => hs.disposed_of_returned hpoint hmem⟩
  · intro hclosed
    refine ⟨reserve_after_close hclosed, fun t ht lookup hmem => ?_⟩
    exact List.mem_append.mp ((closedSince_leads hclosed ht).2 (List.mem_append_left _ hmem))

/-- A service that knows no name. -/
def nobody : MojangService Unit where
  begin _ metrics := metrics
  finish _ _ metrics := (metrics, .ok [])

/-- Batches of two, a queue of four, one call at a time. -/
def smallConfig : BatchConfig :=
  ⟨2, 1, 4, 1, by decide, by decide, by decide, by decide⟩

def lonelyLookup : PendingLookup := ⟨"steve".toList, 0⟩

/-- A shutdown that finds a half-full batch. -/
def halfFullShutdown : List (Event Unit) :=
  [.firstTick, .reserve lonelyLookup, .push lonelyLookup, .recvBranch, .signalShutdown,
    .shutdownBranch, .drainRecv, .acquire, .pollTask 0, .completeTask 0 (), .joinNext 0, .finish]

/-- The lookup is answered before the processor returns. -/
theorem lookups_conserved_halfFull : ∃ s, (processor smallConfig nobody).run halfFullShutdown =
    some s ∧ s.point = .returned ∧ s.accepted = [lonelyLookup] ∧
      ∃ disposal, (lonelyLookup.response, disposal) ∈ s.disposals := by
  have hrun : ((processor smallConfig nobody).run halfFullShutdown).map
      (fun s => (s.point, s.accepted)) = some (.returned, [lonelyLookup]) := by rfl
  obtain ⟨s, hs, hpair⟩ := Option.map_eq_some_iff.mp hrun
  obtain ⟨hpoint, haccepted⟩ := Prod.mk.inj hpair
  obtain ⟨-, -, -, hreturned, -⟩ :=
    lookups_conserved smallConfig nobody s (Machine.reachable_of_run hs)
  exact ⟨s, hs, hpoint, haccepted,
    (hreturned hpoint).2.2.2 lonelyLookup (by simp [haccepted])⟩

end MojangApi.Batch
