import MojangApi.Batch.Progress

/-! # A processor that is told to stop returns

After the shutdown signal, or once no sender is left, the work that remains is
bounded by the queue, the pending lookups and the tasks, whatever the senders
still do, and it can always be gone on with. Only a sender that holds a slot and
does not use it can keep the processor waiting.
-/

namespace MojangApi.Batch
open MojangApi Library

variable {ρ : Type*}

/-- The owner has asked for the shutdown, or there is no sender any more. -/
def State.Stopping (s : State) : Prop := s.shutdown = true ∨ s.sendersGone = true

/-- No sender can get a slot any more. -/
def State.sealedOff (s : State) : Bool := s.channel.closed || s.sendersGone

/-- The lookups that may still come out of the queue. -/
def State.backlog (s : State) : ℕ :=
  if s.sealedOff then s.channel.queue.length + s.channel.granted.length else s.channel.capacity

/-- The steps that are left, whatever the senders do. -/
def State.left (s : State) : ℕ :=
  s.point.cost + 5 * s.pending.length + (s.tasks.map Task.cost).sum + 6 * s.backlog

/-- The senders leave only when none of them holds a slot. -/
def Departed (s : State) : Prop := s.sendersGone = true → s.channel.granted = []

section Steps
variable {config : BatchConfig} {service : MojangService ρ} {s t : State} {own : Bool}

theorem departed_moves (h : Departed s) (hm : Moves config service s own t) : Departed t := by
  cases hm with
  | reserve hopen =>
    intro hgone
    exact absurd hgone (by simp [hopen])
  | push hchannel =>
    intro hgone
    exact absurd (h hgone) (List.ne_nil_of_mem (Channel.push_eq_some hchannel).1)
  | revoke hchannel =>
    intro hgone
    exact absurd (h hgone) (List.ne_nil_of_mem (Channel.revoke_eq_some hchannel).1)
  | dropSenders hgranted => exact fun _ => hgranted
  | @collect lookup channel site _ _ hrecv =>
    have hgranted := (Channel.recv_item hrecv).2.1
    rcases collect_cases config (s.setChannel channel) lookup site with ⟨-, hc⟩ | ⟨-, hc⟩ <;>
      rw [hc] <;> exact fun hgone => hgranted.trans (h hgone)
  | _ => exact h

theorem reachable_departed (h : (processor config service).Reachable s) : Departed s :=
  reachable_invariant (fun hgone => by cases hgone) (fun _ _ _ hu hm => departed_moves hu hm) h

theorem backlog_le (s : State) : s.backlog ≤ s.channel.capacity := by
  unfold State.backlog
  split
  · exact s.channel.bounded
  · exact Nat.le_refl _

/-- Lookups that leave the channel, or only move within it. -/
theorem backlog_mono (hclosed : t.channel.closed = s.channel.closed)
    (hgone : t.sendersGone = s.sendersGone) (hcapacity : t.channel.capacity = s.channel.capacity)
    (hlength : t.channel.queue.length + t.channel.granted.length ≤
      s.channel.queue.length + s.channel.granted.length) : t.backlog ≤ s.backlog := by
  have hsealed : t.sealedOff = s.sealedOff := by rw [State.sealedOff, hclosed, hgone, State.sealedOff]
  rw [State.backlog, State.backlog, hsealed, hcapacity]
  split
  · exact hlength
  · exact Nat.le_refl _

theorem left_of_sealed (h : s.sealedOff = true) :
    s.left = s.work + 6 * s.channel.granted.length := by
  simp only [State.left, State.work, State.backlog, h, if_true]
  omega

theorem sealedOff_mono (hclosed : s.channel.closed = true → t.channel.closed = true)
    (hgone : t.sendersGone = s.sendersGone) (h : s.sealedOff = true) : t.sealedOff = true := by
  unfold State.sealedOff at *
  rw [hgone]
  cases hc : s.channel.closed with
  | true => simp [hclosed hc]
  | false => simpa [hc] using Or.inr h

/-- Once the loop has been left, no sender can get a slot. -/
theorem Conserved.sealedOff_of_draining (h : Conserved s) (hpoint : s.point = .draining) :
    s.sealedOff = true := by
  have hsealed := h.sealedOff
  simp only [Sealed, hpoint] at hsealed
  simpa [State.sealedOff] using hsealed

/-- Work done by a processor that is to stop brings it nearer to its end. -/
theorem left_lt_of_worked (hs : Conserved s) (hstop : s.Stopping) (h : Worked s t) :
    t.left < s.left := by
  have hwork := h.work
  by_cases hsealed : s.sealedOff = true
  · rw [left_of_sealed hsealed, left_of_sealed (sealedOff_mono h.closed h.sendersGone hsealed),
      h.granted]
    omega
  · have hqueue : t.channel.queue = s.channel.queue := by
      refine h.queue.resolve_right ?_
      rintro (⟨-, hshutdown⟩ | hpoint)
      · have hgone : s.sendersGone = true := hstop.resolve_left (by simp [hshutdown])
        exact hsealed (by simp [State.sealedOff, hgone])
      · exact hsealed (hs.sealedOff_of_draining hpoint)
    have hbacklog : t.backlog ≤ s.backlog := by
      have hcapacity : s.backlog = s.channel.capacity := if_neg hsealed
      have hle := backlog_le t
      rwa [h.capacity, ← hcapacity] at hle
    simp only [State.work, hqueue] at hwork
    simp only [State.left]
    omega

/-- What the others do brings a processor no further from its end. -/
theorem left_le_of_others {e : Event ρ} (he : e.isWork = false)
    (h : (processor config service).step s e = some t) : t.left ≤ s.left := by
  have hframe : ∀ {u : State}, u.point = s.point → u.pending = s.pending → u.tasks = s.tasks →
      u.backlog ≤ s.backlog → u.left ≤ s.left := by
    intro u hpoint hpending htasks hbacklog
    simp only [State.left, hpoint, hpending, htasks]
    omega
  cases e with
  | reserve lookup =>
    simp only [processor, State.reserve] at h
    split at h <;> try contradiction
    rename_i hfresh
    simp only [Bool.or_eq_true, not_or, Bool.not_eq_true] at hfresh
    split at h <;> try contradiction
    rename_i channel hchannel
    obtain rfl := Option.some.inj h
    obtain ⟨hopen, -, -, hclosed, hcapacity⟩ := Channel.reserve_granted hchannel
    refine hframe rfl rfl rfl (Nat.le_of_eq ?_)
    simp [State.backlog, State.sealedOff, hclosed, hopen, hfresh.1, hcapacity]
  | push lookup =>
    obtain ⟨channel, hchannel, rfl⟩ := Option.map_eq_some_iff.mp h
    obtain ⟨hmem, hqueue, hgranted, hclosed, hcapacity⟩ := Channel.push_eq_some hchannel
    have hpos := List.length_pos_of_mem hmem
    refine hframe rfl rfl rfl (backlog_mono hclosed rfl hcapacity ?_)
    rw [hqueue, hgranted, List.length_append, List.length_singleton,
      List.length_erase_of_mem hmem]
    omega
  | revoke lookup =>
    obtain ⟨channel, hchannel, rfl⟩ := Option.map_eq_some_iff.mp h
    obtain ⟨hmem, hqueue, hgranted, hclosed, hcapacity⟩ := Channel.revoke_eq_some hchannel
    refine hframe rfl rfl rfl (backlog_mono hclosed rfl hcapacity ?_)
    change channel.queue.length + channel.granted.length ≤ _
    rw [hqueue, hgranted, List.length_erase_of_mem hmem]
    omega
  | dropReceiver response =>
    obtain rfl := Option.some.inj h
    exact Nat.le_refl _
  | dropSenders =>
    simp only [processor, State.dropSenders, Option.ite_none_right_eq_some,
      Option.some.injEq] at h
    obtain ⟨-, rfl⟩ := h
    have hbacklog : State.backlog { s with sendersGone := true } =
        s.channel.queue.length + s.channel.granted.length := by
      simp [State.backlog, State.sealedOff]
    refine hframe rfl rfl rfl ?_
    rw [hbacklog, State.backlog]
    split
    · exact Nat.le_refl _
    · exact s.channel.bounded
  | signalShutdown =>
    obtain rfl := Option.some.inj h
    exact Nat.le_refl _
  | count metrics =>
    obtain rfl := Option.some.inj h
    exact Nat.le_refl _
  | _ => cases he

/-- A reason to stop does not go away. -/
theorem stopping_moves (h : s.Stopping) (hm : Moves config service s own t) : t.Stopping := by
  cases hm with
  | @collect lookup channel site =>
    rcases collect_cases config (s.setChannel channel) lookup site with ⟨-, hc⟩ | ⟨-, hc⟩ <;>
      rw [hc] <;> exact h
  | dropSenders => exact .inr rfl
  | signalShutdown => exact .inl rfl
  | _ => exact h

/-- A loop that is to stop is not idle. -/
theorem not_idle (hdeparted : Departed s) (hstop : s.Stopping) : s.idle = false := by
  rcases hstop with hshutdown | hgone
  · simp [State.idle, hshutdown]
  · cases hrecv : s.channel.recv s.sendersGone with
    | pending =>
      rcases (Channel.recv_pending hrecv).2 with hgranted | ⟨-, hsenders⟩
      · exact absurd (hdeparted hgone) hgranted
      · exact absurd hgone (by simp [hsenders])
    | _ => simp [State.idle, hrecv, Channel.Received.isPending]

/-- Reachable, with a reason to stop. -/
def Stops (config : BatchConfig) (service : MojangService ρ) (s : State) : Prop :=
  (processor config service).Reachable s ∧ s.Stopping

theorem left_pays : Machine.Pays (processor config service) (Stops config service)
    (fun _ => True) Event.isWork State.left where
  keeps s e t hs _ h := ⟨hs.1.next h, stopping_moves hs.2 (step_moves h)⟩
  le s e t hs _ h := by
    by_cases he : e.isWork = true
    · have hworked := worked_of_busy (not_idle (reachable_departed hs.1) hs.2) he h
      exact Nat.le_of_lt (left_lt_of_worked (reachable_conserved hs.1) hs.2 hworked)
    · exact left_le_of_others (by simpa using he) h
  lt s e t hs _ he h := by
    have hworked := worked_of_busy (not_idle (reachable_departed hs.1) hs.2) he h
    exact left_lt_of_worked (reachable_conserved hs.1) hs.2 hworked

/-- Without a slot that is still to be used, only a processor that has returned is quiet. -/
theorem returned_of_quiet (hs : Conserved s) (hstop : s.Stopping) (hgranted : s.channel.granted = [])
    (h : s.Quiet) : s.point = .returned := by
  obtain ⟨-, h⟩ := h
  cases hpoint : s.point with
  | returned => rfl
  | selecting =>
    rw [hpoint] at h
    obtain ⟨hshutdown, hrecv, -⟩ := h
    rcases (Channel.recv_pending hrecv).2 with hne | ⟨-, hsenders⟩
    · exact absurd hgranted hne
    · rcases hstop with hstop | hstop
      · exact absurd hstop (by simp [hshutdown])
      · exact absurd hstop (by simp [hsenders])
  | draining =>
    rw [hpoint] at h
    have hsealed := hs.sealedOff_of_draining hpoint
    rcases (Channel.recv_pending h).2 with hne | ⟨hclosed, hsenders⟩
    · exact absurd hgranted hne
    · exact absurd hsealed (by simp [State.sealedOff, hclosed, hsenders])
  | _ =>
    rw [hpoint] at h
    exact h.elim

/-- Without a slot that is still to be used, a quiet processor has answered every lookup. -/
theorem unresolved_of_quiet (hs : Conserved s) (hgranted : s.channel.granted = [])
    (h : s.Quiet) : s.unresolved = [] := by
  rw [List.eq_nil_iff_forall_not_mem]
  intro lookup hmem
  have hout := hs.outstanding_of_unresolved hmem
  have htasks : s.tasks.flatMap (fun task => responses task.lookups) = [] := by
    rw [List.flatMap_eq_nil_iff]
    intro task htask
    have hzero := List.sum_eq_zero_iff_forall_eq_nat.mp h.1 _ (List.mem_map_of_mem htask)
    cases task with
    | finished panicked => rfl
    | _ => cases hzero
  obtain ⟨-, h⟩ := h
  rw [State.outstanding, htasks, List.nil_append] at hout
  cases hpoint : s.point with
  | selecting =>
    rw [hpoint] at h hout
    obtain ⟨-, hrecv, hpending⟩ := h
    rw [hpending, (Channel.recv_pending hrecv).1] at hout
    cases hout
  | draining =>
    rw [hpoint] at h
    have hsealed := hs.sealedOff_of_draining hpoint
    rcases (Channel.recv_pending h).2 with hne | ⟨hclosed, hsenders⟩
    · exact hne hgranted
    · simp [State.sealedOff, hclosed, hsenders] at hsealed
  | returned =>
    obtain ⟨hqueue, -, hpending, -⟩ := hs.returned hpoint
    rw [hpoint, hpending, hqueue] at hout
    cases hout
  | _ =>
    rw [hpoint] at h
    exact h

theorem Limited.left_le (h : Limited config s) (hs : Conserved s) :
    s.left ≤ 6 * config.queueCapacity + 5 * config.size + 3 * s.tasks.length + 7 := by
  have hbacklog := backlog_le s
  have hpending := h.pending_lt hs
  have htasks : (s.tasks.map Task.cost).sum ≤ 3 * s.tasks.length := by
    refine sum_le_mul_length fun task _ => ?_
    cases task <;> simp [Task.cost]
  have hpoint : s.point.cost ≤ 7 := by
    cases s.point with
    | acquiring batch site => cases site <;> simp [Site.cost]
    | _ => simp [Point.cost]
  rw [h.capacity] at hbacklog
  simp only [State.left]
  omega

/-- The processor works on until it has returned, and gives every lookup its answer. -/
theorem drains (outcome : ρ) (h : Stops config service s) (hgranted : s.channel.granted = []) :
    ∃ es t, (∀ e ∈ es, Event.Answers outcome e) ∧ es.length ≤ s.left ∧
      (processor config service).runFrom s es = some t ∧ t.point = .returned ∧
      t.accepted = s.accepted := by
  have hlive : ∀ u, (Stops config service u ∧ u.channel.granted = [] ∧ u.accepted = s.accepted) →
      ¬ u.point = .returned → ∃ e v, Event.Answers outcome e ∧
        (processor config service).step u e = some v ∧
        (Stops config service v ∧ v.channel.granted = [] ∧ v.accepted = s.accepted) ∧
        v.left < u.left := by
    rintro u ⟨hu, hempty, haccepted⟩ hpoint
    have hconserved := reachable_conserved hu.1
    have hquiet : ¬ u.Quiet := fun hquiet =>
      hpoint (returned_of_quiet hconserved hu.2 hempty hquiet)
    obtain ⟨e, v, he, hv, hworked⟩ := canWork outcome hconserved (reachable_limited hu.1) hquiet
    exact ⟨e, v, he, hv, ⟨left_pays.keeps u e v hu trivial hv, hworked.granted.trans hempty,
      hworked.accepted.trans haccepted⟩, left_lt_of_worked hconserved hu.2 hworked⟩
  obtain ⟨es, t, hall, hrun, ⟨-, -, haccepted⟩, hpoint, hlength⟩ :=
    Machine.exists_run hlive ⟨h, hgranted, rfl⟩
  exact ⟨es, t, hall, hlength, hrun, hpoint, haccepted⟩

end Steps

/-- From the shutdown signal on, or once the senders are gone, the loop and its tasks take no
more steps than `left` allows, however the senders and requesters interleave with them; they
are stuck only while a sender holds a slot; and if none does, they go on, however upstream
answers, until the processor has returned and every accepted lookup has its answer. -/
theorem shutdown_drains (config : BatchConfig) (service : MojangService ρ) (s : State)
    (h : (processor config service).Reachable s)
    (hstop : s.shutdown = true ∨ s.sendersGone = true) :
    s.left ≤ 6 * config.queueCapacity + 5 * config.size + 3 * s.tasks.length + 7 ∧
    (∀ es t, (processor config service).runFrom s es = some t →
      es.countP Event.isWork + t.left ≤ s.left) ∧
    (∀ t, (processor config service).Leads s t → t.point ≠ .returned →
      t.channel.granted = [] → ∀ outcome, ∃ e u, Event.Answers outcome e ∧
        (processor config service).step t e = some u) ∧
    (s.channel.granted = [] → ∀ outcome, ∃ es t, (∀ e ∈ es, Event.Answers outcome e) ∧
      es.length ≤ s.left ∧ (processor config service).runFrom s es = some t ∧
      t.point = .returned ∧
      ∀ lookup ∈ s.accepted, ∃ disposal, (lookup.response, disposal) ∈ t.disposals) := by
  have hs : Stops config service s := ⟨h, hstop⟩
  refine ⟨(reachable_limited h).left_le (reachable_conserved h), ?_, ?_, ?_⟩
  · intro es t hrun
    exact left_pays.countP_le hs (fun _ _ => trivial) hrun
  · intro t ht hpoint hgranted outcome
    have htstop : Stops config service t := ht.invariant hs fun u e v hu hv => left_pays.keeps u e v hu trivial hv
    have hconserved := reachable_conserved htstop.1
    have hquiet : ¬ t.Quiet := fun hquiet =>
      hpoint (returned_of_quiet hconserved htstop.2 hgranted hquiet)
    obtain ⟨e, u, he, hu, -⟩ := canWork outcome hconserved (reachable_limited htstop.1) hquiet
    exact ⟨e, u, he, hu⟩
  · intro hgranted outcome
    obtain ⟨es, t, hall, hlength, hrun, hpoint, haccepted⟩ := drains outcome hs hgranted
    refine ⟨es, t, hall, hlength, hrun, hpoint, fun lookup hmem => ?_⟩
    have hreachable := h.leads (Machine.leads_of_runFrom hrun)
    exact (reachable_conserved hreachable).disposed_of_returned hpoint (haccepted ▸ hmem)

/-- The shutdown that finds a half-full batch takes seven steps at most. -/
theorem shutdown_drains_halfFull : ∃ s,
    (processor smallConfig nobody).run (halfFullShutdown.take 6) = some s ∧ s.left = 7 ∧
      ∃ es t, es.length ≤ 7 ∧ (processor smallConfig nobody).runFrom s es = some t ∧
        t.point = .returned ∧
        ∃ disposal, (lonelyLookup.response, disposal) ∈ t.disposals := by
  have hrun : ((processor smallConfig nobody).run (halfFullShutdown.take 6)).map
      (fun s => (s.shutdown, s.left, s.channel.granted, s.accepted)) =
        some (true, 7, [], [lonelyLookup]) := by rfl
  obtain ⟨s, hs, hvalues⟩ := Option.map_eq_some_iff.mp hrun
  obtain ⟨hshutdown, hleft, hgranted, haccepted⟩ : s.shutdown = true ∧ s.left = 7 ∧
      s.channel.granted = [] ∧ s.accepted = [lonelyLookup] := by simpa using hvalues
  obtain ⟨-, -, -, hdrains⟩ := shutdown_drains smallConfig nobody s (Machine.reachable_of_run hs)
    (.inl hshutdown)
  obtain ⟨es, t, -, hlength, hrunFrom, hpoint, hanswered⟩ := hdrains hgranted ()
  exact ⟨s, hs, hleft, es, t, hleft ▸ hlength, hrunFrom, hpoint,
    hanswered lonelyLookup (by simp [haccepted])⟩

end MojangApi.Batch
