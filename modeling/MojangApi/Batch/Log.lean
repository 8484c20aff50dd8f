import MojangApi.Batch.Conservation

/-! # Which event wrote which record

A call is answered when it completes, a batch is recorded as panicked when its task
panics, and the queue is closed only after the signal to shut down.
-/

namespace MojangApi.Batch
open MojangApi Library

variable {ρ : Type*} {config : BatchConfig} {service : MojangService ρ} {s t : State}

/-- Nothing is recorded, and the queue is closed only if the signal is there. -/
structure SameLog (s t : State) : Prop where
  answered : t.answered = s.answered
  panicked : t.panicked = s.panicked
  shutdown : t.shutdown = s.shutdown
  closed : t.channel.closed = true → s.channel.closed = true ∨ s.shutdown = true

theorem SameLog.of_closed (hanswered : t.answered = s.answered)
    (hpanicked : t.panicked = s.panicked) (hshutdown : t.shutdown = s.shutdown)
    (hclosed : t.channel.closed = s.channel.closed) : SameLog s t :=
  ⟨hanswered, hpanicked, hshutdown, fun h => .inl (hclosed.symm.trans h)⟩

theorem SameLog.refl (s : State) : SameLog s s := .of_closed rfl rfl rfl rfl

theorem sameLog_collect {lookup : PendingLookup} {channel : Channel PendingLookup} (site : Site)
    (hrecv : s.channel.recv s.sendersGone = .item lookup channel) :
    SameLog s ((s.setChannel channel).collect config lookup site) := by
  have hclosed := (Channel.recv_item hrecv).2.2.1
  rcases collect_cases config (s.setChannel channel) lookup site with ⟨-, hc⟩ | ⟨-, hc⟩ <;>
    rw [hc] <;> exact .of_closed rfl rfl rfl hclosed

theorem sameLog_reserve {lookup : PendingLookup} (h : s.reserve lookup = some t) : SameLog s t := by
  unfold State.reserve at h
  split at h <;> try contradiction
  split at h <;> try contradiction
  rename_i channel hchannel
  exact Option.some.inj h ▸ .of_closed rfl rfl rfl (Channel.reserve_granted hchannel).2.2.2.1

theorem sameLog_join {i : ℕ} (h : s.join i = some t) : SameLog s t := by
  unfold State.join at h
  split at h <;> try contradiction
  exact Option.some.inj h ▸ .of_closed rfl rfl rfl rfl

theorem sameLog_recvBranch (h : s.recvBranch config = some t) : SameLog s t := by
  unfold State.recvBranch at h
  split at h <;> try contradiction
  split at h <;> try contradiction
  · rename_i hrecv
    exact Option.some.inj h ▸ sameLog_collect _ hrecv
  · exact Option.some.inj h ▸ .of_closed rfl rfl rfl rfl

theorem sameLog_drainRecv (h : s.drainRecv config = some t) : SameLog s t := by
  unfold State.drainRecv at h
  split at h <;> try contradiction
  split at h <;> try contradiction
  · rename_i hrecv
    exact Option.some.inj h ▸ sameLog_collect _ hrecv
  · split at h <;> exact Option.some.inj h ▸ .of_closed rfl rfl rfl rfl

theorem sameLog_acquire (h : s.acquire = some t) : SameLog s t := by
  unfold State.acquire at h
  split at h <;> try contradiction
  split at h
  · exact Option.some.inj h ▸ .of_closed rfl rfl rfl rfl
  · split at h <;> try contradiction
    exact Option.some.inj h ▸ .of_closed rfl rfl rfl rfl

theorem sameLog_pollTask {i : ℕ} (h : s.pollTask service i = some t) : SameLog s t := by
  unfold State.pollTask at h
  split at h <;> try contradiction
  dsimp only at h
  split at h <;> exact Option.some.inj h ▸ .of_closed rfl rfl rfl rfl

/-- The three events that write a record. -/
inductive Logs (service : MojangService ρ) (s t : State) : Event ρ → Prop
  | answer {i : ℕ} {kept : List PendingLookup} (outcome : ρ)
      (htask : s.tasks[i]? = some (.calling kept))
      (hanswered : t.answered = s.answered ++
        [(names kept, (service.finish (names kept) outcome s.metrics).2)])
      (hpanicked : t.panicked = s.panicked) (hshutdown : t.shutdown = s.shutdown)
      (hchannel : t.channel = s.channel) : Logs service s t (.completeTask i outcome)
  | panic (i : ℕ) (hanswered : t.answered = s.answered) (hshutdown : t.shutdown = s.shutdown)
      (hchannel : t.channel = s.channel) : Logs service s t (.panicTask i)
  | shutdown (hanswered : t.answered = s.answered) (hpanicked : t.panicked = s.panicked)
      (hshutdown : t.shutdown = true) : Logs service s t .signalShutdown

theorem log_step {e : Event ρ} (h : (processor config service).step s e = some t) :
    SameLog s t ∨ Logs service s t e := by
  cases e with
  | reserve lookup => exact .inl (sameLog_reserve h)
  | push lookup =>
    obtain ⟨channel, hchannel, rfl⟩ := Option.map_eq_some_iff.mp h
    exact .inl (.of_closed rfl rfl rfl (Channel.push_eq_some hchannel).2.2.2.1)
  | revoke lookup =>
    obtain ⟨channel, hchannel, rfl⟩ := Option.map_eq_some_iff.mp h
    exact .inl (.of_closed rfl rfl rfl (Channel.revoke_eq_some hchannel).2.2.2.1)
  | dropReceiver response => exact .inl (Option.some.inj h ▸ .of_closed rfl rfl rfl rfl)
  | dropSenders =>
    simp only [processor, State.dropSenders, Option.ite_none_right_eq_some, Option.some.injEq] at h
    exact .inl (h.2 ▸ .of_closed rfl rfl rfl rfl)
  | signalShutdown => exact .inr (Option.some.inj h ▸ .shutdown rfl rfl rfl)
  | count metrics => exact .inl (Option.some.inj h ▸ .of_closed rfl rfl rfl rfl)
  | firstTick =>
    simp only [processor, State.firstTick, Option.ite_none_right_eq_some, Option.some.injEq] at h
    exact .inl (h.2 ▸ .of_closed rfl rfl rfl rfl)
  | shutdownBranch =>
    simp only [processor, State.shutdownBranch, Option.ite_none_right_eq_some,
      Option.some.injEq, Bool.and_eq_true] at h
    exact .inl (h.2 ▸ ⟨rfl, rfl, rfl, fun _ => .inr h.1.2⟩)
  | recvBranch => exact .inl (sameLog_recvBranch h)
  | tickBranch =>
    simp only [processor, State.tickBranch, Option.ite_none_right_eq_some] at h
    obtain ⟨-, h⟩ := h
    split at h <;> exact .inl (Option.some.inj h ▸ .of_closed rfl rfl rfl rfl)
  | joinBranch i =>
    simp only [processor, State.joinBranch, Option.ite_none_right_eq_some] at h
    exact .inl (sameLog_join h.2)
  | drainRecv => exact .inl (sameLog_drainRecv h)
  | acquire => exact .inl (sameLog_acquire h)
  | joinNext i =>
    simp only [processor, State.joinNext, Option.ite_none_right_eq_some] at h
    exact .inl (sameLog_join h.2)
  | finish =>
    simp only [processor, State.finish, Option.ite_none_right_eq_some, Option.some.injEq] at h
    exact .inl (h.2 ▸ .of_closed rfl rfl rfl rfl)
  | pollTask i => exact .inl (sameLog_pollTask h)
  | completeTask i outcome =>
    simp only [processor, State.completeTask] at h
    split at h <;> try contradiction
    rename_i kept htask
    exact .inr (Option.some.inj h ▸ .answer outcome htask rfl rfl rfl rfl)
  | panicTask i =>
    simp only [processor, State.panicTask] at h
    split at h <;> try contradiction
    exact .inr (Option.some.inj h ▸ .panic i rfl rfl rfl)

/-- The queue is closed by the loop, and only on the signal. -/
def ClosedOnSignal (s : State) : Prop := s.channel.closed = true → s.shutdown = true

theorem reachable_closedOnSignal (h : (processor config service).Reachable s) :
    ClosedOnSignal s := by
  apply h.invariant
  · intro hclosed
    cases hclosed
  · intro u e v _ hu hstep hclosed
    rcases log_step hstep with hlog | hlog
    · rw [hlog.shutdown]
      exact (hlog.closed hclosed).elim hu id
    · cases hlog with
      | answer _ _ _ _ hshutdown hchannel =>
        rw [hshutdown]
        exact hu (hchannel ▸ hclosed)
      | panic _ _ hshutdown hchannel =>
        rw [hshutdown]
        exact hu (hchannel ▸ hclosed)
      | shutdown _ _ hshutdown => exact hshutdown

end MojangApi.Batch
