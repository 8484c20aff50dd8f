import MojangApi.Batch.Processor

/-! # What one step of the processor can do

Every enabled event is one of the moves below, with its guard and its exact
effect; the flag tells the processor's own moves from those of the requesters.
The invariants are proved against the moves.
-/

namespace MojangApi.Batch
open MojangApi Library

variable {ρ : Type*}

inductive Moves (config : BatchConfig) (service : MojangService ρ) (s : State) :
    Bool → State → Prop
  | reserve {lookup : PendingLookup} {channel : Channel PendingLookup}
      (hopen : s.sendersGone = false) (hfresh : lookup.response ∉ s.issued)
      (hchannel : s.channel.reserve lookup = .granted channel) :
      Moves config service s false
        { s with channel := channel, issued := lookup.response :: s.issued }
  | push {lookup : PendingLookup} {channel : Channel PendingLookup}
      (hchannel : s.channel.push lookup = some channel) :
      Moves config service s false { s with channel := channel, accepted := s.accepted ++ [lookup] }
  | revoke {lookup : PendingLookup} {channel : Channel PendingLookup}
      (hchannel : s.channel.revoke lookup = some channel) :
      Moves config service s false (s.setChannel channel)
  | dropReceiver (response : ℕ) : Moves config service s false (s.dropReceiver response)
  | dropSenders (hgranted : s.channel.granted = []) :
      Moves config service s true { s with sendersGone := true }
  | signalShutdown : Moves config service s true { s with shutdown := true }
  | count (metrics : Metrics) : Moves config service s false (s.count metrics)
  | firstTick (hpoint : s.point = .firstTick) : Moves config service s true (s.setPoint .selecting)
  | close (hpoint : s.point = .selecting) :
      Moves config service s true ((s.setChannel s.channel.close).setPoint .draining)
  | collect {lookup : PendingLookup} {channel : Channel PendingLookup} (site : Site)
      (hpoint : s.point = site.resume) (hsite : site ≠ .final)
      (hrecv : s.channel.recv s.sendersGone = .item lookup channel) :
      Moves config service s true ((s.setChannel channel).collect config lookup site)
  | exhausted (hpoint : s.point = .selecting) (hrecv : s.channel.recv s.sendersGone = .finished) :
      Moves config service s true (s.setPoint .draining)
  | tick (hpoint : s.point = .selecting) (hpending : s.pending ≠ []) :
      Moves config service s true (s.flush s.pending .loop)
  | idle : Moves config service s true s
  | join {i : ℕ} {panicked : Bool} (htask : s.tasks[i]? = some (.finished panicked)) :
      Moves config service s true { s with tasks := s.tasks.eraseIdx i }
  | drained (hpoint : s.point = .draining) (hrecv : s.channel.recv s.sendersGone = .finished)
      (hpending : s.pending = []) : Moves config service s true (s.setPoint .joining)
  | lastBatch (hpoint : s.point = .draining) (hrecv : s.channel.recv s.sendersGone = .finished)
      (hpending : s.pending ≠ []) : Moves config service s true (s.flush s.pending .final)
  | spawn {batch : List PendingLookup} {site : Site} (hpoint : s.point = .acquiring batch site)
      (hopen : s.semaphoreClosed = false) (hpermits : 0 < s.permits) :
      Moves config service s true { s with
        point := site.resume
        permits := s.permits - 1
        tasks := s.tasks ++ [.spawned batch] }
  | reject {batch : List PendingLookup} {site : Site} (hpoint : s.point = .acquiring batch site)
      (hclosed : s.semaphoreClosed = true) :
      Moves config service s true { s with
        point := site.resume
        rejected := s.rejected ++ [batch]
        disposals := s.disposals ++ sentResponses (rejectBatch batch .transport) }
  | finish (hpoint : s.point = .joining) (htasks : s.tasks = []) :
      Moves config service s true (s.setPoint .returned)
  | skip {i : ℕ} {batch : List PendingLookup} (htask : s.tasks[i]? = some (.spawned batch))
      (hkept : openLookups s.isClosed batch = []) :
      Moves config service s true ((s.dispose (droppedSenders
        (batch.filter fun lookup => s.isClosed lookup.response))).endTask i false)
  | call {i : ℕ} {batch : List PendingLookup} (htask : s.tasks[i]? = some (.spawned batch))
      (hkept : openLookups s.isClosed batch ≠ []) :
      Moves config service s true { s with
        disposals := s.disposals ++ droppedSenders
          (batch.filter fun lookup => s.isClosed lookup.response)
        tasks := s.tasks.set i (.calling (openLookups s.isClosed batch))
        metrics := startBatch service (openLookups s.isClosed batch) s.metrics
        calls := s.calls ++ [names (openLookups s.isClosed batch)] }
  | answer {i : ℕ} {kept : List PendingLookup} (htask : s.tasks[i]? = some (.calling kept))
      (outcome : ρ) :
      Moves config service s true { s with
        disposals := s.disposals ++ sentResponses (finishBatch service kept outcome s.metrics).2
        tasks := s.tasks.set i (.finished false)
        permits := s.permits + 1
        metrics := (finishBatch service kept outcome s.metrics).1
        answered := s.answered ++
          [(names kept, (service.finish (names kept) outcome s.metrics).2)] }
  | panic {i : ℕ} {kept : List PendingLookup} (htask : s.tasks[i]? = some (.calling kept)) :
      Moves config service s true { s with
        disposals := s.disposals ++ droppedSenders kept
        tasks := s.tasks.set i (.finished true)
        permits := s.permits + 1
        panicked := s.panicked ++ [kept] }

section Steps
variable {config : BatchConfig} {service : MojangService ρ} {s t : State}

theorem moves_of_reserve {lookup : PendingLookup} (h : s.reserve lookup = some t) :
    Moves config service s false t := by
  unfold State.reserve at h
  split at h <;> try contradiction
  rename_i hfresh
  simp only [Bool.or_eq_true, List.contains_iff_mem, not_or, Bool.not_eq_true] at hfresh
  split at h <;> try contradiction
  rename_i channel hchannel
  obtain rfl := Option.some.inj h
  exact .reserve hfresh.1 hfresh.2 hchannel

theorem moves_of_recvBranch (h : s.recvBranch config = some t) : Moves config service s true t := by
  unfold State.recvBranch at h
  split at h <;> try contradiction
  rename_i hpoint
  simp only [Bool.and_eq_true, decide_eq_true_eq] at hpoint
  split at h <;> try contradiction
  · rename_i hrecv
    obtain rfl := Option.some.inj h
    exact .collect .loop hpoint.1 (by decide) hrecv
  · rename_i hrecv
    obtain rfl := Option.some.inj h
    exact .exhausted hpoint.1 hrecv

theorem moves_of_drainRecv (h : s.drainRecv config = some t) : Moves config service s true t := by
  unfold State.drainRecv at h
  split at h <;> try contradiction
  rename_i hpoint
  split at h <;> try contradiction
  · rename_i hrecv
    obtain rfl := Option.some.inj h
    exact .collect .drain hpoint (by decide) hrecv
  · rename_i hrecv
    split at h <;> rename_i hpending <;> obtain rfl := Option.some.inj h
    · exact .drained hpoint hrecv (List.isEmpty_iff.mp hpending)
    · exact .lastBatch hpoint hrecv (by simpa using hpending)

theorem moves_of_join {i : ℕ} (h : s.join i = some t) : Moves config service s true t := by
  unfold State.join at h
  split at h <;> try contradiction
  rename_i htask
  obtain rfl := Option.some.inj h
  exact .join htask

theorem moves_of_tickBranch (h : s.tickBranch = some t) : Moves config service s true t := by
  unfold State.tickBranch at h
  split at h <;> try contradiction
  rename_i hidle
  simp only [State.idle, Bool.and_eq_true, decide_eq_true_eq] at hidle
  split at h <;> rename_i hpending <;> obtain rfl := Option.some.inj h
  · exact .idle
  · exact .tick hidle.1.1 (by simpa using hpending)

theorem moves_of_acquire (h : s.acquire = some t) : Moves config service s true t := by
  unfold State.acquire at h
  split at h <;> try contradiction
  rename_i hpoint
  split at h
  · rename_i hclosed
    obtain rfl := Option.some.inj h
    exact .reject hpoint hclosed
  · rename_i hclosed
    split at h <;> try contradiction
    rename_i hpermits
    obtain rfl := Option.some.inj h
    exact .spawn hpoint (by simpa using hclosed) (Nat.pos_of_ne_zero hpermits)

theorem moves_of_pollTask {i : ℕ} (h : s.pollTask service i = some t) :
    Moves config service s true t := by
  unfold State.pollTask at h
  split at h <;> try contradiction
  rename_i htask
  dsimp only at h
  split at h <;> rename_i hkept <;> obtain rfl := Option.some.inj h
  · exact .skip htask (List.isEmpty_iff.mp hkept)
  · exact .call htask (by simpa using hkept)

theorem moves_of_completeTask {i : ℕ} {outcome : ρ}
    (h : s.completeTask service i outcome = some t) : Moves config service s true t := by
  unfold State.completeTask at h
  split at h <;> try contradiction
  rename_i htask
  obtain rfl := Option.some.inj h
  exact .answer htask outcome

theorem moves_of_panicTask {i : ℕ} (h : s.panicTask i = some t) : Moves config service s true t := by
  unfold State.panicTask at h
  split at h <;> try contradiction
  rename_i htask
  obtain rfl := Option.some.inj h
  exact .panic htask

theorem step_moves {e : Event ρ} (h : (processor config service).step s e = some t) :
    Moves config service s e.own t := by
  cases e with
  | reserve lookup => exact moves_of_reserve h
  | push lookup =>
    obtain ⟨channel, hchannel, rfl⟩ := Option.map_eq_some_iff.mp h
    exact .push hchannel
  | revoke lookup =>
    obtain ⟨channel, hchannel, rfl⟩ := Option.map_eq_some_iff.mp h
    exact .revoke hchannel
  | dropReceiver response => exact Option.some.inj h ▸ .dropReceiver response
  | dropSenders =>
    simp only [processor, State.dropSenders, Option.ite_none_right_eq_some,
      Option.some.injEq] at h
    obtain ⟨hgranted, rfl⟩ := h
    exact .dropSenders (List.isEmpty_iff.mp hgranted)
  | signalShutdown => exact Option.some.inj h ▸ .signalShutdown
  | count metrics => exact Option.some.inj h ▸ .count metrics
  | firstTick =>
    simp only [processor, State.firstTick, Option.ite_none_right_eq_some,
      Option.some.injEq] at h
    obtain ⟨hpoint, rfl⟩ := h
    exact .firstTick hpoint
  | shutdownBranch =>
    simp only [processor, State.shutdownBranch, Option.ite_none_right_eq_some,
      Option.some.injEq, Bool.and_eq_true, decide_eq_true_eq] at h
    obtain ⟨hpoint, rfl⟩ := h
    exact .close hpoint.1
  | recvBranch => exact moves_of_recvBranch h
  | tickBranch => exact moves_of_tickBranch h
  | joinBranch i =>
    simp only [processor, State.joinBranch, Option.ite_none_right_eq_some] at h
    exact moves_of_join h.2
  | drainRecv => exact moves_of_drainRecv h
  | acquire => exact moves_of_acquire h
  | joinNext i =>
    simp only [processor, State.joinNext, Option.ite_none_right_eq_some] at h
    exact moves_of_join h.2
  | finish =>
    simp only [processor, State.finish, Option.ite_none_right_eq_some, Option.some.injEq,
      Bool.and_eq_true, decide_eq_true_eq, List.isEmpty_iff] at h
    obtain ⟨⟨hpoint, htasks⟩, rfl⟩ := h
    exact .finish hpoint htasks
  | pollTask i => exact moves_of_pollTask h
  | completeTask i outcome => exact moves_of_completeTask h
  | panicTask i => exact moves_of_panicTask h

/-- An invariant of the processor is what every move preserves. -/
theorem reachable_invariant {I : State → Prop} (hinit : I (.init config))
    (hmoves : ∀ u b v, I u → Moves config service u b v → I v)
    (h : (processor config service).Reachable s) : I s :=
  h.invariant hinit fun u _ v _ hu he => hmoves u _ v hu (step_moves he)

end Steps
end MojangApi.Batch
