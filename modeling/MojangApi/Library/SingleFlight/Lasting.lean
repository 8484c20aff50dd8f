import MojangApi.Library.SingleFlight.Counting

/-! # What lasts

The clock does not go back, and what callers have read and loads have cost is never
taken back.
-/

namespace MojangApi.Library.SingleFlight
variable {κ ν ε : Type*} {ttl : ν → ℕ} {s t : State κ ν ε}

theorem now_step [DecidableEq κ] {e : Event κ ν ε} (h : (machine ttl).step s e = some t) :
    s.now ≤ t.now := by
  cases e with
  | call k =>
    obtain rfl := Option.some.inj h
    exact Nat.le_refl _
  | enter r =>
    obtain ⟨c, -, -, ⟨e, -, rfl⟩ | ⟨i, -, rfl⟩ | ⟨-, -, rfl⟩⟩ := enter_cases h <;>
      exact Nat.le_refl _
  | finish i result =>
    obtain ⟨k, r, c, -, -, rfl⟩ := finish_cases h
    rw [State.setPhase_now, State.store_now, State.setLoad_now]
  | wake r =>
    obtain ⟨c, i, l, -, -, -, ⟨v, n, -, rfl⟩ | ⟨e, n, -, rfl⟩ | ⟨-, rfl⟩⟩ := wake_cases h <;>
      exact Nat.le_refl _
  | drop r =>
    obtain ⟨c, -, ⟨-, rfl⟩ | ⟨i, -, rfl⟩⟩ := drop_cases h <;> exact Nat.le_refl _
  | elapse d =>
    obtain rfl := Option.some.inj h
    exact Nat.le_add_right _ _
  | evict k =>
    obtain rfl := Option.some.inj h
    exact Nat.le_refl _

theorem reads_step [DecidableEq κ] {e : Event κ ν ε} (h : (machine ttl).step s e = some t) :
    s.reads ≤ t.reads := by
  cases e with
  | call k =>
    obtain rfl := Option.some.inj h
    exact (call_reads k).ge
  | enter r => exact enter_reads h ▸ Nat.le_add_right _ _
  | finish i result => exact (finish_reads h).ge
  | wake r => exact wake_reads h ▸ Nat.le_add_right _ _
  | drop r => exact (drop_reads h).ge
  | elapse d =>
    obtain rfl := Option.some.inj h
    exact Nat.le_refl _
  | evict k =>
    obtain rfl := Option.some.inj h
    exact Nat.le_refl _

/-- A sum over the loads to which a load adds no less once it has ended does not shrink. -/
theorem weight_step [DecidableEq κ] (hs : Coherent ttl s) {weight : Load κ ν ε → ℕ}
    (hrunning : ∀ k r st, weight ⟨k, r, .running⟩ ≤ weight ⟨k, r, st⟩) {e : Event κ ν ε}
    (h : (machine ttl).step s e = some t) :
    (s.loads.map weight).sum ≤ (t.loads.map weight).sum := by
  cases e with
  | enter r =>
    rcases enter_loads h with hsame | ⟨k, hadded, -⟩
    · rw [hsame]
    · rw [hadded, List.map_append, List.sum_append]
      exact Nat.le_add_right _ _
  | finish i result =>
    obtain ⟨k, r, hl, hloads⟩ := finish_loads h
    have hsum := sum_set weight hl ⟨k, r, .finished result s.now⟩
    have hle := hrunning k r (.finished result s.now)
    rw [hloads]
    omega
  | wake r => rw [wake_loads h]
  | drop r =>
    obtain ⟨c, hr, ⟨-, rfl⟩ | ⟨i, hp, rfl⟩⟩ := drop_cases h
    · exact Nat.le_refl _
    · have hok := hs.callers r c hr
      simp only [CallerOk, hp] at hok
      have hsum := sum_set weight hok.2.2 ⟨c.key, r, .abandoned⟩
      have hle := hrunning c.key r .abandoned
      rw [State.setPhase_loads, State.setLoad_loads]
      omega
  | call k =>
    obtain rfl := Option.some.inj h
    exact Nat.le_refl _
  | elapse d =>
    obtain rfl := Option.some.inj h
    exact Nat.le_refl _
  | evict k =>
    obtain rfl := Option.some.inj h
    exact Nat.le_refl _

theorem now_leads [DecidableEq κ] (h : (machine (κ := κ) (ε := ε) ttl).Leads s t) :
    s.now ≤ t.now :=
  h.invariant (I := fun u => s.now ≤ u.now) (Nat.le_refl _) fun _ _ _ hu hv =>
    Nat.le_trans hu (now_step hv)

theorem reads_leads [DecidableEq κ] (h : (machine (κ := κ) (ε := ε) ttl).Leads s t) :
    s.reads ≤ t.reads :=
  h.invariant (I := fun u => s.reads ≤ u.reads) (Nat.le_refl _) fun _ _ _ hu hv =>
    Nat.le_trans hu (reads_step hv)

theorem weight_leads [DecidableEq κ] (hs : (machine ttl).Reachable s)
    (h : (machine ttl).Leads s t) {weight : Load κ ν ε → ℕ}
    (hrunning : ∀ k r st, weight ⟨k, r, .running⟩ ≤ weight ⟨k, r, st⟩) :
    (s.loads.map weight).sum ≤ (t.loads.map weight).sum := by
  have both : (machine ttl).Reachable t ∧
      (s.loads.map weight).sum ≤ (t.loads.map weight).sum := by
    refine h.invariant (I := fun u => (machine ttl).Reachable u ∧
      (s.loads.map weight).sum ≤ (u.loads.map weight).sum) ⟨hs, Nat.le_refl _⟩ ?_
    rintro u e v ⟨hu, hle⟩ hv
    exact ⟨hu.next hv, Nat.le_trans hle (weight_step (reachable_coherent hu) hrunning hv)⟩
  exact both.2

end MojangApi.Library.SingleFlight
