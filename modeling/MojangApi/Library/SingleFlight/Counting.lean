import MojangApi.Library.SingleFlight.Invariants

/-! # Loads and reads of the callers

A read is charged to the caller that was handed a value of another loader, in
the step in which this happens. A caller spends at most one load or read, and
exactly one when it returns a value.
-/

namespace MojangApi.Library.SingleFlight
variable {κ ν ε : Type*}

/-- How often a caller was handed a value that it did not load. -/
def State.reads (s : State κ ν ε) : ℕ := (s.callers.map Caller.reads).sum

section Steps
variable {ttl : ν → ℕ} {s t : State κ ν ε} {r i : ℕ}

theorem reads_setPhase {c : Caller κ ν ε} (c' : Caller κ ν ε) (p : Phase ν ε)
    (hr : s.callers[r]? = some c) : (s.setPhase r c' p).reads + c.reads = s.reads + c'.reads :=
  sum_set Caller.reads hr { c' with phase := p }

theorem servedFromCache_setPhase {c c' : Caller κ ν ε} {p : Phase ν ε}
    (hr : s.callers[r]? = some c) : (s.setPhase r c' p).servedFromCache r =
      match p with
      | .returned (.ok _) origin => !origin.isFresh
      | _ => false := by
  simp only [State.servedFromCache, State.setPhase_callers, getElem?_set_some hr, if_pos,
    Option.map_some]
  cases p with
  | returned result origin => cases result <;> rfl
  | _ => rfl

/-- A caller that enters reads a live entry or nothing. -/
theorem enter_reads [DecidableEq κ] (h : s.enter ttl r = some t) :
    t.reads = s.reads + if t.servedFromCache r then 1 else 0 := by
  obtain ⟨c, hr, -, ⟨e, -, rfl⟩ | ⟨i, -, rfl⟩ | ⟨-, -, rfl⟩⟩ := enter_cases h
  · have hsum := reads_setPhase { c with reads := c.reads + 1 }
      (.returned (.ok e.value) (.cached e.load e.storedAt s.now)) hr
    rw [servedFromCache_setPhase hr]
    simp only [Origin.isFresh, Bool.not_false, if_true] at hsum ⊢
    omega
  · have hsum := reads_setPhase c (.waiting i) hr
    rw [servedFromCache_setPhase hr]
    simp only [Bool.false_eq_true, if_false]
    omega
  · have hadd : (s.addLoad ⟨c.key, r, .running⟩).callers[r]? = some c := hr
    have hsum := reads_setPhase { c with loads := c.loads + 1 }
      (.loading s.loads.length) hadd
    rw [servedFromCache_setPhase hadd]
    simp only [Bool.false_eq_true, if_false]
    change _ = s.reads + c.reads at hsum
    omega

/-- A caller that enters starts a load at most, and then it has read nothing. -/
theorem enter_loads [DecidableEq κ] (h : s.enter ttl r = some t) :
    t.loads = s.loads ∨
      ∃ k, t.loads = s.loads ++ [⟨k, r, .running⟩] ∧ t.servedFromCache r = false := by
  obtain ⟨c, hr, -, ⟨e, -, rfl⟩ | ⟨i, -, rfl⟩ | ⟨-, -, rfl⟩⟩ := enter_cases h
  · exact .inl rfl
  · exact .inl rfl
  · exact .inr ⟨c.key, rfl, servedFromCache_setPhase hr⟩

/-- A waiter that wakes reads the value of its load, if there is one. -/
theorem wake_reads (h : s.wake r = some t) :
    t.reads = s.reads + if t.servedFromCache r then 1 else 0 := by
  obtain ⟨c, i, l, hr, -, -, ⟨v, n, -, rfl⟩ | ⟨e, n, -, rfl⟩ | ⟨-, rfl⟩⟩ := wake_cases h
  · have hsum := reads_setPhase { c with reads := c.reads + 1 }
      (.returned (.ok v) (.shared i)) hr
    rw [servedFromCache_setPhase hr]
    simp only [Origin.isFresh, Bool.not_false, if_true] at hsum ⊢
    omega
  · have hsum := reads_setPhase c (.returned (.error e) (.shared i)) hr
    rw [servedFromCache_setPhase hr]
    simp only [Bool.false_eq_true, if_false]
    omega
  · have hsum := reads_setPhase c .entering hr
    rw [servedFromCache_setPhase hr]
    simp only [Bool.false_eq_true, if_false]
    omega

theorem finish_reads [DecidableEq κ] {result : Except ε ν} (h : s.finish i result = some t) :
    t.reads = s.reads := by
  obtain ⟨k, r, c, -, hr, rfl⟩ := finish_cases h
  have hstore : ((s.setLoad i ⟨k, r, .finished result s.now⟩).store k i result).callers[r]? =
      some c := by simpa using hr
  have hsum := reads_setPhase c (.returned result (.loaded i)) hstore
  have hsame : ((s.setLoad i ⟨k, r, .finished result s.now⟩).store k i result).reads = s.reads := by
    simp [State.reads]
  omega

/-- The owner of a load is handed a fresh value. -/
theorem finish_served [DecidableEq κ] {result : Except ε ν} {k : κ} (h : s.finish i result = some t)
    (hload : s.loads[i]? = some ⟨k, r, .running⟩) : t.servedFromCache r = false := by
  obtain ⟨k', q, c, hl, hr, rfl⟩ := finish_cases h
  obtain ⟨rfl, rfl⟩ : k' = k ∧ q = r := by simpa [hl] using hload
  rw [servedFromCache_setPhase (by simpa using hr)]
  cases result <;> rfl

theorem drop_reads (h : s.drop r = some t) : t.reads = s.reads := by
  obtain ⟨c, hr, ⟨-, rfl⟩ | ⟨i, -, rfl⟩⟩ := drop_cases h
  · have hsum := reads_setPhase c .dropped hr
    omega
  · have hload : (s.setLoad i ⟨c.key, r, .abandoned⟩).callers[r]? = some c := hr
    have hsum := reads_setPhase c .dropped hload
    change _ = s.reads + c.reads at hsum
    omega

theorem call_length (s : State κ ν ε) (k : κ) :
    (s.call k).callers.length = s.callers.length + 1 := by
  simp [State.call]

@[simp] theorem call_reads (k : κ) : (s.call k).reads = s.reads := by
  simp [State.reads, State.call]

end Steps

section Spending
variable {ttl : ν → ℕ} {s : State κ ν ε}

theorem CallerOk.spent_le {loads : List (Load κ ν ε)} {r : ℕ} {c : Caller κ ν ε}
    (h : CallerOk ttl loads r c) : c.reads + c.loads ≤ 1 := by
  unfold CallerOk at h
  split at h
  · omega
  · omega
  · omega
  · rcases h.1 with ⟨-, hl, hr⟩ | ⟨-, hl, hr⟩
    · omega
    · split at hr <;> omega
  · omega

/-- A caller that returns a value has either loaded it or read it, once. -/
theorem Coherent.spent_of_returned (h : Coherent ttl s) {r : ℕ} {c : Caller κ ν ε} {v : ν}
    {origin : Origin} (hr : s.callers[r]? = some c) (hp : c.phase = .returned (.ok v) origin) :
    c.reads + c.loads = 1 := by
  have hok := h.callers r c hr
  simp only [CallerOk, hp] at hok
  rcases hok.1 with ⟨-, hl, hr⟩ | ⟨-, hl, hr⟩
  · omega
  · simp only at hr
    omega

theorem Coherent.spent_le (h : Coherent ttl s) : s.reads + s.loads.length ≤ s.callers.length := by
  have hsum : (s.callers.map fun c => c.reads + c.loads).sum ≤ 1 * s.callers.length := by
    apply sum_le_mul_length
    intro c hmem
    obtain ⟨r, hr⟩ := List.mem_iff_getElem?.mp hmem
    exact (h.callers r c hr).spent_le
  rw [List.sum_map_add, h.started, Nat.one_mul] at hsum
  exact hsum

end Spending
end MojangApi.Library.SingleFlight
