import MojangApi.Library.SingleFlight.Invariants

/-! # What one event does to the keys and the loads

A call adds its key, and nothing else does. A load starts with the key of the caller
that enters, and ends with the result that finished it or without one.
-/

namespace MojangApi.Library.SingleFlight
variable {κ ν ε : Type*} [DecidableEq κ] {ttl : ν → ℕ} {s t : State κ ν ε} {e : Event κ ν ε}
  {i : ℕ}

def Event.calledKeys : Event κ ν ε → List κ
  | .call k => [k]
  | _ => []

theorem keys_step (h : (machine ttl).step s e = some t) :
    t.callers.map Caller.key = s.callers.map Caller.key ++ e.calledKeys := by
  have hsame : t.callers.map Caller.key = s.callers.map Caller.key →
      t.callers.map Caller.key = s.callers.map Caller.key ++ [] := fun h => by simpa using h
  cases e with
  | call k =>
    obtain rfl := Option.some.inj h
    exact List.map_append
  | enter r => exact hsame (enter_keys h)
  | finish j result => exact hsame (finish_keys h)
  | wake r => exact hsame (wake_keys h)
  | drop r => exact hsame (drop_keys h)
  | elapse d =>
    obtain rfl := Option.some.inj h
    exact hsame rfl
  | evict k =>
    obtain rfl := Option.some.inj h
    exact hsame rfl

/-- The loads after an event: as before, with a new one, or with one that has ended. -/
theorem loads_cases (hc : Coherent ttl s) (h : (machine ttl).step s e = some t) :
    t.loads = s.loads ∨
      (∃ r c, e = .enter r ∧ s.callers[r]? = some c ∧
        t.loads = s.loads ++ [⟨c.key, r, .running⟩]) ∨
      ∃ (j : ℕ) (k : κ) (q : ℕ) (st : LoadState ν ε), s.loads[j]? = some ⟨k, q, .running⟩ ∧
        t.loads = s.loads.set j ⟨k, q, st⟩ ∧
        ((∃ result, e = .finish j result ∧ st = .finished result s.now) ∨ st = .abandoned) := by
  cases e with
  | call k =>
    obtain rfl := Option.some.inj h
    exact .inl rfl
  | enter r =>
    obtain ⟨c, hr, -, ⟨e, -, rfl⟩ | ⟨j, -, rfl⟩ | ⟨-, -, rfl⟩⟩ := enter_cases h
    · exact .inl rfl
    · exact .inl rfl
    · exact .inr (.inl ⟨r, c, rfl, hr, rfl⟩)
  | finish j result =>
    obtain ⟨k, q, hj, hloads⟩ := finish_loads h
    exact .inr (.inr ⟨j, k, q, _, hj, hloads, .inl ⟨result, rfl, rfl⟩⟩)
  | wake r => exact .inl (wake_loads h)
  | drop r =>
    obtain ⟨c, hr, ⟨-, rfl⟩ | ⟨j, hp, rfl⟩⟩ := drop_cases h
    · exact .inl rfl
    · have hok := hc.callers r c hr
      simp only [CallerOk, hp] at hok
      exact .inr (.inr ⟨j, c.key, r, .abandoned, hok.2.2, rfl, .inr rfl⟩)
  | elapse d =>
    obtain rfl := Option.some.inj h
    exact .inl rfl
  | evict k =>
    obtain rfl := Option.some.inj h
    exact .inl rfl

/-- Only its own `finish` ends a load with a result. -/
theorem finished_step (hc : Coherent ttl s) (h : (machine ttl).step s e = some t) {k : κ}
    {q time : ℕ} {result : Except ε ν} (hi : t.loads[i]? = some ⟨k, q, .finished result time⟩) :
    s.loads[i]? = some ⟨k, q, .finished result time⟩ ∨
      e = .finish i result ∧ s.loads[i]? = some ⟨k, q, .running⟩ := by
  rcases loads_cases hc h with hloads | ⟨r, c, -, -, hloads⟩ | ⟨j, k', q', st, hj, hloads, hst⟩ <;>
    rw [hloads] at hi
  · exact .inl hi
  · rcases getElem?_append_some _ hi with hi | ⟨-, heq⟩
    · exact .inl hi
    · cases heq
  · rw [getElem?_set_some hj] at hi
    by_cases hji : j = i
    · subst hji
      rw [if_pos rfl] at hi
      obtain ⟨rfl, rfl, rfl⟩ := Load.mk.inj (Option.some.inj hi)
      rcases hst with ⟨result', rfl, heq⟩ | heq
      · obtain ⟨rfl, -⟩ := LoadState.finished.inj heq
        exact .inr ⟨rfl, hj⟩
      · cases heq
    · rw [if_neg hji] at hi
      exact .inl hi

/-- Every load has the key of some caller. -/
def Called (s : State κ ν ε) : Prop :=
  ∀ l ∈ s.loads, l.key ∈ s.callers.map Caller.key

theorem Called.step (hs : Called s) (hc : Coherent ttl s)
    (h : (machine ttl).step s e = some t) : Called t := by
  intro l hl
  rw [keys_step h]
  apply List.mem_append_left
  rcases loads_cases hc h with hloads | ⟨r, c, -, hr, hloads⟩ | ⟨j, k, q, st, hj, hloads, -⟩ <;>
    rw [hloads] at hl
  · exact hs l hl
  · rcases List.mem_append.mp hl with hl | hl
    · exact hs l hl
    · obtain rfl := List.mem_singleton.mp hl
      exact List.mem_map_of_mem (List.mem_of_getElem? hr)
  · rcases List.mem_or_eq_of_mem_set hl with hl | rfl
    · exact hs l hl
    · exact hs ⟨k, q, .running⟩ (List.mem_of_getElem? hj)

theorem reachable_called (h : (machine (ε := ε) (κ := κ) ttl).Reachable s) : Called s :=
  h.invariant (fun _ hl => by cases hl) fun _ _ _ hr hu he =>
    hu.step (reachable_coherent hr) he

end MojangApi.Library.SingleFlight
