import MojangApi.Library.SingleFlight.Invariants

/-! # Callers get on, and rest once they are over

A caller that enters, or whose load has ended, can move, and otherwise some load
runs. Every such move, and every end of a load, lowers what the callers still
cost; only a caller that leaves makes its waiters start over. Once every caller
is over, nothing but a new call or the clock changes the callers and the loads.
-/

namespace MojangApi.Library.SingleFlight
variable {κ ν ε : Type*}

def LoadState.isAbandoned : LoadState ν ε → Bool
  | .abandoned => true
  | _ => false

def isAbandoned (loads : List (Load κ ν ε)) (i : ℕ) : Bool :=
  (loads[i]?).any fun l => l.state.isAbandoned

/-- The caller has returned or was dropped. -/
def Caller.Over (c : Caller κ ν ε) : Prop :=
  (∃ result origin, c.phase = .returned result origin) ∨ c.phase = .dropped

/-- What a caller may still cost if a load costs up to `n + 1`. -/
def Caller.cost (n : ℕ) (abandoned : ℕ → Bool) (c : Caller κ ν ε) : ℕ :=
  match c.phase with
  | .entering => n + 3
  | .waiting i => if abandoned i then n + 4 else 1
  | _ => 0

def Load.cost (l : Load κ ν ε) : ℕ := if l.state.isRunning then 1 else 0

def State.cost (n : ℕ) (s : State κ ν ε) : ℕ :=
  (s.callers.map (Caller.cost n (isAbandoned s.loads))).sum + (s.loads.map Load.cost).sum

section Costs
variable {ttl : ν → ℕ} {s t : State κ ν ε} {r i n : ℕ}

theorem isAbandoned_append (loads : List (Load κ ν ε)) (k : κ) (r : ℕ) :
    isAbandoned (loads ++ [⟨k, r, .running⟩]) = isAbandoned loads := by
  funext j
  rcases Nat.lt_trichotomy j loads.length with hj | rfl | hj
  · simp [isAbandoned, List.getElem?_append_left hj]
  · simp [isAbandoned, LoadState.isAbandoned]
  · have hlong : (loads ++ [(⟨k, r, .running⟩ : Load κ ν ε)]).length ≤ j := by simp; omega
    simp [isAbandoned, List.getElem?_eq_none hlong, List.getElem?_eq_none (Nat.le_of_lt hj)]

theorem isAbandoned_set {loads : List (Load κ ν ε)} {k : κ}
    (hi : loads[i]? = some ⟨k, r, .running⟩) (result : Except ε ν) (time : ℕ) :
    isAbandoned (loads.set i ⟨k, r, .finished result time⟩) = isAbandoned loads := by
  funext j
  rw [isAbandoned, getElem?_set_some hi]
  by_cases hij : i = j
  · subst hij
    simp [isAbandoned, hi, LoadState.isAbandoned]
  · simp [isAbandoned, hij]

/-- A caller moves on, and the loads stay as they are. -/
theorem cost_setPhase {c : Caller κ ν ε} (c' : Caller κ ν ε) (p : Phase ν ε)
    (hr : s.callers[r]? = some c) :
    (s.setPhase r c' p).cost n + c.cost n (isAbandoned s.loads) =
      s.cost n + Caller.cost n (isAbandoned s.loads) { c' with phase := p } := by
  have hsum := sum_set (Caller.cost n (isAbandoned s.loads)) hr { c' with phase := p }
  simp only [State.cost, State.setPhase_callers, State.setPhase_loads]
  omega

theorem running_not_abandoned [DecidableEq κ] {k : κ} (h : s.running k = some i) :
    isAbandoned s.loads i = false := by
  obtain ⟨l, hl, -, hrun⟩ := running_eq_some h
  simp [isAbandoned, hl, hrun, LoadState.isAbandoned]

/-- A caller that enters has come nearer to its end, and a load that it starts is paid for. -/
theorem enter_cost [DecidableEq κ] (h : s.enter ttl r = some t) :
    (t.loads = s.loads ∧ t.cost n < s.cost n) ∨
      ∃ k, t.loads = s.loads ++ [⟨k, r, .running⟩] ∧ t.cost n + n + 2 ≤ s.cost n := by
  obtain ⟨c, hr, hp, ⟨e, -, rfl⟩ | ⟨i, hi, rfl⟩ | ⟨-, -, rfl⟩⟩ := enter_cases h
  all_goals have hbefore : c.cost n (isAbandoned s.loads) = n + 3 := by simp [Caller.cost, hp]
  · have hsum := cost_setPhase (n := n) { c with reads := c.reads + 1 }
      (.returned (.ok e.value) (.cached e.load e.storedAt s.now)) hr
    change _ = _ + 0 at hsum
    exact .inl ⟨rfl, by omega⟩
  · have hsum := cost_setPhase (n := n) c (.waiting i) hr
    change _ = _ + (if isAbandoned s.loads i then n + 4 else 1) at hsum
    rw [running_not_abandoned hi, if_neg Bool.false_ne_true] at hsum
    exact .inl ⟨rfl, by omega⟩
  · have hadd : (s.addLoad ⟨c.key, r, .running⟩).callers[r]? = some c := hr
    have hsum := cost_setPhase (n := n) { c with loads := c.loads + 1 }
      (.loading s.loads.length) hadd
    have hload : (s.addLoad ⟨c.key, r, .running⟩).cost n = s.cost n + 1 := by
      simp only [State.cost, State.addLoad_callers, State.addLoad_loads, isAbandoned_append,
        List.map_append, List.map_cons, List.map_nil, List.sum_append, List.sum_cons, List.sum_nil,
        Load.cost, LoadState.isRunning, if_true]
      omega
    have habandoned : isAbandoned (s.addLoad ⟨c.key, r, .running⟩).loads = isAbandoned s.loads :=
      isAbandoned_append s.loads c.key r
    rw [habandoned, hbefore, hload] at hsum
    change _ = _ + 0 at hsum
    exact .inr ⟨c.key, rfl, by omega⟩

theorem finish_cost [DecidableEq κ] (h : Coherent ttl s) {result : Except ε ν}
    (ht : s.finish i result = some t) : t.cost n < s.cost n := by
  obtain ⟨k, r, c, hi, hr, rfl⟩ := finish_cases ht
  obtain ⟨⟨d, hd, hp⟩, -⟩ := h.loads i _ hi rfl
  obtain rfl : c = d := Option.some.inj (hr.symm.trans hd)
  have hstore : ((s.setLoad i ⟨k, r, .finished result s.now⟩).store k i result).callers[r]? =
      some c := by simpa using hr
  have hsum := cost_setPhase (n := n) c (.returned result (.loaded i)) hstore
  have hload := sum_set Load.cost hi ⟨k, r, .finished result s.now⟩
  simp only [Load.cost, LoadState.isRunning, if_true, Bool.false_eq_true, if_false] at hload
  have hcost : ((s.setLoad i ⟨k, r, .finished result s.now⟩).store k i result).cost n + 1 =
      s.cost n := by
    simp only [State.cost, State.store_callers, State.store_loads, State.setLoad_callers,
      State.setLoad_loads, isAbandoned_set hi]
    omega
  change _ = _ + 0 at hsum
  omega

theorem wake_cost (h : s.wake r = some t) : t.cost n < s.cost n := by
  obtain ⟨c, i, l, hr, hp, hl, hcase⟩ := wake_cases h
  have hbefore : c.cost n (isAbandoned s.loads) = if isAbandoned s.loads i then n + 4 else 1 := by
    simp [Caller.cost, hp]
  rcases hcase with ⟨v, time, -, rfl⟩ | ⟨e, time, -, rfl⟩ | ⟨hst, rfl⟩
  · have hsum := cost_setPhase (n := n) { c with reads := c.reads + 1 }
      (.returned (.ok v) (.shared i)) hr
    change _ = _ + 0 at hsum
    split at hbefore <;> omega
  · have hsum := cost_setPhase (n := n) c (.returned (.error e) (.shared i)) hr
    change _ = _ + 0 at hsum
    split at hbefore <;> omega
  · have hsum := cost_setPhase (n := n) c .entering hr
    have habandoned : isAbandoned s.loads i = true := by
      simp [isAbandoned, hl, hst, LoadState.isAbandoned]
    change _ = _ + (n + 3) at hsum
    rw [habandoned, if_pos rfl] at hbefore
    omega

end Costs

section Enabled
variable {ttl : ν → ℕ} {s t : State κ ν ε} {r i : ℕ} {c : Caller κ ν ε}

theorem enter_enabled [DecidableEq κ] (ttl : ν → ℕ) (hr : s.callers[r]? = some c) (hp : c.phase = .entering) :
    ∃ t, s.enter ttl r = some t := by
  unfold State.enter
  rw [hr]
  dsimp only
  rw [hp]
  dsimp only
  split
  · exact ⟨_, rfl⟩
  · split
    · exact ⟨_, rfl⟩
    · exact ⟨_, rfl⟩

theorem wake_enabled {l : Load κ ν ε} (hr : s.callers[r]? = some c) (hp : c.phase = .waiting i)
    (hl : s.loads[i]? = some l) (hst : l.state ≠ .running) : ∃ t, s.wake r = some t := by
  obtain ⟨k, q, st⟩ := l
  unfold State.wake
  rw [hr]
  dsimp only
  rw [hp]
  dsimp only
  rw [hl]
  cases st with
  | running => exact absurd rfl hst
  | finished result time =>
    cases result with
    | ok v => exact ⟨_, rfl⟩
    | error e => exact ⟨_, rfl⟩
  | abandoned => exact ⟨_, rfl⟩

theorem finish_enabled [DecidableEq κ] (h : Coherent ttl s) {k : κ}
    (hi : s.loads[i]? = some ⟨k, r, .running⟩) (result : Except ε ν) :
    ∃ t, s.finish i result = some t := by
  obtain ⟨⟨c, hr, -⟩, -⟩ := h.loads i _ hi rfl
  unfold State.finish
  rw [hi]
  dsimp only
  rw [show s.callers[r]? = some c from hr]
  exact ⟨_, rfl⟩

/-- A caller that is not over can move, or some load runs. -/
theorem Coherent.not_over (h : Coherent ttl s) (hr : s.callers[r]? = some c) (hover : ¬ c.Over) :
    c.phase = .entering ∨
      (∃ i l, c.phase = .waiting i ∧ s.loads[i]? = some l ∧ l.state ≠ .running) ∨
      ∃ (i : ℕ) (l : Load κ ν ε), s.loads[i]? = some l ∧ l.state = .running := by
  have hok := h.callers r c hr
  cases hp : c.phase with
  | entering => exact .inl rfl
  | waiting i =>
    simp only [CallerOk, hp] at hok
    obtain ⟨-, -, l, hl, -⟩ := hok
    by_cases hst : l.state = .running
    · exact .inr (.inr ⟨i, l, hl, hst⟩)
    · exact .inr (.inl ⟨i, l, rfl, hl, hst⟩)
  | loading i =>
    simp only [CallerOk, hp] at hok
    exact .inr (.inr ⟨i, _, hok.2.2, rfl⟩)
  | returned result origin => exact absurd (.inl ⟨result, origin, hp⟩) hover
  | dropped => exact absurd (.inr hp) hover

/-- Once every caller is over, no load runs. -/
theorem Coherent.no_load (h : Coherent ttl s)
    (hover : ∀ (r : ℕ) c, s.callers[r]? = some c → c.Over) {l : Load κ ν ε}
    (hl : s.loads[i]? = some l) : l.state ≠ .running := by
  intro hrun
  obtain ⟨⟨c, hr, hp⟩, -⟩ := h.loads i l hl hrun
  rcases hover _ c hr with ⟨result, origin, hp'⟩ | hp'
  · cases hp.symm.trans hp'
  · cases hp.symm.trans hp'

/-- Only a call changes the callers or the loads once every caller is over. -/
theorem rest_of_over [DecidableEq κ] (h : Coherent ttl s)
    (hover : ∀ (r : ℕ) c, s.callers[r]? = some c → c.Over) {e : Event κ ν ε}
    (ht : (machine ttl).step s e = some t) (hcall : ∀ k, e ≠ .call k) :
    t.callers = s.callers ∧ t.loads = s.loads := by
  have hphase : ∀ (r : ℕ) c p, s.callers[r]? = some c → c.phase = p →
      (∃ result origin, p = .returned result origin) ∨ p = .dropped := by
    rintro r c p hr rfl
    exact hover r c hr
  cases e with
  | call k => exact absurd rfl (hcall k)
  | enter r =>
    obtain ⟨c, hr, hp, -⟩ := enter_cases ht
    rcases hphase r c _ hr hp with ⟨_, _, heq⟩ | heq <;> cases heq
  | finish i result =>
    obtain ⟨k, r, c, hi, -⟩ := finish_cases ht
    exact absurd rfl (h.no_load hover hi)
  | wake r =>
    obtain ⟨c, i, l, hr, hp, -⟩ := wake_cases ht
    rcases hphase r c _ hr hp with ⟨_, _, heq⟩ | heq <;> cases heq
  | drop r =>
    obtain ⟨c, hr, ⟨hp | ⟨i, hp⟩, -⟩ | ⟨i, hp, -⟩⟩ := drop_cases ht <;>
      rcases hphase r c _ hr hp with ⟨_, _, heq⟩ | heq <;> cases heq
  | elapse d =>
    obtain rfl := Option.some.inj ht
    exact ⟨rfl, rfl⟩
  | evict k =>
    obtain rfl := Option.some.inj ht
    exact ⟨rfl, rfl⟩

/-- Where caller `r` is not dropped, it keeps its key and its chance to return. -/
def Stays (s t : State κ ν ε) : Prop :=
  ∀ (r : ℕ) c, s.callers[r]? = some c → c.phase ≠ .dropped →
    ∃ c', t.callers[r]? = some c' ∧ c'.key = c.key ∧ c'.phase ≠ .dropped

theorem Stays.refl (s : State κ ν ε) : Stays s s := fun _ c hr hp => ⟨c, hr, rfl, hp⟩

theorem Stays.trans {u : State κ ν ε} (hst : Stays s t) (htu : Stays t u) : Stays s u := by
  intro r c hr hp
  obtain ⟨d, hd, hkey, hpd⟩ := hst r c hr hp
  obtain ⟨e, he, hkey', hpe⟩ := htu r d hd hpd
  exact ⟨e, he, hkey'.trans hkey, hpe⟩

theorem stays_setPhase {d : Caller κ ν ε} {p : Phase ν ε} (hr : s.callers[r]? = some c)
    (hkey : d.key = c.key) (hp : p ≠ .dropped) : Stays s (s.setPhase r d p) := by
  intro q a ha hpa
  rw [State.setPhase_callers, getElem?_set_some hr]
  by_cases hrq : r = q
  · subst hrq
    obtain rfl := Option.some.inj (hr.symm.trans ha)
    exact ⟨_, if_pos rfl, hkey, hp⟩
  · exact ⟨a, by rw [if_neg hrq, ha], rfl, hpa⟩

/-- Nobody is dropped but by a drop. -/
theorem stays_step [DecidableEq κ] (ttl : ν → ℕ) {e : Event κ ν ε} (ht : (machine ttl).step s e = some t)
    (hdrop : ∀ r, e ≠ .drop r) : Stays s t := by
  cases e with
  | call k =>
    obtain rfl := Option.some.inj ht
    exact fun r c hr hp => ⟨c, getElem?_append_of_some hr _, rfl, hp⟩
  | enter r =>
    obtain ⟨c, hr, -, ⟨e, -, rfl⟩ | ⟨i, -, rfl⟩ | ⟨-, -, rfl⟩⟩ := enter_cases ht
    · exact stays_setPhase hr rfl (by simp)
    · exact stays_setPhase hr rfl (by simp)
    · exact stays_setPhase (s := s.addLoad _) hr rfl (by simp)
  | finish i result =>
    obtain ⟨k, r, c, -, hr, rfl⟩ := finish_cases ht
    have hstays := stays_setPhase (s := (s.setLoad i ⟨k, r, .finished result s.now⟩).store k i
      result) (d := c) (p := .returned result (.loaded i)) (by simpa using hr) rfl (by simp)
    simpa [Stays] using hstays
  | wake r =>
    obtain ⟨c, i, l, hr, -, -, ⟨v, n, -, rfl⟩ | ⟨e, n, -, rfl⟩ | ⟨-, rfl⟩⟩ := wake_cases ht <;>
      exact stays_setPhase hr rfl (by simp)
  | drop r => exact absurd rfl (hdrop r)
  | elapse d =>
    obtain rfl := Option.some.inj ht
    exact Stays.refl s
  | evict k =>
    obtain rfl := Option.some.inj ht
    exact Stays.refl s

end Enabled
end MojangApi.Library.SingleFlight
