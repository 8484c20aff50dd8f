import MojangApi.Library.SingleFlight.Invariants

/-! # What a failed load leaves behind

Nothing: the load that runs is the newest of its key, and as long as the newest
load of a key has not ended with a value, no live entry has the key. A caller
that enters then starts a load of its own. An error is handed only to the owner
of its load and to those who waited for it.
-/

namespace MojangApi.Library.SingleFlight
variable {κ ν ε : Type*}

/-- The newest load of its key. -/
def Newest (loads : List (Load κ ν ε)) (i : ℕ) (k : κ) : Prop :=
  ∀ (j : ℕ) (m : Load κ ν ε), i < j → loads[j]? = some m → m.key ≠ k

def LoadState.Succeeded (st : LoadState ν ε) : Prop := ∃ v time, st = .finished (.ok v) time

structure Recent (ttl : ν → ℕ) (s : State κ ν ε) : Prop where
  newest : ∀ i l, s.loads[i]? = some l → l.state = .running → Newest s.loads i l.key
  stale : ∀ i l, s.loads[i]? = some l → Newest s.loads i l.key → ¬ l.state.Succeeded →
    s.live ttl l.key = none

section Recent
variable {ttl : ν → ℕ} {s t : State κ ν ε} {r i : ℕ}

/-- Loads and live entries stay as they are, except that entries go. -/
theorem Recent.same (h : Recent ttl s) (hloads : t.loads = s.loads)
    (hlive : ∀ k, s.live ttl k = none → t.live ttl k = none) : Recent ttl t where
  newest := hloads ▸ h.newest
  stale i l hl hnewest hst := by
    rw [hloads] at hl hnewest
    exact hlive _ (h.stale i l hl hnewest hst)

theorem newest_set {loads : List (Load κ ν ε)} {k k' : κ} {st : LoadState ν ε} {j : ℕ}
    (hi : loads[i]? = some ⟨k, r, .running⟩) :
    Newest (loads.set i ⟨k, r, st⟩) j k' ↔ Newest loads j k' := by
  have hkey : ∀ (n : ℕ) (a : κ),
      (∃ m : Load κ ν ε, (loads.set i ⟨k, r, st⟩)[n]? = some m ∧ m.key = a) ↔
      ∃ m : Load κ ν ε, loads[n]? = some m ∧ m.key = a := by
    intro n a
    rw [getElem?_set_some hi]
    by_cases hn : i = n
    · subst hn
      simp [hi]
    · simp [hn]
  constructor
  · intro h n m hlt hm hk
    obtain ⟨m', hm', hk'⟩ := (hkey n k').mpr ⟨m, hm, hk⟩
    exact h n m' hlt hm' hk'
  · intro h n m hlt hm hk
    obtain ⟨m', hm', hk'⟩ := (hkey n k').mp ⟨m, hm, hk⟩
    exact h n m' hlt hm' hk'

/-- A load ends, and no other key gets an entry. -/
theorem Recent.endLoad (h : Recent ttl s) {k : κ} {st : LoadState ν ε}
    (hi : s.loads[i]? = some ⟨k, r, .running⟩) (hst : st ≠ .running)
    (hloads : t.loads = s.loads.set i ⟨k, r, st⟩)
    (hlive : ∀ k', k' ≠ k ∨ ¬ st.Succeeded → s.live ttl k' = none → t.live ttl k' = none) :
    Recent ttl t where
  newest j l hl hrun := by
    rw [hloads, getElem?_set_some hi] at hl
    rw [hloads, newest_set hi]
    by_cases hij : i = j
    · obtain rfl : (⟨k, r, st⟩ : Load κ ν ε) = l := by simpa [hij] using hl
      exact absurd hrun hst
    · exact h.newest j l (by simpa [hij] using hl) hrun
  stale j l hl hnewest hfailed := by
    rw [hloads, getElem?_set_some hi] at hl
    rw [hloads, newest_set hi] at hnewest
    by_cases hij : i = j
    · subst hij
      obtain rfl : (⟨k, r, st⟩ : Load κ ν ε) = l := by simpa using hl
      refine hlive k (.inr hfailed) (h.stale i _ hi hnewest ?_)
      rintro ⟨v, time, heq⟩
      cases heq
    · have hl' : s.loads[j]? = some l := by simpa [hij] using hl
      refine hlive l.key (.inl fun hk => ?_) (h.stale j l hl' hnewest hfailed)
      rcases Nat.lt_or_gt_of_ne hij with hlt | hlt
      · exact h.newest i _ hi rfl j l hlt hl' hk
      · exact hnewest i _ hlt hi hk.symm

theorem Recent.startLoad [DecidableEq κ] (h : Recent ttl s) {k : κ} (hlive : s.live ttl k = none)
    (hrun : s.running k = none) (hloads : t.loads = s.loads ++ [⟨k, r, .running⟩])
    (hsame : ∀ k', t.live ttl k' = s.live ttl k') : Recent ttl t where
  newest j l hl hst := by
    rw [hloads] at hl ⊢
    intro n m hlt hm
    rcases getElem?_append_some _ hl with hl | ⟨rfl, rfl⟩
    · rcases getElem?_append_some _ hm with hm | ⟨-, rfl⟩
      · exact h.newest j l hl hst n m hlt hm
      · exact (running_eq_none hrun hl hst).symm
    · rcases getElem?_append_some _ hm with hm | ⟨rfl, -⟩
      · have := (List.getElem?_eq_some_iff.mp hm).1
        omega
      · omega
  stale j l hl hnewest hfailed := by
    rw [hloads] at hl hnewest
    rw [hsame]
    rcases getElem?_append_some _ hl with hl | ⟨rfl, rfl⟩
    · refine h.stale j l hl (fun n m hlt hm => ?_) hfailed
      exact hnewest n m hlt (getElem?_append_of_some hm _)
    · exact hlive

theorem Recent.step [DecidableEq κ] (h : Recent ttl s) (hc : Coherent ttl s)
    {e : Event κ ν ε} (ht : (machine ttl).step s e = some t) : Recent ttl t := by
  cases e with
  | call k => exact Option.some.inj ht ▸ h.same rfl fun _ hk => hk
  | enter r =>
    obtain ⟨c, -, -, ⟨e, -, rfl⟩ | ⟨i, -, rfl⟩ | ⟨hlive, hrun, rfl⟩⟩ := enter_cases ht
    · exact h.same rfl fun _ hk => hk
    · exact h.same rfl fun _ hk => hk
    · exact h.startLoad hlive hrun rfl fun _ => rfl
  | finish i result =>
    obtain ⟨k, r, c, hi, -, rfl⟩ := finish_cases ht
    refine h.endLoad hi (by simp) (by simp : _ = s.loads.set i ⟨k, r, .finished result s.now⟩) ?_
    intro k' hk' hlive
    cases result with
    | error e => exact hlive
    | ok v =>
      have hne : k' ≠ k := hk'.resolve_right fun hnot => hnot ⟨v, s.now, rfl⟩
      rw [live_eq_none] at hlive ⊢
      rw [State.setPhase_entries, State.store_entries_of_ne _ _ _ hne]
      simpa using hlive
  | wake r =>
    obtain ⟨c, i, l, -, -, -, ⟨v, n, -, rfl⟩ | ⟨e, n, -, rfl⟩ | ⟨-, rfl⟩⟩ := wake_cases ht <;>
      exact h.same rfl fun _ hk => hk
  | drop r =>
    obtain ⟨c, hr, ⟨-, rfl⟩ | ⟨i, hp, rfl⟩⟩ := drop_cases ht
    · exact h.same rfl fun _ hk => hk
    · have hok := hc.callers r c hr
      simp only [CallerOk, hp] at hok
      exact h.endLoad hok.2.2 (by simp) rfl fun _ _ hk => hk
  | elapse d =>
    obtain rfl := Option.some.inj ht
    refine h.same rfl fun k hk => live_eq_none.mpr fun e he => ?_
    exact Nat.le_trans (live_eq_none.mp hk e he) (Nat.le_add_right _ _)
  | evict k =>
    obtain rfl := Option.some.inj ht
    exact h.same rfl fun k' hk => live_eq_none.mpr fun e he => live_eq_none.mp hk e (evict_entries he)

theorem reachable_recent [DecidableEq κ] (h : (machine (ε := ε) (κ := κ) ttl).Reachable s) :
    Recent ttl s := by
  refine h.invariant ⟨by simp [machine], by simp [machine]⟩ ?_
  intro u e v hr hu he
  exact hu.step (reachable_coherent hr) he

/-- After a load that failed, and was not followed by another, the next caller loads. -/
theorem enter_of_failed [DecidableEq κ] (h : Recent ttl s) {l : Load κ ν ε}
    (hl : s.loads[i]? = some l) (hnewest : Newest s.loads i l.key) (hrun : l.state ≠ .running)
    (hfailed : ¬ l.state.Succeeded) {c : Caller κ ν ε} (hr : s.callers[r]? = some c)
    (hp : c.phase = .entering) (hk : c.key = l.key) :
    s.enter ttl r = some ((s.addLoad ⟨c.key, r, .running⟩).setPhase r
      { c with loads := c.loads + 1 } (.loading s.loads.length)) := by
  have hlive := h.stale i l hl hnewest hfailed
  have hnone : s.running c.key = none := by
    cases hsome : s.running c.key with
    | none => rfl
    | some j =>
      obtain ⟨m, hm, hmk, hmr⟩ := running_eq_some hsome
      rcases Nat.lt_trichotomy i j with hlt | rfl | hlt
      · exact absurd (hmk.trans hk) (hnewest j m hlt hm)
      · obtain rfl := Option.some.inj (hl.symm.trans hm)
        exact absurd hmr hrun
      · exact absurd (hk.symm.trans hmk.symm) (h.newest j m hm hmr i l hlt hl)
  unfold State.enter
  simp only [hr, hp]
  rw [hk] at hnone ⊢
  simp only [hlive, hnone]

theorem phase_setPhase {q : ℕ} {a b c c' : Caller κ ν ε} {p : Phase ν ε}
    (hq : s.callers[q]? = some a) (hr : s.callers[r]? = some c)
    (hr' : (s.setPhase q b p).callers[r]? = some c') :
    c'.phase = c.phase ∨ r = q ∧ c = a ∧ c'.phase = p := by
  rw [State.setPhase_callers, getElem?_set_some hq] at hr'
  by_cases hqr : q = r
  · subst hqr
    obtain rfl : { b with phase := p } = c' := by simpa using hr'
    exact .inr ⟨rfl, Option.some.inj (hr.symm.trans hq), rfl⟩
  · obtain rfl : c = c' := by simpa [hqr, hr] using hr'
    exact .inl rfl

/-- A phase that is no error hands a caller none. -/
theorem phase_kept {q : ℕ} {a b c c' : Caller κ ν ε} {p : Phase ν ε} {x : ε} {o : Origin}
    (hq : s.callers[q]? = some a) (hr : s.callers[r]? = some c)
    (hr' : (s.setPhase q b p).callers[r]? = some c') (hp : c'.phase = .returned (.error x) o)
    (hne : p ≠ .returned (.error x) o) : c'.phase = c.phase := by
  rcases phase_setPhase hq hr hr' with h | ⟨-, -, h⟩
  · exact h
  · exact absurd (h.symm.trans hp) hne

/-- A caller is handed an error only by the load it owns or waits for. -/
theorem error_reaches [DecidableEq κ] (hc : Coherent ttl s) {e : Event κ ν ε}
    (ht : (machine ttl).step s e = some t) {c c' : Caller κ ν ε} {x : ε} {o : Origin}
    (hr : s.callers[r]? = some c) (hr' : t.callers[r]? = some c')
    (hp : c'.phase = .returned (.error x) o) :
    c'.phase = c.phase ∨ ∃ i q time, (c.phase = .waiting i ∨ c.phase = .loading i) ∧
      t.loads[i]? = some ⟨c.key, q, .finished (.error x) time⟩ := by
  cases e with
  | call k =>
    obtain rfl := Option.some.inj ht
    rcases getElem?_append_some _ hr' with hr' | ⟨-, rfl⟩
    · exact .inl (congrArg Caller.phase (Option.some.inj (hr'.symm.trans hr)))
    · cases hp
  | enter q =>
    obtain ⟨a, hq, -, ⟨e, -, rfl⟩ | ⟨i, -, rfl⟩ | ⟨-, -, rfl⟩⟩ := enter_cases ht
    · exact .inl (phase_kept hq hr hr' hp (by simp))
    · exact .inl (phase_kept hq hr hr' hp (by simp))
    · exact .inl (phase_kept (s := s.addLoad _) hq hr hr' hp (by simp))
  | finish i result =>
    obtain ⟨k, q, a, hi, hq, rfl⟩ := finish_cases ht
    rcases phase_setPhase (by simpa using hq) (by simpa using hr) hr' with h | ⟨rfl, rfl, h⟩
    · exact .inl h
    · obtain ⟨⟨d, hd, hload⟩, -⟩ := hc.loads i _ hi rfl
      obtain rfl := Option.some.inj (hr.symm.trans hd)
      have hok := hc.callers _ _ hr
      simp only [CallerOk, hload] at hok
      obtain rfl : c.key = k := by simpa using hok.2.2.symm.trans hi
      obtain ⟨rfl, -⟩ := Phase.returned.inj (hp.symm.trans h)
      exact .inr ⟨i, r, s.now, .inr hload, by simp [getElem?_set_some hi]⟩
  | wake q =>
    obtain ⟨a, i, l, hq, hwait, hl, ⟨v, n, -, rfl⟩ | ⟨e, n, hst, rfl⟩ | ⟨-, rfl⟩⟩ := wake_cases ht
    · exact .inl (phase_kept hq hr hr' hp (by simp))
    · rcases phase_setPhase hq hr hr' with h | ⟨-, rfl, h⟩
      · exact .inl h
      · obtain ⟨he, -⟩ := Phase.returned.inj (hp.symm.trans h)
        have hok := hc.callers _ _ hq
        simp only [CallerOk, hwait] at hok
        obtain ⟨-, -, m, hm, hk⟩ := hok
        obtain rfl := Option.some.inj (hl.symm.trans hm)
        refine .inr ⟨i, l.owner, n, .inl hwait, ?_⟩
        rw [Except.error.inj he, ← hk, ← hst]
        exact hl
    · exact .inl (phase_kept hq hr hr' hp (by simp))
  | drop q =>
    obtain ⟨a, hq, ⟨-, rfl⟩ | ⟨i, -, rfl⟩⟩ := drop_cases ht
    · exact .inl (phase_kept hq hr hr' hp (by simp))
    · exact .inl (phase_kept (s := s.setLoad _ _) hq hr hr' hp (by simp))
  | elapse d =>
    obtain rfl := Option.some.inj ht
    exact .inl (congrArg Caller.phase (Option.some.inj (hr'.symm.trans hr)))
  | evict k =>
    obtain rfl := Option.some.inj ht
    exact .inl (congrArg Caller.phase (Option.some.inj (hr'.symm.trans hr)))

end Recent
end MojangApi.Library.SingleFlight
