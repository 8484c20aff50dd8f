import MojangApi.Library.SingleFlight.Semantics
import MojangApi.Library.Lists

/-! # What every run of a coalescing cache keeps

At most one load of a key runs at a time and no live entry exists beside it.
Every returned result is the result of a finished load of the caller's key, and
one read from the store was read before its time to live had passed. An error
reaches only the owner and the waiters of its load.
-/

namespace MojangApi.Library.SingleFlight
variable {κ ν ε : Type*}

/-- A result read from the store was stored by its load and had time left. -/
def Origin.InTime (ttl : ν → ℕ) : Origin → Except ε ν → ℕ → Prop
  | .cached _ storedAt readAt, .ok v, time =>
    time = storedAt ∧ storedAt ≤ readAt ∧ readAt < storedAt + ttl v
  | .cached _ _ _, .error _, _ => False
  | .loaded _, _, _ => True
  | .shared _, _, _ => True

/-- A caller given a value either loaded it or read it, once. -/
def Counted (result : Except ε ν) (o : Origin) (c : Caller κ ν ε) : Prop :=
  (o.isFresh = true ∧ c.loads = 1 ∧ c.reads = 0) ∨
    (o.isFresh = false ∧ c.loads = 0 ∧ c.reads = match result with | .ok _ => 1 | .error _ => 0)

def CallerOk (ttl : ν → ℕ) (loads : List (Load κ ν ε)) (r : ℕ) (c : Caller κ ν ε) : Prop :=
  match c.phase with
  | .entering => c.loads = 0 ∧ c.reads = 0
  | .waiting i => c.loads = 0 ∧ c.reads = 0 ∧ ∃ l, loads[i]? = some l ∧ l.key = c.key
  | .loading i => c.loads = 1 ∧ c.reads = 0 ∧ loads[i]? = some ⟨c.key, r, .running⟩
  | .returned result o => Counted result o c ∧
      ∃ q time, loads[o.load]? = some ⟨c.key, q, .finished result time⟩ ∧ o.InTime ttl result time
  | .dropped => c.loads ≤ 1 ∧ c.reads = 0

def EntryOk (s : State κ ν ε) (k : κ) (e : Entry ν) : Prop :=
  e.storedAt ≤ s.now ∧ ∃ q, s.loads[e.load]? = some ⟨k, q, .finished (.ok e.value) e.storedAt⟩

/-- While a load runs its owner is in its loader and no live entry has its key. -/
def LoadOk (ttl : ν → ℕ) (s : State κ ν ε) (i : ℕ) (l : Load κ ν ε) : Prop :=
  l.state = .running →
    (∃ c, s.callers[l.owner]? = some c ∧ c.phase = .loading i) ∧ s.live ttl l.key = none

structure Coherent (ttl : ν → ℕ) (s : State κ ν ε) : Prop where
  callers : ∀ r c, s.callers[r]? = some c → CallerOk ttl s.loads r c
  loads : ∀ i l, s.loads[i]? = some l → LoadOk ttl s i l
  single : ∀ (i j : ℕ) (l m : Load κ ν ε), s.loads[i]? = some l → s.loads[j]? = some m →
    l.state = .running → m.state = .running → l.key = m.key → i = j
  entries : ∀ k e, s.entries k = some e → EntryOk s k e
  started : (s.callers.map Caller.loads).sum = s.loads.length

section Frame
variable {ttl : ν → ℕ} {s t : State κ ν ε}

/-- A step on behalf of caller `r` touches no load but a running one of its own. -/
def Keeps (r : ℕ) (l l' : List (Load κ ν ε)) : Prop :=
  ∀ (i : ℕ) (a : Load κ ν ε), l[i]? = some a → ∃ b : Load κ ν ε,
    l'[i]? = some b ∧ b.key = a.key ∧ b.owner = a.owner ∧
    (b.state = a.state ∨ a.state = .running ∧ a.owner = r)

theorem Keeps.refl (r : ℕ) (l : List (Load κ ν ε)) : Keeps r l l :=
  fun _ a h => ⟨a, h, rfl, rfl, .inl rfl⟩

theorem Keeps.append (r : ℕ) (l : List (Load κ ν ε)) (a : Load κ ν ε) : Keeps r l (l ++ [a]) := by
  intro i b hb
  obtain ⟨hi, -⟩ := List.getElem?_eq_some_iff.mp hb
  exact ⟨b, by rwa [List.getElem?_append_left hi], rfl, rfl, .inl rfl⟩

theorem Keeps.set {r i : ℕ} {l : List (Load κ ν ε)} {k : κ} (h : l[i]? = some ⟨k, r, .running⟩)
    (st : LoadState ν ε) : Keeps r l (l.set i ⟨k, r, st⟩) := by
  intro j a ha
  rw [getElem?_set_some h]
  by_cases hij : i = j
  · subst j
    obtain rfl : ⟨k, r, .running⟩ = a := Option.some.inj (h.symm.trans ha)
    exact ⟨⟨k, r, st⟩, by simp, rfl, rfl, .inr ⟨rfl, rfl⟩⟩
  · exact ⟨a, by simpa [hij] using ha, rfl, rfl, .inl rfl⟩

theorem Keeps.same {r i : ℕ} {l l' : List (Load κ ν ε)} (h : Keeps r l l') {a : Load κ ν ε}
    (hl : l[i]? = some a) (ha : a.state = .running → a.owner ≠ r) : l'[i]? = some a := by
  obtain ⟨b, hb, hk, ho, hs⟩ := h i a hl
  have hst : b.state = a.state := hs.resolve_right fun hr => ha hr.1 hr.2
  have hba : b = a := by
    cases a
    cases b
    simp_all
  rw [hb, hba]

theorem Keeps.finished {r i : ℕ} {l l' : List (Load κ ν ε)} (h : Keeps r l l') {k : κ} {q : ℕ}
    {result : Except ε ν} {time : ℕ} (hl : l[i]? = some ⟨k, q, .finished result time⟩) :
    l'[i]? = some ⟨k, q, .finished result time⟩ :=
  h.same hl fun hr => by cases hr

/-- Callers other than the one that moves keep their standing. -/
theorem CallerOk.keep {q r : ℕ} {l l' : List (Load κ ν ε)} {c : Caller κ ν ε}
    (hc : CallerOk ttl l q c) (hl : Keeps r l l') (hq : q ≠ r) : CallerOk ttl l' q c := by
  unfold CallerOk at *
  split at hc
  · exact hc
  · obtain ⟨h0, h1, a, ha, hk⟩ := hc
    obtain ⟨b, hb, hbk, -, -⟩ := hl _ _ ha
    exact ⟨h0, h1, b, hb, hbk.trans hk⟩
  · obtain ⟨h0, h1, ha⟩ := hc
    exact ⟨h0, h1, hl.same ha fun _ => hq⟩
  · obtain ⟨h0, p, n, ha, hn⟩ := hc
    exact ⟨h0, p, n, hl.finished ha, hn⟩
  · exact hc

theorem EntryOk.keep {r : ℕ} {k : κ} {e : Entry ν} (he : EntryOk s k e)
    (hl : Keeps r s.loads t.loads) (hn : s.now ≤ t.now) : EntryOk t k e := by
  obtain ⟨h0, q, hq⟩ := he
  exact ⟨Nat.le_trans h0 hn, q, hl.finished hq⟩

/-- The callers after a step on behalf of caller `r`. -/
theorem callers_step {r : ℕ} {c c' : Caller κ ν ε} (h : Coherent ttl s)
    (hr : s.callers[r]? = some c) (hcs : t.callers = s.callers.set r c')
    (hl : Keeps r s.loads t.loads) (hc' : CallerOk ttl t.loads r c') (q : ℕ) (d : Caller κ ν ε)
    (hd : t.callers[q]? = some d) : CallerOk ttl t.loads q d := by
  rw [hcs, getElem?_set_some hr] at hd
  by_cases hq : r = q
  · subst q
    obtain rfl : c' = d := by simpa using hd
    exact hc'
  · exact (h.callers q d (by simpa [hq] using hd)).keep hl (Ne.symm hq)

end Frame

section Preservation
variable {ttl : ν → ℕ} {s t : State κ ν ε}

theorem coherent_init : Coherent ttl ({} : State κ ν ε) where
  callers := by simp
  loads := by simp
  single := by simp
  entries := by simp
  started := rfl

/-- A caller that is not a loader moves on by itself. -/
theorem Coherent.setPhase (h : Coherent ttl s) {r : ℕ} {c c' : Caller κ ν ε} {p : Phase ν ε}
    (hr : s.callers[r]? = some c) (hnot : ∀ i, c.phase ≠ .loading i) (hloads : c'.loads = c.loads)
    (hok : CallerOk ttl s.loads r { c' with phase := p }) : Coherent ttl (s.setPhase r c' p) where
  callers := callers_step h hr rfl (.refl r s.loads) hok
  loads i l hl hrun := by
    obtain ⟨⟨d, hd, hp⟩, hlive⟩ := h.loads i l hl hrun
    refine ⟨⟨d, ?_, hp⟩, hlive⟩
    rw [State.setPhase_callers, getElem?_set_some hr, if_neg, hd]
    rintro rfl
    obtain rfl : c = d := Option.some.inj (hr.symm.trans hd)
    exact hnot i hp
  single := h.single
  entries k e he := (h.entries k e he).keep (.refl 0 s.loads) (Nat.le_refl _)
  started := by
    have hsum := sum_set Caller.loads hr { c' with phase := p }
    change _ + c.loads = _ + c'.loads at hsum
    rw [State.setPhase_callers, State.setPhase_loads, ← h.started]
    omega

theorem Coherent.call (h : Coherent ttl s) (k : κ) : Coherent ttl (s.call k) where
  callers r c hc := by
    rcases getElem?_append_some _ hc with hc | ⟨-, rfl⟩
    · exact h.callers r c hc
    · exact ⟨rfl, rfl⟩
  loads i l hl hrun := by
    obtain ⟨⟨d, hd, hp⟩, hlive⟩ := h.loads i l hl hrun
    obtain ⟨ho, -⟩ := List.getElem?_eq_some_iff.mp hd
    exact ⟨⟨d, by rwa [State.call, List.getElem?_append_left ho], hp⟩, hlive⟩
  single := h.single
  entries := h.entries
  started := by simpa [State.call] using h.started

theorem Coherent.elapse (h : Coherent ttl s) (d : ℕ) : Coherent ttl (s.elapse d) where
  callers := h.callers
  loads i l hl hrun := by
    obtain ⟨hc, hlive⟩ := h.loads i l hl hrun
    refine ⟨hc, live_eq_none.mpr fun e he => ?_⟩
    exact Nat.le_trans (live_eq_none.mp hlive e he) (Nat.le_add_right _ _)
  single := h.single
  entries k e he := (h.entries k e he).keep (.refl 0 s.loads) (Nat.le_add_right _ _)
  started := h.started

theorem evict_entries [DecidableEq κ] {k k' : κ} {e : Entry ν}
    (h : (s.evict k).entries k' = some e) : s.entries k' = some e := by
  by_cases hk : k' = k
  · simp [State.evict, hk] at h
  · simpa [State.evict, hk] using h

theorem Coherent.evict [DecidableEq κ] (h : Coherent ttl s) (k : κ) : Coherent ttl (s.evict k) where
  callers := h.callers
  loads i l hl hrun := by
    obtain ⟨hc, hlive⟩ := h.loads i l hl hrun
    exact ⟨hc, live_eq_none.mpr fun e he => live_eq_none.mp hlive e (evict_entries he)⟩
  single := h.single
  entries k' e he := h.entries k' e (evict_entries he)
  started := h.started

theorem Coherent.startLoad [DecidableEq κ] (h : Coherent ttl s) {r : ℕ} {c : Caller κ ν ε}
    (hr : s.callers[r]? = some c) (hp : c.phase = .entering) (hlive : s.live ttl c.key = none)
    (hrun : s.running c.key = none) :
    Coherent ttl ((s.addLoad ⟨c.key, r, .running⟩).setPhase r { c with loads := c.loads + 1 }
      (.loading s.loads.length)) where
  callers := by
    have hc : c.loads = 0 ∧ c.reads = 0 := by simpa [CallerOk, hp] using h.callers r c hr
    refine callers_step h hr rfl (.append r s.loads _) ⟨?_, hc.2, by simp⟩
    exact congrArg (· + 1) hc.1
  loads i l hl hl' := by
    rcases getElem?_append_some _ hl with hl | ⟨rfl, rfl⟩
    · obtain ⟨⟨d, hd, hdp⟩, hlive⟩ := h.loads i l hl hl'
      refine ⟨⟨d, ?_, hdp⟩, hlive⟩
      rw [State.setPhase_callers, State.addLoad_callers, getElem?_set_some hr, if_neg, hd]
      rintro rfl
      obtain rfl : c = d := Option.some.inj (hr.symm.trans hd)
      cases hp.symm.trans hdp
    · exact ⟨⟨{ c with phase := .loading s.loads.length, loads := c.loads + 1 },
        by simp [getElem?_set_some hr], rfl⟩, hlive⟩
  single i j l m hl hm hl' hm' hk := by
    rcases getElem?_append_some _ hl with hl | ⟨rfl, rfl⟩ <;>
      rcases getElem?_append_some _ hm with hm | ⟨rfl, rfl⟩
    · exact h.single i j l m hl hm hl' hm' hk
    · exact absurd hk (running_eq_none hrun hl hl')
    · exact absurd hk.symm (running_eq_none hrun hm hm')
    · rfl
  entries k e he := (h.entries k e he).keep (.append 0 s.loads _) (Nat.le_refl _)
  started := by
    have hsum := sum_set Caller.loads hr
      { c with phase := .loading s.loads.length, loads := c.loads + 1 }
    change _ + c.loads = _ + (c.loads + 1) at hsum
    have hlen := h.started
    simp only [State.setPhase_callers, State.setPhase_loads, State.addLoad_loads,
      State.addLoad_callers, List.length_append, List.length_singleton]
    omega

/-- A running load ends, whatever its outcome. -/
theorem Coherent.endLoad (h : Coherent ttl s) {i r : ℕ} {k : κ} {c : Caller κ ν ε}
    (st : LoadState ν ε) (c' : Caller κ ν ε) (hi : s.loads[i]? = some ⟨k, r, .running⟩)
    (hr : s.callers[r]? = some c)
    (hst : st ≠ .running) (hloads : t.loads = s.loads.set i ⟨k, r, st⟩)
    (hcallers : t.callers = s.callers.set r c') (hc : c'.loads = c.loads)
    (hok : CallerOk ttl t.loads r c') (hnow : t.now = s.now)
    (hother : ∀ k', k' ≠ k → t.entries k' = s.entries k')
    (hentries : ∀ k' e, t.entries k' = some e → EntryOk t k' e) : Coherent ttl t where
  callers := by
    refine callers_step h hr hcallers ?_ hok
    rw [hloads]
    exact .set hi st
  loads j l hl hrun := by
    rw [hloads, getElem?_set_some hi] at hl
    by_cases hij : i = j
    · obtain rfl : ⟨k, r, st⟩ = l := by simpa [hij] using hl
      exact absurd hrun hst
    · have hl' : s.loads[j]? = some l := by simpa [hij] using hl
      obtain ⟨⟨d, hd, hp⟩, hlive⟩ := h.loads j l hl' hrun
      refine ⟨⟨d, ?_, hp⟩, ?_⟩
      · rw [hcallers, getElem?_set_some hr, if_neg, hd]
        rintro rfl
        obtain ⟨⟨a, ha, hap⟩, -⟩ := h.loads i _ hi rfl
        obtain rfl : a = d := Option.some.inj (ha.symm.trans hd)
        exact hij (Phase.loading.inj (hap.symm.trans hp))
      · have hk : l.key ≠ k := fun hk => hij (h.single i j _ l hi hl' rfl hrun hk.symm)
        rw [live_eq_none, hother _ hk, hnow]
        exact live_eq_none.mp hlive
  single a b l m hl hm hl' hm' hk := by
    have old : ∀ (j : ℕ) (n : Load κ ν ε), t.loads[j]? = some n → n.state = .running →
        s.loads[j]? = some n := by
      intro j n hn hrun
      rw [hloads, getElem?_set_some hi] at hn
      by_cases hij : i = j
      · obtain rfl : ⟨k, r, st⟩ = n := by simpa [hij] using hn
        exact absurd hrun hst
      · simpa [hij] using hn
    exact h.single a b l m (old a l hl hl') (old b m hm hm') hl' hm' hk
  entries := hentries
  started := by
    have hsum := sum_set Caller.loads hr c'
    rw [hcallers, hloads, List.length_set, ← h.started]
    omega

theorem Coherent.finish [DecidableEq κ] (h : Coherent ttl s) {i : ℕ} {result : Except ε ν}
    (ht : s.finish i result = some t) : Coherent ttl t := by
  obtain ⟨k, r, c, hi, hr, rfl⟩ := finish_cases ht
  obtain ⟨⟨d, hd, hp⟩, -⟩ := h.loads i _ hi rfl
  obtain rfl : c = d := Option.some.inj (hr.symm.trans hd)
  have hc : c.loads = 1 ∧ c.reads = 0 ∧ s.loads[i]? = some ⟨c.key, r, .running⟩ := by
    simpa [CallerOk, hp] using h.callers r c hr
  obtain ⟨hone, hzero, hown⟩ := hc
  obtain rfl : c.key = k := by simpa using hown.symm.trans hi
  have hnew : (s.loads.set i ⟨c.key, r, .finished result s.now⟩)[i]? =
      some ⟨c.key, r, .finished result s.now⟩ := by simp [getElem?_set_some hi]
  refine h.endLoad (.finished result s.now) { c with phase := .returned result (.loaded i) } hi hr
    (by simp) (by simp) (by simp) rfl ?_ (by simp) ?_ ?_
  · refine ⟨.inl ⟨rfl, hone, hzero⟩, r, s.now, ?_, trivial⟩
    simpa [Origin.load] using hnew
  · intro k' hk
    exact State.store_entries_of_ne _ _ _ hk
  · intro k' e he
    by_cases hk : k' = c.key
    · subst hk
      cases result with
      | ok v =>
        obtain rfl : (⟨v, s.now, i⟩ : Entry ν) = e := by simpa [State.store] using he
        exact ⟨by simp, r, by simpa using hnew⟩
      | error x =>
        exact (h.entries _ e he).keep (by simpa using Keeps.set hi _) (by simp)
    · rw [State.setPhase_entries, State.store_entries_of_ne _ _ _ hk] at he
      exact (h.entries _ e he).keep (by simpa using Keeps.set hi _) (by simp)

theorem Coherent.enter [DecidableEq κ] (h : Coherent ttl s) {r : ℕ}
    (ht : s.enter ttl r = some t) : Coherent ttl t := by
  obtain ⟨c, hr, hp, ⟨e, he, rfl⟩ | ⟨i, hi, rfl⟩ | ⟨hlive, hrun, rfl⟩⟩ := enter_cases ht
  all_goals
    have hc : c.loads = 0 ∧ c.reads = 0 := by simpa [CallerOk, hp] using h.callers r c hr
  · obtain ⟨hk, htime⟩ := live_eq_some.mp he
    obtain ⟨hnow, q, hq⟩ := h.entries _ e hk
    refine h.setPhase hr (by simp [hp]) rfl ⟨.inr ⟨rfl, hc.1, ?_⟩, q, e.storedAt, hq, rfl, hnow, htime⟩
    exact congrArg (· + 1) hc.2
  · obtain ⟨l, hl, hk, -⟩ := running_eq_some hi
    exact h.setPhase hr (by simp [hp]) rfl ⟨hc.1, hc.2, l, hl, hk⟩
  · exact h.startLoad hr hp hlive hrun

theorem Coherent.wake (h : Coherent ttl s) {r : ℕ} (ht : s.wake r = some t) : Coherent ttl t := by
  obtain ⟨c, i, l, hr, hp, hl, hcase⟩ := wake_cases ht
  have hc : c.loads = 0 ∧ c.reads = 0 ∧ ∃ m, s.loads[i]? = some m ∧ m.key = c.key := by
    simpa [CallerOk, hp] using h.callers r c hr
  obtain ⟨h0, h1, m, hm, hk⟩ := hc
  obtain rfl : l = m := Option.some.inj (hl.symm.trans hm)
  obtain ⟨k, q, st⟩ := l
  obtain rfl : k = c.key := hk
  rcases hcase with ⟨v, n, rfl, rfl⟩ | ⟨e, n, rfl, rfl⟩ | ⟨rfl, rfl⟩
  · refine h.setPhase hr (by simp [hp]) rfl ⟨.inr ⟨rfl, h0, ?_⟩, q, n, hl, trivial⟩
    exact congrArg (· + 1) h1
  · exact h.setPhase hr (by simp [hp]) rfl ⟨.inr ⟨rfl, h0, h1⟩, q, n, hl, trivial⟩
  · exact h.setPhase hr (by simp [hp]) rfl ⟨h0, h1⟩

theorem Coherent.drop (h : Coherent ttl s) {r : ℕ} (ht : s.drop r = some t) : Coherent ttl t := by
  obtain ⟨c, hr, ⟨hp, rfl⟩ | ⟨i, hp, rfl⟩⟩ := drop_cases ht
  · have hc : c.loads = 0 ∧ c.reads = 0 := by
      have hok := h.callers r c hr
      rcases hp with hp | ⟨i, hp⟩ <;> simp only [CallerOk, hp] at hok
      · exact hok
      · exact ⟨hok.1, hok.2.1⟩
    refine h.setPhase hr ?_ rfl ⟨by simp [hc.1], hc.2⟩
    rintro i hi
    rcases hp with hp | ⟨j, hp⟩ <;> simp [hp] at hi
  · have hc : c.loads = 1 ∧ c.reads = 0 ∧ s.loads[i]? = some ⟨c.key, r, .running⟩ := by
      simpa [CallerOk, hp] using h.callers r c hr
    obtain ⟨h1, h0, hi⟩ := hc
    refine h.endLoad .abandoned { c with phase := .dropped } hi hr (by simp) (by simp) (by simp) rfl
      ⟨by simp [h1], h0⟩ (by simp) (by simp) ?_
    intro k e he
    exact (h.entries k e he).keep (by simpa using Keeps.set hi _) (Nat.le_refl _)

theorem reachable_coherent [DecidableEq κ] (h : (machine (ε := ε) (κ := κ) ttl).Reachable s) :
    Coherent ttl s := by
  apply h.invariant coherent_init
  intro u e v _ hu he
  cases e with
  | call k => exact Option.some.inj he ▸ hu.call k
  | enter r => exact hu.enter he
  | finish i result => exact hu.finish he
  | wake r => exact hu.wake he
  | drop r => exact hu.drop he
  | elapse d => exact Option.some.inj he ▸ hu.elapse d
  | evict k => exact Option.some.inj he ▸ hu.evict k

end Preservation
end MojangApi.Library.SingleFlight
