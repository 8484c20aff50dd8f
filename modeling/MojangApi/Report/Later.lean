import MojangApi.Reporter

/-! # Reports that are made later

A reporter that waits takes the snapshot of its next report from then on. Once that report
or a later one is accepted, the baseline has reached all that the counters showed.
-/

namespace MojangApi.Reporter
open MojangApi Library

section Later
variable {base : Counter → ℕ} {count : ℕ} {s t : State}

/-- What a snapshot in the making has loaded is no less. -/
def PhaseReaches (base : Counter → ℕ) : Phase → Prop
  | .baseline _ _ => False
  | .loading _ unread currentSnapshot => ∀ c ∉ unread, base c ≤ currentSnapshot.counter c
  | .sending _ currentSnapshot _ => ∀ c, base c ≤ currentSnapshot.counter c
  | _ => True

/-- The counters, the work in progress and, once there are more than `count` reports, the
baseline have reached these values. -/
structure Reaches (base : Counter → ℕ) (count : ℕ) (s : State) : Prop where
  counters : ∀ c, base c ≤ s.metrics.counter c
  phase : PhaseReaches base s.phase
  last : count < s.accepted.length → ∀ c, base c ≤ s.lastSuccessfulSnapshot.counter c

theorem Reaches.setPhase (h : Reaches base count s) {p : Phase} (hp : PhaseReaches base p) :
    Reaches base count { s with phase := p } := ⟨h.counters, hp, h.last⟩

theorem Reaches.moves (h : Reaches base count s) {e : Event} (hwrap : noWrap s e = true)
    (hm : Moves s e t) : Reaches base count t := by
  have hp := h.phase
  cases hm with
  | count c k =>
    have hle := counter_le_add (m := s.metrics) (c := c) (k := k) (by simpa [noWrap] using hwrap)
    exact ⟨fun d => (h.counters d).trans (hle d), hp, h.last⟩
  | elapse d => exact ⟨h.counters, hp, h.last⟩
  | signalShutdown => exact ⟨h.counters, hp, h.last⟩
  | loadBaseline hphase =>
    rw [hphase] at hp
    exact hp.elim
  | @load now c unread currentSnapshot hphase =>
    rw [hphase] at hp
    exact h.setPhase (forall_load (P := fun d n => base d ≤ n) hp (h.counters c))
  | start hphase =>
    rw [hphase] at hp
    exact hp.elim
  | buildClient => exact h.setPhase trivial
  | noClient => exact h.setPhase trivial
  | stop => exact h.setPhase trivial
  | tick => exact h.setPhase fun c hc => absurd c.mem_all hc
  | send hphase =>
    rw [hphase] at hp
    exact h.setPhase fun c => hp c (by simp)
  | accept hphase =>
    rw [hphase] at hp
    exact ⟨h.counters, trivial, fun _ => hp⟩
  | refuse => exact h.setPhase trivial

/-- The reports that are made after the reporter has waited reach what it saw then. -/
theorem reaches_leads {metrics : Metrics} {now : ℕ} (hwaiting : s.phase = .waiting)
    (h : ((reporter metrics now).restrict noWrap).Leads s t)
    (hmore : s.accepted.length < t.accepted.length) (c : Counter) :
    s.metrics.counter c ≤ t.lastSuccessfulSnapshot.counter c := by
  have hs : Reaches s.metrics.counter s.accepted.length s :=
    ⟨fun _ => Nat.le_refl _, hwaiting ▸ trivial, fun hlt => absurd hlt (Nat.lt_irrefl _)⟩
  have ht : Reaches s.metrics.counter s.accepted.length t := by
    refine h.invariant hs fun u e v hu hv => ?_
    obtain ⟨hwrap, hstep⟩ := Machine.restrict_step hv
    exact hu.moves hwrap (step_moves hstep)
  exact ht.last hmore c

end Later
end MojangApi.Reporter
