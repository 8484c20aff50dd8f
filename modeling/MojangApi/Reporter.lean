import MojangApi.Metrics
import MojangApi.Library.Machine
import Mathlib.Algebra.BigOperators.Group.List.Basic

/-! # The reporter loop

A report is the difference of two snapshots, and its baseline moves only when
the report is accepted. Other tasks count between any two steps, also between
the single loads of a snapshot. A reporter without a webhook has no task.
-/

namespace MojangApi.Reporter
open MojangApi Library

/-- A report that was accepted, with the clock reading it was made at. -/
structure Report where
  snapshot : MetricsSnapshot
  madeAt : ℕ
  deriving DecidableEq, Repr

inductive Phase where
  /-- `start` takes the initial snapshot. -/
  | baseline (unread : List Counter) (snapshot : MetricsSnapshot)
  | spawned
  | waiting
  | loading (now : ℕ) (unread : List Counter) (currentSnapshot : MetricsSnapshot)
  | sending (now : ℕ) (currentSnapshot snapshot : MetricsSnapshot)
  | stopped
  deriving DecidableEq, Repr

structure State where
  metrics : Metrics
  now : ℕ
  shutdown : Bool := false
  phase : Phase
  initialSnapshot : MetricsSnapshot := {}
  reporterStartedAt : ℕ := 0
  lastSuccessfulSnapshot : MetricsSnapshot := {}
  lastSuccessfulReportAt : ℕ := 0
  accepted : List Report := []
  deriving DecidableEq, Repr

inductive Event where
  | count (c : Counter) (k : ℕ)
  | elapse (d : ℕ)
  | signalShutdown
  | load
  | start
  | buildClient (ok : Bool)
  | stop
  | tick
  | send
  | answer (ok : Bool)

namespace State

/-- The next load of the snapshot being taken. -/
def load (s : State) : Option State :=
  match s.phase with
  | .baseline (c :: unread) snapshot =>
    some { s with phase := .baseline unread (snapshot.load s.metrics c) }
  | .loading now (c :: unread) currentSnapshot =>
    some { s with phase := .loading now unread (currentSnapshot.load s.metrics c) }
  | _ => none

def start (s : State) : Option State :=
  match s.phase with
  | .baseline [] snapshot => some { s with
      phase := .spawned
      initialSnapshot := snapshot
      reporterStartedAt := s.now
      lastSuccessfulSnapshot := snapshot
      lastSuccessfulReportAt := s.now }
  | _ => none

def buildClient (s : State) (ok : Bool) : Option State :=
  match s.phase with
  | .spawned => some { s with phase := if ok then .waiting else .stopped }
  | _ => none

def stop (s : State) : Option State :=
  match s.phase with
  | .waiting => if s.shutdown then some { s with phase := .stopped } else none
  | _ => none

/-- `biased` prefers a shutdown to a tick. -/
def tick (s : State) : Option State :=
  match s.phase with
  | .waiting =>
    if s.shutdown then none
    else some { s with phase := .loading s.now Counter.all (.start s.metrics s.now) }
  | _ => none

def send (s : State) : Option State :=
  match s.phase with
  | .loading now [] currentSnapshot =>
    some { s with phase := .sending now currentSnapshot (currentSnapshot.since
      s.lastSuccessfulSnapshot (saturatingDurationSince now s.lastSuccessfulReportAt)) }
  | _ => none

def answer (s : State) (ok : Bool) : Option State :=
  match s.phase with
  | .sending now currentSnapshot snapshot =>
    if ok then some { s with
      phase := .waiting
      lastSuccessfulSnapshot := currentSnapshot
      lastSuccessfulReportAt := now
      accepted := s.accepted ++ [⟨snapshot, now⟩] }
    else some { s with phase := .waiting }
  | _ => none

end State

def reporter (metrics : Metrics) (now : ℕ) : Machine State Event where
  init :=
    { metrics := metrics, now := now, phase := .baseline Counter.all (.start metrics now) }
  step s
    | .count c k => some { s with metrics := s.metrics.add c k }
    | .elapse d => some { s with now := s.now + d }
    | .signalShutdown => some { s with shutdown := true }
    | .load => s.load
    | .start => s.start
    | .buildClient ok => s.buildClient ok
    | .stop => s.stop
    | .tick => s.tick
    | .send => s.send
    | .answer ok => s.answer ok

/-- Confine a run to counters that stay below `2 ^ 64`. -/
def noWrap (s : State) : Event → Bool
  | .count c k => s.metrics.counter c + k < 2 ^ 64
  | _ => true

/-- What an event can do. -/
inductive Moves (s : State) : Event → State → Prop
  | count (c : Counter) (k : ℕ) : Moves s (.count c k) { s with metrics := s.metrics.add c k }
  | elapse (d : ℕ) : Moves s (.elapse d) { s with now := s.now + d }
  | signalShutdown : Moves s .signalShutdown { s with shutdown := true }
  | loadBaseline {c : Counter} {unread : List Counter} {snapshot : MetricsSnapshot}
      (hphase : s.phase = .baseline (c :: unread) snapshot) :
      Moves s .load { s with phase := .baseline unread (snapshot.load s.metrics c) }
  | load {now : ℕ} {c : Counter} {unread : List Counter} {currentSnapshot : MetricsSnapshot}
      (hphase : s.phase = .loading now (c :: unread) currentSnapshot) :
      Moves s .load { s with phase := .loading now unread (currentSnapshot.load s.metrics c) }
  | start {snapshot : MetricsSnapshot} (hphase : s.phase = .baseline [] snapshot) :
      Moves s .start { s with
        phase := .spawned
        initialSnapshot := snapshot
        reporterStartedAt := s.now
        lastSuccessfulSnapshot := snapshot
        lastSuccessfulReportAt := s.now }
  | buildClient (hphase : s.phase = .spawned) :
      Moves s (.buildClient true) { s with phase := .waiting }
  | noClient (hphase : s.phase = .spawned) :
      Moves s (.buildClient false) { s with phase := .stopped }
  | stop (hphase : s.phase = .waiting) (hshutdown : s.shutdown = true) :
      Moves s .stop { s with phase := .stopped }
  | tick (hphase : s.phase = .waiting) (hshutdown : s.shutdown = false) :
      Moves s .tick { s with phase := .loading s.now Counter.all (.start s.metrics s.now) }
  | send {now : ℕ} {currentSnapshot : MetricsSnapshot}
      (hphase : s.phase = .loading now [] currentSnapshot) :
      Moves s .send { s with phase := .sending now currentSnapshot (currentSnapshot.since
        s.lastSuccessfulSnapshot (saturatingDurationSince now s.lastSuccessfulReportAt)) }
  | accept {now : ℕ} {currentSnapshot snapshot : MetricsSnapshot}
      (hphase : s.phase = .sending now currentSnapshot snapshot) :
      Moves s (.answer true) { s with
        phase := .waiting
        lastSuccessfulSnapshot := currentSnapshot
        lastSuccessfulReportAt := now
        accepted := s.accepted ++ [⟨snapshot, now⟩] }
  | refuse {now : ℕ} {currentSnapshot snapshot : MetricsSnapshot}
      (hphase : s.phase = .sending now currentSnapshot snapshot) :
      Moves s (.answer false) { s with phase := .waiting }

theorem step_moves {metrics : Metrics} {now : ℕ} {s t : State} {e : Event}
    (h : (reporter metrics now).step s e = some t) : Moves s e t := by
  cases e with
  | count c k => exact Option.some.inj h ▸ .count c k
  | elapse d => exact Option.some.inj h ▸ .elapse d
  | signalShutdown => exact Option.some.inj h ▸ .signalShutdown
  | load =>
    simp only [reporter, State.load] at h
    split at h <;> try contradiction
    · exact Option.some.inj h ▸ .loadBaseline ‹_›
    · exact Option.some.inj h ▸ .load ‹_›
  | start =>
    simp only [reporter, State.start] at h
    split at h <;> try contradiction
    exact Option.some.inj h ▸ .start ‹_›
  | buildClient ok =>
    simp only [reporter, State.buildClient] at h
    split at h <;> try contradiction
    cases ok with
    | true => exact Option.some.inj h ▸ .buildClient ‹_›
    | false => exact Option.some.inj h ▸ .noClient ‹_›
  | stop =>
    simp only [reporter, State.stop] at h
    split at h <;> try contradiction
    split at h <;> try contradiction
    exact Option.some.inj h ▸ .stop ‹_› ‹_›
  | tick =>
    simp only [reporter, State.tick] at h
    split at h <;> try contradiction
    split at h <;> try contradiction
    exact Option.some.inj h ▸ .tick ‹_› (Bool.eq_false_iff.mpr ‹_›)
  | send =>
    simp only [reporter, State.send] at h
    split at h <;> try contradiction
    exact Option.some.inj h ▸ .send ‹_›
  | answer ok =>
    simp only [reporter, State.answer] at h
    split at h <;> try contradiction
    cases ok with
    | true => exact Option.some.inj h ▸ .accept ‹_›
    | false => exact Option.some.inj h ▸ .refuse ‹_›

/-- Each report covers the time since the one before it, the first since `since`. -/
def Contiguous (since : ℕ) : List Report → Prop
  | [] => True
  | r :: rs => since ≤ r.madeAt ∧ r.snapshot.reportPeriod = r.madeAt - since ∧ Contiguous r.madeAt rs

/-- The time of the last report, or `since` if there is none. -/
def lastAt (since : ℕ) (reports : List Report) : ℕ :=
  reports.getLast?.elim since Report.madeAt

theorem lastAt_snoc (since : ℕ) (reports : List Report) (r : Report) :
    lastAt since (reports ++ [r]) = r.madeAt := by
  simp [lastAt]

theorem lastAt_cons (since : ℕ) (r : Report) (reports : List Report) :
    lastAt since (r :: reports) = lastAt r.madeAt reports := by
  cases h : reports.getLast? <;> simp [lastAt, List.getLast?_cons, h]

theorem Contiguous.snoc {since : ℕ} {reports : List Report} {r : Report}
    (h : Contiguous since reports) (hle : lastAt since reports ≤ r.madeAt)
    (hperiod : r.snapshot.reportPeriod = r.madeAt - lastAt since reports) :
    Contiguous since (reports ++ [r]) := by
  induction reports generalizing since with
  | nil => exact ⟨hle, hperiod, trivial⟩
  | cons head reports ih =>
    rw [lastAt_cons] at hle hperiod
    exact ⟨h.1, h.2.1, ih h.2.2 hle hperiod⟩

/-- The periods of contiguous reports add up. -/
theorem Contiguous.sum {since : ℕ} {reports : List Report} (h : Contiguous since reports) :
    (reports.map fun r => r.snapshot.reportPeriod).sum + since = lastAt since reports := by
  induction reports generalizing since with
  | nil => simp [lastAt]
  | cons r reports ih =>
    rw [lastAt_cons, ← ih h.2.2, List.map_cons, List.sum_cons, h.2.1]
    have := h.1
    omega

/-- How far the work in progress is ahead of the baseline, and behind the counters. -/
def PhaseOk (s : State) : Phase → Prop
  | .baseline unread snapshot => s.accepted = [] ∧ s.lastSuccessfulReportAt = 0 ∧
      (∀ c, s.lastSuccessfulSnapshot.counter c = 0) ∧
      ∀ c ∉ unread, snapshot.counter c ≤ s.metrics.counter c
  | .loading now unread currentSnapshot => s.lastSuccessfulReportAt ≤ now ∧ now ≤ s.now ∧
      ∀ c ∉ unread, s.lastSuccessfulSnapshot.counter c ≤ currentSnapshot.counter c ∧
        currentSnapshot.counter c ≤ s.metrics.counter c
  | .sending now currentSnapshot snapshot => s.lastSuccessfulReportAt ≤ now ∧ now ≤ s.now ∧
      snapshot = currentSnapshot.since s.lastSuccessfulSnapshot (now - s.lastSuccessfulReportAt) ∧
      ∀ c, s.lastSuccessfulSnapshot.counter c ≤ currentSnapshot.counter c ∧
        currentSnapshot.counter c ≤ s.metrics.counter c
  | _ => True

/-- What was reported and what was counted at the start make up the baseline. -/
structure Balanced (s : State) : Prop where
  counted : ∀ c, (s.accepted.map fun r => r.snapshot.counter c).sum +
    s.initialSnapshot.counter c = s.lastSuccessfulSnapshot.counter c
  behind : ∀ c, s.lastSuccessfulSnapshot.counter c ≤ s.metrics.counter c
  contiguous : Contiguous s.reporterStartedAt s.accepted
  last : s.lastSuccessfulReportAt = lastAt s.reporterStartedAt s.accepted
  past : s.lastSuccessfulReportAt ≤ s.now
  phase : PhaseOk s s.phase

section Steps
variable {s t : State}

theorem balanced_init (metrics : Metrics) (now : ℕ) : Balanced (reporter metrics now).init where
  counted c := by cases c <;> rfl
  behind c := by cases c <;> exact Nat.zero_le _
  contiguous := trivial
  last := rfl
  past := Nat.zero_le _
  phase := ⟨rfl, rfl, fun c => by cases c <;> rfl, fun c hc => absurd c.mem_all hc⟩

/-- Without wrapping, counting only raises counters. -/
theorem counter_le_add {m : Metrics} {c : Counter} {k : ℕ} (h : m.counter c + k < 2 ^ 64)
    (d : Counter) : m.counter d ≤ (m.add c k).counter d := by
  rw [Metrics.counter_add]
  split
  · rename_i hcd
    subst hcd
    rw [fetchAdd_of_lt h]
    exact Nat.le_add_right _ _
  · exact Nat.le_refl _

/-- Counters that rise and a clock that runs disturb nothing. -/
theorem Balanced.environment (h : Balanced s) {metrics : Metrics} {now : ℕ} {shutdown : Bool}
    (hm : ∀ c, s.metrics.counter c ≤ metrics.counter c) (hn : s.now ≤ now) :
    Balanced { s with metrics := metrics, now := now, shutdown := shutdown } where
  counted := h.counted
  behind c := Nat.le_trans (h.behind c) (hm c)
  contiguous := h.contiguous
  last := h.last
  past := Nat.le_trans h.past hn
  phase := by
    change PhaseOk _ s.phase
    have hp := h.phase
    cases hphase : s.phase <;> rw [hphase] at hp
    case baseline => exact ⟨hp.1, hp.2.1, hp.2.2.1, fun c hc => Nat.le_trans (hp.2.2.2 c hc) (hm c)⟩
    case loading =>
      exact ⟨hp.1, Nat.le_trans hp.2.1 hn,
        fun c hc => ⟨(hp.2.2 c hc).1, Nat.le_trans (hp.2.2 c hc).2 (hm c)⟩⟩
    case sending =>
      exact ⟨hp.1, Nat.le_trans hp.2.1 hn, hp.2.2.1,
        fun c => ⟨(hp.2.2.2 c).1, Nat.le_trans (hp.2.2.2 c).2 (hm c)⟩⟩
    all_goals trivial

theorem Balanced.setPhase (h : Balanced s) {p : Phase} (hp : PhaseOk s p) :
    Balanced { s with phase := p } where
  counted := h.counted
  behind := h.behind
  contiguous := h.contiguous
  last := h.last
  past := h.past
  phase := by
    cases p <;> exact hp

/-- A load turns what holds of the counters read before, and of the one that is read now, into
what holds of all of them. -/
theorem forall_load {P : Counter → ℕ → Prop} {metrics : Metrics} {snapshot : MetricsSnapshot}
    {c : Counter} {unread : List Counter} (h : ∀ d ∉ c :: unread, P d (snapshot.counter d))
    (hc : P c (metrics.counter c)) (d : Counter) (hd : d ∉ unread) :
    P d ((snapshot.load metrics c).counter d) := by
  rw [MetricsSnapshot.counter_load]
  split
  · rename_i hcd
    exact hcd ▸ hc
  · rename_i hcd
    exact h d (by simp [Ne.symm hcd, hd])

theorem Balanced.start (h : Balanced s) {snapshot : MetricsSnapshot}
    (hphase : s.phase = .baseline [] snapshot) : Balanced { s with
      phase := .spawned
      initialSnapshot := snapshot
      reporterStartedAt := s.now
      lastSuccessfulSnapshot := snapshot
      lastSuccessfulReportAt := s.now } := by
  have hp := h.phase
  rw [hphase] at hp
  exact {
    counted := fun c => by simp [hp.1]
    behind := fun c => hp.2.2.2 c (by simp)
    contiguous := by simp [hp.1, Contiguous]
    last := by simp [hp.1, lastAt]
    past := Nat.le_refl _
    phase := trivial }

/-- An accepted report moves the baseline to the snapshot it was made from. -/
theorem Balanced.accept (h : Balanced s) {now : ℕ} {currentSnapshot snapshot : MetricsSnapshot}
    (hphase : s.phase = .sending now currentSnapshot snapshot) : Balanced { s with
      phase := .waiting
      lastSuccessfulSnapshot := currentSnapshot
      lastSuccessfulReportAt := now
      accepted := s.accepted ++ [⟨snapshot, now⟩] } := by
  have hp := h.phase
  rw [hphase] at hp
  obtain ⟨hlast, hnow, rfl, hcounters⟩ := hp
  exact {
    counted := fun c => by
      have := h.counted c
      have := (hcounters c).1
      simp only [List.map_append, List.map_cons, List.map_nil, List.sum_append,
        List.sum_cons, List.sum_nil, MetricsSnapshot.counter_since]
      omega
    behind := fun c => (hcounters c).2
    contiguous := h.contiguous.snoc (h.last ▸ hlast) (by simp [h.last])
    last := by simp [lastAt_snoc]
    past := hnow
    phase := trivial }

theorem Balanced.moves (h : Balanced s) {e : Event} (hwrap : noWrap s e = true)
    (hm : Moves s e t) : Balanced t := by
  have hp := h.phase
  cases hm with
  | count c k => exact h.environment (counter_le_add (by simpa [noWrap] using hwrap)) (Nat.le_refl _)
  | elapse d => exact h.environment (fun c => Nat.le_refl _) (Nat.le_add_right _ _)
  | signalShutdown => exact h.environment (fun c => Nat.le_refl _) (Nat.le_refl _)
  | loadBaseline hphase =>
    rw [hphase] at hp
    refine h.setPhase ⟨hp.1, hp.2.1, hp.2.2.1, ?_⟩
    exact forall_load (P := fun d n => n ≤ s.metrics.counter d) hp.2.2.2 (Nat.le_refl _)
  | load hphase =>
    rw [hphase] at hp
    refine h.setPhase ⟨hp.1, hp.2.1, ?_⟩
    exact forall_load (P := fun d n => s.lastSuccessfulSnapshot.counter d ≤ n ∧
      n ≤ s.metrics.counter d) hp.2.2 ⟨h.behind _, Nat.le_refl _⟩
  | start hphase => exact h.start hphase
  | buildClient => exact h.setPhase trivial
  | noClient => exact h.setPhase trivial
  | stop => exact h.setPhase trivial
  | tick => exact h.setPhase ⟨h.past, Nat.le_refl _, fun c hc => absurd c.mem_all hc⟩
  | send hphase =>
    rw [hphase] at hp
    exact h.setPhase ⟨hp.1, hp.2.1, rfl, fun c => hp.2.2 c (by simp)⟩
  | accept hphase => exact h.accept hphase
  | refuse => exact h.setPhase trivial

end Steps

theorem reachable_balanced {metrics : Metrics} {now : ℕ} {s : State}
    (h : ((reporter metrics now).restrict noWrap).Reachable s) : Balanced s := by
  apply h.invariant (balanced_init metrics now)
  intro u e v _ hu he
  obtain ⟨hwrap, hstep⟩ := Machine.restrict_step he
  exact hu.moves hwrap (step_moves hstep)

end MojangApi.Reporter
