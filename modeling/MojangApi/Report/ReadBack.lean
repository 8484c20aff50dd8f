import MojangApi.Report.Partition
import MojangApi.Report.Payload

/-! # What the reports say

Over a whole run, the texts of the reports that were accepted account for what was
counted and for the time that has passed.
-/

namespace MojangApi.Report
open MojangApi Library Reporter

section Timed
variable {metrics : Metrics} {s t : Reporter.State}

@[simp] theorem startedAt_add (m : Metrics) (c : Counter) (k : ℕ) :
    (m.add c k).startedAt = m.startedAt := by
  cases c <;> rfl

@[simp] theorem uptime_load (snapshot : MetricsSnapshot) (m : Metrics) (c : Counter) :
    (snapshot.load m c).uptime = snapshot.uptime := by
  cases c <;> rfl

/-- A snapshot in the making shows the uptime at the time it was begun. -/
def PhaseTimed (metrics : Metrics) : Phase → Prop
  | .loading now _ currentSnapshot => currentSnapshot.uptime = now - metrics.startedAt
  | .sending now _ snapshot => snapshot.uptime = now - metrics.startedAt
  | _ => True

structure Timed (metrics : Metrics) (s : Reporter.State) : Prop where
  started : s.metrics.startedAt = metrics.startedAt
  accepted : ∀ r ∈ s.accepted, r.snapshot.uptime = r.madeAt - metrics.startedAt
  phase : PhaseTimed metrics s.phase

theorem Timed.moves (h : Timed metrics s) {e : Event} (hm : Moves s e t) : Timed metrics t := by
  have hp := h.phase
  cases hm with
  | count c k => exact ⟨(startedAt_add _ _ _).trans h.started, h.accepted, hp⟩
  | elapse d => exact ⟨h.started, h.accepted, hp⟩
  | signalShutdown => exact ⟨h.started, h.accepted, hp⟩
  | load hphase =>
    rw [hphase] at hp
    exact ⟨h.started, h.accepted, (uptime_load _ _ _).trans hp⟩
  | tick => exact ⟨h.started, h.accepted, congrArg (s.now - ·) h.started⟩
  | send hphase =>
    rw [hphase] at hp
    exact ⟨h.started, h.accepted, hp⟩
  | accept hphase =>
    rw [hphase] at hp
    refine ⟨h.started, fun r hr => ?_, trivial⟩
    rcases List.mem_append.mp hr with hr | hr
    · exact h.accepted r hr
    · obtain rfl := List.mem_singleton.mp hr
      exact hp
  | _ => exact ⟨h.started, h.accepted, trivial⟩

end Timed

section Accounts
variable {floats : Floats} {surroundings : Reporter.Report → Surroundings}
  {reports : List Reporter.Report}

/-- The payloads of reports. -/
def payloads (floats : Floats) (surroundings : Reporter.Report → Surroundings)
    (reports : List Reporter.Report) : List Embed :=
  reports.map fun r => buildReport floats (surroundings r) r.snapshot

theorem mapM_eq_map {α β : Type} {l : List α} {f : α → Option β} {g : α → β}
    (h : ∀ a ∈ l, f a = some (g a)) : l.mapM f = some (l.map g) := by
  induction l with
  | nil => rfl
  | cons a l ih =>
    rw [List.mapM_cons, h a List.mem_cons_self, ih fun b hb => h b (List.mem_cons_of_mem _ hb)]
    rfl

theorem payloads_counter {c : Counter} (hc : c.countsBytes = false) :
    (payloads floats surroundings reports).mapM (·.counter c) =
      some (reports.map fun r => r.snapshot.counter c) := by
  rw [payloads, List.mapM_map]
  exact mapM_eq_map fun r _ => counter_buildReport hc

end Accounts

section Example

/-- Fractions, printed half up. -/
def plainFloats : Floats where
  F := ℕ × ℕ
  ofNat n := (n, 1)
  ofDuration duration := (duration, 1000000000)
  div x y := (x.1 * y.2, x.2 * y.1)
  mul x y := (x.1 * y.1, x.2 * y.2)
  fixed decimals x :=
    let rounded := (2 * x.1 * 10 ^ decimals + x.2) / (2 * x.2)
    Nat.toDigits 10 (rounded / 10 ^ decimals) ++
      '.' :: (Nat.toDigits 10 (10 ^ decimals + rounded % 10 ^ decimals)).tail
  fixed_oneLine decimals x := by
    have hdigits : ∀ n, '\n' ∉ Nat.toDigits 10 n := fun n => not_mem_toDigits (by decide)
    simpa [hdigits] using fun h => hdigits _ (List.mem_of_mem_tail h)

/-- No files can be read. -/
def noFiles : Surroundings := ⟨fun _ => none, "1970-01-01T00:00:00Z".toList⟩

example : formatBytes plainFloats 1572864 = "1.50 MB".toList := by decide

example : formatDuration (Duration.fromSecs 90061) = "1d 1h 1m 1s".toList := by decide

end Example
end MojangApi.Report
