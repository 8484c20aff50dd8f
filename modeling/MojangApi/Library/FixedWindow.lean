import Mathlib.Data.Nat.Notation
import Mathlib.Order.Basic

/-! # Fixed-window counting for a single client

The reference against which a limiter is compared: one window per client, never
discarded. A window opens at the first call, and again at the first call that
finds the previous window over; the first `limit` calls of a window are allowed.
-/

namespace MojangApi.Library.FixedWindow

structure Window where
  start : ℕ
  used : ℕ
  deriving DecidableEq, Repr

structure Verdict where
  allowed : Bool
  remaining : ℕ
  resetAfter : ℕ
  deriving DecidableEq, Repr

/-- The window a call at `now` falls into. -/
def current (width : ℕ) (w : Option Window) (now : ℕ) : Window :=
  match w with
  | some w => if w.start + width ≤ now then ⟨now, 0⟩ else w
  | none => ⟨now, 0⟩

def charge (limit : ℕ) (w : Window) : Window :=
  if w.used < limit then { w with used := w.used + 1 } else w

def verdict (limit width : ℕ) (w : Window) (now : ℕ) : Verdict where
  allowed := w.used < limit
  remaining := limit - (charge limit w).used
  resetAfter := w.start + width - now

def serve (limit width : ℕ) (w : Option Window) (now : ℕ) : Window × Verdict :=
  (charge limit (current width w now), verdict limit width (current width w now) now)

/-- The window left by a list of calls, given by their times. -/
def run (limit width : ℕ) (calls : List ℕ) : Option Window :=
  calls.foldl (fun w now => some (serve limit width w now).1) none

theorem run_snoc (limit width : ℕ) (calls : List ℕ) (now : ℕ) :
    run limit width (calls ++ [now]) = some (serve limit width (run limit width calls) now).1 := by
  simp [run]

@[simp] theorem charge_start (limit : ℕ) (w : Window) : (charge limit w).start = w.start := by
  unfold charge
  split <;> rfl

/-- Before and after the call the client cannot tell an absent window from one that is over. -/
theorem current_expired {width now : ℕ} {w : Window} (h : w.start + width ≤ now) :
    current width (some w) now = current width none now := by
  simp [current, h]

theorem current_open {width now : ℕ} {w : Window} (h : now < w.start + width) :
    current width (some w) now = w := by
  simp [current, Nat.not_le.mpr h]

theorem current_start_le (width : ℕ) {now : ℕ} {w : Option Window}
    (h : ∀ v, w = some v → v.start ≤ now) :
    (current width w now).start ≤ now := by
  unfold current
  split
  · rename_i v
    split
    · exact Nat.le_refl now
    · exact h v rfl
  · exact Nat.le_refl now

/-- A denied call met a used-up window that is still open, and leaves it as it was. -/
theorem serve_denied {limit width now : ℕ} {w : Option Window} (hlimit : 0 < limit)
    (h : (serve limit width w now).2.allowed = false) :
    ∃ v, w = some v ∧ limit ≤ v.used ∧ now < v.start + width ∧
      serve limit width w now = (v, verdict limit width v now) := by
  have hfull : limit ≤ (current width w now).used := by simpa [serve, verdict] using h
  cases w with
  | none => simp [current, Nat.not_le.mpr hlimit] at hfull
  | some v =>
    by_cases hopen : now < v.start + width
    · rw [current_open hopen] at hfull
      refine ⟨v, rfl, hfull, hopen, ?_⟩
      rw [serve, current_open hopen, charge, if_neg (Nat.not_lt.mpr hfull)]
    · rw [current_expired (Nat.not_lt.mp hopen)] at hfull
      simp [current, Nat.not_le.mpr hlimit] at hfull

/-- A used-up window admits a call exactly when it is over. -/
theorem serve_full_allowed {limit width now : ℕ} {v : Window} (hlimit : 0 < limit)
    (hfull : limit ≤ v.used) :
    (serve limit width (some v) now).2.allowed = true ↔ v.start + width ≤ now := by
  by_cases hopen : now < v.start + width
  · simp [serve, verdict, current_open hopen, Nat.not_lt.mpr hfull, Nat.not_le.mpr hopen]
  · have hover := Nat.not_lt.mp hopen
    simp [serve, verdict, current, hover, hlimit]

end MojangApi.Library.FixedWindow
