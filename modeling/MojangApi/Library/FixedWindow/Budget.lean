import MojangApi.Library.FixedWindow
import Mathlib.Data.List.Induction

/-! # How much a fixed window lets through

Inside one window the budget only shrinks, and the call that opens a window is
charged to it. So an interval as long as a window, wherever it starts, meets at
most one window that opened before it and one that opens in it.
-/

namespace MojangApi.Library.FixedWindow

variable {limit width now : ℕ} {w : Option Window} {v : Window} {calls : List ℕ} {p : ℕ → Bool}

/-- The window left by calls that start from a given window. -/
def runFrom (limit width : ℕ) (w : Option Window) (calls : List ℕ) : Option Window :=
  calls.foldl (fun w now => some (serve limit width w now).1) w

/-- How many of the calls at times that satisfy a predicate are allowed. -/
def admitted (limit width : ℕ) (p : ℕ → Bool) : Option Window → List ℕ → ℕ
  | _, [] => 0
  | w, now :: calls => (if p now && (serve limit width w now).2.allowed then 1 else 0) +
      admitted limit width p (some (serve limit width w now).1) calls

theorem run_append (calls calls' : List ℕ) :
    run limit width (calls ++ calls') = runFrom limit width (run limit width calls) calls' := by
  simp [run, runFrom]

theorem charge_used_pos (hlimit : 0 < limit) : 0 < (charge limit v).used := by
  unfold charge
  split
  · exact Nat.succ_pos _
  · omega

theorem charge_used_le (h : v.used ≤ limit) : (charge limit v).used ≤ limit := by
  unfold charge
  split
  · assumption
  · exact h

theorem current_used_le (h : ∀ v, w = some v → v.used ≤ limit) :
    (current width w now).used ≤ limit := by
  unfold current
  split
  · rename_i v
    split
    · exact Nat.zero_le _
    · exact h v rfl
  · exact Nat.zero_le _

/-- The window of a call is open at the time of the call. -/
theorem lt_current (hwidth : 0 < width) : now < (current width w now).start + width := by
  unfold current
  split
  · split
    · exact Nat.lt_add_of_pos_right hwidth
    · omega
  · exact Nat.lt_add_of_pos_right hwidth

/-- A window that was served has been charged, and never beyond its limit. -/
theorem run_used (hlimit : 0 < limit) (h : run limit width calls = some v) :
    0 < v.used ∧ v.used ≤ limit := by
  induction calls using List.reverseRecOn generalizing v with
  | nil => cases h
  | append_singleton calls now ih =>
    rw [run_snoc] at h
    obtain rfl := Option.some.inj h
    exact ⟨charge_used_pos hlimit, charge_used_le (current_used_le fun v hv => (ih hv).2)⟩

/-- The window left by calls is open at the times of all of them. -/
theorem run_times_lt (hwidth : 0 < width) (hsorted : calls.Pairwise (· ≤ ·))
    (h : run limit width calls = some v) : ∀ now ∈ calls, now < v.start + width := by
  induction calls using List.reverseRecOn generalizing v with
  | nil => cases h
  | append_singleton calls last _ =>
    rw [run_snoc] at h
    obtain rfl := Option.some.inj h
    have hlast : last < (serve limit width (run limit width calls) last).1.start + width := by
      rw [serve, charge_start]
      exact lt_current hwidth
    rw [List.pairwise_append] at hsorted
    intro now hmem
    rcases List.mem_append.mp hmem with hmem | hmem
    · exact Nat.lt_of_le_of_lt (hsorted.2.2 now hmem last (List.mem_singleton.mpr rfl)) hlast
    · obtain rfl := List.mem_singleton.mp hmem
      exact hlast

theorem run_eq_none_iff : run limit width calls = none ↔ calls = [] := by
  constructor
  · intro h
    induction calls using List.reverseRecOn with
    | nil => rfl
    | append_singleton calls now _ =>
      rw [run_snoc] at h
      cases h
  · rintro rfl
    rfl

/-- A call that finds no window open comes strictly after all the earlier ones. -/
theorem times_lt_opening (hlimit : 0 < limit) (hwidth : 0 < width)
    (hsorted : calls.Pairwise (· ≤ ·))
    (hopens : current width (run limit width calls) now = ⟨now, 0⟩) :
    ∀ earlier ∈ calls, earlier < now := by
  cases hrun : run limit width calls with
  | none =>
    obtain rfl := run_eq_none_iff.mp hrun
    intro earlier hmem
    cases hmem
  | some v =>
    have hover : v.start + width ≤ now := by
      by_contra hopen
      rw [hrun, current_open (Nat.not_le.mp hopen)] at hopens
      have hpos := (run_used hlimit hrun).1
      simp [hopens] at hpos
    intro earlier hmem
    exact Nat.lt_of_lt_of_le (run_times_lt hwidth hsorted hrun earlier hmem) hover

section Within

/-- A call inside the window is charged to it. -/
theorem serve_open (h : now < v.start + width) :
    serve limit width (some v) now = (charge limit v, verdict limit width v now) := by
  rw [serve, current_open h]

/-- Calls inside the window use up what is left of it. -/
theorem runFrom_within (hused : v.used ≤ limit) (h : ∀ now ∈ calls, now < v.start + width) :
    runFrom limit width (some v) calls =
      some ⟨v.start, min limit (v.used + calls.length)⟩ := by
  induction calls generalizing v with
  | nil => simp [runFrom, hused]
  | cons now calls ih =>
    have hnow := h now List.mem_cons_self
    have hrest : ∀ later ∈ calls, later < (charge limit v).start + width := by
      intro later hmem
      rw [charge_start]
      exact h later (List.mem_cons_of_mem _ hmem)
    have hstep : runFrom limit width (some v) (now :: calls) =
        runFrom limit width (some (charge limit v)) calls := by
      simp [runFrom, serve_open hnow]
    rw [hstep, ih (charge_used_le hused) hrest, charge_start]
    have hcount : min limit ((charge limit v).used + calls.length) =
        min limit (v.used + (now :: calls).length) := by
      unfold charge
      rw [List.length_cons]
      split
      · dsimp only
        omega
      · omega
    rw [hcount]

/-- A call inside the window is allowed exactly when not all of the budget was spent before. -/
theorem serve_within (hused : v.used ≤ limit) (h : ∀ earlier ∈ calls, earlier < v.start + width)
    (hnow : now < v.start + width) :
    (serve limit width (runFrom limit width (some v) calls) now).2.allowed =
        decide (calls.length < limit - v.used) ∧
      (serve limit width (runFrom limit width (some v) calls) now).2.resetAfter =
        v.start + width - now := by
  have hopen : now < (⟨v.start, min limit (v.used + calls.length)⟩ : Window).start + width := hnow
  rw [runFrom_within hused h, serve_open hopen]
  refine ⟨?_, rfl⟩
  simp only [verdict, decide_eq_decide]
  omega

/-- The first call after the window opens the next one. -/
theorem serve_after (hlimit : 0 < limit) (hused : v.used ≤ limit)
    (h : ∀ earlier ∈ calls, earlier < v.start + width) (hnow : v.start + width ≤ now) :
    (serve limit width (runFrom limit width (some v) calls) now).2 = ⟨true, limit - 1, width⟩ := by
  have hover : (⟨v.start, min limit (v.used + calls.length)⟩ : Window).start + width ≤ now := hnow
  rw [runFrom_within hused h, serve, current_expired hover]
  simp [current, verdict, charge, hlimit]

end Within

section Burst

theorem admitted_eq_zero (h : ∀ now ∈ calls, p now = false) :
    admitted limit width p w calls = 0 := by
  induction calls generalizing w with
  | nil => rfl
  | cons now calls ih =>
    rw [admitted, h now List.mem_cons_self, ih fun later hmem => h later (List.mem_cons_of_mem _ hmem)]
    rfl

/-- A call that is allowed takes one from what is left. -/
theorem cost_add_left (limit : ℕ) (v : Window) (b : Bool) :
    (if b && decide (v.used < limit) then 1 else 0) + (limit - (charge limit v).used) ≤
      limit - v.used := by
  unfold charge
  by_cases hroom : v.used < limit
  · rw [if_pos hroom]
    split <;> dsimp only <;> omega
  · rw [if_neg hroom]
    simp [hroom]

theorem admitted_open (h : now < v.start + width) : admitted limit width p (some v) (now :: calls) =
    (if p now && decide (v.used < limit) then 1 else 0) +
      admitted limit width p (some (charge limit v)) calls := by
  rw [admitted, serve_open h]
  rfl

/-- From a window on, nothing is allowed beyond its budget before it is over. -/
theorem admitted_le_left (hused : v.used ≤ limit) (hp : ∀ now, p now = true → now < v.start + width)
    (hsorted : calls.Pairwise (· ≤ ·)) :
    admitted limit width p (some v) calls ≤ limit - v.used := by
  induction calls generalizing v with
  | nil => exact Nat.zero_le _
  | cons now calls ih =>
    rw [List.pairwise_cons] at hsorted
    by_cases hopen : now < v.start + width
    · have hrest := ih (v := charge limit v) (charge_used_le hused) (by rwa [charge_start]) hsorted.2
      have hcost := cost_add_left limit v (p now)
      rw [admitted_open hopen]
      omega
    · have hzero : ∀ later ∈ now :: calls, p later = false := by
        intro later hmem
        have hle : now ≤ later := by
          rcases List.mem_cons.mp hmem with rfl | hmem
          · exact Nat.le_refl _
          · exact hsorted.1 later hmem
        by_contra htrue
        have hlt := hp later (by simpa using htrue)
        omega
      rw [admitted_eq_zero hzero]
      exact Nat.zero_le _

/-- A call that opens a window has the whole budget, of which it takes one itself. -/
theorem admitted_le_opening (hlimit : 0 < limit) (hopens : current width w now = ⟨now, 0⟩)
    (hp : ∀ later, p later = true → later < now + width) (hsorted : calls.Pairwise (· ≤ ·)) :
    admitted limit width p w (now :: calls) ≤ limit := by
  have hserve : (serve limit width w now).1 = ⟨now, 1⟩ := by
    simp [serve, hopens, charge, hlimit]
  have hrest : admitted limit width p (some ⟨now, 1⟩) calls ≤ limit - 1 :=
    admitted_le_left hlimit hp hsorted
  rw [admitted, hserve]
  split <;> omega

/-- An interval that begins inside a window meets the rest of it and at most one more. -/
theorem admitted_le_rest (hlimit : 0 < limit) (hused : v.used ≤ limit) {start : ℕ}
    (hp : ∀ now, p now = true → now < start + width) (hstart : ∀ now ∈ calls, start ≤ now)
    (hsorted : calls.Pairwise (· ≤ ·)) :
    admitted limit width p (some v) calls ≤ limit - v.used + limit := by
  induction calls generalizing v with
  | nil => exact Nat.zero_le _
  | cons now calls ih =>
    rw [List.pairwise_cons] at hsorted
    have hnow := hstart now List.mem_cons_self
    by_cases hopen : now < v.start + width
    · have hrest := ih (v := charge limit v) (charge_used_le hused)
        (fun later hmem => hstart later (List.mem_cons_of_mem _ hmem)) hsorted.2
      have hcost := cost_add_left limit v (p now)
      rw [admitted_open hopen]
      omega
    · have hopening : current width (some v) now = ⟨now, 0⟩ :=
        current_expired (Nat.not_lt.mp hopen)
      have hbound : admitted limit width p (some v) (now :: calls) ≤ limit := by
        refine admitted_le_opening hlimit hopening (fun later hlater => ?_) hsorted.2
        have := hp later hlater
        omega
      omega

/-- Any interval of a window's length: the call that opened the earlier window lies outside. -/
theorem admitted_le_burst (hlimit : 0 < limit) {start : ℕ}
    (hp : ∀ now, p now = true ↔ start ≤ now ∧ now < start + width)
    (hw : ∀ v, w = some v → 0 < v.used ∧ v.used ≤ limit) (hsorted : calls.Pairwise (· ≤ ·)) :
    admitted limit width p w calls ≤ 2 * limit - 1 := by
  induction calls generalizing w with
  | nil => exact Nat.zero_le _
  | cons now calls ih =>
    by_cases hnow : now < start
    · have hskip : p now = false := by
        by_contra htrue
        have := (hp now).mp (by simpa using htrue)
        omega
      have hused : ∀ v, w = some v → v.used ≤ limit := fun v hv => (hw v hv).2
      have hserved : ∀ v, some (serve limit width w now).1 = some v → 0 < v.used ∧ v.used ≤ limit := by
        intro v hv
        obtain rfl := Option.some.inj hv
        exact ⟨charge_used_pos hlimit, charge_used_le (current_used_le hused)⟩
      have hrest := ih hserved (List.pairwise_cons.mp hsorted).2
      rw [admitted, hskip]
      simpa using hrest
    · have hlater : ∀ later ∈ now :: calls, start ≤ later := by
        intro later hmem
        rcases List.mem_cons.mp hmem with rfl | hmem
        · exact Nat.not_lt.mp hnow
        · exact Nat.le_trans (Nat.not_lt.mp hnow) ((List.pairwise_cons.mp hsorted).1 later hmem)
      cases w with
      | some v =>
        have hrest := admitted_le_rest hlimit (hw v rfl).2 (fun now h => ((hp now).mp h).2) hlater hsorted
        have hpos := (hw v rfl).1
        omega
      | none =>
        have hopening : current width none now = ⟨now, 0⟩ := rfl
        have hbound : admitted limit width p none (now :: calls) ≤ limit := by
          refine admitted_le_opening hlimit hopening (fun later h => ?_) (List.pairwise_cons.mp hsorted).2
          have := ((hp later).mp h).2
          omega
        omega

end Burst

end MojangApi.Library.FixedWindow
