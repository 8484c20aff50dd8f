import MojangApi.Library.Machine
import Mathlib.Data.List.Induction

/-! # Runs with a history, and runs that come to an end

A property of a state together with the events that led to it is proved once per
event. A measure that the marked events lower and no allowed event raises bounds
how many of them a run can have, and events that lower a measure as long as a goal
is not reached make up a run that reaches it.
-/

namespace MojangApi.Library.Machine
variable {σ ε : Type*} {M : Machine σ ε} {s t u : σ} {es es' : List ε} {e : ε}

theorem runFrom_append :
    M.runFrom s (es ++ es') = (M.runFrom s es).bind fun u => M.runFrom u es' := by
  induction es generalizing s with
  | nil => rfl
  | cons e es ih =>
    rw [List.cons_append, runFrom, runFrom, Option.bind_assoc]
    exact congrArg (M.step s e).bind (funext fun u => ih)

theorem runFrom_singleton : M.runFrom s [e] = M.step s e := by
  cases h : M.step s e <;> simp [runFrom, h]

theorem runFrom_snoc (h : M.runFrom s (es ++ [e]) = some t) :
    ∃ u, M.runFrom s es = some u ∧ M.step u e = some t := by
  rw [runFrom_append] at h
  obtain ⟨u, hu, ht⟩ := Option.bind_eq_some_iff.mp h
  exact ⟨u, hu, runFrom_singleton (M := M) ▸ ht⟩

/-- What can be reached is reached by some run. -/
theorem Reachable.exists_run (h : M.Reachable s) : ∃ es, M.run es = some s := by
  induction h with
  | refl => exact ⟨[], rfl⟩
  | tail _ hstep ih =>
    obtain ⟨es, hes⟩ := ih
    obtain ⟨e, he⟩ := hstep
    refine ⟨es ++ [e], ?_⟩
    rw [run, runFrom_append, show M.runFrom M.init es = some _ from hes]
    exact runFrom_singleton.trans he

theorem runFrom_cons (h : M.step s e = some u) (hu : M.runFrom u es = some t) :
    M.runFrom s (e :: es) = some t := by
  rw [runFrom, h]
  exact hu

/-- What each event preserves of a state and its history, a whole run preserves. -/
theorem runFrom_history {P : List ε → σ → Prop} (hinit : P [] s)
    (hstep : ∀ es u e v, M.runFrom s es = some u → P es u → M.step u e = some v →
      P (es ++ [e]) v) (h : M.runFrom s es = some t) : P es t := by
  induction es using List.reverseRecOn generalizing t with
  | nil =>
    obtain rfl : s = t := by simpa [runFrom] using h
    exact hinit
  | append_singleton es e ih =>
    obtain ⟨u, hu, ht⟩ := runFrom_snoc h
    exact hstep es u e t hu (ih hu) ht

/-- No allowed event raises the measure, and a marked one lowers it. -/
structure Pays (M : Machine σ ε) (I : σ → Prop) (allowed : ε → Prop) (marked : ε → Bool)
    (cost : σ → ℕ) : Prop where
  keeps : ∀ s e t, I s → allowed e → M.step s e = some t → I t
  le : ∀ s e t, I s → allowed e → M.step s e = some t → cost t ≤ cost s
  lt : ∀ s e t, I s → allowed e → marked e = true → M.step s e = some t → cost t < cost s

/-- The marked events of a run are paid for by the measure. -/
theorem Pays.countP_le {I : σ → Prop} {allowed : ε → Prop} {marked : ε → Bool} {cost : σ → ℕ}
    (h : Pays M I allowed marked cost) (hs : I s) (hall : ∀ e ∈ es, allowed e)
    (hrun : M.runFrom s es = some t) : es.countP marked + cost t ≤ cost s := by
  induction es generalizing s with
  | nil =>
    obtain rfl : s = t := by simpa [runFrom] using hrun
    simp
  | cons e es ih =>
    obtain ⟨u, hu, ht⟩ := Option.bind_eq_some_iff.mp hrun
    obtain ⟨he, hes⟩ := List.forall_mem_cons.mp hall
    have hrest := ih (h.keeps s e u hs he hu) hes ht
    have hle := h.le s e u hs he hu
    rw [List.countP_cons]
    by_cases hmarked : marked e = true
    · have hlt := h.lt s e u hs he hmarked hu
      rw [if_pos hmarked]
      omega
    · rw [if_neg hmarked]
      omega

/-- While the goal is not reached, some chosen event lowers the measure. -/
theorem exists_run {I Goal : σ → Prop} {chosen : ε → Prop} {cost : σ → ℕ}
    (hlive : ∀ s, I s → ¬ Goal s → ∃ e t, chosen e ∧ M.step s e = some t ∧ I t ∧ cost t < cost s)
    (hs : I s) : ∃ es t, (∀ e ∈ es, chosen e) ∧ M.runFrom s es = some t ∧ I t ∧ Goal t ∧
      es.length ≤ cost s := by
  induction hn : cost s using Nat.strongRecOn generalizing s with
  | ind n ih =>
    by_cases hgoal : Goal s
    · exact ⟨[], s, by simp, rfl, hs, hgoal, Nat.zero_le _⟩
    · obtain ⟨e, u, he, hu, hIu, hlt⟩ := hlive s hs hgoal
      obtain ⟨es, t, hall, hrun, hIt, ht, hlength⟩ := ih (cost u) (hn ▸ hlt) hIu rfl
      refine ⟨e :: es, t, ?_, runFrom_cons hu hrun, hIt, ht, ?_⟩
      · exact List.forall_mem_cons.mpr ⟨he, hall⟩
      · rw [List.length_cons]
        omega

end MojangApi.Library.Machine
