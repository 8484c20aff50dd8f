import Mathlib.Logic.Relation

/-! # Event-driven machines

A machine has one initial state and a partial step function on events; an event
that is not enabled in a state yields no successor. Runs are executable, the
reachable states are the reflexive transitive closure of the steps, and an
invariant is proved once per event. A simulation carries reachability from a
composed machine to one of its components.
-/

namespace MojangApi.Library

structure Machine (σ ε : Type*) where
  init : σ
  step : σ → ε → Option σ

namespace Machine
variable {σ ε τ δ : Type*}

/-- Execute a list of events, failing at the first one that is not enabled. -/
def runFrom (M : Machine σ ε) : σ → List ε → Option σ
  | s, [] => some s
  | s, e :: es => (M.step s e).bind fun t => M.runFrom t es

def run (M : Machine σ ε) (es : List ε) : Option σ := M.runFrom M.init es

def Step (M : Machine σ ε) (s t : σ) : Prop := ∃ e, M.step s e = some t

/-- Some run leads from the first state to the second. -/
def Leads (M : Machine σ ε) : σ → σ → Prop := Relation.ReflTransGen M.Step

def Reachable (M : Machine σ ε) (s : σ) : Prop := M.Leads M.init s

/-- The same machine, confined to the steps that meet a condition. -/
def restrict (M : Machine σ ε) (ok : σ → ε → Bool) : Machine σ ε where
  init := M.init
  step s e := if ok s e then M.step s e else none

variable {M : Machine σ ε} {N : Machine τ δ}

theorem Reachable.init : M.Reachable M.init := Relation.ReflTransGen.refl

theorem Reachable.next {s t : σ} {e : ε} (hs : M.Reachable s) (he : M.step s e = some t) :
    M.Reachable t := Relation.ReflTransGen.tail hs ⟨e, he⟩

theorem Reachable.leads {s t : σ} (hs : M.Reachable s) (hst : M.Leads s t) : M.Reachable t :=
  Relation.ReflTransGen.trans hs hst

theorem leads_of_runFrom {s t : σ} {es : List ε} (h : M.runFrom s es = some t) : M.Leads s t := by
  induction es generalizing s with
  | nil =>
    obtain rfl : s = t := by simpa [runFrom] using h
    exact Relation.ReflTransGen.refl
  | cons e es ih =>
    obtain ⟨u, hu, ht⟩ := Option.bind_eq_some_iff.mp h
    exact Relation.ReflTransGen.head ⟨e, hu⟩ (ih ht)

theorem reachable_of_run {s : σ} {es : List ε} (h : M.run es = some s) : M.Reachable s :=
  leads_of_runFrom h

/-- What one step preserves along a run from any state, a whole run preserves. -/
theorem Leads.invariant {I : σ → Prop} {s t : σ} (h : M.Leads s t) (hs : I s)
    (hstep : ∀ u e v, I u → M.step u e = some v → I v) : I t := by
  induction h with
  | refl => exact hs
  | tail _ hst ih =>
    obtain ⟨e, he⟩ := hst
    exact hstep _ e _ ih he

/-- An inductive invariant holds in every reachable state. -/
theorem Reachable.invariant {I : σ → Prop} {s : σ} (h : M.Reachable s) (hinit : I M.init)
    (hstep : ∀ u e v, M.Reachable u → I u → M.step u e = some v → I v) : I s := by
  have both : M.Reachable s ∧ I s := by
    refine Leads.invariant (I := fun u => M.Reachable u ∧ I u) h ⟨.init, hinit⟩ ?_
    rintro u e v ⟨hr, hu⟩ he
    exact ⟨hr.next he, hstep u e v hr hu he⟩
  exact both.2

theorem restrict_step {ok : σ → ε → Bool} {s t : σ} {e : ε}
    (h : (M.restrict ok).step s e = some t) : ok s e = true ∧ M.step s e = some t := by
  by_cases hok : ok s e = true
  · exact ⟨hok, by simpa [restrict, hok] using h⟩
  · simp [restrict, hok] at h

theorem step_restrict {ok : σ → ε → Bool} {s t : σ} {e : ε} (hok : ok s e = true)
    (h : M.step s e = some t) : (M.restrict ok).step s e = some t := by
  simp [restrict, hok, h]

/-- Every step of the first machine is matched, through `f`, by steps of the second,
possibly by none. -/
structure Simulation (M : Machine σ ε) (N : Machine τ δ) (f : σ → τ) : Prop where
  init : f M.init = N.init
  step : ∀ s e t, M.step s e = some t → N.Leads (f s) (f t)

theorem leads_refl (s : σ) : M.Leads s s := Relation.ReflTransGen.refl

theorem leads_step {s t : σ} {e : ε} (h : M.step s e = some t) : M.Leads s t :=
  Relation.ReflTransGen.single ⟨e, h⟩

theorem Leads.trans {s t u : σ} (hst : M.Leads s t) (htu : M.Leads t u) : M.Leads s u :=
  Relation.ReflTransGen.trans hst htu

theorem Simulation.leads {f : σ → τ} (sim : Simulation M N f) {s t : σ} (h : M.Leads s t) :
    N.Leads (f s) (f t) :=
  h.invariant (I := fun u => N.Leads (f s) (f u)) (leads_refl _) fun u e v hu he =>
    hu.trans (sim.step u e v he)

theorem Simulation.reachable {f : σ → τ} (sim : Simulation M N f) {s : σ} (h : M.Reachable s) :
    N.Reachable (f s) := by
  have hleads := sim.leads h
  rwa [sim.init] at hleads

end Machine
end MojangApi.Library
