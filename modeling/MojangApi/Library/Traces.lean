import MojangApi.Library.Progress

/-! # What a run of a machine is for one of its components

Here a simulation says which events of the component every event of the machine is
made of. So the run of the component can be told, and what is known of a component's
run and its end holds of the machine's.
-/

namespace MojangApi.Library.Machine
variable {σ ε τ δ : Type*}

/-- Every step of the first machine is, through `f`, the given run of the second. -/
structure Emits (M : Machine σ ε) (N : Machine τ δ) (f : σ → τ) (emit : σ → ε → List δ) :
    Prop where
  init : f M.init = N.init
  step : ∀ s e t, M.step s e = some t → N.runFrom (f s) (emit s e) = some (f t)

/-- The events of the component along a run, up to the first event that is not enabled. -/
def traceFrom (M : Machine σ ε) (emit : σ → ε → List δ) : σ → List ε → List δ
  | _, [] => []
  | s, e :: es => emit s e ++ (M.step s e).elim [] fun t => M.traceFrom emit t es

def trace (M : Machine σ ε) (emit : σ → ε → List δ) (es : List ε) : List δ :=
  M.traceFrom emit M.init es

variable {M : Machine σ ε} {N : Machine τ δ} {f : σ → τ} {emit : σ → ε → List δ} {s t u : σ}
  {es : List ε} {e : ε}

theorem traceFrom_snoc (hu : M.runFrom s es = some u) (ht : M.step u e = some t) :
    M.traceFrom emit s (es ++ [e]) = M.traceFrom emit s es ++ emit u e := by
  induction es generalizing s with
  | nil =>
    obtain rfl : s = u := by simpa [runFrom] using hu
    simp [traceFrom, ht]
  | cons e' es ih =>
    obtain ⟨v, hv, hu⟩ := Option.bind_eq_some_iff.mp hu
    rw [List.cons_append, traceFrom, traceFrom, hv, Option.elim_some, Option.elim_some, ih hu,
      List.append_assoc]

theorem trace_snoc (hu : M.run es = some u) (ht : M.step u e = some t) :
    M.trace emit (es ++ [e]) = M.trace emit es ++ emit u e := traceFrom_snoc hu ht

theorem Emits.runFrom (h : Emits M N f emit) (ht : M.runFrom s es = some t) :
    N.runFrom (f s) (M.traceFrom emit s es) = some (f t) := by
  induction es generalizing s with
  | nil =>
    obtain rfl : s = t := by simpa [Machine.runFrom] using ht
    rfl
  | cons e es ih =>
    obtain ⟨u, hu, ht⟩ := Option.bind_eq_some_iff.mp ht
    rw [traceFrom, runFrom_append, h.step s e u hu, hu]
    exact ih ht

theorem Emits.run (h : Emits M N f emit) (ht : M.run es = some t) :
    N.run (M.trace emit es) = some (f t) := by
  have hrun := h.runFrom ht
  rwa [h.init] at hrun

end MojangApi.Library.Machine
