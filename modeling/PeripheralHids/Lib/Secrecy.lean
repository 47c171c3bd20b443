import Mathlib.Data.List.Basic

namespace Secrecy

/-- An observation after a run tells nothing about the inputs of the run beyond
what is visible of each of them: all runs that look like `trace` end in the same
observation. -/
def RevealsNothing {σ ι κ ω : Type} (step : σ → ι → σ) (visible : ι → κ) (observe : σ → ω) (s : σ)
    (trace : List κ) : Prop :=
  ∀ is js : List ι, is.map visible = trace → js.map visible = trace →
    observe (is.foldl step s) = observe (js.foldl step s)

/-- Steps on inputs that look alike keep two runs related. -/
theorem foldl_related {σ ι κ : Type} {step : σ → ι → σ} {visible : ι → κ} {R : σ → σ → Prop} {trace : List κ}
    (hstep : ∀ s t i j, visible i ∈ trace → visible i = visible j → R s t → R (step s i) (step t j))
    {s t : σ} (hst : R s t) {is js : List ι} (his : is.map visible = trace) (hjs : js.map visible = trace) :
    R (is.foldl step s) (js.foldl step t) := by
  induction trace generalizing s t is js with
  | nil =>
    rw [List.map_eq_nil_iff.mp his, List.map_eq_nil_iff.mp hjs]
    exact hst
  | cons k trace ih =>
    obtain ⟨i, is, rfl, hi, his⟩ := List.map_eq_cons_iff.mp his
    obtain ⟨j, js, rfl, hj, hjs⟩ := List.map_eq_cons_iff.mp hjs
    have hnext : R (step s i) (step t j) :=
      hstep s t i j (hi ▸ List.mem_cons_self) (hi.trans hj.symm) hst
    exact ih (fun s t i j hmem => hstep s t i j (List.mem_cons_of_mem k hmem)) hnext his hjs

/-- The unwinding rule: nothing is revealed if steps on inputs that look alike
keep a relation under which observations are equal. -/
theorem revealsNothing_of_unwinding {σ ι κ ω : Type} {step : σ → ι → σ} {visible : ι → κ} {observe : σ → ω}
    {s : σ} {trace : List κ} (R : σ → σ → Prop) (hs : R s s)
    (hstep : ∀ s t i j, visible i ∈ trace → visible i = visible j → R s t → R (step s i) (step t j))
    (hobserve : ∀ s t, R s t → observe s = observe t) : RevealsNothing step visible observe s trace := by
  intro is js his hjs
  exact hobserve _ _ (foldl_related hstep hs his hjs)

/-- What is the same in every state reveals nothing. -/
theorem revealsNothing_of_const {σ ι κ ω : Type} {step : σ → ι → σ} {visible : ι → κ} {observe : σ → ω}
    (hobserve : ∀ s t, observe s = observe t) (s : σ) (trace : List κ) :
    RevealsNothing step visible observe s trace :=
  fun _ _ _ _ => hobserve _ _

/-- Two ways to fill in the secrets of a trace are not told apart. -/
theorem RevealsNothing.fill {σ ι κ ω : Type} {step : σ → ι → σ} {visible : ι → κ} {observe : σ → ω}
    {s : σ} {trace : List κ} (h : RevealsNothing step visible observe s trace) {f g : κ → ι}
    (hf : ∀ k, visible (f k) = k) (hg : ∀ k, visible (g k) = k) :
    observe ((trace.map f).foldl step s) = observe ((trace.map g).foldl step s) := by
  have hfill {f : κ → ι} (hf : ∀ k, visible (f k) = k) : (trace.map f).map visible = trace := by
    rw [List.map_map, show visible ∘ f = id from funext hf, List.map_id]
  exact h _ _ (hfill hf) (hfill hg)

end Secrecy
