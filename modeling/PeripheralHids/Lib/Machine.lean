import Mathlib.Data.List.Basic
import Mathlib.Data.List.Induction

namespace Machine

/-- The state of a machine after a sequence of inputs. -/
def final {σ ι ο : Type} (step : σ → ι → ο × σ) : σ → List ι → σ
  | s, [] => s
  | s, i :: is => final step (step s i).2 is

/-- What a machine puts out, one output for each input. -/
def outputs {σ ι ο : Type} (step : σ → ι → ο × σ) : σ → List ι → List ο
  | _, [] => []
  | s, i :: is => (step s i).1 :: outputs step (step s i).2 is

theorem final_append {σ ι ο : Type} (step : σ → ι → ο × σ) (s : σ) (is js : List ι) :
    final step s (is ++ js) = final step (final step s is) js := by
  induction is generalizing s with
  | nil => rfl
  | cons i is ih => exact ih _

theorem outputs_append {σ ι ο : Type} (step : σ → ι → ο × σ) (s : σ) (is js : List ι) :
    outputs step s (is ++ js) = outputs step s is ++ outputs step (final step s is) js := by
  induction is generalizing s with
  | nil => rfl
  | cons i is ih => simp only [List.cons_append, outputs, final, ih]

/-- What every step preserves holds after every run. -/
theorem final_invariant {σ ι ο : Type} {step : σ → ι → ο × σ} {P : σ → Prop}
    (hstep : ∀ s i, P s → P (step s i).2) {s : σ} (hs : P s) (is : List ι) :
    P (final step s is) := by
  induction is generalizing s with
  | nil => exact hs
  | cons i is ih => exact ih (hstep s i hs)

/-- What every step preserves of a machine and its history holds after every run. -/
theorem run_invariant {σ ι ο : Type} {step : σ → ι → ο × σ} {P : List ι → List ο → σ → Prop} {start : σ}
    (hstart : P [] [] start)
    (hstep : ∀ is os s i, P is os s → P (is ++ [i]) (os ++ [(step s i).1]) (step s i).2) (is : List ι) :
    P is (outputs step start is) (final step start is) := by
  induction is using List.reverseRecOn with
  | nil => exact hstart
  | append_singleton is i ih =>
    rw [outputs_append, final_append]
    exact hstep is _ _ i ih

/-- Two machines whose steps agree through a relation on their states, one
showing its outputs through `view`, agree over every run. -/
theorem run_simulates {σ τ ι ο ρ : Type} {step : σ → ι → ο × σ} {spec : τ → ι → ρ × τ}
    {R : σ → τ → Prop} {view : ο → ρ}
    (hstep : ∀ s t i, R s t → view (step s i).1 = (spec t i).1 ∧ R (step s i).2 (spec t i).2)
    {s : σ} {t : τ} (hst : R s t) (is : List ι) :
    (outputs step s is).map view = outputs spec t is ∧ R (final step s is) (final spec t is) := by
  induction is generalizing s t with
  | nil => exact ⟨rfl, hst⟩
  | cons i is ih =>
    obtain ⟨hview, hnext⟩ := hstep s t i hst
    obtain ⟨houts, hfinal⟩ := ih hnext
    refine ⟨?_, hfinal⟩
    simp only [outputs, List.map_cons, hview, houts]

end Machine
