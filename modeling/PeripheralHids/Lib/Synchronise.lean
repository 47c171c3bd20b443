import Mathlib.Data.List.Basic
import PeripheralHids.Lib.Solo

theorem Proc.suffix_of_run {ι σ α : Type} {p : Proc ι σ α} {inp rest : List ι} {t : σ} {a : α}
    (hrun : p.run inp = .returned t a rest) : rest <:+ inp := by
  induction p generalizing inp with
  | ret s b =>
    cases hrun
    exact List.suffix_refl _
  | fault => cases hrun
  | sleep s k ih => exact ih s hrun
  | read s k ih =>
    cases inp with
    | nil => cases hrun
    | cons i inp => exact (ih i s hrun).trans (List.suffix_cons i inp)

namespace ProcM

section

variable {ι σ υ : Type} {W : List ι → Prop} {encode : υ → List ι}

/-- Let `W` be the inputs on which a procedure waits for more. If no end of a unit is
one of them, what is left over of a stream of units is nothing, or it began before
the first unit and holds them all. -/
theorem eq_nil_or_of_waiting_suffix (hclosed : ∀ w p, W w → p <+: w → W p) {units : List υ}
    (hunit : ∀ u ∈ units, ∀ p, W p → p <:+ encode u → p = []) {lost w : List ι} (hw : W w)
    (hsuffix : w <:+ lost ++ units.flatMap encode) :
    w = [] ∨ ∃ t, t ≠ [] ∧ w = t ++ units.flatMap encode := by
  induction units using List.reverseRecOn generalizing w with
  | nil =>
    by_cases hnil : w = []
    · exact Or.inl hnil
    · exact Or.inr ⟨w, hnil, (List.append_nil w).symm⟩
  | append_singleton units u ih =>
    have hlast := hunit u (List.mem_append_right units List.mem_cons_self)
    rw [List.flatMap_append, List.flatMap_singleton, ← List.append_assoc] at hsuffix
    obtain hend | ⟨t, rfl⟩ := List.suffix_or_suffix_of_suffix hsuffix (List.suffix_append _ (encode u))
    · exact Or.inl (hlast w hw hend)
    · have ht : W t := hclosed _ t hw (List.prefix_append t (encode u))
      have hbefore : t <:+ lost ++ units.flatMap encode := by
        obtain ⟨before, hbefore⟩ := hsuffix
        rw [← List.append_assoc] at hbefore
        exact ⟨before, List.append_cancel_right hbefore⟩
      obtain rfl | ⟨first, hfirst, rfl⟩ :=
        ih (fun v hv => hunit v (List.mem_append_left [u] hv)) ht hbefore
      · exact Or.inl (hlast _ hw (List.suffix_refl (encode u)))
      · exact Or.inr ⟨first, hfirst, by rw [List.flatMap_append, List.flatMap_singleton, List.append_assoc]⟩

/-- A procedure that reads a stream to its end, and that cannot still be waiting for
what began before the units, is between two calls after them. -/
theorem exists_calls_synchronised {m : ProcM ι σ Unit} (hwait : ∀ s inp, m.run s inp = .blocked s → W inp)
    (hclosed : ∀ w p, W w → p <+: w → W p) {units : List υ}
    (hunit : ∀ u ∈ units, ∀ p, W p → p <:+ encode u → p = []) {lost : List ι}
    (hroom : ∀ t, t ≠ [] → ¬ W (t ++ units.flatMap encode)) {s : σ}
    (hblocked : ∃ n t rest, m.calls n s (lost ++ units.flatMap encode) = some (t, rest) ∧
      m.run t rest = .blocked t) :
    ∃ n t, m.calls n s (lost ++ units.flatMap encode) = some (t, []) := by
  obtain ⟨n, t, rest, hcalls, hrun⟩ := hblocked
  have hsuffix : rest <:+ lost ++ units.flatMap encode := by
    refine calls_invariant (P := fun _ inp => inp <:+ lost ++ units.flatMap encode) ?_ (List.suffix_refl _) hcalls
    intro s inp u left hinp hleft
    exact (Proc.suffix_of_run hleft).trans hinp
  have hw := hwait t rest hrun
  obtain rfl | ⟨first, hfirst, rfl⟩ := eq_nil_or_of_waiting_suffix hclosed hunit hw hsuffix
  · exact ⟨n, t, hcalls⟩
  · exact absurd hw (hroom first hfirst)

end

end ProcM
