import PeripheralHids.Connector.RoundTrip
import PeripheralHids.Translator.Calls

open peripheral_hids.ps2_connector

namespace peripheral_hids.ps2_hid_translator

/-- The stream before the codes that some calls leave over is one that they read. -/
theorem parses_of_calls {n : Nat} {s t : Translator} {stream rest : List uint8_t}
    (hcalls : ProcM.calls ps2_hid_translator_parse_next_scancode n s stream = some (t, rest)) :
    ∃ read actions, stream = read ++ rest ∧ Parses read actions := by
  induction n generalizing s stream with
  | zero =>
    simp only [ProcM.calls, Option.some.injEq, Prod.mk.injEq] at hcalls
    obtain ⟨-, rfl⟩ := hcalls
    exact ⟨[], [], rfl, .nil⟩
  | succ n ih =>
    rw [ProcM.calls] at hcalls
    cases hrun : ps2_hid_translator_parse_next_scancode.run s stream with
    | returned u a left =>
      rw [hrun] at hcalls
      obtain ⟨codes, done, rfl, hreads, -⟩ := reads_of_run hrun
      obtain ⟨read, actions, rfl, hparses⟩ := ih hcalls
      exact ⟨codes ++ read, done :: actions, (List.append_assoc _ _ _).symm, .cons hreads hparses⟩
    | blocked u =>
      rw [hrun] at hcalls
      cases hcalls
    | faulted =>
      rw [hrun] at hcalls
      cases hcalls

/-- No call on a stream of codes reads the table of keys out of bounds. -/
def InBounds (s : Translator) (codes : List uint8_t) : Prop :=
  ∀ n t rest, ProcM.calls ps2_hid_translator_parse_next_scancode n s codes = some (t, rest) →
    ps2_hid_translator_parse_next_scancode.run t rest ≠ .faulted

theorem run_eq_faulted_iff (s : Translator) (inp : List uint8_t) :
    ps2_hid_translator_parse_next_scancode.run s inp = .faulted ↔
      [0xFF] <+: inp ∨ [BREAK_CODE, 0xFF] <+: inp := by
  rw [ps2_hid_translator_parse_next_scancode_run, ← scan_eq_fault_iff]
  cases scan inp with
  | wait => exact iff_of_false nofun nofun
  | fault => exact iff_of_true rfl rfl
  | act done rest => exact iff_of_false nofun nofun

/-- Every access is in bounds exactly when no `FF` comes first in what a call
reads, nor directly after an `F0` that comes first. Inside the longer sequences
it is never looked up. -/
theorem in_bounds_iff (s : Translator) (codes : List uint8_t) :
    InBounds s codes ↔ ∀ read actions, Parses read actions →
      ¬ read ++ [0xFF] <+: codes ∧ ¬ read ++ [BREAK_CODE, 0xFF] <+: codes := by
  constructor
  · intro hbounds read actions hparses
    have hsafe (next : List uint8_t) (hnext : next = [0xFF] ∨ next = [BREAK_CODE, 0xFF]) :
        ¬ read ++ next <+: codes := by
      rintro ⟨later, rfl⟩
      have hcalls := hparses.calls s (next ++ later)
      rw [← List.append_assoc] at hcalls
      apply hbounds _ _ _ hcalls
      rw [run_eq_faulted_iff]
      obtain rfl | rfl := hnext
      · exact Or.inl (List.prefix_append _ _)
      · exact Or.inr (List.prefix_append _ _)
    exact ⟨hsafe _ (Or.inl rfl), hsafe _ (Or.inr rfl)⟩
  · intro hcodes n t rest hcalls hfault
    obtain ⟨read, actions, rfl, hparses⟩ := parses_of_calls hcalls
    obtain ⟨hfirst, hbroken⟩ := hcodes read actions hparses
    rw [run_eq_faulted_iff] at hfault
    obtain hstarts | hstarts := hfault
    · exact hfirst ((List.prefix_append_right_inj read).mpr hstarts)
    · exact hbroken ((List.prefix_append_right_inj read).mpr hstarts)

/-- One valid frame with the byte `FF` on the line, and a reader. -/
theorem ff_frame_out_of_bounds :
    ¬ InBounds (.initial 0) (returned ps2_connector_init (.get :: (frame 0xFF).map .edge)) := by
  intro hbounds
  have hcodes : returned ps2_connector_init (.get :: (frame 0xFF).map .edge) = [0xFF] := by decide
  rw [hcodes] at hbounds
  exact hbounds 0 (.initial 0) [0xFF] rfl rfl

end peripheral_hids.ps2_hid_translator
