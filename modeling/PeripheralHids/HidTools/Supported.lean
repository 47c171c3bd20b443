import PeripheralHids.HidTools.Print
import PeripheralHids.Hog.ReportMap

open peripheral_hids.hog

namespace peripheral_hids.bt_hid_tools

theorem ascii_to_hid_eq_neg_one_iff (ascii : uint8_t) : ascii_to_hid ascii = -1 ↔ ¬ (32 ≤ ascii ∧ ascii ≤ 127) := by
  revert ascii
  decide +kernel

/-- A supported character is stored as a declared usage. For the others the `-1`
becomes `0xFF`, which is not one. -/
theorem declared_stored_key_iff (ascii : uint8_t) : Declared (stored_key ascii) ↔ 32 ≤ ascii ∧ ascii ≤ 127 := by
  rw [declared_iff]
  revert ascii
  decide +kernel

/-- The keycodes that `keyboard_print` hands over: zero, and the one stored for
each character. -/
theorem forall_keycode_print_reports {P : uint8_t → Prop} (hzero : P 0) (str : List uint8_t) :
    (∀ report ∈ print_reports str, ∀ key ∈ report.keycode, P key) ↔ ∀ ascii ∈ str, P (stored_key ascii) := by
  have hsingle (key : uint8_t) : (∀ slot ∈ (single_key key).keycode, P slot) ↔ P key := by
    have hslots : (single_key key).keycode.toList = [0, 0, 0, 0, 0, key] := rfl
    simp only [← Vector.mem_toList_iff, hslots, List.forall_mem_cons, List.not_mem_nil, hzero]
    simp
  simp only [print_reports, List.forall_mem_append, List.forall_mem_flatMap, List.forall_mem_cons, hsingle, hzero]
  simp

/-- What a string should do: every keycode handed over is declared, and the keys
that go down are those of the supported characters, in order. -/
def PressesSupported (str : List uint8_t) (previous : hids_report_keyboard) (reports : List hids_report_keyboard) :
    Prop :=
  (∀ report ∈ reports, ∀ key ∈ report.keycode, Declared key) ∧
    (Pulses.rises usages previous reports).map Prod.fst =
      (str.filter fun ascii => ascii_to_hid ascii ≠ -1).map stored_key

/-- `keyboard_print` presses the keys of the supported characters and no others
exactly when all characters are supported ones. -/
theorem keyboard_print_supported_iff {ι : Type} (str beyond : List uint8_t) (hstr : 0 ∉ str) (h : Hog) (inp : List ι)
    (previous : hids_report_keyboard) :
    ∃ t reports, (keyboard_print (str ++ 0 :: beyond)).run h inp = .returned t () inp ∧
      t.handed = h.handed ++ reports ∧
      (PressesSupported str previous reports ↔ ∀ ascii ∈ str, 32 ≤ ascii ∧ ascii ≤ 127) := by
  refine ⟨_, print_reports str, run_keyboard_print str beyond hstr h inp,
    foldl_hog_set_keyboard_input_handed h _, ?_⟩
  have hdeclared : (∀ report ∈ print_reports str, ∀ key ∈ report.keycode, Declared key) ↔
      ∀ ascii ∈ str, 32 ≤ ascii ∧ ascii ≤ 127 := by
    rw [forall_keycode_print_reports (declared_iff.mpr (by decide))]
    simp only [declared_stored_key_iff]
  constructor
  · intro hpresses
    exact hdeclared.mp hpresses.1
  · intro hsupported
    refine ⟨hdeclared.mpr hsupported, ?_⟩
    have hfilter : (str.filter fun ascii => ascii_to_hid ascii ≠ -1) = str := by
      refine List.filter_eq_self.mpr fun ascii hascii => decide_eq_true ?_
      exact fun hunsupported => (ascii_to_hid_eq_neg_one_iff ascii).mp hunsupported (hsupported ascii hascii)
    rw [rises_print_reports, List.map_map, hfilter]
    rfl

/-- The text `a`, with a deletion after it. -/
theorem keyboard_print_supported_delete :
    ∃ t reports, (keyboard_print (ι := uint8_t) [97, 127, 0]).run .initial [] = .returned t () [] ∧
      t.handed = reports ∧ PressesSupported [97, 127] .zero reports := by
  obtain ⟨t, reports, hrun, hhanded, hpresses⟩ :=
    keyboard_print_supported_iff (ι := uint8_t) [97, 127] [] (by decide) .initial [] .zero
  exact ⟨t, reports, hrun, hhanded, hpresses.mpr (by decide)⟩

/-- A line feed presses the usage `0xFF`. -/
theorem keyboard_print_line_feed :
    ∃ t, (keyboard_print (ι := uint8_t) [10, 0]).run .initial [] = .returned t () [] ∧
      ascii_to_hid 10 = -1 ∧ ¬ PressesSupported [10] .zero t.handed :=
  ⟨_, rfl, rfl, fun hpresses => absurd hpresses.2 (by decide)⟩

end peripheral_hids.bt_hid_tools
