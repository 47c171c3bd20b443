import PeripheralHids.HidTools.Funs
import PeripheralHids.Lib.Pulses

open peripheral_hids.hog

namespace peripheral_hids.bt_hid_tools

/-- The report with one key, in the slot that `keyboard_print` uses. -/
def single_key (key : uint8_t) : hids_report_keyboard :=
  set_last_keycode .zero key

theorem set_last_keycode_single_key (old key : uint8_t) :
    set_last_keycode (single_key old) key = single_key key := by
  simp only [single_key, set_last_keycode, Vector.set_set]

/-- The key that a character is stored as, cut to a `uint8_t`. -/
def stored_key (ascii : uint8_t) : uint8_t := BitVec.ofInt 8 (ascii_to_hid ascii)

/-- What `keyboard_print` hands over for a string: the empty report before each
of its characters and at the end. -/
def print_reports (str : List uint8_t) : List hids_report_keyboard :=
  str.flatMap (fun ascii => [single_key 0, single_key (stored_key ascii)]) ++ [single_key 0]

theorem run_keyboard_print_loop {ι : Type} (str beyond : List uint8_t) (hstr : 0 ∉ str) (old : uint8_t) (h : Hog)
    (inp : List ι) :
    ∃ last, (keyboard_print_loop (single_key old) (str ++ 0 :: beyond)).run h inp =
      .returned ((str.flatMap fun ascii => [single_key 0, single_key (stored_key ascii)]).foldl
        hog_set_keyboard_input h) (single_key last) inp := by
  induction str generalizing old h with
  | nil => exact ⟨old, rfl⟩
  | cons ascii str ih =>
    obtain ⟨hascii, hrest⟩ := not_or.mp (mt List.mem_cons.mpr hstr)
    obtain ⟨last, hloop⟩ := ih hrest (stored_key ascii)
      (hog_set_keyboard_input (hog_set_keyboard_input h (single_key 0)) (single_key (stored_key ascii)))
    refine ⟨last, ?_⟩
    rw [List.cons_append, keyboard_print_loop, if_neg (Ne.symm hascii)]
    simp only [ProcM.run_bind, ProcM.run_modify, ProcM.run_sleep, ProcM.andThen_returned,
      set_last_keycode_single_key, List.flatMap_cons, List.cons_append, List.nil_append, List.foldl_cons]
    exact hloop

theorem run_keyboard_print {ι : Type} (str beyond : List uint8_t) (hstr : 0 ∉ str) (h : Hog) (inp : List ι) :
    (keyboard_print (str ++ 0 :: beyond)).run h inp =
      .returned ((print_reports str).foldl hog_set_keyboard_input h) () inp := by
  obtain ⟨last, hloop⟩ := run_keyboard_print_loop str beyond hstr 0 h inp
  have hzero : single_key 0 = .zero := rfl
  rw [keyboard_print, ProcM.run_bind, ← hzero, hloop]
  simp only [ProcM.andThen_returned, ProcM.run_modify, set_last_keycode_single_key, print_reports,
    List.foldl_append, List.foldl_cons, List.foldl_nil]

/-- The usages of the keys down in a report, as a host reads its array. -/
def usages (report : hids_report_keyboard) : List uint8_t :=
  report.keycode.toList.filter (· ≠ KEY_UNKNOWN)

theorem usages_single_key (key : uint8_t) :
    usages (single_key key) = if key = KEY_UNKNOWN then [] else [key] := by
  have hslots : (single_key key).keycode.toList = [0, 0, 0, 0, 0] ++ [key] := rfl
  rw [usages, hslots]
  by_cases hkey : key = KEY_UNKNOWN
  · rw [if_pos hkey, hkey]
    rfl
  · rw [if_neg hkey, List.filter_append, List.filter_cons_of_pos (a := key) (by simpa using hkey)]
    rfl

theorem stored_key_ne_unknown (ascii : uint8_t) : stored_key ascii ≠ KEY_UNKNOWN := by
  revert ascii
  decide +kernel

/-- A host sees one key go down for every character: the empty reports keep
equal neighbours apart. -/
theorem rises_print_reports (str : List uint8_t) (previous : hids_report_keyboard) :
    Pulses.rises usages previous (print_reports str) =
      str.map fun ascii => (stored_key ascii, single_key (stored_key ascii)) := by
  rw [print_reports, Pulses.rises_pulses (usages_single_key 0), List.map_eq_flatMap]
  refine List.flatMap_congr fun ascii _ => ?_
  rw [usages_single_key, if_neg (stored_key_ne_unknown ascii)]
  rfl

theorem getLast_print_reports (str : List uint8_t) : (print_reports str).getLast? = some .zero :=
  List.getLast?_concat

end peripheral_hids.bt_hid_tools
