import PeripheralHids.HidTools.Print

open peripheral_hids.hog

namespace peripheral_hids.bt_hid_tools

/-- The keys of a US keyboard that type a character, with the character they type
alone and the one they type with a shift key. -/
def us_layout : List (uint8_t × uint8_t × uint8_t) := [
  -- the letters
  (KEY_A, 97, 65), (KEY_B, 98, 66), (KEY_C, 99, 67), (KEY_D, 100, 68), (KEY_E, 101, 69), (KEY_F, 102, 70),
  (KEY_G, 103, 71), (KEY_H, 104, 72), (KEY_I, 105, 73), (KEY_J, 106, 74), (KEY_K, 107, 75), (KEY_L, 108, 76),
  (KEY_M, 109, 77), (KEY_N, 110, 78), (KEY_O, 111, 79), (KEY_P, 112, 80), (KEY_Q, 113, 81), (KEY_R, 114, 82),
  (KEY_S, 115, 83), (KEY_T, 116, 84), (KEY_U, 117, 85), (KEY_V, 118, 86), (KEY_W, 119, 87), (KEY_X, 120, 88),
  (KEY_Y, 121, 89), (KEY_Z, 122, 90),
  -- the digits, with ! @ # $ % ^ & * ( )
  (KEY_1, 49, 33), (KEY_2, 50, 64), (KEY_3, 51, 35), (KEY_4, 52, 36), (KEY_5, 53, 37), (KEY_6, 54, 94),
  (KEY_7, 55, 38), (KEY_8, 56, 42), (KEY_9, 57, 40), (KEY_0, 48, 41),
  -- space, - _ = + [ { ] } \ |
  (KEY_SPACE, 32, 32), (KEY_MINUS, 45, 95), (KEY_EQUAL, 61, 43), (KEY_LEFTBRACE, 91, 123),
  (KEY_RIGHTBRACE, 93, 125), (KEY_BACKSLASH, 92, 124),
  -- ; : ' " ` ~ , < . > / ?
  (KEY_SEMICOLON, 59, 58), (KEY_APOSTROPHE, 39, 34), (KEY_GRAVE, 96, 126), (KEY_COMMA, 44, 60),
  (KEY_DOT, 46, 62), (KEY_SLASH, 47, 63)]

def us_char (usage : uint8_t) (shift : Bool) : Option uint8_t :=
  (us_layout.find? fun entry => entry.1 = usage).map fun entry => if shift then entry.2.2 else entry.2.1

def shift_down (report : hids_report_keyboard) : Bool :=
  report.modifier &&& (KEY_MOD_LSHIFT ||| KEY_MOD_RSHIFT) ≠ 0

/-- The text that a host with a US layout reads from a sequence of reports, after
the report it saw before them. -/
def us_decode (previous : hids_report_keyboard) (reports : List hids_report_keyboard) : List uint8_t :=
  (Pulses.rises usages previous reports).filterMap fun key_down => us_char key_down.1 (shift_down key_down.2)

/-- No key of the layout types the character alone. -/
def needs_shift (ascii : uint8_t) : Bool :=
  us_layout.all fun entry => entry.2.1 ≠ ascii

/-- The character that the key stored for another one types alone. -/
def typed_char (ascii : uint8_t) : Option uint8_t := us_char (stored_key ascii) false

/-- The key stored for a printable character types a character, the same one
unless it needs a shift key. -/
theorem typed_char_printable {ascii : uint8_t} (hprintable : 32 ≤ ascii ∧ ascii ≤ 126) :
    ∃ read, typed_char ascii = some read ∧ (read = ascii ↔ needs_shift ascii = false) := by
  have hall : ∀ ascii : uint8_t, 32 ≤ ascii → ascii ≤ 126 →
      (typed_char ascii).isSome = true ∧ (typed_char ascii = some ascii ↔ needs_shift ascii = false) := by
    decide +kernel
  obtain ⟨hsome, hread⟩ := hall ascii hprintable.1 hprintable.2
  obtain ⟨read, hchar⟩ := Option.isSome_iff_exists.mp hsome
  rw [hchar, Option.some.injEq] at hread
  exact ⟨read, hchar, hread⟩

theorem shift_down_single_key (key : uint8_t) : shift_down (single_key key) = false := by
  have hmodifier : (single_key key).modifier = 0 := rfl
  rw [shift_down, hmodifier]
  decide

theorem us_decode_print_reports (previous : hids_report_keyboard) (str : List uint8_t) :
    us_decode previous (print_reports str) = str.filterMap typed_char := by
  rw [us_decode, rises_print_reports, List.filterMap_map]
  refine List.filterMap_congr fun ascii _ => ?_
  rw [Function.comp_apply, shift_down_single_key, typed_char]

theorem us_decode_eq_iff (previous : hids_report_keyboard) {str : List uint8_t}
    (hprintable : ∀ ascii ∈ str, 32 ≤ ascii ∧ ascii ≤ 126) :
    us_decode previous (print_reports str) = str ↔ ∀ ascii ∈ str, needs_shift ascii = false := by
  rw [us_decode_print_reports]
  induction str with
  | nil => simp
  | cons ascii str ih =>
    obtain ⟨read, hchar, hread⟩ := typed_char_printable (hprintable ascii List.mem_cons_self)
    have hrest := ih fun other hother => hprintable other (List.mem_cons_of_mem ascii hother)
    rw [List.filterMap_cons_some hchar, List.cons.injEq, hread, List.forall_mem_cons, hrest]

/-- `keyboard_print` types a printable string exactly when no character of it
needs a shift key, and always leaves all keys released. -/
theorem keyboard_print_types_iff {ι : Type} (str beyond : List uint8_t)
    (hprintable : ∀ ascii ∈ str, 32 ≤ ascii ∧ ascii ≤ 126) (h : Hog) (inp : List ι)
    (previous : hids_report_keyboard) :
    ∃ t reports, (keyboard_print (str ++ 0 :: beyond)).run h inp = .returned t () inp ∧
      t.handed = h.handed ++ reports ∧
      ((us_decode previous reports = str ∧ reports.getLast? = some .zero) ↔
        ∀ ascii ∈ str, needs_shift ascii = false) := by
  have hstr : 0 ∉ str := fun hzero => absurd (hprintable 0 hzero).1 (by decide)
  refine ⟨_, print_reports str, run_keyboard_print str beyond hstr h inp,
    foldl_hog_set_keyboard_input_handed h _, ?_⟩
  rw [us_decode_eq_iff previous hprintable]
  exact and_iff_left (getLast_print_reports str)

/-- The text `ok.` -/
theorem keyboard_print_types_ok :
    ∃ t reports, (keyboard_print (ι := uint8_t) [111, 107, 46, 0]).run .initial [] = .returned t () [] ∧
      t.handed = reports ∧ us_decode .zero reports = [111, 107, 46] := by
  obtain ⟨t, reports, hrun, hhanded, htypes⟩ :=
    keyboard_print_types_iff (ι := uint8_t) [111, 107, 46] [] (by decide) .initial [] .zero
  exact ⟨t, reports, hrun, hhanded, (htypes.mpr (by decide)).1⟩

/-- The text `I` is read as `i`. -/
theorem keyboard_print_loses_shift :
    ∃ t, (keyboard_print (ι := uint8_t) [73, 0]).run .initial [] = .returned t () [] ∧
      us_decode .zero t.handed = [105] :=
  ⟨_, rfl, by decide⟩

end peripheral_hids.bt_hid_tools
