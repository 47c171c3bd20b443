import PeripheralHids.Hog.Funs
import PeripheralHids.Lib.Proc
import PeripheralHids.Lib.Slots

open peripheral_hids.hog

namespace peripheral_hids.ps2_hid_translator

def EXTENDED_CODE : uint8_t := 0xe0
def BREAK_CODE : uint8_t := 0xf0

def pause_break_code : List uint8_t := [0xE1, 0x14, 0x77, 0xE1, 0xF0, 0x14, 0xf0, 0x77]

def sys_req_make : List uint8_t := [0xE0, 0x12, 0xE0, 0x7C]
def sys_req_break : List uint8_t := [0xE0, 0xF0, 0x7C, 0xE0, 0xF0, 0x12]

theorem one_lt_sys_req_make : 1 < sys_req_make.length := by decide
theorem two_lt_sys_req_break : 2 < sys_req_break.length := by decide

/-- The report that `ps2_hid_translator.c` keeps and the service it publishes to. -/
structure Translator where
  key_report : hids_report_keyboard
  hog : Hog
  deriving DecidableEq, Repr

/-- The statics before the first call. Notifications may have been enabled. -/
def Translator.initial (simulate_input : uint8_t) : Translator where
  key_report := .zero
  hog := { input_keyboard := .zero, simulate_input := simulate_input, handed := [], notified := [] }

/-- `hog_set_keyboard_input(&key_report)`. -/
def Translator.publish (s : Translator) : Translator :=
  { s with hog := hog_set_keyboard_input s.hog s.key_report }

def Translator.set_keycode (s : Translator) (i : Fin 6) (key : uint8_t) : Translator :=
  { s with key_report := { s.key_report with keycode := s.key_report.keycode.set i key } }

def pos_at_pressed_keys (s : Translator) (key : uint8_t) : Option (Fin 6) :=
  Slots.first s.key_report.keycode key

def press_mod_key (key : uint8_t) (s : Translator) : Translator :=
  { s with key_report := { s.key_report with modifier := s.key_report.modifier ||| key } }.publish

def release_mod_key (key : uint8_t) (s : Translator) : Translator :=
  { s with key_report := { s.key_report with modifier := s.key_report.modifier &&& ~~~key } }.publish

def press_key (key : uint8_t) (s : Translator) : Translator :=
  if key = KEY_UNKNOWN then s
  else
    match pos_at_pressed_keys s key with
    | some _ => s
    | none =>
      match Slots.last s.key_report.keycode 0 with
      | some i => (s.set_keycode i key).publish
      -- there's more than 6 keys pressed at once, drop the oldest
      | none => (s.set_keycode 5 key).publish

def release_key (key : uint8_t) (s : Translator) : Translator :=
  if key = KEY_UNKNOWN then s
  else
    match pos_at_pressed_keys s key with
    | none => s
    | some pos => (s.set_keycode pos 0).publish

@[simp] theorem Translator.publish_key_report (s : Translator) : s.publish.key_report = s.key_report := rfl

@[simp] theorem Translator.publish_handed (s : Translator) :
    s.publish.hog.handed = s.hog.handed ++ [s.key_report] :=
  hog_set_keyboard_input_handed s.hog s.key_report

@[simp] theorem Translator.publish_input_keyboard (s : Translator) :
    s.publish.hog.input_keyboard = s.key_report :=
  hog_set_keyboard_input_input_keyboard s.hog s.key_report

@[simp] theorem Translator.set_keycode_key_report (s : Translator) (i : Fin 6) (key : uint8_t) :
    (s.set_keycode i key).key_report = { s.key_report with keycode := s.key_report.keycode.set i key } := rfl

@[simp] theorem Translator.set_keycode_hog (s : Translator) (i : Fin 6) (key : uint8_t) :
    (s.set_keycode i key).hog = s.hog := rfl

/-- All that `press_key` can do: nothing, for an unknown key or one already in
the report, or to publish the report with the key in a slot that was free, or in
the last slot if none was. -/
theorem press_key_cases (key : uint8_t) (s : Translator) :
    (key = KEY_UNKNOWN ∨ key ∈ s.key_report.keycode) ∧ press_key key s = s ∨
      key ≠ KEY_UNKNOWN ∧ key ∉ s.key_report.keycode ∧
        ∃ i : Fin 6, (s.key_report.keycode[i] = 0 ∨ i = 5 ∧ 0 ∉ s.key_report.keycode) ∧
          press_key key s = (s.set_keycode i key).publish := by
  unfold press_key
  by_cases hunknown : key = KEY_UNKNOWN
  · rw [if_pos hunknown]
    exact Or.inl ⟨Or.inl hunknown, rfl⟩
  rw [if_neg hunknown]
  cases hpos : pos_at_pressed_keys s key with
  | some pos =>
    have hmem := (Slots.mem_iff _ _).mpr ⟨pos, Slots.getElem_of_first hpos⟩
    exact Or.inl ⟨Or.inr hmem, rfl⟩
  | none =>
    refine Or.inr ⟨hunknown, Slots.first_eq_none.mp hpos, ?_⟩
    cases hfree : Slots.last s.key_report.keycode 0 with
    | some i => exact ⟨i, Or.inl (Slots.getElem_of_last hfree), rfl⟩
    | none => exact ⟨5, Or.inr ⟨rfl, Slots.last_eq_none.mp hfree⟩, rfl⟩

/-- All that `release_key` can do: nothing, for an unknown key or one not in the
report, or to publish the report with the key's slot free. -/
theorem release_key_cases (key : uint8_t) (s : Translator) :
    (key = KEY_UNKNOWN ∨ key ∉ s.key_report.keycode) ∧ release_key key s = s ∨
      key ≠ KEY_UNKNOWN ∧ ∃ i : Fin 6, s.key_report.keycode[i] = key ∧
        release_key key s = (s.set_keycode i 0).publish := by
  unfold release_key
  by_cases hunknown : key = KEY_UNKNOWN
  · rw [if_pos hunknown]
    exact Or.inl ⟨Or.inl hunknown, rfl⟩
  rw [if_neg hunknown]
  cases hpos : pos_at_pressed_keys s key with
  | none => exact Or.inl ⟨Or.inr (Slots.first_eq_none.mp hpos), rfl⟩
  | some pos => exact Or.inr ⟨hunknown, pos, Slots.getElem_of_first hpos, rfl⟩

/-- The keyboard thread: it blocks on the codes of `ps2_connector_get_next_code`. -/
abbrev TranslatorM := ProcM uint8_t Translator

def press_pause_break : TranslatorM Unit := do
  ProcM.modify (press_key KEY_PAUSE)
  ProcM.sleep -- k_msleep(10)
  ProcM.modify (release_key KEY_PAUSE)

def ps2_extended_code_to_hid_key (code : uint8_t) : uint8_t :=
  if code = 0x1F then KEY_LEFTMETA
  else if code = 0x11 then KEY_RIGHTALT
  else if code = 0x27 then KEY_RIGHTMETA
  else if code = 0x2F then KEY_PROPS
  else if code = 0x14 then KEY_RIGHTCTRL
  else if code = 0x70 then KEY_INSERT
  else if code = 0x6C then KEY_HOME
  else if code = 0x7D then KEY_PAGEUP
  else if code = 0x71 then KEY_DELETE
  else if code = 0x69 then KEY_END
  else if code = 0x7A then KEY_PAGEDOWN
  else if code = 0x75 then KEY_UP
  else if code = 0x6B then KEY_LEFT
  else if code = 0x72 then KEY_DOWN
  else if code = 0x74 then KEY_RIGHT
  else if code = 0x4A then KEY_KPSLASH
  else if code = 0x5A then KEY_ENTER
  else KEY_UNKNOWN

/-- The four cases of the first `switch`, and the test of the break branch:
LALT, LSHIFT, LCTRL and RSHIFT. -/
def is_modifier_code (code : uint8_t) : Bool :=
  code = 0x11 ∨ code = 0x12 ∨ code = 0x14 ∨ code = 0x59

/-- The test of both extended branches. -/
def is_extended_modifier (key : uint8_t) : Bool :=
  key = KEY_RIGHTALT ∨ key = KEY_RIGHTCTRL ∨ key = KEY_LEFTMETA ∨ key = KEY_RIGHTMETA

/-- The loops over the rest of a multi-code sequence: read as many codes as are
expected, but stop at the first one that differs. -/
def match_codes : List uint8_t → TranslatorM Bool
  | [] => pure true
  | expected :: rest => do
    let code ← ProcM.next
    if expected ≠ code then pure false else match_codes rest

def ps2_hid_translator_parse_next_scancode : TranslatorM Unit := do
  let code ← ProcM.next
  if is_modifier_code code then
    let key ← ProcM.checked ps2_scan_code_to_usb_hid_key[code.toNat]?
    ProcM.modify (press_mod_key key)
  else if code = EXTENDED_CODE then
    let code ← ProcM.next
    if code = BREAK_CODE then
      let code ← ProcM.next
      if code = sys_req_break.get ⟨2, two_lt_sys_req_break⟩ then
        if ← match_codes (sys_req_break.drop 3) then ProcM.modify (release_key KEY_SYSRQ)
      else
        let key := ps2_extended_code_to_hid_key code
        if is_extended_modifier key then ProcM.modify (release_mod_key key)
        else ProcM.modify (release_key key)
    else if code = sys_req_make.get ⟨1, one_lt_sys_req_make⟩ then
      if ← match_codes (sys_req_make.drop 2) then ProcM.modify (press_key KEY_SYSRQ)
    else
      let key := ps2_extended_code_to_hid_key code
      if is_extended_modifier key then ProcM.modify (press_mod_key key)
      else ProcM.modify (press_key key)
  else if code = BREAK_CODE then
    let code ← ProcM.next
    let key ← ProcM.checked ps2_scan_code_to_usb_hid_key[code.toNat]?
    if is_modifier_code code then ProcM.modify (release_mod_key key)
    else ProcM.modify (release_key key)
  else if code = 0xE1 then
    if ← match_codes (pause_break_code.drop 1) then press_pause_break
  else
    let key ← ProcM.checked ps2_scan_code_to_usb_hid_key[code.toNat]?
    ProcM.modify (press_key key)

end peripheral_hids.ps2_hid_translator
