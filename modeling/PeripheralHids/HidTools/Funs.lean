import PeripheralHids.Hog.Funs
import PeripheralHids.Lib.Proc

open peripheral_hids.hog

namespace peripheral_hids.bt_hid_tools

/-- `ascii_to_hid`, with `-1` for a character that is not supported. -/
def ascii_to_hid (ascii : uint8_t) : Int :=
  if ascii < 32 then -1
  else if ascii < 48 then
    match ascii.toNat with
    | 32 => KEY_SPACE.toNat
    | 33 => KEY_1.toNat
    | 34 => KEY_APOSTROPHE.toNat
    | 35 => KEY_3.toNat
    | 36 => KEY_4.toNat
    | 37 => KEY_5.toNat
    | 38 => KEY_7.toNat
    | 39 => KEY_APOSTROPHE.toNat
    | 40 => KEY_9.toNat
    | 41 => KEY_0.toNat
    | 42 => KEY_8.toNat
    | 43 => KEY_EQUAL.toNat
    | 44 => KEY_COMMA.toNat
    | 45 => KEY_MINUS.toNat
    | 46 => KEY_DOT.toNat
    | 47 => KEY_SLASH.toNat
    | _ => -1
  else if ascii < 58 then
    if ascii = 48 then KEY_0.toNat else ascii.toNat - 19
  else if ascii < 65 then
    match ascii.toNat with
    | 58 => KEY_SEMICOLON.toNat
    | 59 => KEY_SEMICOLON.toNat
    | 60 => KEY_COMMA.toNat
    | 61 => KEY_EQUAL.toNat
    | 62 => KEY_DOT.toNat
    | 63 => KEY_SLASH.toNat
    | 64 => KEY_2.toNat
    | _ => -1
  else if ascii < 91 then ascii.toNat - 61
  else if ascii < 97 then
    match ascii.toNat with
    | 91 => KEY_LEFTBRACE.toNat
    | 92 => KEY_BACKSLASH.toNat
    | 93 => KEY_RIGHTBRACE.toNat
    | 94 => KEY_6.toNat
    | 95 => KEY_MINUS.toNat
    | 96 => KEY_GRAVE.toNat
    | _ => -1
  else if ascii < 123 then ascii.toNat - 93
  else if ascii < 128 then
    match ascii.toNat with
    | 123 => KEY_LEFTBRACE.toNat
    | 124 => KEY_BACKSLASH.toNat
    | 125 => KEY_RIGHTBRACE.toNat
    | 126 => KEY_GRAVE.toNat
    | 127 => KEY_DELETE.toNat
    | _ => -1
  else -1

def set_last_keycode (key_report : hids_report_keyboard) (key : uint8_t) : hids_report_keyboard :=
  { key_report with keycode := key_report.keycode.set 5 key }

/-- The loop of `keyboard_print` over the memory that `str` points to, with its
local report. Without a terminator it reads past the end. -/
def keyboard_print_loop {ι : Type} (key_report : hids_report_keyboard) :
    List uint8_t → ProcM ι Hog hids_report_keyboard
  | [] => ProcM.checked none
  | ascii :: str =>
    if ascii = 0 then pure key_report
    else do
      let key_report := set_last_keycode key_report 0
      ProcM.modify (hog_set_keyboard_input · key_report)
      ProcM.sleep -- k_msleep(100)
      let key_report := set_last_keycode key_report (BitVec.ofInt 8 (ascii_to_hid ascii))
      ProcM.modify (hog_set_keyboard_input · key_report)
      ProcM.sleep -- k_msleep(100)
      keyboard_print_loop key_report str

def keyboard_print {ι : Type} (str : List uint8_t) : ProcM ι Hog Unit := do
  let key_report ← keyboard_print_loop .zero str
  let key_report := set_last_keycode key_report 0
  ProcM.modify (hog_set_keyboard_input · key_report)

end peripheral_hids.bt_hid_tools
