import PeripheralHids.Keys

namespace peripheral_hids.hog

/-- `struct hids_report_keyboard`. -/
@[ext]
structure hids_report_keyboard where
  modifier : uint8_t
  reserved : uint8_t
  keycode : Vector uint8_t 6
  deriving DecidableEq, Repr

/-- The report of a keyboard with no key down, as the statics are initialised. -/
def hids_report_keyboard.zero : hids_report_keyboard where
  modifier := 0
  reserved := 0
  keycode := Vector.replicate 6 0

/-- The packed layout of a report, as it is copied and notified. -/
def hids_report_keyboard.bytes (report : hids_report_keyboard) : List uint8_t :=
  report.modifier :: report.reserved :: report.keycode.toList

/-- `report_map`, the descriptor that the host reads. -/
def report_map : List uint8_t := [
  0x05, 0x01, 0x09, 0x06, 0xa1, 0x01,
  -- the modifier byte
  0x75, 0x01, 0x95, 0x08, 0x05, 0x07, 0x19, 0xe0, 0x29, 0xe7, 0x15, 0x00, 0x25, 0x01, 0x81, 0x02,
  -- the reserved byte
  0x95, 0x01, 0x75, 0x08, 0x81, 0x03,
  -- the LED report and its padding
  0x95, 0x05, 0x75, 0x01, 0x05, 0x08, 0x19, 0x01, 0x29, 0x05, 0x91, 0x02,
  0x95, 0x01, 0x75, 0x03, 0x91, 0x03,
  -- the six keycodes
  0x95, 0x06, 0x75, 0x08, 0x15, 0x00, 0x25, 167, 0x05, 0x07, 0x19, 0x00, 0x29, 167, 0x81, 0x00,
  0xc0]

/-- The statics of `hog.c` that carry keyboard input, with the calls they have
led to: the reports handed to `hog_set_keyboard_input`, oldest first, and those
passed on to `bt_gatt_notify`. -/
structure Hog where
  input_keyboard : hids_report_keyboard
  simulate_input : uint8_t
  handed : List hids_report_keyboard
  notified : List hids_report_keyboard
  deriving DecidableEq, Repr

/-- The statics as they are initialised. -/
def Hog.initial : Hog where
  input_keyboard := .zero
  simulate_input := 0
  handed := []
  notified := []

def trigger_report_notification (h : Hog) : Hog :=
  if h.simulate_input = 0 then h
  else { h with notified := h.notified ++ [h.input_keyboard] }

def hog_set_keyboard_input (h : Hog) (kb_report : hids_report_keyboard) : Hog :=
  trigger_report_notification { h with input_keyboard := kb_report, handed := h.handed ++ [kb_report] }

@[simp] theorem hog_set_keyboard_input_input_keyboard (h : Hog) (report : hids_report_keyboard) :
    (hog_set_keyboard_input h report).input_keyboard = report := by
  unfold hog_set_keyboard_input trigger_report_notification
  split <;> rfl

@[simp] theorem hog_set_keyboard_input_handed (h : Hog) (report : hids_report_keyboard) :
    (hog_set_keyboard_input h report).handed = h.handed ++ [report] := by
  unfold hog_set_keyboard_input trigger_report_notification
  split <;> rfl

theorem foldl_hog_set_keyboard_input_handed (h : Hog) (reports : List hids_report_keyboard) :
    (reports.foldl hog_set_keyboard_input h).handed = h.handed ++ reports := by
  induction reports generalizing h with
  | nil => exact (List.append_nil _).symm
  | cons report reports ih => rw [List.foldl_cons, ih, hog_set_keyboard_input_handed, List.append_assoc]; rfl

end peripheral_hids.hog
