import PeripheralHids.Lib.Secrecy
import PeripheralHids.Hog.Subscription

namespace peripheral_hids.hog

open Secrecy

/-- `struct hids_info`. -/
structure hids_info where
  version : uint16_t
  code : uint8_t
  flags : uint8_t

def HIDS_NORMALLY_CONNECTABLE : uint8_t := 0x02

def info : hids_info where
  version := 0x0000
  code := 0x00
  flags := HIDS_NORMALLY_CONNECTABLE

/-- The packed layout of the information, low byte first. -/
def hids_info.bytes (info : hids_info) : List uint8_t :=
  [info.version.setWidth 8, (info.version >>> 8).setWidth 8, info.code, info.flags]

/-- What the attributes of the service point to. -/
inductive user_data where
  | NULL
  | info
  | input_keyboard

/-- The bytes behind a pointer, as the statics are at the time of the read. -/
def Hog.load (h : Hog) : user_data → List uint8_t
  | .NULL => []
  | .info => info.bytes
  | .input_keyboard => h.input_keyboard.bytes

def BT_ATT_ERR_INVALID_OFFSET : Int := 0x07

def BT_GATT_ERR (att_err : Int) : Int := -att_err

/-- The bytes copied to the buffer of `buf_len` bytes, whose number is returned,
or the negative error code. -/
def bt_gatt_attr_read (buf_len offset : uint16_t) (value : List uint8_t) (value_len : uint16_t) :
    Except Int (List uint8_t) :=
  if value_len < offset then .error (BT_GATT_ERR BT_ATT_ERR_INVALID_OFFSET)
  else
    let len := min buf_len.toNat (value_len.toNat - offset.toNat)
    .ok ((value.drop offset.toNat).take len)

def read_info (h : Hog) (data : user_data) (len offset : uint16_t) : Except Int (List uint8_t) :=
  -- sizeof(struct hids_info)
  bt_gatt_attr_read len offset (h.load data) 4

def read_report_map (_h : Hog) (_data : user_data) (len offset : uint16_t) : Except Int (List uint8_t) :=
  bt_gatt_attr_read len offset report_map 63

def read_report (h : Hog) (data : user_data) (len offset : uint16_t) : Except Int (List uint8_t) :=
  -- sizeof(struct hids_report_keyboard)
  bt_gatt_attr_read len offset (h.load data) 8

def read_input_report (h : Hog) (_data : user_data) (len offset : uint16_t) : Except Int (List uint8_t) :=
  bt_gatt_attr_read len offset (h.load .NULL) 0

/-- The attributes that have a read handler in `hog.c`. -/
inductive hids_uuid where
  | HIDS_INFO
  | HIDS_REPORT_MAP
  | HIDS_REPORT
  | HIDS_REPORT_REF
  deriving DecidableEq, Repr

/-- The read handler of an attribute and the data it is called with. -/
structure bt_gatt_attr where
  read : Hog → user_data → uint16_t → uint16_t → Except Int (List uint8_t)
  data : user_data

/-- The service declaration. The descriptor of the report points to the report
itself. -/
def hog_svc : hids_uuid → bt_gatt_attr
  | .HIDS_INFO => ⟨read_info, .info⟩
  | .HIDS_REPORT_MAP => ⟨read_report_map, .NULL⟩
  | .HIDS_REPORT => ⟨read_input_report, .NULL⟩
  | .HIDS_REPORT_REF => ⟨read_report, .input_keyboard⟩

/-- A host's read of an attribute. -/
def read_attr (h : Hog) (uuid : hids_uuid) (len offset : uint16_t) : Except Int (List uint8_t) :=
  (hog_svc uuid).read h (hog_svc uuid).data len offset

/-- The value of an attribute, of which a host reads a part at a time. -/
def Hog.value (h : Hog) : hids_uuid → List uint8_t
  | .HIDS_INFO => info.bytes
  | .HIDS_REPORT_MAP => report_map
  | .HIDS_REPORT => []
  | .HIDS_REPORT_REF => h.input_keyboard.bytes

theorem hids_report_keyboard.bytes_length (report : hids_report_keyboard) : report.bytes.length = 8 := by
  simp [hids_report_keyboard.bytes]

theorem Hog.value_length (h h' : Hog) (uuid : hids_uuid) : (h.value uuid).length = (h'.value uuid).length := by
  cases uuid with
  | HIDS_INFO | HIDS_REPORT_MAP | HIDS_REPORT => rfl
  | HIDS_REPORT_REF =>
    exact (h.input_keyboard.bytes_length).trans (h'.input_keyboard.bytes_length).symm

theorem bt_gatt_attr_read_of_length {value : List uint8_t} {value_len : uint16_t}
    (hvalue : value.length = value_len.toNat) (len offset : uint16_t) :
    bt_gatt_attr_read len offset value value_len =
      if value.length < offset.toNat then .error (BT_GATT_ERR BT_ATT_ERR_INVALID_OFFSET)
      else .ok ((value.drop offset.toNat).take len.toNat) := by
  have hlen : min len.toNat (value_len.toNat - offset.toNat) =
      min len.toNat (value.drop offset.toNat).length := by
    rw [List.length_drop, hvalue]
  unfold bt_gatt_attr_read
  dsimp only
  rw [hlen, ← List.take_eq_take_min, hvalue]
  exact if_congr BitVec.lt_def rfl rfl

/-- Every handler passes the size of the object it reads, so that a read is the
requested part of the value and nothing beyond it. -/
theorem read_attr_eq (h : Hog) (uuid : hids_uuid) (len offset : uint16_t) :
    read_attr h uuid len offset =
      if (h.value uuid).length < offset.toNat then .error (BT_GATT_ERR BT_ATT_ERR_INVALID_OFFSET)
      else .ok (((h.value uuid).drop offset.toNat).take len.toNat) := by
  cases uuid with
  | HIDS_INFO => exact bt_gatt_attr_read_of_length rfl len offset
  | HIDS_REPORT_MAP => exact bt_gatt_attr_read_of_length rfl len offset
  | HIDS_REPORT => exact bt_gatt_attr_read_of_length rfl len offset
  | HIDS_REPORT_REF => exact bt_gatt_attr_read_of_length h.input_keyboard.bytes_length len offset

theorem take_drop_eq_iff {α : Type} (xs ys : List α) (n m : Nat) :
    (xs.drop m).take n = (ys.drop m).take n ↔ ∀ i, m ≤ i → i < m + n → xs[i]? = ys[i]? := by
  constructor
  · intro heq i hm hn
    obtain ⟨k, rfl⟩ := Nat.exists_eq_add_of_le hm
    have hk : k < n := by omega
    have hget := congrArg (fun zs => zs[k]?) heq
    simpa only [List.getElem?_take_of_lt hk, List.getElem?_drop] using hget
  · intro hget
    apply List.ext_getElem?
    intro k
    by_cases hk : k < n
    · rw [List.getElem?_take_of_lt hk, List.getElem?_take_of_lt hk, List.getElem?_drop, List.getElem?_drop]
      exact hget (m + k) (by omega) (by omega)
    · rw [List.getElem?_take_eq_none (by omega), List.getElem?_take_eq_none (by omega)]

/-- Reads of an attribute agree in two states if and only if its values agree in
every byte that is asked for. -/
theorem read_attr_eq_iff (h h' : Hog) (uuid : hids_uuid) (len offset : uint16_t) :
    read_attr h uuid len offset = read_attr h' uuid len offset ↔
      ∀ i, offset.toNat ≤ i → i < offset.toNat + len.toNat → (h.value uuid)[i]? = (h'.value uuid)[i]? := by
  have hlength := Hog.value_length h h' uuid
  rw [read_attr_eq, read_attr_eq, ← hlength]
  by_cases hoffset : (h.value uuid).length < offset.toNat
  · rw [if_pos hoffset, if_pos hoffset]
    refine iff_of_true rfl fun i hi _ => ?_
    rw [List.getElem?_eq_none (by omega), List.getElem?_eq_none (by omega)]
  · rw [if_neg hoffset, if_neg hoffset, Except.ok.injEq]
    exact take_drop_eq_iff _ _ _ _

/-- What an event shows without the report in it: the value of a change of the
client's configuration, or that there is a report. -/
def Event.shape : Event → Option uint16_t
  | .set _ => none
  | .ccc_changed value => some value

/-- The event of a shape, with a given report. -/
def Event.of_shape (kb_report : hids_report_keyboard) : Option uint16_t → Event
  | none => .set kb_report
  | some value => .ccc_changed value

theorem Event.shape_of_shape (report : hids_report_keyboard) (shape : Option uint16_t) :
    (Event.of_shape report shape).shape = shape := by
  cases shape with
  | none => rfl
  | some value => rfl

/-- All attributes but the descriptor keep the reports to themselves. -/
theorem read_attr_reveals_nothing {uuid : hids_uuid} (huuid : uuid ≠ .HIDS_REPORT_REF) (h : Hog)
    (shapes : List (Option uint16_t)) (len offset : uint16_t) :
    RevealsNothing serve Event.shape (read_attr · uuid len offset) h shapes := by
  refine revealsNothing_of_const (fun s t => ?_) h shapes
  have hvalue : s.value uuid = t.value uuid := by
    cases uuid with
    | HIDS_INFO | HIDS_REPORT_MAP | HIDS_REPORT => rfl
    | HIDS_REPORT_REF => exact absurd rfl huuid
  exact (read_attr_eq_iff s t uuid len offset).mpr fun i _ _ => by rw [hvalue]

theorem serve_input_keyboard_of_shape {event : Event} {shapes : List (Option uint16_t)} (hreport : none ∉ shapes)
    (hevent : event.shape ∈ shapes) (h : Hog) : (serve h event).input_keyboard = h.input_keyboard := by
  cases event with
  | set report => exact absurd hevent hreport
  | ccc_changed value => rfl

theorem foldl_serve_of_shape (report : hids_report_keyboard) (shapes : List (Option uint16_t)) (h : Hog) :
    ((shapes.map (Event.of_shape report)).foldl serve h).input_keyboard =
      if none ∈ shapes then report else h.input_keyboard := by
  induction shapes generalizing h with
  | nil => rfl
  | cons shape shapes ih =>
    rw [List.map_cons, List.foldl_cons, ih]
    cases shape with
    | none => simp [Event.of_shape, serve]
    | some value => simp [Event.of_shape, serve, input_ccc_changed]

/-- A report with every bit set. -/
def hids_report_keyboard.full : hids_report_keyboard where
  modifier := 0xff
  reserved := 0xff
  keycode := Vector.replicate 6 0xff

theorem hids_report_keyboard.zero_ne_full {i : Nat} (hi : i < 8) :
    hids_report_keyboard.zero.bytes[i]? ≠ hids_report_keyboard.full.bytes[i]? := by
  have hzero : hids_report_keyboard.zero.bytes = List.replicate 8 0 := by decide
  have hfull : hids_report_keyboard.full.bytes = List.replicate 8 0xff := by decide
  rw [hzero, hfull, List.getElem?_replicate_of_lt hi, List.getElem?_replicate_of_lt hi]
  decide

/-- A read of the descriptor that asks for no byte of the report is the same in
every state. -/
theorem read_report_ref_const {len offset : uint16_t} (hnone : len = 0 ∨ 8 ≤ offset) (s t : Hog) :
    read_attr s .HIDS_REPORT_REF len offset = read_attr t .HIDS_REPORT_REF len offset := by
  refine (read_attr_eq_iff s t _ len offset).mpr fun i hi hlt => ?_
  have hbeyond : 8 ≤ i := by
    obtain rfl | hoffset := hnone
    · exact absurd hlt (Nat.not_lt.mpr hi)
    · exact Nat.le_trans hoffset hi
  have hbytes (report : hids_report_keyboard) : report.bytes[i]? = none :=
    List.getElem?_eq_none (report.bytes_length ▸ hbeyond)
  rw [Hog.value, Hog.value, hbytes, hbytes]

/-- The descriptor of the report reveals nothing about the reports handed over
exactly if there are none, or if no byte of the report is asked for. -/
theorem report_ref_reveals_nothing_iff (h : Hog) (shapes : List (Option uint16_t)) (len offset : uint16_t) :
    RevealsNothing serve Event.shape (read_attr · .HIDS_REPORT_REF len offset) h shapes ↔
      none ∉ shapes ∨ len = 0 ∨ 8 ≤ offset := by
  constructor
  · intro hnothing
    by_contra hcond
    obtain ⟨hreport, hlen, hoffset⟩ : none ∈ shapes ∧ len.toNat ≠ 0 ∧ offset.toNat < 8 := by
      rw [not_or, not_or, not_not, BitVec.not_le] at hcond
      exact ⟨hcond.1, fun hlen => hcond.2.1 (BitVec.eq_of_toNat_eq hlen), hcond.2.2⟩
    have hsame := hnothing.fill (Event.shape_of_shape .zero) (Event.shape_of_shape .full)
    have hbyte := (read_attr_eq_iff _ _ _ len offset).mp hsame offset.toNat (Nat.le_refl _) (by omega)
    simp only [Hog.value, foldl_serve_of_shape, if_pos hreport] at hbyte
    exact hids_report_keyboard.zero_ne_full hoffset hbyte
  · rintro (hreport | hnone)
    · refine revealsNothing_of_unwinding (fun s t => s.input_keyboard = t.input_keyboard) rfl ?_ ?_
      · intro s t event event' hmem hshape hst
        rw [serve_input_keyboard_of_shape hreport hmem,
          serve_input_keyboard_of_shape hreport (hshape ▸ hmem), hst]
      · intro s t hst
        refine (read_attr_eq_iff s t _ len offset).mpr fun i _ _ => ?_
        rw [Hog.value, Hog.value, hst]
    · exact revealsNothing_of_const (read_report_ref_const hnone) h shapes

/-- The descriptor tells a host whether `A` or `B` is pressed. -/
theorem report_ref_tells_key :
    ∃ pressed pressed' : List Event,
      pressed = [.set { modifier := 0, reserved := 0, keycode := #v[0, 0, 0, 0, 0, KEY_A] }] ∧
      pressed' = [.set { modifier := 0, reserved := 0, keycode := #v[0, 0, 0, 0, 0, KEY_B] }] ∧
      pressed.map Event.shape = pressed'.map Event.shape ∧
      read_attr (pressed.foldl serve .initial) .HIDS_REPORT_REF 8 0 = .ok [0, 0, 0, 0, 0, 0, 0, KEY_A] ∧
      read_attr (pressed'.foldl serve .initial) .HIDS_REPORT_REF 8 0 = .ok [0, 0, 0, 0, 0, 0, 0, KEY_B] ∧
      KEY_A ≠ KEY_B :=
  ⟨_, _, rfl, rfl, rfl, rfl, rfl, by decide⟩

end peripheral_hids.hog
