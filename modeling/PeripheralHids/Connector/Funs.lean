import PeripheralHids.Drivers.Gpio
import PeripheralHids.Keys
import PeripheralHids.Kernel.MsgQueue

open peripheral_hids.gpio peripheral_hids.msg_q

namespace peripheral_hids.ps2_connector

def PS2_MSG_QUE_SIZE : Nat := 20

def PS2_GPIO_FLAGS_HIGH : gpio_flags_t := GPIO_INPUT
def PS2_GPIO_FLAGS_LOW : gpio_flags_t := GPIO_OUTPUT ||| GPIO_ACTIVE_HIGH ||| GPIO_OPEN_DRAIN

def bit_reverse_table : List uint8_t := [
  0x00, 0x80, 0x40, 0xC0, 0x20, 0xA0, 0x60, 0xE0, 0x10, 0x90, 0x50, 0xD0, 0x30, 0xB0, 0x70, 0xF0,
  0x08, 0x88, 0x48, 0xC8, 0x28, 0xA8, 0x68, 0xE8, 0x18, 0x98, 0x58, 0xD8, 0x38, 0xB8, 0x78, 0xF8,
  0x04, 0x84, 0x44, 0xC4, 0x24, 0xA4, 0x64, 0xE4, 0x14, 0x94, 0x54, 0xD4, 0x34, 0xB4, 0x74, 0xF4,
  0x0C, 0x8C, 0x4C, 0xCC, 0x2C, 0xAC, 0x6C, 0xEC, 0x1C, 0x9C, 0x5C, 0xDC, 0x3C, 0xBC, 0x7C, 0xFC,
  0x02, 0x82, 0x42, 0xC2, 0x22, 0xA2, 0x62, 0xE2, 0x12, 0x92, 0x52, 0xD2, 0x32, 0xB2, 0x72, 0xF2,
  0x0A, 0x8A, 0x4A, 0xCA, 0x2A, 0xAA, 0x6A, 0xEA, 0x1A, 0x9A, 0x5A, 0xDA, 0x3A, 0xBA, 0x7A, 0xFA,
  0x06, 0x86, 0x46, 0xC6, 0x26, 0xA6, 0x66, 0xE6, 0x16, 0x96, 0x56, 0xD6, 0x36, 0xB6, 0x76, 0xF6,
  0x0E, 0x8E, 0x4E, 0xCE, 0x2E, 0xAE, 0x6E, 0xEE, 0x1E, 0x9E, 0x5E, 0xDE, 0x3E, 0xBE, 0x7E, 0xFE,
  0x01, 0x81, 0x41, 0xC1, 0x21, 0xA1, 0x61, 0xE1, 0x11, 0x91, 0x51, 0xD1, 0x31, 0xB1, 0x71, 0xF1,
  0x09, 0x89, 0x49, 0xC9, 0x29, 0xA9, 0x69, 0xE9, 0x19, 0x99, 0x59, 0xD9, 0x39, 0xB9, 0x79, 0xF9,
  0x05, 0x85, 0x45, 0xC5, 0x25, 0xA5, 0x65, 0xE5, 0x15, 0x95, 0x55, 0xD5, 0x35, 0xB5, 0x75, 0xF5,
  0x0D, 0x8D, 0x4D, 0xCD, 0x2D, 0xAD, 0x6D, 0xED, 0x1D, 0x9D, 0x5D, 0xDD, 0x3D, 0xBD, 0x7D, 0xFD,
  0x03, 0x83, 0x43, 0xC3, 0x23, 0xA3, 0x63, 0xE3, 0x13, 0x93, 0x53, 0xD3, 0x33, 0xB3, 0x73, 0xF3,
  0x0B, 0x8B, 0x4B, 0xCB, 0x2B, 0xAB, 0x6B, 0xEB, 0x1B, 0x9B, 0x5B, 0xDB, 0x3B, 0xBB, 0x7B, 0xFB,
  0x07, 0x87, 0x47, 0xC7, 0x27, 0xA7, 0x67, 0xE7, 0x17, 0x97, 0x57, 0xD7, 0x37, 0xB7, 0x77, 0xF7,
  0x0F, 0x8F, 0x4F, 0xCF, 0x2F, 0xAF, 0x6F, 0xEF, 0x1F, 0x9F, 0x5F, 0xDF, 0x3F, 0xBF, 0x7F, 0xFF]

set_option maxRecDepth 4096 in
theorem bit_reverse_table_length : bit_reverse_table.length = 256 := rfl

def reverse (x : uint8_t) : uint8_t :=
  bit_reverse_table.get ⟨x.toNat, by rw [bit_reverse_table_length]; exact x.isLt⟩

def odd_parity_check (byte : uint8_t) : Bool :=
  let byte := byte ^^^ (byte >>> 4)
  let byte := byte ^^^ (byte >>> 2)
  let byte := byte ^^^ (byte >>> 1)
  (-byte &&& 1) != 0

inductive PS2_state_e where
  | PS2_STATE_IDLE
  | PS2_STATE_DEV_TO_HOST
  | PS2_STATE_HOST_TO_DEV
  deriving DecidableEq, Repr

open PS2_state_e

/-- The statics of `ps2_connector.c` together with the two pins they drive. The
bit counter never leaves `0..10`: both directions reduce it after counting. -/
structure Connector where
  current_bit_no : Nat
  incoming_data : uint8_t
  outgoing_data : uint8_t
  PS2_state : PS2_state_e
  data_line : gpio_pin
  clk_line : gpio_pin
  rx_msg_que : k_msgq uint8_t PS2_MSG_QUE_SIZE
  bit_no_lt : current_bit_no < 11

def set_clk_low (s : Connector) : Connector :=
  { s with clk_line := gpio_pin_set (gpio_pin_configure s.clk_line PS2_GPIO_FLAGS_LOW) GPIO_OUTPUT_ACTIVE }

def set_clk_high_z (s : Connector) : Connector :=
  { s with clk_line := gpio_pin_configure s.clk_line PS2_GPIO_FLAGS_HIGH }

def set_data_low (s : Connector) : Connector :=
  { s with data_line := gpio_pin_set (gpio_pin_configure s.data_line PS2_GPIO_FLAGS_LOW) GPIO_OUTPUT_INACTIVE }

def set_data_high_z (s : Connector) : Connector :=
  { s with data_line := gpio_pin_configure s.data_line PS2_GPIO_FLAGS_HIGH }

def host_to_dev_init_request_to_send (s : Connector) : Connector :=
  let s := set_clk_low s
  let s := set_data_low s
  let s := set_clk_high_z s
  { s with current_bit_no := 0, bit_no_lt := by decide }

/-- `ps2_connector_send_byte` up to its first wait: the request to send. What
follows in the source waits for `PS2_state` to become idle. -/
def ps2_connector_send_byte (s : Connector) (msg : uint8_t) : Connector :=
  host_to_dev_init_request_to_send { s with outgoing_data := msg, PS2_state := PS2_STATE_HOST_TO_DEV }

def host_to_dev_serve_falling_clk (s : Connector) : Connector :=
  let s := { s with PS2_state := PS2_STATE_DEV_TO_HOST }
  -- the start bit was already sent by `host_to_dev_init_request_to_send`
  let current_bit : uint8_t := 0x01 &&& (s.outgoing_data >>> s.current_bit_no)
  let s := if current_bit ≠ 0 then set_data_high_z s else set_data_low s
  -- parity bit
  let s :=
    if s.current_bit_no = 8 then
      if !odd_parity_check s.outgoing_data then set_data_high_z s else set_data_low s
    else s
  -- stop bit
  let s := if s.current_bit_no = 8 then set_data_high_z s else s
  let s :=
    if s.current_bit_no = 9 then { set_data_high_z s with PS2_state := PS2_STATE_IDLE } else s
  { s with current_bit_no := (s.current_bit_no + 1) % 10, bit_no_lt := by omega }

/-- What one falling edge did on the receiving side: one of the three checks
failed and printed its error, a bit was taken, or a complete code was put. -/
inductive Served where
  | start_bit_error
  | parity_error (data : uint8_t)
  | stop_bit_error
  | taken
  | put (code : uint8_t) (result : PutResult uint8_t)
  deriving DecidableEq, Repr

/-- The early returns of the receiver: drop the frame and wait for a start bit. -/
def Connector.restart (s : Connector) : Connector :=
  { s with current_bit_no := 0, bit_no_lt := by decide }

def Connector.count_bit (s : Connector) : Connector :=
  { s with current_bit_no := (s.current_bit_no + 1) % 11, bit_no_lt := by omega }

/-- 8 data bits, LSB first, the start bit shifted in before them. -/
def Connector.shift_data (s : Connector) (current_bit : Bool) : Connector :=
  if s.current_bit_no < 9 then
    { s with incoming_data :=
      ((s.incoming_data <<< 1) &&& 0b11111110) ||| (BitVec.ofBool current_bit).setWidth 8 }
  else s

def dev_to_host_serve_falling_clk (s : Connector) (current_bit : Bool) : Served × Connector :=
  -- start bit
  if s.current_bit_no = 0 ∧ current_bit ≠ false then
    (.start_bit_error, s.restart)
  else
    let s := s.shift_data current_bit
    -- parity bit
    if s.current_bit_no = 9 ∧ odd_parity_check s.incoming_data = current_bit then
      (.parity_error s.incoming_data, s.restart)
    -- stop bit
    else if s.current_bit_no = 10 then
      if current_bit ≠ true then
        (.stop_bit_error, s.restart)
      else
        let put := k_msgq_put s.rx_msg_que s.incoming_data
        (.put s.incoming_data put.1, { s with rx_msg_que := put.2 }.count_bit)
    else
      (.taken, s.count_bit)

/-- The clock interrupt, with the level that `gpio_pin_get` samples on the data
line. Only the receiving side has something to report. -/
def clk_fall_cb (s : Connector) (data : Bool) : Option Served × Connector :=
  match s.PS2_state with
  | PS2_STATE_DEV_TO_HOST | PS2_STATE_IDLE =>
    let served := dev_to_host_serve_falling_clk s data
    (some served.1, served.2)
  | PS2_STATE_HOST_TO_DEV => (none, host_to_dev_serve_falling_clk s)

/-- `ps2_connector_get_next_code`. Without a code in the queue the caller pends
and the code it will return is the next one put. -/
def ps2_connector_get_next_code (s : Connector) : Option uint8_t × Connector :=
  let get := k_msgq_get s.rx_msg_que
  (get.1.map reverse, { s with rx_msg_que := get.2 })

/-- `ps2_connector_init` on the zeroed statics, once both lines have been seen
high: an empty queue, both pins released, waiting for a start bit. -/
def ps2_connector_init : Connector where
  current_bit_no := 0
  incoming_data := 0
  outgoing_data := 0
  PS2_state := PS2_STATE_DEV_TO_HOST
  data_line := gpio_pin_configure .reset GPIO_INPUT
  clk_line := gpio_pin_configure .reset GPIO_INPUT
  rx_msg_que := k_msgq_init (Vector.replicate PS2_MSG_QUE_SIZE 0) (by decide)
  bit_no_lt := by decide

end peripheral_hids.ps2_connector
