import Mathlib.Data.List.Forall2
import PeripheralHids.Connector.Ascent

open peripheral_hids.gpio ShiftRegister

namespace peripheral_hids.ps2_connector

/-- One falling edge served by the transmitter, with the level that it leaves on
the data line. -/
def clock_out (s : Connector) (_ : Unit) : Bool × Connector :=
  ((host_to_dev_serve_falling_clk s).data_line.level, host_to_dev_serve_falling_clk s)

/-- A byte clocked out by ten edges: the start bit and the levels they leave. -/
def transmit (s : Connector) (byte : uint8_t) : List Bool × Connector :=
  (false :: Machine.outputs clock_out { s with outgoing_data := byte } (List.replicate 10 ()),
    Machine.final clock_out { s with outgoing_data := byte } (List.replicate 10 ()))

/-- A receiver that decodes a frame: it puts the byte and waits for the next
start bit. -/
def Decodes (r : Connector) (levels : List Bool) (byte : uint8_t) : Prop :=
  codesPut r levels = [byte] ∧ (Machine.final clk_fall_cb r levels).current_bit_no = 0

/-- The frames that the transmitter sends for some bytes are those that a receiver
decodes to them, one by one and one after another. -/
def TransmitsDecodably (s r : Connector) (bytes : List uint8_t) : Prop :=
  List.Forall₂ (Decodes r) (Machine.outputs transmit s bytes) bytes ∧
    codesPut r (Machine.outputs transmit s bytes).flatten = bytes

theorem data_line_ite {P : gpio_pin → Prop} {p : Prop} [Decidable p] {s t : Connector} (hs : P s.data_line)
    (ht : P t.data_line) : P (if p then s else t).data_line := by
  split
  · exact hs
  · exact ht

/-- Whichever conditionals a served edge takes, and in whatever order they override
each other, the data pin is as one of the two calls leaves it. -/
theorem host_to_dev_serve_falling_clk_data_line {P : gpio_pin → Prop}
    (hhigh : ∀ s, P (set_data_high_z s).data_line) (hlow : ∀ s, P (set_data_low s).data_line) (s : Connector) :
    P (host_to_dev_serve_falling_clk s).data_line := by
  unfold host_to_dev_serve_falling_clk
  dsimp only
  apply data_line_ite
  · exact hhigh _
  apply data_line_ite (hhigh _)
  apply data_line_ite
  · exact data_line_ite (hhigh _) (hlow _)
  · exact data_line_ite (hhigh _) (hlow _)

theorem set_data_high_z_level (s : Connector) : (set_data_high_z s).data_line.level = true := rfl

/-- The value that `set_data_low` passes to `gpio_pin_set` is not zero: the pin is
set to its active level, which is high, and the line is let go. -/
theorem set_data_low_level (s : Connector) : (set_data_low s).data_line.level = true := rfl

/-- The line is high after every served edge. -/
theorem host_to_dev_serve_falling_clk_level (s : Connector) :
    (host_to_dev_serve_falling_clk s).data_line.level = true :=
  host_to_dev_serve_falling_clk_data_line (P := fun pin => pin.level = true) set_data_high_z_level
    set_data_low_level s

theorem outputs_clock_out (s : Connector) (n : Nat) :
    Machine.outputs clock_out s (List.replicate n ()) = List.replicate n true := by
  induction n generalizing s with
  | zero => rfl
  | succ n ih =>
    rw [List.replicate_succ, Machine.outputs, ih, clock_out, host_to_dev_serve_falling_clk_level]
    rfl

/-- Every byte is sent as the frame of `FF`. -/
theorem transmit_frame (s : Connector) (byte : uint8_t) : (transmit s byte).1 = frame 0xFF := by
  have hframe : frame 0xFF = false :: List.replicate 10 true := by decide
  rw [transmit, outputs_clock_out, hframe]

theorem outputs_transmit (s : Connector) (bytes : List uint8_t) :
    Machine.outputs transmit s bytes = bytes.map fun _ => frame 0xFF := by
  induction bytes generalizing s with
  | nil => rfl
  | cons byte bytes ih => rw [Machine.outputs, transmit_frame, ih, List.map_cons]

theorem decodes_iff {r : Connector} (hrec : Receives r []) (byte : uint8_t) :
    Decodes r (frame 0xFF) byte ↔ byte = 0xFF := by
  obtain ⟨hbyte, hwindow⟩ := window_frame 0xFF
  have hfinal := (clk_fall_cb_run_window hrec (frame 0xFF)).2.2.1
  rw [hwindow] at hfinal
  rw [Decodes, codesPut_eq_delivered hrec, hbyte, List.singleton_inj]
  exact ⟨fun h => h.1.symm, fun h => ⟨h.symm, hfinal⟩⟩

/-- What the transmitter clocks out is decoded to the bytes it was given exactly
when all of these are `FF`. -/
theorem transmits_decodably_iff (s r : Connector) (bytes : List uint8_t) (hbit : r.current_bit_no = 0)
    (hstate : r.PS2_state ≠ .PS2_STATE_HOST_TO_DEV) :
    TransmitsDecodably s r bytes ↔ ∀ byte ∈ bytes, byte = 0xFF := by
  have hrec : Receives r [] := ⟨hstate, Holds.of_bit_no_zero hbit⟩
  rw [TransmitsDecodably, outputs_transmit, List.forall₂_map_left_iff, List.forall₂_same]
  simp only [decodes_iff hrec]
  refine ⟨And.left, fun hbytes => ⟨hbytes, ?_⟩⟩
  have hframes : (bytes.map fun _ => frame 0xFF).flatten = bytes.flatMap frame := by
    rw [List.flatMap_def]
    exact congrArg List.flatten (List.map_congr_left fun byte hbyte => by rw [hbytes byte hbyte])
  rw [hframes, codesPut_eq_delivered hrec]
  exact (window_frames bytes).1

/-- The reset command, which is `FF`, sent twice. -/
theorem reset_transmits_decodably : TransmitsDecodably ps2_connector_init ps2_connector_init [0xFF, 0xFF] :=
  (transmits_decodably_iff ps2_connector_init ps2_connector_init [0xFF, 0xFF] rfl (by decide)).mpr (by decide)

/-- The set-LEDs command is not decoded to itself. -/
theorem set_leds_not_transmitted : ¬ TransmitsDecodably ps2_connector_init ps2_connector_init [0xED] := by
  rintro ⟨-, hcodes⟩
  exact absurd hcodes (by decide)

end peripheral_hids.ps2_connector
