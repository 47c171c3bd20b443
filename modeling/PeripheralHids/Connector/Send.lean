import PeripheralHids.Connector.Realign

open ShiftRegister

namespace peripheral_hids.ps2_connector

/-- The first edge after a request to send ends the send: the handler puts the
connector back to receiving before it looks at the bit counter. -/
theorem host_to_dev_first_edge (s : Connector) (hbit : s.current_bit_no = 0) :
    ∃ pin, host_to_dev_serve_falling_clk s =
      { s with
        PS2_state := .PS2_STATE_DEV_TO_HOST
        data_line := pin
        current_bit_no := 1
        bit_no_lt := by decide } := by
  obtain ⟨bit, incoming, outgoing, state, data, clk, queue, hlt⟩ := s
  obtain rfl : bit = 0 := hbit
  unfold host_to_dev_serve_falling_clk
  by_cases hcurrent : (0x01 &&& (outgoing >>> 0) : uint8_t) ≠ 0
  · exact ⟨_, by simp only [if_pos hcurrent]; rfl⟩
  · exact ⟨_, by simp only [if_neg hcurrent]; rfl⟩

/-- The first transfer edge puts nothing and leaves a receiver one bit into a
frame that the device is not sending. -/
theorem send_first_edge (s : Connector) (msg : uint8_t) (b : Bool) :
    (clk_fall_cb (ps2_connector_send_byte s msg) b).1 = none ∧
      (clk_fall_cb (ps2_connector_send_byte s msg) b).2.PS2_state = .PS2_STATE_DEV_TO_HOST ∧
      ∃ x, Receives (clk_fall_cb (ps2_connector_send_byte s msg) b).2 [x] := by
  have hedge : clk_fall_cb (ps2_connector_send_byte s msg) b =
      (none, host_to_dev_serve_falling_clk (ps2_connector_send_byte s msg)) := rfl
  obtain ⟨pin, hserved⟩ := host_to_dev_first_edge (ps2_connector_send_byte s msg) rfl
  rw [hedge, hserved]
  obtain ⟨w, hholds⟩ := exists_holds
    { ps2_connector_send_byte s msg with
      PS2_state := .PS2_STATE_DEV_TO_HOST
      data_line := pin
      current_bit_no := 1
      bit_no_lt := by decide }
  obtain ⟨x, rfl⟩ := List.length_eq_one_iff.mp hholds.1.symm
  exact ⟨rfl, rfl, x, nofun, hholds⟩

theorem clk_fall_cb_keeps_receiving (s : Connector) (b : Bool)
    (hstate : s.PS2_state = .PS2_STATE_DEV_TO_HOST) :
    (clk_fall_cb s b).2.PS2_state = .PS2_STATE_DEV_TO_HOST := by
  rw [clk_fall_cb_of_receiving (by rw [hstate]; nofun)]
  exact (dev_to_host_serve_falling_clk_frame s b).1.trans hstate

/-- Once a send has been requested the connector never becomes idle, however
many edges follow: the wait in `ps2_connector_send_byte` does not end. -/
theorem send_never_idle (s : Connector) (msg : uint8_t) (levels : List Bool) :
    (Machine.final clk_fall_cb (ps2_connector_send_byte s msg) levels).PS2_state ≠ .PS2_STATE_IDLE := by
  cases levels with
  | nil => exact PS2_state_e.noConfusion
  | cons b levels =>
    obtain ⟨-, hfirst, -⟩ := send_first_edge s msg b
    have hkept := Machine.final_invariant clk_fall_cb_keeps_receiving hfirst levels
    rw [Machine.final, hkept]
    exact PS2_state_e.noConfusion

/-- Nine bits and a low one complete a window of one bit to a frame that is
dropped, by the parity check or by the low stop bit. -/
theorem window_low_stop (x : Bool) (levels : List Bool) (hnine : levels.length = 9) :
    delivered [x] (levels ++ [false]) = [] ∧
      Machine.final windowStep [x] (levels ++ [false]) = if oddOnes levels then [] else [false] := by
  obtain ⟨hquiet, hwindow⟩ := window_complete [x] levels (by simp) (by simp) (by simp; omega)
  rw [delivered_append, hquiet, Machine.final_append, hwindow, delivered_cons, Machine.final]
  by_cases hodd : oddOnes levels = true
  · have hstop := windowStep_stop (w := x :: levels) false (by simp [hnine])
    simp only [List.singleton_append, List.tail_cons, hodd, if_true, hstop]
    exact ⟨rfl, rfl⟩
  · simp only [List.singleton_append, List.tail_cons, hodd]
    exact ⟨rfl, rfl⟩

/-- The ten transfer edges and the acknowledge are received as a frame whose
start bit is the first transfer bit. None of them puts a code, and the receiver
is aligned afterwards only if the levels it sampled had odd parity. -/
theorem transfer_received (s : Connector) (msg : uint8_t) (levels : List Bool)
    (hten : levels.length = 10) :
    codesPut (ps2_connector_send_byte s msg) (levels ++ [false]) = [] ∧
      Receives (Machine.final clk_fall_cb (ps2_connector_send_byte s msg) (levels ++ [false]))
        (if oddOnes levels.tail then [] else [false]) := by
  cases levels with
  | nil => simp at hten
  | cons b levels =>
    obtain ⟨hnone, -, x, hrec⟩ := send_first_edge s msg b
    obtain ⟨hquiet, hwindow⟩ := window_low_stop x levels (by simpa using hten)
    have hfinal := (clk_fall_cb_run_window hrec (levels ++ [false])).2
    rw [hwindow] at hfinal
    rw [List.cons_append, codesPut_cons, hnone, codesPut_eq_delivered hrec, hquiet]
    exact ⟨rfl, hfinal⟩

/-- One stray start bit before a valid frame costs that frame and no more. -/
theorem window_stray_start (byte : uint8_t) :
    delivered [false] (frame byte) = [] ∧ Machine.final windowStep [false] (frame byte) = [] := by
  have hsplit : frame byte = (false :: bits byte) ++ [!oddOnes (bits byte), true] := rfl
  obtain ⟨hquiet, hwindow⟩ :=
    window_complete [false] (false :: bits byte) (by simp) (by simp) (by simp)
  rw [List.singleton_append, List.tail_cons, oddOnes_cons_false] at hwindow
  rw [hsplit, delivered_append, Machine.final_append, hquiet, hwindow]
  cases hodd : oddOnes (bits byte) with
  | false => exact ⟨rfl, rfl⟩
  | true =>
    have hstop := windowStep_stop (w := false :: false :: bits byte) false (by simp)
    simp only [if_true, Bool.not_true, delivered_cons, Machine.final, hstop]
    exact ⟨rfl, rfl⟩

/-- The next frame after a transfer arrives exactly when the levels sampled
during the transfer had odd parity. -/
theorem frame_after_transfer (s : Connector) (msg : uint8_t) (levels : List Bool)
    (hten : levels.length = 10) (byte : uint8_t) :
    codesPut (Machine.final clk_fall_cb (ps2_connector_send_byte s msg) (levels ++ [false])) (frame byte) =
      if oddOnes levels.tail then [byte] else [] := by
  obtain ⟨-, hrec⟩ := transfer_received s msg levels hten
  rw [codesPut_eq_delivered hrec]
  split
  · exact (window_frame byte).1
  · exact (window_stray_start byte).1

/-- What a host-to-device transfer should do: with the ten falling edges of
`levels` and the acknowledge, whose data level is low, the connector is busy
until the tenth edge and idle after it, no code is put, and the next frame is
delivered. -/
def TransferCompletes (s : Connector) (msg : uint8_t) (levels : List Bool) : Prop :=
  (∀ n < 10, (Machine.final clk_fall_cb (ps2_connector_send_byte s msg) (levels.take n)).PS2_state ≠
      .PS2_STATE_IDLE) ∧
    (Machine.final clk_fall_cb (ps2_connector_send_byte s msg) levels).PS2_state = .PS2_STATE_IDLE ∧
    codesPut (ps2_connector_send_byte s msg) (levels ++ [false]) = [] ∧
    ∀ byte, codesPut (Machine.final clk_fall_cb (ps2_connector_send_byte s msg) (levels ++ [false]))
      (frame byte) = [byte]

/-- No transfer completes, from whatever state it is requested, whatever byte it
sends and whatever levels the line takes. -/
theorem transfer_never_completes (s : Connector) (msg : uint8_t) (levels : List Bool) :
    ¬ TransferCompletes s msg levels := by
  intro hcompletes
  exact send_never_idle s msg levels hcompletes.2.1

/-- The set-LEDs command, clocked out of a connector that has just been
initialised, with the levels of a correct transfer. -/
theorem set_leds_transfer_not_completed :
    ¬ TransferCompletes ps2_connector_init 0xED
      [true, false, true, true, false, true, true, true, true, true] :=
  fun hcompletes => send_never_idle _ _ _ hcompletes.2.1

end peripheral_hids.ps2_connector
