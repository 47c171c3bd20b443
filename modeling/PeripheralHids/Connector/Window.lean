import PeripheralHids.Lib.ShiftRegister
import PeripheralHids.Lib.Machine
import PeripheralHids.Connector.Funs

open peripheral_hids.msg_q ShiftRegister

namespace peripheral_hids.ps2_connector

set_option maxRecDepth 4096 in
theorem odd_parity_check_eq : ∀ x : uint8_t, odd_parity_check x = oddOnes (bits x) := by
  decide +kernel

set_option maxRecDepth 4096 in
private theorem bit_reverse_table_eq :
    bit_reverse_table =
      (List.range 256).map fun n => ofBits 8 (bits (BitVec.ofNat 8 n)).reverse := by
  decide +kernel

/-- The table mirrors the bits of every byte. -/
theorem reverse_eq (x : uint8_t) : reverse x = ofBits 8 (bits x).reverse := by
  have hlt : x.toNat < 256 := x.isLt
  have hentry : bit_reverse_table[x.toNat]? = some (ofBits 8 (bits x).reverse) := by
    rw [bit_reverse_table_eq]
    simp [hlt]
  unfold reverse
  rw [List.get_eq_getElem]
  exact (List.getElem?_eq_some_iff.mp hentry).2

/-- The receiver seen from the wire: the bits of the unfinished frame, start bit
first, and the byte delivered when the stop bit arrives. -/
def windowStep (w : List Bool) (b : Bool) : Option uint8_t × List Bool :=
  if w.length = 0 then (none, if b then [] else [b])
  else if w.length < 9 then (none, w ++ [b])
  else if w.length = 9 then (none, if oddOnes (w.tail ++ [b]) then w ++ [b] else [])
  else (if b then some (ofBits 8 (w.tail.take 8)) else none, [])

/-- The connector has received exactly the bits of `w` since it last waited for
a start bit. What the shift register held before them is left open. -/
def Holds (s : Connector) (w : List Bool) : Prop :=
  s.current_bit_no = w.length ∧ ∃ stale, s.incoming_data = shiftAll stale (w.take 9)

/-- The code that one edge passes to `k_msgq_put`, as a reader will see it. -/
def Served.code : Served → Option uint8_t
  | .put code _ => some (reverse code)
  | _ => none

set_option maxRecDepth 4096 in
private theorem shift_in_eq : ∀ (x : uint8_t) (b : Bool),
    ((x <<< 1) &&& 0b11111110) ||| (BitVec.ofBool b).setWidth 8 = shiftIn x b := by
  decide +kernel

theorem Holds.of_bit_no_zero {s : Connector} (hbit : s.current_bit_no = 0) : Holds s [] :=
  ⟨hbit, s.incoming_data, rfl⟩

theorem Holds.length_lt {s : Connector} {w : List Bool} (hholds : Holds s w) : w.length < 11 := by
  rw [← hholds.1]
  exact s.bit_no_lt

/-- With nine bits received the register holds the eight data bits mirrored:
the start bit has been shifted out again. -/
theorem Holds.data_bits {s : Connector} {w : List Bool} (hholds : Holds s w) (hnine : 9 ≤ w.length) :
    bits s.incoming_data = (w.tail.take 8).reverse := by
  obtain ⟨-, stale, hdata⟩ := hholds
  obtain ⟨start, rest, rfl⟩ := List.exists_cons_of_length_pos (l := w) (by omega)
  simp only [List.length_cons] at hnine
  rw [hdata, List.take_succ_cons, shiftAll_cons, List.tail_cons]
  exact bits_shiftAll _ _ (by rw [List.length_take]; omega)

theorem serve_start_high {s : Connector} (hbit : s.current_bit_no = 0) :
    dev_to_host_serve_falling_clk s true = (.start_bit_error, s.restart) := by
  unfold dev_to_host_serve_falling_clk
  rw [if_pos ⟨hbit, by decide⟩]

theorem serve_shift {s : Connector} {b : Bool} (hbit : s.current_bit_no < 9)
    (hstart : s.current_bit_no = 0 → b = false) :
    dev_to_host_serve_falling_clk s b =
      (.taken, { s with incoming_data := shiftIn s.incoming_data b }.count_bit) := by
  have hfirst : ¬ (s.current_bit_no = 0 ∧ b ≠ false) := fun h => h.2 (hstart h.1)
  have hnine : ¬ s.current_bit_no = 9 := by omega
  have hten : ¬ s.current_bit_no = 10 := by omega
  unfold dev_to_host_serve_falling_clk
  rw [if_neg hfirst]
  simp only [Connector.shift_data, hbit, if_true, shift_in_eq, hnine, hten, false_and, if_false]

theorem serve_parity {s : Connector} (b : Bool) (hbit : s.current_bit_no = 9) :
    dev_to_host_serve_falling_clk s b =
      if odd_parity_check s.incoming_data = b then (.parity_error s.incoming_data, s.restart)
      else (.taken, s.count_bit) := by
  have hfirst : ¬ (s.current_bit_no = 0 ∧ b ≠ false) := by omega
  have hdata : s.shift_data b = s := if_neg (by omega)
  unfold dev_to_host_serve_falling_clk
  rw [if_neg hfirst]
  simp only [hdata, hbit, true_and, Nat.reduceEqDiff, if_false]

theorem serve_stop {s : Connector} (b : Bool) (hbit : s.current_bit_no = 10) :
    dev_to_host_serve_falling_clk s b =
      if b = true then
        (.put s.incoming_data (k_msgq_put s.rx_msg_que s.incoming_data).1,
          { s with rx_msg_que := (k_msgq_put s.rx_msg_que s.incoming_data).2 }.count_bit)
      else (.stop_bit_error, s.restart) := by
  have hfirst : ¬ (s.current_bit_no = 0 ∧ b ≠ false) := by omega
  have hdata : s.shift_data b = s := if_neg (by omega)
  unfold dev_to_host_serve_falling_clk
  rw [if_neg hfirst]
  simp only [hdata, hbit, Nat.reduceEqDiff, false_and, if_false, if_true]
  cases b <;> rfl

/-- One falling edge on the receiving side is one step of the window: all three
early returns empty it, and a code is put exactly when a byte is delivered. -/
theorem dev_to_host_serve_falling_clk_window {s : Connector} {w : List Bool}
    (hholds : Holds s w) (b : Bool) :
    (dev_to_host_serve_falling_clk s b).1.code = (windowStep w b).1 ∧
      Holds (dev_to_host_serve_falling_clk s b).2 (windowStep w b).2 := by
  have hbit := hholds.1
  have hlt := hholds.length_lt
  obtain ⟨stale, hdata⟩ := hholds.2
  unfold windowStep
  by_cases hzero : w.length = 0
  · obtain rfl : w = [] := List.eq_nil_of_length_eq_zero hzero
    cases b with
    | true =>
      rw [serve_start_high hbit]
      exact ⟨rfl, rfl, s.incoming_data, rfl⟩
    | false =>
      rw [serve_shift (by rw [hbit]; decide) (fun _ => rfl)]
      exact ⟨rfl, by simp [Connector.count_bit, hbit], s.incoming_data, rfl⟩
  by_cases hcollect : w.length < 9
  · rw [serve_shift (by omega) (by omega), if_neg hzero, if_pos hcollect]
    refine ⟨rfl, ?_, stale, ?_⟩
    · have hmod : (w.length + 1) % 11 = w.length + 1 := Nat.mod_eq_of_lt (by omega)
      simp [Connector.count_bit, hbit, hmod]
    · rw [List.take_of_length_le (by simp; omega), shiftAll_append]
      rw [List.take_of_length_le (by omega)] at hdata
      rw [← hdata]
      rfl
  have hbits := hholds.data_bits (by omega)
  rw [if_neg hzero, if_neg hcollect]
  by_cases hnine : w.length = 9
  · have hparity : odd_parity_check s.incoming_data = oddOnes w.tail := by
      rw [odd_parity_check_eq, hbits, oddOnes_reverse, List.take_of_length_le (by simp; omega)]
    rw [serve_parity b (by omega), if_pos hnine, hparity, oddOnes_append, oddOnes_singleton]
    by_cases hodd : oddOnes w.tail = b
    · rw [if_pos hodd, hodd, Bool.xor_self]
      exact ⟨rfl, rfl, s.incoming_data, rfl⟩
    · have hxor : (oddOnes w.tail ^^ b) = true := by simpa [bne] using hodd
      rw [if_neg hodd, hxor]
      refine ⟨rfl, by simp [Connector.count_bit, hbit, hnine], stale, ?_⟩
      rw [if_pos rfl, List.take_append_of_le_length (by omega)]
      exact hdata
  · rw [serve_stop b (by omega), if_neg hnine]
    cases b with
    | false => exact ⟨rfl, rfl, s.incoming_data, rfl⟩
    | true =>
      have hten : w.length = 10 := by omega
      refine ⟨?_, by simp [Connector.count_bit, hbit, hten], s.incoming_data, rfl⟩
      simp [Served.code, reverse_eq, hbits]

/-- No send is in progress and the bits of `w` are those of the unfinished frame. -/
def Receives (s : Connector) (w : List Bool) : Prop :=
  s.PS2_state ≠ .PS2_STATE_HOST_TO_DEV ∧ Holds s w

theorem clk_fall_cb_of_receiving {s : Connector} (hstate : s.PS2_state ≠ .PS2_STATE_HOST_TO_DEV)
    (b : Bool) :
    clk_fall_cb s b =
      (some (dev_to_host_serve_falling_clk s b).1, (dev_to_host_serve_falling_clk s b).2) := by
  unfold clk_fall_cb
  cases hs : s.PS2_state with
  | PS2_STATE_IDLE => rfl
  | PS2_STATE_DEV_TO_HOST => rfl
  | PS2_STATE_HOST_TO_DEV => exact absurd hs hstate

/-- What an edge on the receiving side leaves alone: it never starts or ends a
send, and the queue changes only through the put that it reports. -/
theorem dev_to_host_serve_falling_clk_frame (s : Connector) (b : Bool) :
    (dev_to_host_serve_falling_clk s b).2.PS2_state = s.PS2_state ∧
      match (dev_to_host_serve_falling_clk s b).1 with
      | .put code result =>
        (result, (dev_to_host_serve_falling_clk s b).2.rx_msg_que) = k_msgq_put s.rx_msg_que code
      | _ => (dev_to_host_serve_falling_clk s b).2.rx_msg_que = s.rx_msg_que := by
  by_cases hshift : s.current_bit_no < 9
  · by_cases hhigh : s.current_bit_no = 0 ∧ b = true
    · obtain ⟨hbit, rfl⟩ := hhigh
      rw [serve_start_high hbit]
      exact ⟨rfl, rfl⟩
    · rw [serve_shift hshift (by simpa using hhigh)]
      exact ⟨rfl, rfl⟩
  · have hlt := s.bit_no_lt
    obtain hnine | hten : s.current_bit_no = 9 ∨ s.current_bit_no = 10 := by omega
    · rw [serve_parity b hnine]
      by_cases hodd : odd_parity_check s.incoming_data = b
      · rw [if_pos hodd]
        exact ⟨rfl, rfl⟩
      · rw [if_neg hodd]
        exact ⟨rfl, rfl⟩
    · rw [serve_stop b hten]
      cases b <;> exact ⟨rfl, rfl⟩

/-- The code an edge passes to `k_msgq_put`, seen through the interrupt handler. -/
def codeOfEdge (served : Option Served) : Option uint8_t :=
  served.bind Served.code

theorem clk_fall_cb_window (s : Connector) (w : List Bool) (b : Bool) (hrec : Receives s w) :
    codeOfEdge (clk_fall_cb s b).1 = (windowStep w b).1 ∧
      Receives (clk_fall_cb s b).2 (windowStep w b).2 := by
  obtain ⟨hstate, hholds⟩ := hrec
  obtain ⟨hcode, hnext⟩ := dev_to_host_serve_falling_clk_window hholds b
  rw [clk_fall_cb_of_receiving hstate]
  refine ⟨hcode, ?_, hnext⟩
  rw [(dev_to_host_serve_falling_clk_frame s b).1]
  exact hstate

/-- Over any stream of edges the connector puts the codes of the window machine
and stays in step with it. -/
theorem clk_fall_cb_run_window {s : Connector} {w : List Bool} (hrec : Receives s w) (bs : List Bool) :
    (Machine.outputs clk_fall_cb s bs).map codeOfEdge = Machine.outputs windowStep w bs ∧
      Receives (Machine.final clk_fall_cb s bs) (Machine.final windowStep w bs) :=
  Machine.run_simulates clk_fall_cb_window hrec bs

end peripheral_hids.ps2_connector
