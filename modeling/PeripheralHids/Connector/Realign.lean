import Mathlib.Data.Set.Basic
import PeripheralHids.Connector.Ascent

open ShiftRegister

namespace peripheral_hids.ps2_connector

theorem oddOnes_frame (byte : uint8_t) : oddOnes (frame byte) = false := by
  have hsplit : frame byte = [false] ++ (bits byte ++ [!oddOnes (bits byte)]) ++ [true] := by simp [frame]
  rw [hsplit, oddOnes_append, oddOnes_append, oddOnes_with_parity, oddOnes_singleton, oddOnes_singleton]
  rfl

/-- A receiver that takes a descent inside a frame for the start bit closes its
window on the descent of the next frame: parity counts the same ones. -/
theorem window_descent (byte : uint8_t) {k : Nat} (hk : k + 1 ≤ 10)
    (hone : (frame byte).getD k false = true) (hzero : (frame byte).getD (k + 1) false = false) :
    Machine.final windowStep ((frame byte).drop (k + 1)) (frame byte) = (frame byte).drop (k + 1) := by
  have hlength : (frame byte).length = 11 := frame_length byte
  have hdrop : (frame byte).drop (k + 1) = false :: (frame byte).drop (k + 2) := by
    rw [List.drop_eq_getElem_cons (by omega), ← List.getD_eq_getElem _ false, hzero]
  have htake : (frame byte).take (k + 1) = (frame byte).take k ++ [true] := by
    rw [frame_take_succ byte (by omega), hone]
  have hodd : oddOnes ((frame byte).drop (k + 2) ++ (frame byte).take k) = true := by
    have hall := oddOnes_frame byte
    rw [← List.take_append_drop (k + 1) (frame byte), hdrop, htake] at hall
    simp only [oddOnes_append, oddOnes_singleton, oddOnes_cons_false] at hall ⊢
    revert hall
    cases oddOnes ((frame byte).take k) <;> cases oddOnes ((frame byte).drop (k + 2)) <;> simp
  have hrestart : Machine.final windowStep [] ((frame byte).drop (k + 1)) = (frame byte).drop (k + 1) := by
    rw [hdrop]
    by_cases hfirst : k = 0
    · subst hfirst
      rw [List.take_zero, List.append_nil] at hodd
      rw [(window_ten_bits _ (by simp)).2, if_pos hodd]
    · rw [Machine.final, windowStep_start]
      exact (window_collect [false] _ (by simp) (by simp; omega)).2
  have hclose : Machine.final windowStep ((frame byte).drop (k + 1)) ((frame byte).take (k + 1)) = [] := by
    nth_rewrite 1 [← hrestart]
    rw [← Machine.final_append, hdrop, htake, List.cons_append, ← List.append_assoc]
    exact (window_well_formed _ (by simp; omega) hodd).2
  nth_rewrite 2 [← List.take_append_drop (k + 1) (frame byte)]
  rw [Machine.final_append, hclose, hrestart]

set_option maxRecDepth 4096 in
/-- Every other frame has a zero directly after a one. -/
theorem exists_descent : ∀ byte : uint8_t, byte ∉ ascendingBytes →
    ∃ k : Fin 10, (frame byte).getD k false = true ∧ (frame byte).getD (k + 1) false = false := by
  decide +kernel

/-- However often its byte is repeated, a receiver that started on a descent
stays on it. -/
theorem window_descent_repeats (byte : uint8_t) {k : Nat} (hk : k + 1 ≤ 10)
    (hone : (frame byte).getD k false = true) (hzero : (frame byte).getD (k + 1) false = false) (n : Nat) :
    Machine.final windowStep ((frame byte).drop (k + 1)) ((List.replicate n byte).flatMap frame) =
      (frame byte).drop (k + 1) := by
  induction n with
  | zero => rfl
  | succ n ih =>
    rw [List.replicate_succ, List.flatMap_cons, Machine.final_append, window_descent byte hk hone hzero]
    exact ih

/-- Every state of the receiver is that of some window. -/
theorem exists_holds (s : Connector) : ∃ w, Holds s w := by
  have hlt := s.bit_no_lt
  have hbits : ∀ stale, shiftAll stale (bits s.incoming_data).reverse = s.incoming_data := by
    intro stale
    rw [← ofBits_bits (shiftAll stale (bits s.incoming_data).reverse), bits_shiftAll _ _ (by simp),
      List.reverse_reverse, ofBits_bits]
  by_cases hdata : s.current_bit_no ≤ 8
  · obtain ⟨k, hk⟩ : ∃ k, s.current_bit_no + k = 8 := ⟨8 - s.current_bit_no, by omega⟩
    refine ⟨(bits s.incoming_data).reverse.drop k, by simp; omega,
      shiftAll 0 ((bits s.incoming_data).reverse.take k), ?_⟩
    have hshort : ((bits s.incoming_data).reverse.drop k).take 9 = (bits s.incoming_data).reverse.drop k :=
      List.take_of_length_le (by simp; omega)
    rw [hshort, ← shiftAll_append, List.take_append_drop, hbits]
  · refine ⟨(false :: (bits s.incoming_data).reverse) ++ List.replicate (s.current_bit_no - 9) true,
      by simp; omega, 0, ?_⟩
    rw [List.take_left' (by simp), shiftAll_cons, hbits]

/-- A receiver whose unfinished frame is `w`. -/
def withWindow (s : Connector) (w : List Bool) (hw : w.length < 11) : Connector :=
  { s with
    current_bit_no := w.length
    incoming_data := shiftAll s.incoming_data (w.take 9)
    bit_no_lt := hw }

theorem receives_withWindow {s : Connector} (hstate : s.PS2_state ≠ .PS2_STATE_HOST_TO_DEV)
    (w : List Bool) (hw : w.length < 11) : Receives (withWindow s w hw) w :=
  ⟨hstate, rfl, s.incoming_data, rfl⟩

/-- After the frames of `bytes` the receiver is aligned, and all later frames
are delivered as the bytes they encode and leave it aligned. -/
def AlignedAfter (s : Connector) (bytes : List uint8_t) : Prop :=
  (Machine.final clk_fall_cb s (bytes.flatMap frame)).current_bit_no = 0 ∧
    ∀ later, codesPut (Machine.final clk_fall_cb s (bytes.flatMap frame)) (later.flatMap frame) = later ∧
      (Machine.final clk_fall_cb s ((bytes ++ later).flatMap frame)).current_bit_no = 0

theorem alignedAfter_iff {s : Connector} {w : List Bool} (hrec : Receives s w) (bytes : List uint8_t) :
    AlignedAfter s bytes ↔ Machine.final windowStep w (bytes.flatMap frame) = [] := by
  obtain ⟨hstate, hholds⟩ := (clk_fall_cb_run_window hrec (bytes.flatMap frame)).2
  constructor
  · intro haligned
    apply List.eq_nil_of_length_eq_zero
    rw [← hholds.1]
    exact haligned.1
  · intro hempty
    rw [hempty] at hholds
    refine ⟨hholds.1, fun later => ?_⟩
    obtain ⟨hbytes, hfinal⟩ := window_frames later
    have hlater := (clk_fall_cb_run_window ⟨hstate, hholds⟩ (later.flatMap frame)).2.2.1
    rw [hfinal] at hlater
    rw [List.flatMap_append, Machine.final_append]
    exact ⟨(codesPut_eq_delivered ⟨hstate, hholds⟩ _).trans hbytes, hlater⟩

/-- A receiver that joined the frames of a byte on a descent never realigns
while that byte repeats. -/
theorem not_alignedAfter_descent (byte : uint8_t) {k : Nat} (hk : k + 1 ≤ 10)
    (hone : (frame byte).getD k false = true) (hzero : (frame byte).getD (k + 1) false = false)
    (hlength : ((frame byte).drop (k + 1)).length < 11) (n : Nat) :
    ¬ AlignedAfter (withWindow ps2_connector_init ((frame byte).drop (k + 1)) hlength)
      (List.replicate n byte) := by
  have hrec := receives_withWindow (s := ps2_connector_init) (by decide) _ hlength
  rw [alignedAfter_iff hrec, window_descent_repeats byte hk hone hzero, ← List.length_eq_zero_iff]
  simp
  omega

/-- The `A` key held down, joined five bits before the end of a frame: no number
of frames realigns the receiver. -/
theorem held_key_never_realigns :
    (withWindow ps2_connector_init ((frame 0x1C).drop 6) (by decide)).PS2_state ≠ .PS2_STATE_HOST_TO_DEV ∧
      ¬ ∃ N, ∀ bytes : List uint8_t, N ≤ bytes.length →
        AlignedAfter (withWindow ps2_connector_init ((frame 0x1C).drop 6) (by decide)) bytes := by
  refine ⟨by decide, ?_⟩
  rintro ⟨N, hN⟩
  exact not_alignedAfter_descent 0x1C (by decide) (by decide) (by decide) (by decide) N
    (hN (List.replicate N 0x1C) (by simp))

/-- A receiver in any state is realigned by one frame of `0xFF`, whatever came
before. For a set of bytes, enough frames of them in a row realign it from every
state exactly when none of their frames has a zero after a one: any other byte,
repeated, keeps some receiver on a window that spans two frames for ever. -/
theorem realigns_iff_ascending :
    (∀ s : Connector, s.PS2_state ≠ .PS2_STATE_HOST_TO_DEV →
      ∀ earlier, AlignedAfter s (earlier ++ [0xFF])) ∧
    ∀ B : Set uint8_t,
      (∀ s : Connector, s.PS2_state ≠ .PS2_STATE_HOST_TO_DEV → ∃ N, ∀ earlier bytes,
        (∀ byte ∈ bytes, byte ∈ B) → N ≤ bytes.length → AlignedAfter s (earlier ++ bytes)) ↔
      ∀ byte ∈ B, byte ∈ ascendingBytes := by
  have hwindow (s : Connector) (hstate : s.PS2_state ≠ .PS2_STATE_HOST_TO_DEV) (earlier : List uint8_t) :
      ∃ w, Receives s w ∧ (Machine.final windowStep w (earlier.flatMap frame)).length ≤ 10 := by
    obtain ⟨w, hholds⟩ := exists_holds s
    have hlater := (clk_fall_cb_run_window ⟨hstate, hholds⟩ (earlier.flatMap frame)).2.2.length_lt
    exact ⟨w, ⟨hstate, hholds⟩, by omega⟩
  refine ⟨fun s hstate earlier => ?_, fun B => ⟨fun hrealigns byte hbyte => ?_, fun hB s hstate => ⟨10, ?_⟩⟩⟩
  · obtain ⟨w, hrec, hlength⟩ := hwindow s hstate earlier
    rw [alignedAfter_iff hrec, List.flatMap_append, Machine.final_append, List.flatMap_singleton]
    have hframe : frame 0xFF = ascent 1 (11 - 1) := by decide
    obtain hempty | ⟨hzeros, -⟩ := window_ascending_frame (by decide) (by decide) hframe _ hlength
    · exact hempty
    · omega
  · by_contra hnot
    obtain ⟨k, hone, hzero⟩ := exists_descent byte hnot
    have hlength : ((frame byte).drop (k + 1)).length < 11 := by simp; omega
    have hrec := receives_withWindow (s := ps2_connector_init) (by decide) _ hlength
    obtain ⟨N, hN⟩ := hrealigns _ hrec.1
    exact not_alignedAfter_descent byte (by omega) hone hzero hlength N
      (hN [] (List.replicate N byte) (fun b hb => by rw [List.eq_of_mem_replicate hb]; exact hbyte) (by simp))
  · intro earlier bytes hbytes hten
    obtain ⟨w, hrec, hlength⟩ := hwindow s hstate earlier
    rw [alignedAfter_iff hrec, List.flatMap_append, Machine.final_append]
    exact window_realigned bytes (fun b hb => hB b (hbytes b hb)) hten _ hlength

end peripheral_hids.ps2_connector
