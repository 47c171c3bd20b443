import PeripheralHids.Connector.Window

open ShiftRegister

namespace peripheral_hids.ps2_connector

/-- A device-to-host frame: start bit, data bits with the least significant
first, odd parity bit, stop bit. -/
def frame (byte : uint8_t) : List Bool :=
  false :: (bits byte ++ [!oddOnes (bits byte), true])

theorem oddOnes_with_parity (byte : uint8_t) :
    oddOnes (bits byte ++ [!oddOnes (bits byte)]) = true := by
  rw [oddOnes_append, oddOnes_singleton, Bool.xor_not_self]

/-- The frame grammar: the bytes of the well-formed frames of a bit stream and
the bits of the frame it ends in. High bits before a start bit are skipped, a
frame with even parity is dropped before its stop bit is read. -/
def parseFrames : List Bool → List uint8_t × List Bool
  | [] => ([], [])
  | true :: rest => parseFrames rest
  | false :: rest =>
    if rest.length < 9 then ([], false :: rest)
    else if oddOnes (rest.take 9) then
      if rest.length < 10 then ([], false :: rest)
      else
        let later := parseFrames (rest.drop 10)
        (if rest.getD 9 false then ofBits 8 (rest.take 8) :: later.1 else later.1, later.2)
    else parseFrames (rest.drop 9)
termination_by bs => bs.length
decreasing_by
  all_goals
    simp only [List.length_drop, List.length_cons]
    omega

/-- The bytes the window machine delivers over a bit stream. -/
def delivered (w bs : List Bool) : List uint8_t :=
  (Machine.outputs windowStep w bs).filterMap id

theorem delivered_append (w bs cs : List Bool) :
    delivered w (bs ++ cs) = delivered w bs ++ delivered (Machine.final windowStep w bs) cs := by
  simp only [delivered, Machine.outputs_append, List.filterMap_append]

theorem delivered_cons (w : List Bool) (b : Bool) (bs : List Bool) :
    delivered w (b :: bs) = (windowStep w b).1.toList ++ delivered (windowStep w b).2 bs := by
  cases hstep : (windowStep w b).1 <;> simp [delivered, Machine.outputs, hstep]

/-- Bits short of the parity bit are collected without a check. -/
theorem window_collect (w bs : List Bool) (hpos : 0 < w.length) (hshort : w.length + bs.length ≤ 9) :
    delivered w bs = [] ∧ Machine.final windowStep w bs = w ++ bs := by
  induction bs generalizing w with
  | nil => exact ⟨rfl, (List.append_nil w).symm⟩
  | cons b bs ih =>
    simp only [List.length_cons] at hshort
    have hstep : windowStep w b = (none, w ++ [b]) := by
      unfold windowStep
      rw [if_neg (by omega), if_pos (by omega)]
    obtain ⟨hnone, hfinal⟩ := ih (w ++ [b]) (by simp) (by simp; omega)
    rw [delivered_cons, Machine.final, hstep]
    exact ⟨hnone, by simpa using hfinal⟩

theorem windowStep_start : windowStep [] false = (none, [false]) := rfl

theorem windowStep_parity {w : List Bool} (b : Bool) (hnine : w.length = 9) :
    windowStep w b = (none, if oddOnes (w.tail ++ [b]) then w ++ [b] else []) := by
  unfold windowStep
  rw [if_neg (by omega), if_neg (by omega), if_pos hnine]

theorem windowStep_stop {w : List Bool} (b : Bool) (hten : w.length = 10) :
    windowStep w b = (if b then some (ofBits 8 (w.tail.take 8)) else none, []) := by
  unfold windowStep
  rw [if_neg (by omega), if_neg (by omega), if_neg (by omega)]

/-- The bits that complete a window up to its parity bit either pass the parity
check or empty the window. Nothing is delivered yet. -/
theorem window_complete (w bs : List Bool) (hpos : 0 < w.length) (hshort : w.length ≤ 9)
    (hten : w.length + bs.length = 10) :
    delivered w bs = [] ∧
      Machine.final windowStep w bs = if oddOnes (w ++ bs).tail then w ++ bs else [] := by
  obtain ⟨data, parity, rfl⟩ : ∃ data parity, bs = data ++ [parity] := by
    have hne : bs ≠ [] := by rintro rfl; simp at hten; omega
    exact ⟨bs.dropLast, bs.getLast hne, (List.dropLast_append_getLast hne).symm⟩
  rw [List.length_append, List.length_singleton] at hten
  obtain ⟨hnone, hdata⟩ := window_collect w data hpos (by omega)
  have hlast := windowStep_parity (w := w ++ data) parity (by rw [List.length_append]; omega)
  have htail : (w ++ data).tail ++ [parity] = (w ++ (data ++ [parity])).tail := by
    have hne : w ++ data ≠ [] := by
      rw [← List.length_pos_iff, List.length_append]
      omega
    rw [← List.append_assoc]
    exact (List.tail_append_of_ne_nil hne).symm
  rw [htail, List.append_assoc] at hlast
  constructor
  · rw [delivered_append, hnone, hdata, delivered_cons, hlast]
    rfl
  · rw [Machine.final_append, hdata, Machine.final, hlast]
    rfl

/-- The same from the start bit on. -/
theorem window_ten_bits (bs : List Bool) (hnine : bs.length = 9) :
    delivered [] (false :: bs) = [] ∧
      Machine.final windowStep [] (false :: bs) = if oddOnes bs then false :: bs else [] := by
  obtain ⟨hnone, hfinal⟩ := window_complete [false] bs (by simp) (by simp) (by simp; omega)
  rw [delivered_cons, Machine.final, windowStep_start]
  exact ⟨hnone, hfinal⟩

/-- The window machine is the frame grammar, and its window is the frame the
stream ends in. -/
theorem window_parseFrames (bs : List Bool) :
    delivered [] bs = (parseFrames bs).1 ∧ Machine.final windowStep [] bs = (parseFrames bs).2 := by
  induction bs using parseFrames.induct with
  | case1 => simp [parseFrames, delivered, Machine.outputs, Machine.final]
  | case2 rest ih =>
    rw [parseFrames, delivered_cons, Machine.final]
    exact ih
  | case3 rest hshort =>
    rw [parseFrames, if_pos hshort, delivered_cons, Machine.final, windowStep_start]
    exact window_collect [false] rest (by simp) (by simp; omega)
  | case4 rest hlong hodd hshort =>
    rw [parseFrames, if_neg hlong, if_pos hodd, if_pos hshort]
    rw [List.take_of_length_le (by omega)] at hodd
    obtain ⟨hnone, hfinal⟩ := window_ten_bits rest (by omega)
    exact ⟨hnone, by rw [hfinal, if_pos hodd]⟩
  | case5 rest hlong hodd hlonger ih =>
    rw [parseFrames, if_neg hlong, if_pos hodd, if_neg hlonger]
    obtain ⟨hnone, hfinal⟩ := window_ten_bits (rest.take 9) (by rw [List.length_take]; omega)
    have hsplit : false :: rest = (false :: rest.take 9) ++ rest.getD 9 false :: rest.drop 10 := by
      rw [List.getD_eq_getElem _ _ (by omega), List.cons_append, ← List.drop_eq_getElem_cons, List.take_append_drop]
    have hstop := windowStep_stop (w := false :: rest.take 9) (rest.getD 9 false)
      (by rw [List.length_cons, List.length_take]; omega)
    rw [List.tail_cons, List.take_take] at hstop
    rw [hsplit, delivered_append, Machine.final_append, hnone, hfinal, if_pos hodd, delivered_cons,
      Machine.final, hstop]
    refine ⟨?_, ih.2⟩
    dsimp only
    rw [ih.1]
    cases rest.getD 9 false <;> rfl
  | case6 rest hlong heven ih =>
    rw [parseFrames, if_neg hlong, if_neg heven]
    obtain ⟨hnone, hfinal⟩ := window_ten_bits (rest.take 9) (by rw [List.length_take]; omega)
    have hsplit : false :: rest = (false :: rest.take 9) ++ rest.drop 9 := by simp
    rw [hsplit, delivered_append, Machine.final_append, hnone, hfinal, if_neg heven]
    exact ih

/-- The codes passed to `k_msgq_put` over a stream of falling edges, each as
`reverse` shows it to the reader. -/
def codesPut (s : Connector) (bs : List Bool) : List uint8_t :=
  (Machine.outputs clk_fall_cb s bs).filterMap codeOfEdge

theorem codesPut_cons (s : Connector) (b : Bool) (bs : List Bool) :
    codesPut s (b :: bs) = (codeOfEdge (clk_fall_cb s b).1).toList ++ codesPut (clk_fall_cb s b).2 bs := by
  rw [codesPut, Machine.outputs, List.filterMap_cons]
  cases codeOfEdge (clk_fall_cb s b).1 <;> rfl

theorem codesPut_eq_delivered {s : Connector} {w : List Bool} (hrec : Receives s w) (bs : List Bool) :
    codesPut s bs = delivered w bs := by
  rw [delivered, ← (clk_fall_cb_run_window hrec bs).1, List.filterMap_map]
  rfl

/-- On every bit stream, framed or not, the receiver puts exactly the bytes of
the frame grammar, its counter is the length of the frame the stream ends in,
and neither depends on what the shift register held at the start. -/
theorem clk_fall_cb_accepts_frame_grammar (s : Connector) (bs : List Bool)
    (hbit : s.current_bit_no = 0) (hstate : s.PS2_state ≠ .PS2_STATE_HOST_TO_DEV) :
    codesPut s bs = (parseFrames bs).1 ∧
      (Machine.final clk_fall_cb s bs).current_bit_no = (parseFrames bs).2.length ∧
      ∀ stale, codesPut { s with incoming_data := stale } bs = codesPut s bs ∧
        (Machine.final clk_fall_cb { s with incoming_data := stale } bs).current_bit_no =
          (Machine.final clk_fall_cb s bs).current_bit_no := by
  have hrun (stale : uint8_t) :
      codesPut { s with incoming_data := stale } bs = (parseFrames bs).1 ∧
        (Machine.final clk_fall_cb { s with incoming_data := stale } bs).current_bit_no =
          (parseFrames bs).2.length := by
    have hrec : Receives { s with incoming_data := stale } [] := ⟨hstate, Holds.of_bit_no_zero hbit⟩
    obtain ⟨hbytes, hwindow⟩ := window_parseFrames bs
    have hholds := (clk_fall_cb_run_window hrec bs).2.2
    exact ⟨(codesPut_eq_delivered hrec bs).trans hbytes, by rw [hholds.1, hwindow]⟩
  have hself := hrun s.incoming_data
  refine ⟨hself.1, hself.2, fun stale => ?_⟩
  obtain ⟨hcodes, hcount⟩ := hrun stale
  exact ⟨hcodes.trans hself.1.symm, hcount.trans hself.2.symm⟩

/-- A stray high bit and the frame of the `A` key, from the initialised connector. -/
theorem init_accepts_frame_grammar :
    ps2_connector_init.current_bit_no = 0 ∧
      ps2_connector_init.PS2_state ≠ .PS2_STATE_HOST_TO_DEV ∧
      codesPut ps2_connector_init (true :: frame 0x1C) = (parseFrames (true :: frame 0x1C)).1 :=
  ⟨rfl, by decide,
    (clk_fall_cb_accepts_frame_grammar ps2_connector_init (true :: frame 0x1C) rfl (by decide)).1⟩

end peripheral_hids.ps2_connector
