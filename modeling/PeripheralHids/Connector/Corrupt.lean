import PeripheralHids.Connector.Ascent

open ShiftRegister

namespace peripheral_hids.ps2_connector

/-- A frame on the line and the one bit of it that arrives wrong, if any: a data
bit, least significant first, the parity bit as `8` or the stop bit as `9`. -/
structure Sent where
  byte : uint8_t
  flipped : Option (Fin 10)
  deriving DecidableEq, Repr

def Sent.levels (f : Sent) : List Bool :=
  match f.flipped with
  | none => frame f.byte
  | some i => (frame f.byte).modify (i + 1) not

/-- The bytes of the frames that arrive as they were sent. -/
def untouched (sent : List Sent) : List uint8_t :=
  (sent.filter fun f => f.flipped = none).map Sent.byte

theorem untouched_cons (f : Sent) (sent : List Sent) :
    untouched (f :: sent) = (if f.flipped = none then [f.byte] else []) ++ untouched sent := by
  by_cases hflipped : f.flipped = none
  · simp [untouched, hflipped]
  · simp [untouched, hflipped]

private theorem modify_append {α : Type} (g : α → α) {xs : List α} (ys : List α) {i : Nat} (hi : i < xs.length) :
    (xs ++ ys).modify i g = xs.modify i g ++ ys := by
  induction xs generalizing i with
  | nil => simp at hi
  | cons x xs ih =>
    cases i with
    | zero => rfl
    | succ i =>
      rw [List.cons_append, List.modify_succ_cons, List.modify_succ_cons, ih (by simpa using hi), List.cons_append]

/-- A flipped data or parity bit fails the parity check, and the stop bit that is
still to come is not taken for a start bit. -/
theorem window_flipped_data (byte : uint8_t) {i : Nat} (hi : i < 9) :
    delivered [] ((frame byte).modify (i + 1) not) = [] ∧
      Machine.final windowStep [] ((frame byte).modify (i + 1) not) = [] := by
  have hlength : (bits byte ++ [!oddOnes (bits byte)]).length = 9 := by simp
  have hframe : (frame byte).modify (i + 1) not =
      (false :: (bits byte ++ [!oddOnes (bits byte)]).modify i not) ++ [true] := by
    have hsplit : frame byte = false :: ((bits byte ++ [!oddOnes (bits byte)]) ++ [true]) := by simp [frame]
    rw [hsplit, List.modify_succ_cons, modify_append _ _ (by omega), List.cons_append]
  have heven : oddOnes ((bits byte ++ [!oddOnes (bits byte)]).modify i not) = false := by
    rw [oddOnes_modify_not (by omega), oddOnes_with_parity, Bool.not_true]
  obtain ⟨hquiet, hwindow⟩ := window_ten_bits ((bits byte ++ [!oddOnes (bits byte)]).modify i not)
    (by rw [List.length_modify]; exact hlength)
  rw [heven, if_neg Bool.false_ne_true] at hwindow
  rw [hframe, delivered_append, Machine.final_append, hquiet, hwindow]
  exact ⟨rfl, rfl⟩

/-- A low stop bit drops the frame that it ends. -/
theorem window_flipped_stop (byte : uint8_t) :
    delivered [] ((frame byte).modify 10 not) = [] ∧
      Machine.final windowStep [] ((frame byte).modify 10 not) = [] := by
  have hframe : (frame byte).modify 10 not = (false :: (bits byte ++ [!oddOnes (bits byte)])) ++ [false] := by
    have hstop : (frame byte)[10]? = some true := by simp [frame]
    rw [List.modify_eq_take_cons_drop (by simp), frame_take_ten, (List.getElem?_eq_some_iff.mp hstop).2,
      List.drop_eq_nil_of_le (by simp)]
    rfl
  obtain ⟨hquiet, hwindow⟩ := window_ten_bits (bits byte ++ [!oddOnes (bits byte)]) (by simp)
  rw [if_pos (oddOnes_with_parity byte)] at hwindow
  have hstop := windowStep_stop (w := false :: (bits byte ++ [!oddOnes (bits byte)])) false (by simp)
  rw [hframe, delivered_append, Machine.final_append, hquiet, hwindow, delivered_cons, Machine.final, hstop]
  exact ⟨rfl, rfl⟩

/-- Every frame, corrupted or not, leaves the receiver waiting for a start bit,
and only an untouched one delivers its byte. -/
theorem window_sent (f : Sent) :
    delivered [] f.levels = (if f.flipped = none then [f.byte] else []) ∧
      Machine.final windowStep [] f.levels = [] := by
  obtain ⟨byte, flipped⟩ := f
  cases flipped with
  | none => exact window_frame byte
  | some i =>
    rw [if_neg (by simp)]
    by_cases hdata : i.val < 9
    · exact window_flipped_data byte hdata
    · obtain rfl : i = 9 := by omega
      exact window_flipped_stop byte

theorem window_sents (sent : List Sent) :
    delivered [] (sent.flatMap Sent.levels) = untouched sent ∧
      Machine.final windowStep [] (sent.flatMap Sent.levels) = [] := by
  induction sent with
  | nil => exact ⟨rfl, rfl⟩
  | cons f sent ih =>
    obtain ⟨hbyte, hwindow⟩ := window_sent f
    rw [List.flatMap_cons, delivered_append, Machine.final_append, hwindow, hbyte, ih.1, untouched_cons]
    exact ⟨rfl, ih.2⟩

/-- No event of a schedule finds the queue full. -/
def NeverFull (s : Connector) : List Event → Prop
  | [] => True
  | event :: events =>
    s.rx_msg_que.contents.length ≠ PS2_MSG_QUE_SIZE ∧ NeverFull (Event.serve s event).2 events

instance NeverFull.decidable : (s : Connector) → (events : List Event) → Decidable (NeverFull s events)
  | _, [] => inferInstanceAs (Decidable True)
  | s, event :: events =>
    have := NeverFull.decidable (Event.serve s event).2 events
    inferInstanceAs (Decidable (_ ∧ NeverFull (Event.serve s event).2 events))

/-- While the queue has room, a schedule returns and queues, after what was
queued already, all that the window machine delivers on its edges. -/
theorem schedule_delivers {s : Connector} {w : List Bool} {events : List Event} (hrec : Receives s w)
    (hroom : NeverFull s events) :
    returned s events ++ queued (Machine.final Event.serve s events) = queued s ++ delivered w (edges events) ∧
      Receives (Machine.final Event.serve s events) (Machine.final windowStep w (edges events)) := by
  induction events generalizing s w with
  | nil => exact ⟨(List.append_nil _).symm, hrec⟩
  | cons event events ih =>
    rw [returned_cons, Machine.final, List.append_assoc]
    cases event with
    | get =>
      obtain ⟨hconserve, hfinal⟩ := ih (receives_get hrec) hroom.2
      rw [hconserve, ← List.append_assoc, get_conserves]
      exact ⟨rfl, hfinal⟩
    | edge b =>
      obtain ⟨hcode, hnext⟩ := clk_fall_cb_window s w b hrec
      have hserved : Receives (Event.serve s (.edge b)).2 (windowStep w b).2 := hnext
      obtain ⟨hconserve, hfinal⟩ := ih hserved hroom.2
      have hedge := edge_conserves hrec.1 b
      rw [if_neg hroom.1, hcode] at hedge
      rw [hconserve, ← List.append_assoc, hedge, edges, delivered_cons, List.append_assoc]
      exact ⟨rfl, hfinal⟩

/-- A frame with one wrong bit costs only itself: whatever frames are corrupted
and whenever the queue is read, the readers get the bytes of the others in
order, and the receiver ends aligned. -/
theorem corrupted_frames_cost_themselves (s : Connector) (sent : List Sent) (events : List Event)
    (hbit : s.current_bit_no = 0) (hstate : s.PS2_state ≠ .PS2_STATE_HOST_TO_DEV)
    (hedges : edges events = sent.flatMap Sent.levels) (hroom : NeverFull s events) :
    returned s events ++ queued (Machine.final Event.serve s events) = queued s ++ untouched sent ∧
      codesPut s (sent.flatMap Sent.levels) = untouched sent ∧
      (Machine.final Event.serve s events).current_bit_no = 0 := by
  have hrec : Receives s [] := ⟨hstate, Holds.of_bit_no_zero hbit⟩
  obtain ⟨hbytes, hwindow⟩ := window_sents sent
  obtain ⟨hdelivered, hfinal⟩ := schedule_delivers hrec hroom
  rw [hedges] at hdelivered hfinal
  rw [hbytes] at hdelivered
  rw [hwindow] at hfinal
  exact ⟨hdelivered, (codesPut_eq_delivered hrec _).trans hbytes, hfinal.2.1⟩

/-- A wrong data bit in `F0` and a low stop bit after the second `1C`, between
two untouched frames. -/
theorem init_corrupted_frames :
    codesPut ps2_connector_init
        (([⟨0x1C, none⟩, ⟨0xF0, some 3⟩, ⟨0x1C, some 9⟩, ⟨0x5A, none⟩] : List Sent).flatMap Sent.levels) =
      [0x1C, 0x5A] := by
  let sent : List Sent := [⟨0x1C, none⟩, ⟨0xF0, some 3⟩, ⟨0x1C, some 9⟩, ⟨0x5A, none⟩]
  exact (corrupted_frames_cost_themselves ps2_connector_init sent ((sent.flatMap Sent.levels).map .edge) rfl
    (by decide) (by decide) (by decide)).2.1

end peripheral_hids.ps2_connector
