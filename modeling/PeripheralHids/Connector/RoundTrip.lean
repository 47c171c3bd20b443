import PeripheralHids.Connector.Frame

open peripheral_hids.msg_q ShiftRegister

namespace peripheral_hids.ps2_connector

/-- What the connector meets: a falling clock edge with the sampled data level,
or a call of `ps2_connector_get_next_code`. -/
inductive Event where
  | edge (data : Bool)
  | get
  deriving DecidableEq, Repr

/-- The codes that calls of `ps2_connector_get_next_code` return during an
event: the caller's own, or that of a caller which was pending. -/
def Event.serve (s : Connector) : Event → List uint8_t × Connector
  | .edge data =>
    let served := clk_fall_cb s data
    (match served.1 with
      | some (.put _ result) => result.received.map reverse
      | _ => [], served.2)
  | .get =>
    let get := ps2_connector_get_next_code s
    (get.1.toList, get.2)

/-- The bits clocked in by a schedule of events. -/
def edges : List Event → List Bool
  | [] => []
  | .edge data :: events => data :: edges events
  | .get :: events => edges events

/-- The codes returned by the gets of a schedule, in order. -/
def returned (s : Connector) (events : List Event) : List uint8_t :=
  (Machine.outputs Event.serve s events).flatten

/-- The codes in the queue, as the next gets will return them. -/
def queued (s : Connector) : List uint8_t :=
  s.rx_msg_que.contents.map reverse

/-- The number of codes pending whenever an eleventh edge arrives, `n` edges
having been clocked in before. -/
def pendingAtStops (n : Nat) (s : Connector) : List Event → List Nat
  | [] => []
  | .edge data :: events =>
    let later := pendingAtStops (n + 1) (Event.serve s (.edge data)).2 events
    if n % 11 = 10 then s.rx_msg_que.contents.length :: later else later
  | .get :: events => pendingAtStops n (Event.serve s .get).2 events

/-- An edge hands on or queues the code it puts, unless the queue is full. -/
theorem edge_conserves {s : Connector} (hstate : s.PS2_state ≠ .PS2_STATE_HOST_TO_DEV) (b : Bool) :
    (Event.serve s (.edge b)).1 ++ queued (Event.serve s (.edge b)).2 =
      queued s ++ if s.rx_msg_que.contents.length = PS2_MSG_QUE_SIZE then []
        else (codeOfEdge (clk_fall_cb s b).1).toList := by
  have hqueue := (dev_to_host_serve_falling_clk_frame s b).2
  simp only [Event.serve, clk_fall_cb_of_receiving hstate, queued, codeOfEdge]
  cases hserved : (dev_to_host_serve_falling_clk s b).1 with
  | put code result =>
    rw [hserved] at hqueue
    have hput := k_msgq_put_contents s.rx_msg_que code
    rw [← hqueue] at hput
    simp only [← List.map_append]
    rw [hput]
    split <;> simp [Served.code]
  | _ =>
    rw [hserved] at hqueue
    simp only at hqueue
    simp [hqueue, Served.code]

/-- A get returns the first queued code or nothing yet. -/
theorem get_conserves (s : Connector) :
    (Event.serve s .get).1 ++ queued (Event.serve s .get).2 = queued s := by
  have hget := congrArg (List.map reverse) (k_msgq_get_contents s.rx_msg_que)
  rw [List.map_append] at hget
  simp only [Event.serve, ps2_connector_get_next_code, queued]
  rw [← hget]
  cases (k_msgq_get s.rx_msg_que).1 <;> rfl

@[simp] theorem frame_length (byte : uint8_t) : (frame byte).length = 11 := by
  simp [frame]

theorem frame_take_succ (byte : uint8_t) {k : Nat} (hk : k < 11) :
    (frame byte).take (k + 1) = (frame byte).take k ++ [(frame byte).getD k false] := by
  have hlt : k < (frame byte).length := by simpa using hk
  rw [List.getD_eq_getElem _ _ hlt, List.take_append_getElem hlt]

theorem frame_take_ten (byte : uint8_t) :
    (frame byte).take 10 = false :: (bits byte ++ [!oddOnes (bits byte)]) := by
  have hsplit : frame byte = (false :: (bits byte ++ [!oddOnes (bits byte)])) ++ [true] := by simp [frame]
  rw [hsplit]
  exact List.take_left' (by simp)

/-- Inside a valid frame the window grows by the bit clocked in, and the stop
bit delivers the byte. -/
theorem windowStep_frame (byte : uint8_t) {k : Nat} (hk : k < 11) :
    windowStep ((frame byte).take k) ((frame byte).getD k false) =
      if k = 10 then (some byte, []) else (none, (frame byte).take (k + 1)) := by
  have hlength : ((frame byte).take k).length = k := by simp; omega
  by_cases hzero : k = 0
  · subst hzero
    rfl
  by_cases hdata : k < 9
  · unfold windowStep
    rw [hlength, if_neg hzero, if_pos hdata, if_neg (by omega), frame_take_succ byte hk]
  by_cases hparity : k = 9
  · subst hparity
    have htail : ((frame byte).take 9).tail ++ [(frame byte).getD 9 false] =
        bits byte ++ [!oddOnes (bits byte)] := by
      rw [← List.tail_append_of_ne_nil (by simp [← List.length_pos_iff]), ← frame_take_succ byte hk, frame_take_ten]
      rfl
    rw [windowStep_parity _ hlength, htail, if_pos (oddOnes_with_parity byte), if_neg (by decide),
      frame_take_succ byte hk]
  · obtain rfl : k = 10 := by omega
    have hstop : (frame byte).getD 10 false = true := by simp [frame]
    rw [windowStep_stop _ hlength, hstop, frame_take_ten, List.tail_cons, List.take_left' (by simp), ofBits_bits]
    rfl

theorem receives_get {s : Connector} {w : List Bool} (hrec : Receives s w) :
    Receives (Event.serve s .get).2 w :=
  hrec

/-- The bytes of a schedule that find room in the queue at their stop bit. -/
def accepted (bytes : List uint8_t) (pending : List Nat) : List uint8_t :=
  ((bytes.zip pending).filter fun arrival => arrival.2 ≠ PS2_MSG_QUE_SIZE).map Prod.fst

theorem accepted_cons (byte : uint8_t) (bytes : List uint8_t) (count : Nat) (pending : List Nat) :
    accepted (byte :: bytes) (count :: pending) =
      (if count = PS2_MSG_QUE_SIZE then [] else [byte]) ++ accepted bytes pending := by
  by_cases hfull : count = PS2_MSG_QUE_SIZE <;> simp [accepted, hfull]

theorem returned_cons (s : Connector) (event : Event) (events : List Event) :
    returned s (event :: events) =
      (Event.serve s event).1 ++ returned (Event.serve s event).2 events := by
  simp only [returned, Machine.outputs, List.flatten_cons]

/-- From `k` bits into the first of the frames, every schedule that clocks in
the rest returns and queues, after what was queued already, exactly the bytes
that find room. -/
private theorem schedule_conserves (events : List Event) (s : Connector) (bytes : List uint8_t)
    (k n : Nat) (hk : k < 11) (hn : n % 11 = k) (hrec : Receives s ((bytes.flatMap frame).take k))
    (hedges : edges events = (bytes.flatMap frame).drop k) :
    (pendingAtStops n s events).length = bytes.length ∧
      returned s events ++ queued (Machine.final Event.serve s events) =
        queued s ++ accepted bytes (pendingAtStops n s events) := by
  induction events generalizing s bytes k n with
  | nil =>
    have hnone : bytes = [] := by
      cases bytes with
      | nil => rfl
      | cons byte rest =>
        have hlength := congrArg List.length hedges
        simp [edges] at hlength
        omega
    subst hnone
    simp [pendingAtStops, returned, Machine.outputs, Machine.final, accepted]
  | cons event events ih =>
    cases event with
    | get =>
      obtain ⟨hlength, hconserve⟩ := ih _ bytes k n hk hn (receives_get hrec) hedges
      refine ⟨hlength, ?_⟩
      rw [returned_cons, Machine.final, List.append_assoc, hconserve, ← List.append_assoc, get_conserves]
      rfl
    | edge b =>
      cases bytes with
      | nil => simp [edges] at hedges
      | cons byte rest =>
        have hlt : k < (frame byte).length := by simpa using hk
        rw [List.flatMap_cons, List.take_append_of_le_length (by omega)] at hrec
        rw [List.flatMap_cons, List.drop_append_of_le_length (by omega), List.drop_eq_getElem_cons hlt,
          List.cons_append, edges, List.cons_eq_cons, ← List.getD_eq_getElem _ false hlt] at hedges
        obtain ⟨rfl, hedges⟩ := hedges
        obtain ⟨hcode, hnext⟩ := clk_fall_cb_window s _ ((frame byte).getD k false) hrec
        have hedge := edge_conserves hrec.1 ((frame byte).getD k false)
        rw [windowStep_frame byte hk] at hcode hnext
        rw [hcode] at hedge
        rw [returned_cons, Machine.final, List.append_assoc, pendingAtStops]
        by_cases hlast : k = 10
        · rw [if_pos hlast] at hedge hnext
          rw [if_pos (hn.trans hlast), accepted_cons]
          have hdone : (frame byte).drop (k + 1) = [] := List.drop_eq_nil_of_le (by rw [frame_length]; omega)
          rw [hdone, List.nil_append] at hedges
          obtain ⟨hlength, hconserve⟩ := ih (Event.serve s (.edge ((frame byte).getD k false))).2 rest 0 (n + 1)
            (by decide) (by omega) hnext hedges
          refine ⟨by simpa using hlength, ?_⟩
          rw [hconserve, ← List.append_assoc, hedge, List.append_assoc]
          rfl
        · rw [if_neg hlast] at hedge hnext
          rw [if_neg (by omega)]
          obtain ⟨hlength, hconserve⟩ := ih (Event.serve s (.edge ((frame byte).getD k false))).2 (byte :: rest)
            (k + 1) (n + 1) (by omega) (by omega)
            (by rw [List.flatMap_cons, List.take_append_of_le_length (by omega)]; exact hnext)
            (by rw [List.flatMap_cons, List.drop_append_of_le_length (by omega)]; exact hedges)
          refine ⟨hlength, ?_⟩
          rw [hconserve, ← List.append_assoc, hedge]
          simp

/-- Whatever the schedule of reads, the codes returned and the codes left in the
queue are the bytes sent, in order, without those whose stop bit found the queue
full. When no stop bit does, nothing is lost. -/
theorem wire_round_trip (s : Connector) (bytes : List uint8_t) (events : List Event)
    (hbit : s.current_bit_no = 0) (hstate : s.PS2_state ≠ .PS2_STATE_HOST_TO_DEV)
    (hempty : s.rx_msg_que.contents = []) (hedges : edges events = bytes.flatMap frame) :
    let received := returned s events ++ queued (Machine.final Event.serve s events)
    let pending := pendingAtStops 0 s events
    pending.length = bytes.length ∧ received = accepted bytes pending ∧ received.Sublist bytes ∧
      ((∀ count ∈ pending, count ≠ PS2_MSG_QUE_SIZE) → received = bytes) := by
  have hrec : Receives s ((bytes.flatMap frame).take 0) := ⟨hstate, Holds.of_bit_no_zero hbit⟩
  obtain ⟨hlength, hconserve⟩ := schedule_conserves events s bytes 0 0 (by decide) rfl hrec hedges
  have hqueued : queued s = [] := by simp [queued, hempty]
  rw [hqueued, List.nil_append] at hconserve
  have hzip : ((bytes.zip (pendingAtStops 0 s events)).map Prod.fst) = bytes :=
    List.map_fst_zip (by omega)
  refine ⟨hlength, hconserve, ?_, ?_⟩
  · rw [hconserve]
    nth_rewrite 2 [← hzip]
    exact List.filter_sublist.map _
  · intro hroom
    rw [hconserve, accepted, List.filter_eq_self.mpr, hzip]
    intro arrival harrival
    exact decide_eq_true (hroom _ (List.of_mem_zip harrival).2)

/-- The make and break of the `A` key, with a reader that is already waiting. -/
theorem init_round_trip :
    edges (.get :: ([0x1C, 0xF0, 0x1C].flatMap frame).map .edge) = [0x1C, 0xF0, 0x1C].flatMap frame ∧
      (returned ps2_connector_init (.get :: ([0x1C, 0xF0, 0x1C].flatMap frame).map .edge) ++
        queued (Machine.final Event.serve ps2_connector_init
          (.get :: ([0x1C, 0xF0, 0x1C].flatMap frame).map .edge))).Sublist [0x1C, 0xF0, 0x1C] :=
  ⟨by decide, (wire_round_trip ps2_connector_init [0x1C, 0xF0, 0x1C]
    (.get :: ([0x1C, 0xF0, 0x1C].flatMap frame).map .edge) rfl (by decide) rfl (by decide)).2.2.1⟩

end peripheral_hids.ps2_connector
