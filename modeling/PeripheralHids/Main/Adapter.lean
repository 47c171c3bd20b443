import PeripheralHids.Connector.Frame
import PeripheralHids.Hog.Subscription
import PeripheralHids.Lib.Follows
import PeripheralHids.Main.Writers

open peripheral_hids.hog peripheral_hids.msg_q peripheral_hids.bt_hid_tools
open peripheral_hids.ps2_connector peripheral_hids.ps2_hid_translator

namespace peripheral_hids

/-- The running adapter: the connector behind the clock interrupt, the message
that `k_msgq_get` has given to the keyboard thread and that it has not gone on
with yet, and the threads. -/
structure Adapter where
  connector : Connector
  swap_data : Option uint8_t
  pool : Pool Thread uint8_t Translator

/-- After `ps2_keyboard_init`, with no thread started. -/
def Adapter.initial : Adapter where
  connector := ps2_connector_init
  swap_data := none
  pool := .initial (.initial 0)

/-- What may happen next: an edge of the clock, the keyboard thread's call of
`k_msgq_get` or its return from it, a call or the end of a sleep of either
thread, or a change of the client's configuration. -/
inductive Moment where
  | edge (data : Bool)
  | get
  | resume
  | call (g : Call)
  | wake (th : Thread)
  | ccc_changed (value : uint16_t)
  deriving DecidableEq, Repr

/-- What became of a code at a moment, as `reverse` shows it: `k_msgq_put` took
it or failed, or the keyboard thread went on with it. -/
inductive Trace where
  | quiet
  | accepted (code : uint8_t)
  | dropped (code : uint8_t)
  | resumed (code : uint8_t)
  deriving DecidableEq, Repr

def Trace.arrival : Trace → Option uint8_t
  | .accepted code | .dropped code => some code
  | .quiet | .resumed _ => none

def Trace.acceptance : Trace → Option uint8_t
  | .accepted code => some code
  | .quiet | .dropped _ | .resumed _ => none

def Trace.loss : Trace → Option uint8_t
  | .dropped code => some code
  | .quiet | .accepted _ | .resumed _ => none

def Trace.reading : Trace → Option uint8_t
  | .resumed code => some code
  | .quiet | .accepted _ | .dropped _ => none

namespace Adapter

/-- The interrupt, with the thread that it wakes up where it hands over a message. -/
def edge (c : Adapter) (data : Bool) : Trace × Adapter :=
  let served := clk_fall_cb c.connector data
  match served.1 with
  | some (.put code (.handed message)) =>
    (.accepted (reverse code), { c with connector := served.2, swap_data := some message })
  | some (.put code .stored) => (.accepted (reverse code), { c with connector := served.2 })
  | some (.put code .nomsg) => (.dropped (reverse code), { c with connector := served.2 })
  | _ => (.quiet, { c with connector := served.2 })

/-- The keyboard thread calls `k_msgq_get`, unless it is in it already. -/
def get (c : Adapter) : Adapter :=
  match c.pool.threads .ps2_keyboard_thread, c.swap_data with
  | .waiting _, none =>
    if c.connector.rx_msg_que.wait_q = 0 then
      let get := k_msgq_get c.connector.rx_msg_que
      { c with connector := { c.connector with rx_msg_que := get.2 }, swap_data := get.1 }
    else c
  | _, _ => c

def turn (c : Adapter) (turn : Turn Thread Call uint8_t) : Adapter :=
  { c with pool := (Pool.step program c.pool turn).2 }

def ccc_changed (c : Adapter) (value : uint16_t) : Adapter :=
  { c with pool := { c.pool with state := { c.pool.state with hog := input_ccc_changed c.pool.state.hog value } } }

def step (c : Adapter) : Moment → Trace × Adapter
  | .edge data => c.edge data
  | .get => (.quiet, c.get)
  | .resume =>
    match c.swap_data with
    | none => (.quiet, c)
    | some message =>
      (.resumed (reverse message),
        { c with swap_data := none }.turn (.input .ps2_keyboard_thread (reverse message)))
  | .call g => (.quiet, c.turn (.call g))
  | .wake th => (.quiet, c.turn (.wake th))
  | .ccc_changed value => (.quiet, c.ccc_changed value)

/-- The adapter after a schedule, and what became of the codes during it. -/
def run (moments : List Moment) : Adapter := Machine.final step initial moments

def history (moments : List Moment) : List Trace := Machine.outputs step initial moments

def arrivals (moments : List Moment) : List uint8_t := (history moments).filterMap Trace.arrival

def acceptances (moments : List Moment) : List uint8_t := (history moments).filterMap Trace.acceptance

def losses (moments : List Moment) : List uint8_t := (history moments).filterMap Trace.loss

def readings (moments : List Moment) : List uint8_t := (history moments).filterMap Trace.reading

theorem run_append (moments later : List Moment) : run (moments ++ later) = Machine.final step (run moments) later :=
  Machine.final_append step initial moments later

theorem history_append (moments later : List Moment) :
    history (moments ++ later) = history moments ++ Machine.outputs step (run moments) later :=
  Machine.outputs_append step initial moments later

/-- The bits that a schedule clocks in. -/
def wire (moments : List Moment) : List Bool :=
  moments.filterMap fun
    | .edge data => some data
    | _ => none

/-- The codes between the interrupt and the keyboard thread, oldest first. -/
def underway (c : Adapter) : List uint8_t :=
  (c.swap_data.toList ++ c.connector.rx_msg_que.contents).map reverse

end Adapter

/-- The keyboard thread is in `k_msgq_get` once at most, and has nothing in its
hands while it pends there. -/
structure Adapter.Pends (c : Adapter) : Prop where
  once : c.connector.rx_msg_que.wait_q ≤ 1
  handed : 0 < c.connector.rx_msg_que.wait_q → c.swap_data = none
  waits : 0 < c.connector.rx_msg_que.wait_q ∨ c.swap_data ≠ none →
    ∃ k, c.pool.threads .ps2_keyboard_thread = .waiting k

/-- The codes' way through the adapter: those that arrived are the bytes of the
frames on the wire, and those that the queue took have been read in that order or
are underway. -/
structure Adapter.Conserves (moments : List Moment) (traces : List Trace) (c : Adapter) : Prop where
  receives : Receives c.connector (Machine.final windowStep [] (wire moments))
  arrived : traces.filterMap Trace.arrival = delivered [] (wire moments)
  conserved : traces.filterMap Trace.reading ++ c.underway = traces.filterMap Trace.acceptance
  pends : c.Pends

namespace Adapter

/-- All that an edge can do while no send is in progress. -/
theorem edge_cases {c : Adapter} {w : List Bool} (hrec : Receives c.connector w) (data : Bool) :
    (windowStep w data).1 = none ∧ (clk_fall_cb c.connector data).2.rx_msg_que = c.connector.rx_msg_que ∧
        c.edge data = (.quiet, { c with connector := (clk_fall_cb c.connector data).2 }) ∨
      ∃ code, (windowStep w data).1 = some (reverse code) ∧
        (clk_fall_cb c.connector data).2.rx_msg_que = (k_msgq_put c.connector.rx_msg_que code).2 ∧
        c.edge data =
          match (k_msgq_put c.connector.rx_msg_que code).1 with
          | .handed message => (.accepted (reverse code),
              { c with connector := (clk_fall_cb c.connector data).2, swap_data := some message })
          | .stored => (.accepted (reverse code), { c with connector := (clk_fall_cb c.connector data).2 })
          | .nomsg => (.dropped (reverse code), { c with connector := (clk_fall_cb c.connector data).2 }) := by
  have hcode := (clk_fall_cb_window c.connector w data hrec).1
  have hqueue := (dev_to_host_serve_falling_clk_frame c.connector data).2
  rw [clk_fall_cb_of_receiving hrec.1] at hcode ⊢
  rw [Adapter.edge, clk_fall_cb_of_receiving hrec.1]
  cases hserved : (dev_to_host_serve_falling_clk c.connector data).1 with
  | put code result =>
    rw [hserved] at hcode hqueue
    obtain ⟨hresult, hput⟩ := Prod.ext_iff.mp hqueue
    refine Or.inr ⟨code, hcode.symm, hput, ?_⟩
    rw [← hresult]
    cases result <;> rfl
  | start_bit_error | parity_error _ | stop_bit_error | taken =>
    rw [hserved] at hcode hqueue
    exact Or.inl ⟨hcode.symm, hqueue, rfl⟩

theorem wire_concat (moments : List Moment) (moment : Moment) :
    wire (moments ++ [moment]) = wire moments ++ wire [moment] :=
  List.filterMap_append

theorem filterMap_concat {α β : Type} (f : α → Option β) (l : List α) (a : α) :
    (l ++ [a]).filterMap f = l.filterMap f ++ (f a).toList := by
  rw [List.filterMap_append]
  cases hfa : f a <;> simp [hfa]

/-- One moment conserves the codes where the connector goes on with the bits that
it clocks in, and what is read and underway after it is what was underway and is
put. -/
theorem Conserves.concat {moments : List Moment} {traces : List Trace} {c d : Adapter}
    (hc : c.Conserves moments traces) (moment : Moment) (trace : Trace)
    (hrec : Receives d.connector
      (Machine.final windowStep (Machine.final windowStep [] (wire moments)) (wire [moment])))
    (harrival : trace.arrival.toList = delivered (Machine.final windowStep [] (wire moments)) (wire [moment]))
    (hunderway : trace.reading.toList ++ d.underway = c.underway ++ trace.acceptance.toList) (hpends : d.Pends) :
    d.Conserves (moments ++ [moment]) (traces ++ [trace]) := by
  refine ⟨?_, ?_, ?_, hpends⟩
  · rw [wire_concat, Machine.final_append]
    exact hrec
  · rw [filterMap_concat, hc.arrived, harrival, wire_concat, delivered_append]
  · rw [filterMap_concat, filterMap_concat, List.append_assoc, hunderway, ← List.append_assoc, hc.conserved]

/-- The same for what happens between two edges. -/
theorem Conserves.between {moments : List Moment} {traces : List Trace} {c d : Adapter}
    (hc : c.Conserves moments traces) {moment : Moment} {trace : Trace} (hwire : wire [moment] = [])
    (hrec : ∀ w, Receives c.connector w → Receives d.connector w) (harrival : trace.arrival = none)
    (hunderway : trace.reading.toList ++ d.underway = c.underway ++ trace.acceptance.toList) (hpends : d.Pends) :
    d.Conserves (moments ++ [moment]) (traces ++ [trace]) := by
  refine hc.concat moment trace ?_ ?_ hunderway hpends
  · rw [hwire]
    exact hrec _ hc.receives
  · rw [hwire, harrival]
    rfl

theorem Conserves.edge {moments : List Moment} {traces : List Trace} {c : Adapter}
    (hc : c.Conserves moments traces) (data : Bool) :
    (c.edge data).2.Conserves (moments ++ [.edge data]) (traces ++ [(c.edge data).1]) := by
  have hrec := (clk_fall_cb_window c.connector _ data hc.receives).2
  have hdelivered : delivered (Machine.final windowStep [] (wire moments)) (wire [.edge data]) =
      (windowStep (Machine.final windowStep [] (wire moments)) data).1.toList := by
    change delivered _ [data] = _
    rw [delivered_cons]
    exact List.append_nil _
  obtain ⟨hnone, hqueue, hedge⟩ | ⟨code, hsome, hqueue, hedge⟩ := edge_cases hc.receives data
  · rw [hedge]
    refine hc.concat _ _ hrec ?_ ?_ ?_
    · rw [hdelivered, hnone]
      rfl
    · simp only [underway, hqueue, Trace.reading, Trace.acceptance, Option.toList_none, List.nil_append,
        List.append_nil]
    · refine ⟨?_, ?_, ?_⟩ <;> simp only [hqueue]
      exacts [hc.pends.once, hc.pends.handed, hc.pends.waits]
  · obtain ⟨hput, hwait, hempty, hafter, hleft⟩ | ⟨hput, hwait, hafter, hleft⟩ | ⟨hput, -, hsame⟩ :=
      k_msgq_put_cases c.connector.rx_msg_que code
    · -- the keyboard thread pends, so the queue is empty and its hands are too
      have hswap := hc.pends.handed hwait
      have honce := hc.pends.once
      rw [hedge, hput]
      refine hc.concat _ _ hrec ?_ ?_ ⟨?_, ?_, ?_⟩
      · rw [hdelivered, hsome]
        rfl
      · simp only [underway, hqueue, hafter, hempty, hswap]
        rfl
      · simp only [hqueue, hleft]
        omega
      · simp only [hqueue, hleft]
        omega
      · exact fun _ => hc.pends.waits (Or.inl hwait)
    · rw [hedge, hput]
      refine hc.concat _ _ hrec ?_ ?_ ⟨?_, ?_, ?_⟩
      · rw [hdelivered, hsome]
        rfl
      · simp only [underway, hqueue, hafter, Trace.reading, Trace.acceptance, Option.toList_none, List.nil_append,
          Option.toList_some, List.map_append, List.append_assoc, List.map_cons, List.map_nil]
      · simp only [hqueue, hleft]
        exact Nat.zero_le 1
      · simp only [hqueue, hleft]
        exact fun hlt => absurd hlt (Nat.lt_irrefl 0)
      · simp only [hqueue, hleft]
        exact fun hbusy => hc.pends.waits (Or.inr (hbusy.resolve_left (Nat.lt_irrefl 0)))
    · rw [hedge, hput]
      refine hc.concat _ _ hrec ?_ ?_ ?_
      · rw [hdelivered, hsome]
        rfl
      · simp only [underway, hqueue, hsame, Trace.reading, Trace.acceptance, Option.toList_none, List.nil_append,
          List.append_nil]
      · refine ⟨?_, ?_, ?_⟩ <;> simp only [hqueue, hsame]
        exacts [hc.pends.once, hc.pends.handed, hc.pends.waits]

/-- What the keyboard thread's call of `k_msgq_get` does: nothing where it is not
ready for one, and else to take the oldest code or to pend. -/
theorem get_cases (c : Adapter) :
    c.get = c ∨ (∃ k, c.pool.threads .ps2_keyboard_thread = .waiting k) ∧ c.swap_data = none ∧
      c.connector.rx_msg_que.wait_q = 0 ∧
      c.get = { c with
        connector := { c.connector with rx_msg_que := (k_msgq_get c.connector.rx_msg_que).2 },
        swap_data := (k_msgq_get c.connector.rx_msg_que).1 } := by
  unfold Adapter.get
  cases hparked : c.pool.threads .ps2_keyboard_thread with
  | idle | asleep k | faulted => exact Or.inl rfl
  | waiting k =>
    cases hswap : c.swap_data with
    | some message => exact Or.inl rfl
    | none =>
      by_cases hwait : c.connector.rx_msg_que.wait_q = 0
      · exact Or.inr ⟨⟨k, rfl⟩, rfl, hwait, if_pos hwait⟩
      · exact Or.inl (if_neg hwait)

theorem Conserves.get {moments : List Moment} {traces : List Trace} {c : Adapter}
    (hc : c.Conserves moments traces) : c.get.Conserves (moments ++ [.get]) (traces ++ [.quiet]) := by
  obtain hsame | ⟨hwaiting, hswap, hwait, hget⟩ := get_cases c
  · rw [hsame]
    exact hc.between rfl (fun _ hrec => hrec) rfl (List.append_nil _).symm hc.pends
  · rw [hget]
    refine hc.between rfl (fun _ hrec => hrec) rfl ?_ ⟨?_, ?_, fun _ => hwaiting⟩
    · have hcontents := k_msgq_get_contents c.connector.rx_msg_que
      simp only [underway, hswap, hcontents, Trace.reading, Trace.acceptance, Option.toList_none, List.nil_append,
        List.append_nil]
    all_goals
      cases hcontents : c.connector.rx_msg_que.contents with
      | nil =>
        obtain ⟨hnone, -, hleft⟩ := k_msgq_get_of_empty hcontents
        simp only [hleft, hwait, hnone]
        trivial
      | cons data later =>
        obtain ⟨-, -, hleft⟩ := k_msgq_get_of_contents hcontents
        simp only [hleft, hwait]
        omega

theorem Conserves.resume {moments : List Moment} {traces : List Trace} {c : Adapter}
    (hc : c.Conserves moments traces) :
    (c.step .resume).2.Conserves (moments ++ [.resume]) (traces ++ [(c.step .resume).1]) := by
  rw [Adapter.step]
  cases hswap : c.swap_data with
  | none => exact hc.between rfl (fun _ hrec => hrec) rfl (List.append_nil _).symm hc.pends
  | some message =>
    have hidle : ¬ 0 < c.connector.rx_msg_que.wait_q := by
      intro hwait
      rw [hc.pends.handed hwait] at hswap
      cases hswap
    refine hc.between rfl (fun _ hrec => hrec) rfl ?_ ⟨hc.pends.once, fun _ => rfl, ?_⟩
    · simp only [underway, hswap, turn, Trace.reading, Trace.acceptance, Option.toList_none, Option.toList_some,
        List.nil_append, List.cons_append, List.append_nil, List.map_cons]
    · rintro (hwait | hbusy)
      · exact absurd hwait hidle
      · exact absurd rfl hbusy

theorem Conserves.turn {moments : List Moment} {traces : List Trace} {c : Adapter}
    (hc : c.Conserves moments traces) {moment : Moment} (hwire : wire [moment] = [])
    {turn : Turn Thread Call uint8_t}
    (hturn : ∀ k, c.pool.threads .ps2_keyboard_thread = .waiting k →
      (c.turn turn).pool.threads .ps2_keyboard_thread = .waiting k) :
    (c.turn turn).Conserves (moments ++ [moment]) (traces ++ [.quiet]) := by
  refine hc.between hwire (fun _ hrec => hrec) rfl (List.append_nil _).symm ⟨hc.pends.once, hc.pends.handed, ?_⟩
  intro hbusy
  obtain ⟨k, hwaiting⟩ := hc.pends.waits hbusy
  exact ⟨k, hturn k hwaiting⟩

theorem Conserves.step {moments : List Moment} {traces : List Trace} {c : Adapter}
    (hc : c.Conserves moments traces) (moment : Moment) :
    (c.step moment).2.Conserves (moments ++ [moment]) (traces ++ [(c.step moment).1]) := by
  cases moment with
  | edge data => exact hc.edge data
  | get => exact hc.get
  | resume => exact hc.resume
  | call g => exact hc.turn rfl fun k hwaiting => Pool.step_call_of_waiting hwaiting g
  | wake th => exact hc.turn rfl fun k hwaiting => Pool.step_wake_of_waiting hwaiting th
  | ccc_changed value =>
    refine hc.between rfl (fun _ hrec => hrec) rfl (List.append_nil _).symm ?_
    exact ⟨hc.pends.once, hc.pends.handed, hc.pends.waits⟩

theorem conserves_run (moments : List Moment) : (run moments).Conserves moments (history moments) := by
  refine Machine.run_invariant (P := Conserves) ?_ (fun _ _ _ moment hc => hc.step moment) moments
  refine ⟨⟨by decide, Holds.of_bit_no_zero rfl⟩, rfl, rfl, Nat.zero_le 1, fun _ => rfl, ?_⟩
  rintro (hwait | hbusy)
  · exact absurd hwait (Nat.lt_irrefl 0)
  · exact absurd rfl hbusy

/-- The interrupt takes no turn of a thread. -/
theorem edge_pool (c : Adapter) (data : Bool) :
    (c.edge data).1.reading = none ∧ (c.edge data).2.pool = c.pool := by
  unfold Adapter.edge
  dsimp only
  split <;> exact ⟨rfl, rfl⟩

theorem get_pool (c : Adapter) : c.get.pool = c.pool := by
  obtain hsame | ⟨-, -, -, hget⟩ := get_cases c
  · rw [hsame]
  · rw [hget]

end Adapter

end peripheral_hids
