import PeripheralHids.Connector.Send
import PeripheralHids.Connector.Transmit

open peripheral_hids.gpio

namespace peripheral_hids.ps2_connector

/-- Where a thread stands in `ps2_connector_send_byte`: the store or the call that
comes next, with the two calls of `set_clk_low` and of `set_data_low` apart. The
clock interrupt may come before any of them. -/
inductive Pc where
  | outgoing_data
  | PS2_state
  | clk_configure
  | clk_set
  | data_configure
  | data_set
  | clk_high_z
  | current_bit_no
  | wait_idle
  | wait_lines
  | returned
  deriving DecidableEq, Repr

/-- Whether the clock pin has been released for this send. -/
def Pc.clk_released : Pc → Bool
  | .current_bit_no | .wait_idle | .wait_lines => true
  | _ => false

/-- Whether the data pin has been configured for this send. -/
def Pc.data_configured : Pc → Bool
  | .data_set | .clk_high_z | .current_bit_no | .wait_idle | .wait_lines => true
  | _ => false

/-- A pin as `set_clk_high_z` and `set_data_high_z` leave it: an input, and no output. -/
structure Listens (pin : gpio_pin) : Prop where
  input : pin.input = true
  output : pin.output = false
  invert : pin.invert = false

/-- A pin as the first call of `set_clk_low` and of `set_data_low` leaves it: its input
is not connected. -/
structure Deaf (pin : gpio_pin) : Prop where
  input : pin.input = false
  invert : pin.invert = false

theorem Listens.gpio_pin_get {pin : gpio_pin} (hpin : Listens pin) (others : Bool) :
    gpio_pin_get pin others = others := by
  simp only [gpio.gpio_pin_get, gpio_pin.level, hpin.input, hpin.output, hpin.invert, Bool.false_and, Bool.not_false,
    Bool.and_true, Bool.true_and, Bool.xor_false]

theorem Deaf.gpio_pin_get {pin : gpio_pin} (hpin : Deaf pin) (others : Bool) : gpio_pin_get pin others = false := by
  simp only [gpio.gpio_pin_get, hpin.input, hpin.invert, Bool.false_and, Bool.xor_false]

theorem set_clk_high_z_listens (c : Connector) : Listens (set_clk_high_z c).clk_line := ⟨rfl, rfl, rfl⟩

theorem set_data_high_z_listens (c : Connector) : Listens (set_data_high_z c).data_line := ⟨rfl, rfl, rfl⟩

theorem set_data_low_deaf (c : Connector) : Deaf (set_data_low c).data_line := ⟨rfl, rfl⟩

theorem dev_to_host_serve_falling_clk_lines (c : Connector) (level : Bool) :
    (dev_to_host_serve_falling_clk c level).2.clk_line = c.clk_line ∧
      (dev_to_host_serve_falling_clk c level).2.data_line = c.data_line := by
  have hshift : (c.shift_data level).clk_line = c.clk_line ∧ (c.shift_data level).data_line = c.data_line := by
    unfold Connector.shift_data
    split <;> exact ⟨rfl, rfl⟩
  unfold dev_to_host_serve_falling_clk
  dsimp only
  split_ifs
  · exact ⟨rfl, rfl⟩
  · exact hshift
  · exact hshift
  · exact hshift
  · exact hshift

theorem host_to_dev_serve_falling_clk_clk_line (c : Connector) :
    (host_to_dev_serve_falling_clk c).clk_line = c.clk_line := by
  unfold host_to_dev_serve_falling_clk
  dsimp only
  split_ifs <;> rfl

theorem clk_fall_cb_of_sending {c : Connector} (hstate : c.PS2_state = .PS2_STATE_HOST_TO_DEV) (level : Bool) :
    clk_fall_cb c level = (none, host_to_dev_serve_falling_clk c) := by
  unfold clk_fall_cb
  rw [hstate]

/-- Among the edges, only the first of a send changes the state, and makes it idle
if it finds nine bits. -/
theorem clk_fall_cb_PS2_state (c : Connector) (level : Bool) :
    (clk_fall_cb c level).2.PS2_state =
      if c.PS2_state = .PS2_STATE_HOST_TO_DEV then
        if c.current_bit_no = 9 then .PS2_STATE_IDLE else .PS2_STATE_DEV_TO_HOST
      else c.PS2_state := by
  by_cases hstate : c.PS2_state = .PS2_STATE_HOST_TO_DEV
  · rw [if_pos hstate, clk_fall_cb_of_sending hstate]
    unfold host_to_dev_serve_falling_clk set_data_high_z set_data_low
    dsimp only
    split_ifs <;> simp_all [apply_ite Connector.PS2_state]
  · rw [if_neg hstate, clk_fall_cb_of_receiving hstate]
    exact (dev_to_host_serve_falling_clk_frame c level).1

theorem clk_fall_cb_clk_line (c : Connector) (level : Bool) : (clk_fall_cb c level).2.clk_line = c.clk_line := by
  by_cases hstate : c.PS2_state = .PS2_STATE_HOST_TO_DEV
  · rw [clk_fall_cb_of_sending hstate]
    exact host_to_dev_serve_falling_clk_clk_line c
  · rw [clk_fall_cb_of_receiving hstate]
    exact (dev_to_host_serve_falling_clk_lines c level).1

theorem clk_fall_cb_data_line_of_receiving {c : Connector} (hstate : c.PS2_state ≠ .PS2_STATE_HOST_TO_DEV)
    (level : Bool) : (clk_fall_cb c level).2.data_line = c.data_line := by
  rw [clk_fall_cb_of_receiving hstate]
  exact (dev_to_host_serve_falling_clk_lines c level).2

theorem clk_fall_cb_data_line_of_sending {c : Connector} (hstate : c.PS2_state = .PS2_STATE_HOST_TO_DEV)
    (level : Bool) : Listens (clk_fall_cb c level).2.data_line ∨ Deaf (clk_fall_cb c level).2.data_line := by
  rw [clk_fall_cb_of_sending hstate]
  exact host_to_dev_serve_falling_clk_data_line (P := fun pin => Listens pin ∨ Deaf pin)
    (fun s => .inl (set_data_high_z_listens s)) (fun s => .inr (set_data_low_deaf s)) c

/-- With nine bits in, the data pin is left as an input. -/
theorem clk_fall_cb_listens {c : Connector} (hstate : c.PS2_state = .PS2_STATE_HOST_TO_DEV)
    (hnine : c.current_bit_no = 9) (level : Bool) : Listens (clk_fall_cb c level).2.data_line := by
  rw [clk_fall_cb_of_sending hstate]
  unfold host_to_dev_serve_falling_clk
  dsimp only
  rw [if_pos]
  · exact set_data_high_z_listens _
  · split_ifs <;> exact hnine

/-- A thread that sends `msg` and then the bytes of `rest`, with the connector that
it shares with the interrupt. -/
structure Sending where
  connector : Connector
  pc : Pc
  msg : uint8_t
  rest : List uint8_t

/-- An edge of the clock or a turn of the thread, with the levels that the device
leaves on the lines. Edges may come at any time: nothing is assumed about whether the
interrupt sees them while the clock pin is an output. -/
inductive Happening where
  | edge (data : Bool)
  | turn (data clk : Bool)
  deriving DecidableEq, Repr

namespace Sending

/-- The next statement of the thread. -/
def turn (s : Sending) (data clk : Bool) : Sending :=
  match s.pc with
  | .outgoing_data => { s with connector := { s.connector with outgoing_data := s.msg }, pc := .PS2_state }
  | .PS2_state =>
    { s with connector := { s.connector with PS2_state := .PS2_STATE_HOST_TO_DEV }, pc := .clk_configure }
  | .clk_configure =>
    { s with
      connector := { s.connector with clk_line := gpio_pin_configure s.connector.clk_line PS2_GPIO_FLAGS_LOW }
      pc := .clk_set }
  | .clk_set =>
    { s with
      connector := { s.connector with clk_line := gpio_pin_set s.connector.clk_line GPIO_OUTPUT_ACTIVE }
      pc := .data_configure }
  | .data_configure =>
    { s with
      connector := { s.connector with data_line := gpio_pin_configure s.connector.data_line PS2_GPIO_FLAGS_LOW }
      pc := .data_set }
  | .data_set =>
    { s with
      connector := { s.connector with data_line := gpio_pin_set s.connector.data_line GPIO_OUTPUT_INACTIVE }
      pc := .clk_high_z }
  | .clk_high_z => { s with connector := set_clk_high_z s.connector, pc := .current_bit_no }
  | .current_bit_no => { s with connector := s.connector.restart, pc := .wait_idle }
  | .wait_idle => if s.connector.PS2_state = .PS2_STATE_IDLE then { s with pc := .wait_lines } else s
  | .wait_lines =>
    if gpio_pin_get s.connector.data_line data = false ∨ gpio_pin_get s.connector.clk_line clk = false then s
    else
      match s.rest with
      | [] => { s with pc := .returned }
      | msg :: rest => { s with pc := .outgoing_data, msg := msg, rest := rest }
  | .returned => s

/-- Whether the thread is between its configuration of the data pin and its store to
`current_bit_no`. -/
def Requesting (s : Sending) : Prop :=
  s.pc ∈ [.data_set, .clk_high_z, .current_bit_no]

instance (s : Sending) : Decidable s.Requesting :=
  inferInstanceAs (Decidable (s.pc ∈ _))

/-- An edge that comes then, before any other of this send, and finds nine bits of a
frame. -/
def Races (s : Sending) (happening : Happening) : Bool :=
  match happening with
  | .edge _ => s.Requesting ∧ s.connector.PS2_state = .PS2_STATE_HOST_TO_DEV ∧ s.connector.current_bit_no = 9
  | .turn _ _ => false

/-- What happens next, with whether it is such an edge. -/
def step (s : Sending) (happening : Happening) : Bool × Sending :=
  (s.Races happening,
    match happening with
    | .edge data => { s with connector := (clk_fall_cb s.connector (gpio_pin_get s.connector.data_line data)).2 }
    | .turn data clk => s.turn data clk)

/-- The thread at the start of its first byte. -/
def start (c : Connector) (msg : uint8_t) (rest : List uint8_t) : Sending where
  connector := c
  pc := .outgoing_data
  msg := msg
  rest := rest

/-- Whether the thread comes to return, when nothing but its own turns follows and
the device lets go of the lines. -/
def Returns (s : Sending) : Prop :=
  ∃ n, (Machine.final step s (List.replicate n (.turn true true))).pc = .returned

/-- Without an edge in between, the turns up to the wait are the request to send. -/
theorem turns_request (c : Connector) (msg : uint8_t) (rest : List uint8_t) :
    Machine.final step (start c msg rest) (List.replicate 8 (.turn true true)) =
      ⟨ps2_connector_send_byte c msg, .wait_idle, msg, rest⟩ :=
  rfl

/-- How the state of the connector and its pins goes with the statement that comes
next. -/
structure Consistent (s : Sending) : Prop where
  before : s.pc = .outgoing_data ∨ s.pc = .PS2_state → s.connector.PS2_state ≠ .PS2_STATE_HOST_TO_DEV
  waiting : s.pc = .wait_idle → s.connector.PS2_state = .PS2_STATE_HOST_TO_DEV → s.connector.current_bit_no = 0
  after : s.pc = .wait_lines ∨ s.pc = .returned → s.connector.PS2_state = .PS2_STATE_IDLE
  clk : s.pc.clk_released → Listens s.connector.clk_line
  data : s.pc.data_configured → Listens s.connector.data_line ∨ Deaf s.connector.data_line

/-- Whether the current send has met such an edge: the connector is idle, and the data
pin was not taken for an output again. -/
def Met (s : Sending) : Prop :=
  s.connector.PS2_state = .PS2_STATE_IDLE ∧ s.connector.data_line.input = true

instance (s : Sending) : Decidable s.Met :=
  inferInstanceAs (Decidable (_ ∧ _))

/-- The sends that have not met such an edge: those to come, and the current one
unless it has. -/
def left (s : Sending) : Nat :=
  match s.pc with
  | .returned => 0
  | .data_set | .clk_high_z | .current_bit_no | .wait_idle | .wait_lines =>
    if s.Met then s.rest.length else s.rest.length + 1
  | _ => s.rest.length + 1

theorem left_congr {c d : Connector} (pc : Pc) (msg : uint8_t) (rest : List uint8_t)
    (hmet : Met ⟨c, pc, msg, rest⟩ ↔ Met ⟨d, pc, msg, rest⟩) :
    left ⟨c, pc, msg, rest⟩ = left ⟨d, pc, msg, rest⟩ := by
  cases pc <;> simp only [left, hmet]

theorem met_of_left_eq_zero {s : Sending} (hpc : s.pc.data_configured) (hleft : s.left = 0) :
    s.Met ∧ s.rest = [] := by
  have hite : (if s.Met then s.rest.length else s.rest.length + 1) = 0 := by
    obtain ⟨c, pc, msg, rest⟩ := s
    cases pc with
    | data_set | clk_high_z | current_bit_no | wait_idle | wait_lines => exact hleft
    | outgoing_data | PS2_state | clk_configure | clk_set | data_configure | returned => cases hpc
  by_cases hmet : s.Met
  · rw [if_pos hmet] at hite
    exact ⟨hmet, List.length_eq_zero_iff.mp hite⟩
  · rw [if_neg hmet] at hite
    cases hite

/-- A turn of the thread meets no edge. -/
theorem Consistent.turn {s : Sending} (hs : s.Consistent) (data clk : Bool) :
    (s.turn data clk).Consistent ∧ (s.turn data clk).left = s.left := by
  obtain ⟨c, pc, msg, rest⟩ := s
  cases pc with
  | outgoing_data => exact ⟨⟨fun _ => hs.before (.inl rfl), nofun, nofun, nofun, nofun⟩, rfl⟩
  | PS2_state | clk_configure | clk_set => exact ⟨⟨nofun, nofun, nofun, nofun, nofun⟩, rfl⟩
  | data_configure =>
    refine ⟨⟨nofun, nofun, nofun, nofun, fun _ => .inr ⟨rfl, rfl⟩⟩, ?_⟩
    exact if_neg fun hmet => Bool.noConfusion hmet.2
  | data_set =>
    refine ⟨⟨nofun, nofun, nofun, nofun, fun _ => ?_⟩, rfl⟩
    obtain hlistens | hdeaf := hs.data rfl
    · exact .inl ⟨hlistens.input, hlistens.output, hlistens.invert⟩
    · exact .inr ⟨hdeaf.input, hdeaf.invert⟩
  | clk_high_z => exact ⟨⟨nofun, nofun, nofun, fun _ => set_clk_high_z_listens c, fun _ => hs.data rfl⟩, rfl⟩
  | current_bit_no => exact ⟨⟨nofun, fun _ _ => rfl, nofun, fun _ => hs.clk rfl, fun _ => hs.data rfl⟩, rfl⟩
  | wait_idle =>
    simp only [Sending.turn]
    split
    · rename_i hidle
      exact ⟨⟨nofun, nofun, fun _ => hidle, fun _ => hs.clk rfl, fun _ => hs.data rfl⟩, rfl⟩
    · exact ⟨hs, rfl⟩
  | wait_lines =>
    simp only [Sending.turn]
    split
    · exact ⟨hs, rfl⟩
    · rename_i hread
      have hidle : c.PS2_state = .PS2_STATE_IDLE := hs.after (.inl rfl)
      have hleft : left ⟨c, .wait_lines, msg, rest⟩ = rest.length := by
        obtain hlistens | hdeaf := hs.data rfl
        · exact if_pos ⟨hidle, hlistens.input⟩
        · exact absurd (.inl (hdeaf.gpio_pin_get data)) hread
      rw [hleft]
      cases rest with
      | nil => exact ⟨⟨nofun, nofun, fun _ => hidle, nofun, nofun⟩, rfl⟩
      | cons msg rest =>
        refine ⟨⟨fun _ => ?_, nofun, nofun, nofun, nofun⟩, rfl⟩
        rw [hidle]
        exact PS2_state_e.noConfusion
  | returned => exact ⟨hs, rfl⟩

theorem Consistent.edge {s : Sending} (hs : s.Consistent) (data : Bool) :
    (s.step (.edge data)).2.Consistent ∧
      (s.step (.edge data)).2.left + (if s.Races (.edge data) then 1 else 0) = s.left := by
  obtain ⟨c, pc, msg, rest⟩ := s
  obtain ⟨level, hlevel⟩ : ∃ level, level = gpio_pin_get c.data_line data := ⟨_, rfl⟩
  have hstate := clk_fall_cb_PS2_state c level
  have hclk := clk_fall_cb_clk_line c level
  simp only [Sending.step, ← hlevel]
  by_cases hhost : c.PS2_state = .PS2_STATE_HOST_TO_DEV
  · -- the first edge of a send
    have hdata := clk_fall_cb_data_line_of_sending hhost level
    rw [if_pos hhost] at hstate
    cases pc with
    | outgoing_data => exact absurd hhost (hs.before (.inl rfl))
    | PS2_state => exact absurd hhost (hs.before (.inr rfl))
    | clk_configure | clk_set | data_configure => exact ⟨⟨nofun, nofun, nofun, nofun, nofun⟩, rfl⟩
    | data_set | clk_high_z | current_bit_no =>
      refine ⟨⟨nofun, nofun, nofun, fun hpc => hclk ▸ hs.clk hpc, fun _ => hdata⟩, ?_⟩
      by_cases hnine : c.current_bit_no = 9
      · rw [if_pos hnine] at hstate
        have hlistens := clk_fall_cb_listens hhost hnine level
        simp [left, Met, Races, Requesting, hstate, hlistens.input, hhost, hnine]
      · rw [if_neg hnine] at hstate
        simp [left, Met, Races, Requesting, hstate, hhost, hnine]
    | wait_idle =>
      rw [if_neg (by rw [hs.waiting rfl hhost]; decide)] at hstate
      refine ⟨⟨nofun, fun _ hagain => ?_, nofun, fun _ => hclk ▸ hs.clk rfl, fun _ => hdata⟩, ?_⟩
      · exact PS2_state_e.noConfusion (hstate.symm.trans hagain)
      · simp [left, Met, Races, Requesting, hstate, hhost]
    | wait_lines => exact PS2_state_e.noConfusion (hhost.symm.trans (hs.after (.inl rfl)))
    | returned => exact PS2_state_e.noConfusion (hhost.symm.trans (hs.after (.inr rfl)))
  · -- an edge of a frame that is received
    have hdata := clk_fall_cb_data_line_of_receiving hhost level
    rw [if_neg hhost] at hstate
    refine ⟨⟨fun _ => hstate ▸ hhost, fun _ hagain => absurd (hstate.symm.trans hagain) hhost,
      fun hpc => hstate.trans (hs.after hpc), fun hpc => hclk ▸ hs.clk hpc, fun hpc => hdata ▸ hs.data hpc⟩, ?_⟩
    have hraces : Races ⟨c, pc, msg, rest⟩ (.edge data) = false := by
      simp only [Races, hhost, false_and, and_false, decide_false]
    rw [hraces]
    exact left_congr pc msg rest (by rw [Met, Met, hstate, hdata])

theorem Consistent.step {s : Sending} (hs : s.Consistent) (happening : Happening) :
    (s.step happening).2.Consistent ∧
      (s.step happening).2.left + (if (s.step happening).1 then 1 else 0) = s.left := by
  cases happening with
  | edge data => exact hs.edge data
  | turn data clk => exact hs.turn data clk

/-- Each send ends by one such edge. -/
theorem Consistent.run {s : Sending} (hs : s.Consistent) (happenings : List Happening) :
    (Machine.final Sending.step s happenings).Consistent ∧
      (Machine.final Sending.step s happenings).left + (Machine.outputs Sending.step s happenings).count true =
        s.left := by
  induction happenings generalizing s with
  | nil => exact ⟨hs, rfl⟩
  | cons happening happenings ih =>
    obtain ⟨hnext, hleft⟩ := hs.step happening
    obtain ⟨hfinal, hcount⟩ := ih hnext
    refine ⟨hfinal, ?_⟩
    rw [Machine.final, Machine.outputs, List.count_cons]
    simp only [beq_true]
    omega

theorem outputs_turns (s : Sending) (n : Nat) :
    Machine.outputs step s (List.replicate n (.turn true true)) = List.replicate n false := by
  induction n generalizing s with
  | zero => rfl
  | succ n ih =>
    rw [List.replicate_succ, Machine.outputs, ih]
    rfl

/-- A turn that is not the last one leaves the rest of the way. -/
theorem Consistent.returns_of_turn {s : Sending} (hs : s.Consistent) (hleft : s.left = 0)
    (hnext : (s.turn true true).Consistent → (s.turn true true).left = 0 → (s.turn true true).Returns) :
    s.Returns := by
  obtain ⟨hturn, hsame⟩ := hs.turn true true
  obtain ⟨n, hn⟩ := hnext hturn (hsame.trans hleft)
  exact ⟨n + 1, hn⟩

theorem Consistent.returns_at_wait_lines {s : Sending} (hs : s.Consistent) (hleft : s.left = 0)
    (hpc : s.pc = .wait_lines) : s.Returns := by
  have hconfigured : s.pc.data_configured := by rw [hpc]; rfl
  obtain ⟨hmet, hrest⟩ := met_of_left_eq_zero hconfigured hleft
  have hdata : Listens s.connector.data_line := by
    obtain hlistens | hdeaf := hs.data hconfigured
    · exact hlistens
    · exact Bool.noConfusion (hmet.2.symm.trans hdeaf.input)
  have hclk : Listens s.connector.clk_line := hs.clk (by rw [hpc]; rfl)
  refine ⟨1, ?_⟩
  simp [Machine.final, Sending.step, Sending.turn, hpc, hrest, hdata.gpio_pin_get, hclk.gpio_pin_get]

theorem Consistent.returns_at_wait_idle {s : Sending} (hs : s.Consistent) (hleft : s.left = 0)
    (hpc : s.pc = .wait_idle) : s.Returns := by
  obtain ⟨hmet, -⟩ := met_of_left_eq_zero (by rw [hpc]; rfl) hleft
  refine hs.returns_of_turn hleft fun hnext hleft => hnext.returns_at_wait_lines hleft ?_
  rw [Sending.turn, hpc]
  exact congrArg Sending.pc (if_pos hmet.1)

/-- A send that has met such an edge, the last one, goes through. -/
theorem Consistent.returns {s : Sending} (hs : s.Consistent) (hleft : s.left = 0) : s.Returns := by
  have hcount {s : Sending} (hs : s.Consistent) (hleft : s.left = 0) (hpc : s.pc = .current_bit_no) : s.Returns := by
    refine hs.returns_of_turn hleft fun hnext hleft => hnext.returns_at_wait_idle hleft ?_
    rw [Sending.turn, hpc]
  have hrelease {s : Sending} (hs : s.Consistent) (hleft : s.left = 0) (hpc : s.pc = .clk_high_z) : s.Returns := by
    refine hs.returns_of_turn hleft fun hnext hleft => hcount hnext hleft ?_
    rw [Sending.turn, hpc]
  cases hpc : s.pc with
  | outgoing_data | PS2_state | clk_configure | clk_set | data_configure =>
    rw [left, hpc] at hleft
    cases hleft
  | data_set =>
    refine hs.returns_of_turn hleft fun hnext hleft => hrelease hnext hleft ?_
    rw [Sending.turn, hpc]
  | clk_high_z => exact hrelease hs hleft hpc
  | current_bit_no => exact hcount hs hleft hpc
  | wait_idle => exact hs.returns_at_wait_idle hleft hpc
  | wait_lines => exact hs.returns_at_wait_lines hleft hpc
  | returned => exact ⟨0, hpc⟩

theorem Consistent.returns_iff {s : Sending} (hs : s.Consistent) : s.Returns ↔ s.left = 0 := by
  refine ⟨?_, hs.returns⟩
  rintro ⟨n, hn⟩
  obtain ⟨-, hcount⟩ := hs.run (List.replicate n (.turn true true))
  rw [outputs_turns, List.count_replicate, left, hn] at hcount
  exact hcount.symm

end Sending

/-- A thread that sends some bytes comes to return exactly if for each of them the
first edge after the store to `PS2_state` has come between the configuration of the
data pin and the store to `current_bit_no`, and found nine bits of a frame. After an
earlier one the connector is idle too, but the data pin is configured as an output
once more, and the thread reads it as low for ever. -/
theorem sends_return_iff {c : Connector} (hstate : c.PS2_state ≠ .PS2_STATE_HOST_TO_DEV) (msg : uint8_t)
    (rest : List uint8_t) (happenings : List Happening) :
    (Machine.final Sending.step (.start c msg rest) happenings).Returns ↔
      (Machine.outputs Sending.step (.start c msg rest) happenings).count true = rest.length + 1 := by
  have hstart : (Sending.start c msg rest).Consistent := ⟨fun _ => hstate, nofun, nofun, nofun, nofun⟩
  obtain ⟨hfinal, hcount⟩ := hstart.run happenings
  have hleft : (Sending.start c msg rest).left = rest.length + 1 := rfl
  rw [hfinal.returns_iff]
  omega

def SCROLL_LOCK_LED_MASK : uint8_t := 0x01
def NUM_LOCK_LED_MASK : uint8_t := 0x01 <<< 1
def CAPS_LOCK_LED_MASK : uint8_t := 0x01 <<< 2

def PS2_CMD_SET_LEDS : uint8_t := 0xed

/-- `ps2_keyboard_set_leds`: the command, then the mask of the LEDs. -/
def ps2_keyboard_set_leds (c : Connector) (scroll_lock num_lock caps_lock : uint8_t) : Sending :=
  let command : uint8_t := 0
  let command := if scroll_lock ≠ 0 then command ||| SCROLL_LOCK_LED_MASK else command
  let command := if num_lock ≠ 0 then command ||| NUM_LOCK_LED_MASK else command
  let command := if caps_lock ≠ 0 then command ||| CAPS_LOCK_LED_MASK else command
  .start c PS2_CMD_SET_LEDS [command]

/-- Both sends of a set-LEDs command, each begun with nine bits of a frame in, and
with its first edge between the release of the clock and the store to the bit counter. -/
theorem set_leds_returns_after_races :
    (Machine.final Sending.step
      (ps2_keyboard_set_leds (Machine.final clk_fall_cb ps2_connector_init (List.replicate 9 false)) 1 0 1)
      (List.replicate 7 (.turn true true) ++ [.edge true] ++ List.replicate 3 (.turn true true) ++
        List.replicate 9 (.edge false) ++ List.replicate 7 (.turn true true) ++ [.edge true])).Returns :=
  (sends_return_iff (by decide) PS2_CMD_SET_LEDS [0x05] _).mpr (by decide)

-- with the edge before the configuration of the data pin the thread does not get through the last wait
example : (Machine.final Sending.step
    (.start (Machine.final clk_fall_cb ps2_connector_init (List.replicate 9 false)) PS2_CMD_SET_LEDS [])
    (List.replicate 4 (.turn true true) ++ [.edge true] ++ List.replicate 20 (.turn true true))).pc =
      .wait_lines := by
  decide

/-- How the two lines are driven: neither is held low, unless the call that sets
the output bit comes next. -/
structure Sending.Released (s : Sending) : Prop where
  clk_invert : s.connector.clk_line.invert = false
  data_invert : s.connector.data_line.invert = false
  clk : s.pc ≠ .clk_set → s.connector.clk_line.level = true
  data : s.pc ≠ .data_set → s.connector.data_line.level = true

theorem level_gpio_pin_set {pin : gpio_pin} (hinvert : pin.invert = false) {v : BitVec 32} (hv : v ≠ 0) :
    (gpio_pin_set pin v).level = true := by
  have hout : (v != 0) = true := bne_iff_ne.mpr hv
  simp only [gpio_pin_set, gpio_pin.level, hout, hinvert, Bool.xor_false, Bool.not_true, Bool.and_false,
    Bool.not_false]

theorem Sending.Released.turn {s : Sending} (hs : s.Released) (data clk : Bool) : (s.turn data clk).Released := by
  obtain ⟨c, pc, msg, rest⟩ := s
  obtain ⟨hclk_invert, hdata_invert, hclk, hdata⟩ := hs
  cases pc with
  | outgoing_data | PS2_state | current_bit_no =>
    exact ⟨hclk_invert, hdata_invert, fun _ => hclk nofun, fun _ => hdata nofun⟩
  | clk_configure => exact ⟨rfl, hdata_invert, absurd rfl, fun _ => hdata nofun⟩
  | clk_set =>
    have hlevel := level_gpio_pin_set hclk_invert (v := GPIO_OUTPUT_ACTIVE) (by decide)
    exact ⟨hclk_invert, hdata_invert, fun _ => hlevel, fun _ => hdata nofun⟩
  | data_configure => exact ⟨hclk_invert, rfl, fun _ => hclk nofun, absurd rfl⟩
  | data_set =>
    have hlevel := level_gpio_pin_set hdata_invert (v := GPIO_OUTPUT_INACTIVE) (by decide)
    exact ⟨hclk_invert, hdata_invert, fun _ => hclk nofun, fun _ => hlevel⟩
  | clk_high_z => exact ⟨rfl, hdata_invert, fun _ => rfl, fun _ => hdata nofun⟩
  | wait_idle =>
    simp only [Sending.turn]
    split
    · exact ⟨hclk_invert, hdata_invert, fun _ => hclk nofun, fun _ => hdata nofun⟩
    · exact ⟨hclk_invert, hdata_invert, hclk, hdata⟩
  | wait_lines =>
    simp only [Sending.turn]
    split
    · exact ⟨hclk_invert, hdata_invert, hclk, hdata⟩
    · cases rest with
      | nil => exact ⟨hclk_invert, hdata_invert, fun _ => hclk nofun, fun _ => hdata nofun⟩
      | cons msg rest => exact ⟨hclk_invert, hdata_invert, fun _ => hclk nofun, fun _ => hdata nofun⟩
  | returned => exact ⟨hclk_invert, hdata_invert, hclk, hdata⟩

theorem Sending.Released.edge {s : Sending} (hs : s.Released) (data : Bool) :
    (s.step (.edge data)).2.Released := by
  have hclk := clk_fall_cb_clk_line s.connector (gpio_pin_get s.connector.data_line data)
  by_cases hstate : s.connector.PS2_state = .PS2_STATE_HOST_TO_DEV
  · have hinvert := host_to_dev_serve_falling_clk_data_line (P := fun pin => pin.invert = false) (fun _ => rfl)
      (fun _ => rfl) s.connector
    have hlevel := host_to_dev_serve_falling_clk_level s.connector
    simp only [Sending.step, clk_fall_cb_of_sending hstate] at hclk ⊢
    exact ⟨hclk ▸ hs.clk_invert, hinvert, fun hpc => hclk ▸ hs.clk hpc, fun _ => hlevel⟩
  · have hdata := clk_fall_cb_data_line_of_receiving hstate (gpio_pin_get s.connector.data_line data)
    simp only [Sending.step]
    exact ⟨hclk ▸ hs.clk_invert, hdata.symm ▸ hs.data_invert, fun hpc => hclk ▸ hs.clk hpc,
      fun hpc => hdata.symm ▸ hs.data hpc⟩

theorem Sending.Released.run {s : Sending} (hs : s.Released) (happenings : List Happening) :
    (Machine.final Sending.step s happenings).Released := by
  apply Machine.final_invariant ?_ hs happenings
  intro s happening hs
  cases happening with
  | edge data => exact hs.edge data
  | turn data clk => exact hs.turn data clk

/-- Before the first send the edges are those of a receiver, which samples what the
device leaves on the line. -/
theorem Sending.final_edges {c : Connector} (hstate : c.PS2_state ≠ .PS2_STATE_HOST_TO_DEV)
    (hdata : Listens c.data_line) (msg : uint8_t) (rest : List uint8_t) (levels : List Bool) :
    Machine.final Sending.step (.start c msg rest) (levels.map .edge) =
      .start (Machine.final clk_fall_cb c levels) msg rest := by
  induction levels generalizing c with
  | nil => rfl
  | cons level levels ih =>
    have hstep : (Sending.step (.start c msg rest) (.edge level)).2 = .start (clk_fall_cb c level).2 msg rest := by
      simp only [Sending.step, Sending.start, hdata.gpio_pin_get]
    have hnext := clk_fall_cb_PS2_state c level
    rw [if_neg hstate] at hnext
    rw [List.map_cons, Machine.final, Machine.final, hstep]
    exact ih (hnext ▸ hstate) (clk_fall_cb_data_line_of_receiving hstate level ▸ hdata)

/-- Neither line is held low while the thread sleeps or waits, whenever it begins
to send, whatever it sends and whenever edges come: the device sees no request.
The one moment left to each line is between the two calls that should pull it low. -/
theorem lines_high_while_sending (levels : List Bool) (msg : uint8_t) (rest : List uint8_t)
    (happenings : List Happening) :
    let s := Machine.final Sending.step (.start (Machine.final clk_fall_cb ps2_connector_init levels) msg rest)
      happenings
    (s.pc ≠ .clk_set → s.connector.clk_line.level = true) ∧
      (s.pc ≠ .data_set → s.connector.data_line.level = true) := by
  -- before the first send the thread may be taken to stand at its start, with edges only
  have hinit : (Sending.start ps2_connector_init msg rest).Released := ⟨rfl, rfl, fun _ => rfl, fun _ => rfl⟩
  have hedges := Sending.final_edges (c := ps2_connector_init) nofun ⟨rfl, rfl, rfl⟩ msg rest levels
  have hstart := hinit.run (levels.map .edge)
  rw [hedges] at hstart
  exact ⟨(hstart.run happenings).clk, (hstart.run happenings).data⟩

-- the moment between the two calls, in the first send: the output bit is still clear
example : (Machine.final Sending.step (.start ps2_connector_init 0xED [])
    [.turn true true, .turn true true, .turn true true]).connector.clk_line.level = false := by decide

end peripheral_hids.ps2_connector
