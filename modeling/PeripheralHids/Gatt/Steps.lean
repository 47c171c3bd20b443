import PeripheralHids.Gatt.Table

open peripheral_hids.hog
open peripheral_hids.gatt.bt_security_t peripheral_hids.gatt.bt_conn_state_t

namespace peripheral_hids.gatt

variable {α : Type}

@[simp] theorem bt_conn_set_security_dst (conn : bt_conn α) (sec : bt_security_t) (err : Bool) :
    (bt_conn_set_security conn sec err).dst = conn.dst := by
  unfold bt_conn_set_security reset_pairing
  split_ifs <;> rfl

@[simp] theorem bt_conn_set_security_sec_level (conn : bt_conn α) (sec : bt_security_t) (err : Bool) :
    (bt_conn_set_security conn sec err).sec_level = conn.sec_level := by
  unfold bt_conn_set_security reset_pairing
  split_ifs <;> rfl

@[simp] theorem bt_conn_set_security_state (conn : bt_conn α) (sec : bt_security_t) (err : Bool) :
    (bt_conn_set_security conn sec err).state = conn.state := by
  unfold bt_conn_set_security reset_pairing
  split_ifs <;> rfl

@[simp] theorem bt_conn_set_security_encrypt (conn : bt_conn α) (sec : bt_security_t) (err : Bool) :
    (bt_conn_set_security conn sec err).encrypt = conn.encrypt := by
  unfold bt_conn_set_security reset_pairing
  split_ifs <;> rfl

@[simp] theorem update_sec_level_dst (conn : bt_conn α) (keys : Option bt_keys) :
    (update_sec_level conn keys).dst = conn.dst := by
  unfold update_sec_level bt_conn_disconnect
  split_ifs <;> rfl

@[simp] theorem update_sec_level_encrypt (conn : bt_conn α) (keys : Option bt_keys) :
    (update_sec_level conn keys).encrypt = conn.encrypt := by
  unfold update_sec_level bt_conn_disconnect
  split_ifs <;> rfl

theorem update_sec_level_sec_level (conn : bt_conn α) (keys : Option bt_keys) :
    (update_sec_level conn keys).sec_level =
      if conn.encrypt then bt_keys.sec_level keys else BT_SECURITY_L1 := by
  unfold update_sec_level bt_conn_disconnect
  cases conn.encrypt with
  | false => rfl
  | true =>
    rw [if_neg (by decide), if_pos rfl]
    split <;> rfl

/-- A link that keeps its state has at least the level that was required. -/
theorem required_of_connected {conn : bt_conn α} {keys : Option bt_keys} (hencrypt : conn.encrypt = true)
    (hstate : (update_sec_level conn keys).state = BT_CONN_CONNECTED) :
    conn.state = BT_CONN_CONNECTED ∧
      conn.required_sec_level.level ≤ (update_sec_level conn keys).sec_level.level := by
  unfold update_sec_level at hstate ⊢
  rw [hencrypt, if_neg (by decide)] at hstate ⊢
  split at hstate
  · exact bt_conn_state_t.noConfusion hstate
  · rename_i hlevel
    rw [if_neg hlevel]
    exact ⟨hstate, Nat.not_lt.mp hlevel⟩

section

variable [DecidableEq α]

/-- What an event makes of a link. -/
def Event.secured : Event α → bt_conn α → bt_conn α
  | .set_security dst sec err, conn => if conn.dst = dst then bt_conn_set_security conn sec err else conn
  | .encrypt_change dst encrypt keys, conn =>
    if conn.dst = dst then reset_pairing (update_sec_level { conn with encrypt := encrypt } keys) else conn
  | .key_refresh dst keys, conn => if conn.dst = dst then reset_pairing (update_sec_level conn keys) else conn
  | .security_failed dst, conn => if conn.dst = dst then reset_pairing conn else conn
  | _, conn => conn

/-- What holds of a link and is kept by each function that an event may call on
it is kept by the event. -/
theorem Event.secured_invariant {P : bt_conn α → Prop} (event : Event α) {conn : bt_conn α} (hconn : P conn)
    (hset : ∀ sec err, P (bt_conn_set_security conn sec err))
    (hchange : ∀ dst encrypt keys, event = .encrypt_change dst encrypt keys → conn.dst = dst →
      P (reset_pairing (update_sec_level { conn with encrypt := encrypt } keys)))
    (hrefresh : ∀ dst keys, event = .key_refresh dst keys → conn.dst = dst →
      P (reset_pairing (update_sec_level conn keys)))
    (hreset : P (reset_pairing conn)) : P (event.secured conn) := by
  cases event with
  | set_security dst sec err =>
    rw [Event.secured]
    split
    · exact hset sec err
    · exact hconn
  | encrypt_change dst encrypt keys =>
    rw [Event.secured]
    split
    · exact hchange dst encrypt keys rfl ‹_›
    · exact hconn
  | key_refresh dst keys =>
    rw [Event.secured]
    split
    · exact hrefresh dst keys rfl ‹_›
    · exact hconn
  | security_failed dst =>
    rw [Event.secured]
    split
    · exact hreset
    · exact hconn
  | _ => exact hconn

@[simp] theorem Event.secured_dst (event : Event α) (conn : bt_conn α) :
    (event.secured conn).dst = conn.dst :=
  event.secured_invariant (P := fun other => other.dst = conn.dst) rfl (bt_conn_set_security_dst conn)
    (fun _ _ keys _ _ => update_sec_level_dst _ keys) (fun _ keys _ _ => update_sec_level_dst conn keys) rfl

end

namespace Server

@[simp] theorem gatt_ccc_changed_value (s : Server α) : s.gatt_ccc_changed.value = highest s.cfg := by
  unfold gatt_ccc_changed
  by_cases hsame : highest s.cfg = s.value
  · rw [if_neg (not_not.mpr hsame), hsame]
  · rw [if_pos hsame]

@[simp] theorem gatt_ccc_changed_cfg (s : Server α) : s.gatt_ccc_changed.cfg = s.cfg := by
  unfold gatt_ccc_changed
  split <;> rfl

@[simp] theorem gatt_ccc_changed_conns (s : Server α) : s.gatt_ccc_changed.conns = s.conns := by
  unfold gatt_ccc_changed
  split <;> rfl

@[simp] theorem gatt_ccc_changed_sent (s : Server α) : s.gatt_ccc_changed.sent = s.sent := by
  unfold gatt_ccc_changed
  split <;> rfl

/-- `simulate_input` follows the consolidated value. -/
def Follows (s : Server α) : Prop :=
  s.hog.simulate_input = if s.value = BT_GATT_CCC_NOTIFY then 1 else 0

theorem input_ccc_changed_simulate_input (h : Hog) (value : uint16_t) :
    (input_ccc_changed h value).simulate_input = if value = BT_GATT_CCC_NOTIFY then 1 else 0 := rfl

theorem hog_set_keyboard_input_simulate_input (h : Hog) (report : hids_report_keyboard) :
    (hog_set_keyboard_input h report).simulate_input = h.simulate_input := by
  unfold hog_set_keyboard_input trigger_report_notification
  split <;> rfl

theorem Follows.gatt_ccc_changed {s : Server α} (hfollows : s.Follows) : s.gatt_ccc_changed.Follows := by
  unfold Server.gatt_ccc_changed
  split
  · exact input_ccc_changed_simulate_input s.hog _
  · exact hfollows

@[simp] theorem set_cfg_conns (s : Server α) (i : Nat) (peer : α) (value : uint16_t) :
    (s.set_cfg i peer value).conns = s.conns := by
  unfold set_cfg
  simp only
  split <;> split <;> simp

@[simp] theorem set_cfg_sent (s : Server α) (i : Nat) (peer : α) (value : uint16_t) :
    (s.set_cfg i peer value).sent = s.sent := by
  unfold set_cfg
  simp only
  split <;> split <;> simp

/-- The entry that is left by a write. -/
def written (peer : α) (value : uint16_t) : bt_gatt_ccc_cfg α :=
  if value = 0 then clear_ccc_cfg else .of_peer peer value

@[simp] theorem set_cfg_cfg (s : Server α) (i : Nat) (peer : α) (value : uint16_t) :
    (s.set_cfg i peer value).cfg = s.cfg.set i (written peer value) := by
  unfold set_cfg written
  simp only
  split <;> split <;> simp

/-- The consolidated value is taken again if it differs from what is written. -/
theorem set_cfg_value (s : Server α) (i : Nat) (peer : α) (value : uint16_t) :
    (s.set_cfg i peer value).value =
      if value ≠ s.value then highest (s.set_cfg i peer value).cfg else s.value := by
  rw [set_cfg_cfg]
  unfold set_cfg written
  by_cases hzero : value = 0
  · subst hzero
    simp only [if_true]
    split
    · rw [gatt_ccc_changed_value, highest_set_clear]
    · rfl
  · simp only [if_neg hzero]
    split
    · rw [gatt_ccc_changed_value]
    · rfl

theorem Follows.set_cfg {s : Server α} (hfollows : s.Follows) (i : Nat) (peer : α) (value : uint16_t) :
    (s.set_cfg i peer value).Follows := by
  have hset : Follows { s with cfg := s.cfg.set i (.of_peer peer value) } := hfollows
  unfold Server.set_cfg
  simp only
  split
  · split
    · exact hset.gatt_ccc_changed
    · exact hset
  · split
    · exact hset.gatt_ccc_changed
    · exact hset

variable [DecidableEq α]

/-- An entry that the peer's value may go to: its own, or a free one when it has
none and asks for something. -/
def Writable (cfg : List (bt_gatt_ccc_cfg α)) (i : Nat) (peer : α) (value : uint16_t) : Prop :=
  ∃ entry, cfg[i]? = some entry ∧
    (entry.peer = some peer ∨ entry.peer = none ∧ value ≠ 0 ∧ ∀ other ∈ cfg, other.peer ≠ some peer)

theorem configure_cases (s : Server α) (conn : bt_conn α) (len : Nat) (value : uint16_t) :
    (s.configure conn len value).2 = s ∨
      ∃ i, (s.configure conn len value).2 = s.set_cfg i conn.dst value ∧ Writable s.cfg i conn.dst value := by
  unfold configure
  cases hown : find_ccc_cfg s.cfg (some conn.dst) with
  | some i =>
    obtain ⟨entry, hentry, hpeer⟩ := find_ccc_cfg_eq_some hown
    exact .inr ⟨i, rfl, entry, hentry, .inl hpeer⟩
  | none =>
    by_cases hvalue : value = 0
    · exact .inl (by rw [if_pos hvalue])
    · simp only [if_neg hvalue]
      cases hfree : find_ccc_cfg s.cfg none with
      | none => exact .inl rfl
      | some i =>
        obtain ⟨entry, hentry, hpeer⟩ := find_ccc_cfg_eq_some hfree
        exact .inr ⟨i, rfl, entry, hentry, .inr ⟨hpeer, hvalue, fun _ => find_ccc_cfg_eq_none hown⟩⟩

/-- A write is refused, or goes to the control point, or configures a peer whose
link is authenticated. -/
theorem write_cases (s : Server α) (conn : bt_conn α) (attr : svc_attr) (buf : List uint8_t) (offset : uint16_t) :
    (∃ byte, (s.write conn attr buf offset).2 = { s with ctrl_point := byte }) ∨
      3 ≤ conn.sec_level.level ∧ ∃ i value, (s.write conn attr buf offset).2 = s.set_cfg i conn.dst value ∧
        Writable s.cfg i conn.dst value := by
  unfold write
  by_cases hperm : bt_gatt_check_perm conn attr BT_GATT_PERM_WRITE_MASK ≠ 0
  · rw [if_pos hperm]
    exact .inl ⟨s.ctrl_point, rfl⟩
  · rw [if_neg hperm]
    cases attr with
    | value uuid => exact .inl ⟨s.ctrl_point, rfl⟩
    | ctrl_point =>
      simp only [write_ctrl_point]
      split
      · exact .inl ⟨s.ctrl_point, rfl⟩
      · cases buf with
        | nil => exact .inl ⟨s.ctrl_point, rfl⟩
        | cons byte buf => exact .inl ⟨byte, rfl⟩
    | ccc =>
      rw [bt_gatt_check_perm_ccc] at hperm
      have hlevel : 3 ≤ conn.sec_level.level := by
        by_contra hlevel
        have hlow : conn.sec_level.level < BT_SECURITY_L3.level := Nat.lt_of_not_le hlevel
        rw [if_pos hlow] at hperm
        exact hperm (by decide)
      have hconfigure (len : Nat) (value : uint16_t) :
          (∃ byte, (s.configure conn len value).2 = { s with ctrl_point := byte }) ∨
            3 ≤ conn.sec_level.level ∧ ∃ i value', (s.configure conn len value).2 = s.set_cfg i conn.dst value' ∧
              Writable s.cfg i conn.dst value' := by
        obtain heq | ⟨i, heq, hwritable⟩ := configure_cases s conn len value
        · exact .inl ⟨s.ctrl_point, heq⟩
        · exact .inr ⟨hlevel, i, value, heq, hwritable⟩
      simp only [bt_gatt_attr_write_ccc]
      split
      · exact .inl ⟨s.ctrl_point, rfl⟩
      · match buf with
        | [byte] => exact hconfigure 1 _
        | [low, high] => exact hconfigure 2 _
        | [] => exact .inl ⟨s.ctrl_point, rfl⟩
        | _ :: _ :: _ :: _ => exact .inl ⟨s.ctrl_point, rfl⟩

theorem lookup_eq_some {s : Server α} {dst : α} {conn : bt_conn α} (hlookup : s.lookup dst = some conn) :
    conn ∈ s.conns ∧ conn.dst = dst :=
  ⟨List.mem_of_find?_eq_some hlookup, by simpa using List.find?_some hlookup⟩

theorem lookup_eq_none {s : Server α} {dst : α} (hlookup : s.lookup dst = none) {conn : bt_conn α}
    (hconn : conn ∈ s.conns) : conn.dst ≠ dst := by
  simpa using List.find?_eq_none.mp hlookup conn hconn

/-- A refresh has an effect only through a link at level 3. -/
theorem refresh_cases (s : Server α) (dst : α) :
    (s.refresh dst = s ∧
      ∀ conn, s.lookup dst = some conn → conn.sec_level.level < 3 ∨ ¬Subscribed s.cfg conn.dst) ∨
      s.refresh dst = s.gatt_ccc_changed ∧ ∃ conn, s.lookup dst = some conn ∧ 3 ≤ conn.sec_level.level := by
  unfold refresh
  cases hlookup : s.lookup dst with
  | none => exact .inl ⟨rfl, nofun⟩
  | some conn =>
    obtain ⟨heq, hwhy⟩ | ⟨heq, hlevel⟩ := update_ccc_cases s conn s.cfg
    · refine .inl ⟨heq, fun other hother => ?_⟩
      cases hother
      exact hwhy
    · exact .inr ⟨heq, conn, rfl, hlevel⟩

@[simp] theorem refresh_conns (s : Server α) (dst : α) : (s.refresh dst).conns = s.conns := by
  obtain ⟨heq, -⟩ | ⟨heq, -⟩ := refresh_cases s dst
  · rw [heq]
  · rw [heq, gatt_ccc_changed_conns]

@[simp] theorem refresh_cfg (s : Server α) (dst : α) : (s.refresh dst).cfg = s.cfg := by
  obtain ⟨heq, -⟩ | ⟨heq, -⟩ := refresh_cases s dst
  · rw [heq]
  · rw [heq, gatt_ccc_changed_cfg]

@[simp] theorem refresh_sent (s : Server α) (dst : α) : (s.refresh dst).sent = s.sent := by
  obtain ⟨heq, -⟩ | ⟨heq, -⟩ := refresh_cases s dst
  · rw [heq]
  · rw [heq, gatt_ccc_changed_sent]

theorem Follows.refresh {s : Server α} (hfollows : s.Follows) (dst : α) : (s.refresh dst).Follows := by
  obtain ⟨heq, -⟩ | ⟨heq, -⟩ := refresh_cases s dst
  · rwa [heq]
  · rw [heq]
    exact hfollows.gatt_ccc_changed

@[simp] theorem disconnected_cb_conns (s : Server α) (dst : α) (bonded : Bool) :
    (s.disconnected_cb dst bonded).conns = s.conns := by
  unfold disconnected_cb
  simp only
  split_ifs <;> rfl

@[simp] theorem disconnected_cb_sent (s : Server α) (dst : α) (bonded : Bool) :
    (s.disconnected_cb dst bonded).sent = s.sent := by
  unfold disconnected_cb
  simp only
  split_ifs <;> rfl

/-- With no link left, nothing is asked for. -/
theorem disconnected_cb_value {s : Server α} (hconns : s.conns = []) (dst : α) (bonded : Bool) :
    (s.disconnected_cb dst bonded).value = 0 := by
  have hused : (s.cfg.any fun entry => entry.value ≠ 0 ∧ entry.peer ≠ some dst ∧
      (entry.peer.bind s.lookup).any fun conn => conn.state = BT_CONN_CONNECTED) = false := by
    refine List.any_eq_false.mpr fun entry _ => ?_
    have hlookup : entry.peer.bind s.lookup = none := by
      cases entry.peer with
      | none => rfl
      | some peer => rw [Option.bind_some, lookup, hconns, List.find?_nil]
    simp [hlookup]
  unfold disconnected_cb
  by_cases hvalue : s.value = 0
  · rw [if_pos hvalue, hvalue]
  · rw [if_neg hvalue, hused]
    rfl

theorem Distinct.disconnected_cb {s : Server α} (hdistinct : Distinct s.cfg) (dst : α) (bonded : Bool) :
    Distinct (s.disconnected_cb dst bonded).cfg := by
  have hmap : Distinct (s.cfg.map fun entry =>
      if entry.value ≠ 0 ∧ entry.peer = some dst ∧ !bonded then clear_ccc_cfg else entry) := by
    apply hdistinct.map
    intro entry peer hpeer
    split at hpeer
    · cases hpeer
    · exact hpeer
  unfold Server.disconnected_cb
  simp only
  split_ifs
  · exact hdistinct
  · exact hmap
  · exact hmap

theorem Follows.disconnected_cb {s : Server α} (hfollows : s.Follows) (dst : α) (bonded : Bool) :
    (s.disconnected_cb dst bonded).Follows := by
  unfold Server.disconnected_cb
  simp only
  split_ifs
  · exact hfollows
  · exact hfollows
  · exact input_ccc_changed_simulate_input s.hog 0

/-- All that an event can do. -/
theorem step_cases (max_conn : Nat) (s : Server α) (event : Event α) :
    (∃ byte, s.step max_conn event = { s with ctrl_point := byte }) ∨
    (∃ dst, event = .connected dst ∧ s.lookup dst = none ∧ s.conns.length < max_conn ∧
      s.step max_conn event = { s with conns := s.conns ++ [bt_conn_add_le dst] }.refresh dst) ∨
    (s.step max_conn event = { s with conns := s.conns.map event.secured } ∧
      ∀ conn, (event.secured conn).sec_level = conn.sec_level) ∨
    (∃ dst, s.step max_conn event = { s with conns := s.conns.map event.secured }.refresh dst ∧
      ∀ conn, conn.dst ≠ dst → event.secured conn = conn) ∨
    (∃ conn i value, s.lookup conn.dst = some conn ∧ 3 ≤ conn.sec_level.level ∧ Writable s.cfg i conn.dst value ∧
      s.step max_conn event = s.set_cfg i conn.dst value) ∨
    (∃ conn bonded, s.lookup conn.dst = some conn ∧ s.step max_conn event =
      { s with conns := s.conns.filter fun other => other.dst ≠ conn.dst }.disconnected_cb conn.dst bonded) ∨
    ∃ report refused, event = .set report refused ∧ s.step max_conn event = s.set_keyboard_input report refused := by
  cases event with
  | connected dst =>
    simp only [step]
    split
    · exact .inl ⟨s.ctrl_point, rfl⟩
    · rename_i hroom
      obtain ⟨hnone, hlength⟩ := not_or.mp hroom
      exact .inr (.inl ⟨dst, rfl, Option.not_isSome_iff_eq_none.mp hnone, Nat.not_le.mp hlength, rfl⟩)
  | set_security dst sec err =>
    refine .inr (.inr (.inl ⟨rfl, fun conn => ?_⟩))
    rw [Event.secured]
    split
    · exact bt_conn_set_security_sec_level conn sec err
    · rfl
  | security_failed dst =>
    refine .inr (.inr (.inl ⟨rfl, fun conn => ?_⟩))
    rw [Event.secured]
    split <;> rfl
  | encrypt_change dst encrypt keys => exact .inr (.inr (.inr (.inl ⟨dst, rfl, fun conn hdst => if_neg hdst⟩)))
  | key_refresh dst keys => exact .inr (.inr (.inr (.inl ⟨dst, rfl, fun conn hdst => if_neg hdst⟩)))
  | write dst attr buf offset =>
    simp only [step]
    cases hlookup : s.lookup dst with
    | none => exact .inl ⟨s.ctrl_point, rfl⟩
    | some conn =>
      obtain ⟨-, rfl⟩ := lookup_eq_some hlookup
      obtain ⟨byte, heq⟩ | ⟨hlevel, i, value, heq, hwritable⟩ := write_cases s conn attr buf offset
      · exact .inl ⟨byte, heq⟩
      · exact .inr (.inr (.inr (.inr (.inl ⟨conn, i, value, hlookup, hlevel, hwritable, heq⟩))))
  | disconnected dst bonded =>
    simp only [step]
    cases hlookup : s.lookup dst with
    | none => exact .inl ⟨s.ctrl_point, rfl⟩
    | some conn =>
      obtain ⟨-, rfl⟩ := lookup_eq_some hlookup
      exact .inr (.inr (.inr (.inr (.inr (.inl ⟨conn, bonded, hlookup, rfl⟩)))))
  | set report refused => exact .inr (.inr (.inr (.inr (.inr (.inr ⟨report, refused, rfl, rfl⟩)))))

end Server

end peripheral_hids.gatt
