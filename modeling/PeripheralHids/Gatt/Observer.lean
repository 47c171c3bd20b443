import PeripheralHids.Gatt.Authenticated

open peripheral_hids.hog Secrecy
open peripheral_hids.gatt.bt_security_t peripheral_hids.gatt.bt_conn_state_t

namespace peripheral_hids.gatt

variable {α : Type}

/-- An event without the report that it may carry. -/
def Event.visible : Event α → Event α
  | .set _ refused => .set .zero refused
  | event => event

namespace Server

/-- The server without the reports it holds and has sent. -/
def control (s : Server α) : Server α :=
  { s with hog := { Hog.initial with simulate_input := s.hog.simulate_input }, sent := [] }

theorem control_gatt_ccc_changed (s : Server α) : s.gatt_ccc_changed.control = s.control.gatt_ccc_changed := by
  unfold gatt_ccc_changed control
  split <;> rfl

theorem control_set_cfg (s : Server α) (i : Nat) (peer : α) (value : uint16_t) :
    (s.set_cfg i peer value).control = s.control.set_cfg i peer value := by
  unfold set_cfg gatt_ccc_changed control
  simp only
  split_ifs <;> rfl

variable [DecidableEq α]

theorem control_update_ccc (s : Server α) (conn : bt_conn α) (entries : List (bt_gatt_ccc_cfg α)) :
    (update_ccc s conn entries).control = update_ccc s.control conn entries := by
  induction entries with
  | nil => rfl
  | cons entry rest ih =>
    simp only [update_ccc]
    split_ifs <;> first | exact ih | exact control_gatt_ccc_changed s

theorem control_refresh (s : Server α) (dst : α) : (s.refresh dst).control = s.control.refresh dst := by
  have hlookup : s.control.lookup dst = s.lookup dst := rfl
  unfold refresh
  rw [hlookup]
  cases s.lookup dst with
  | none => rfl
  | some conn => exact control_update_ccc s conn s.cfg

theorem control_disconnected_cb (s : Server α) (dst : α) (bonded : Bool) :
    (s.disconnected_cb dst bonded).control = s.control.disconnected_cb dst bonded := by
  simp only [disconnected_cb, apply_ite control]
  rfl

theorem control_configure (s : Server α) (conn : bt_conn α) (len : Nat) (value : uint16_t) :
    s.control.configure conn len value =
      ((s.configure conn len value).1, (s.configure conn len value).2.control) := by
  have hcfg : s.control.cfg = s.cfg := rfl
  unfold configure
  rw [hcfg]
  cases find_ccc_cfg s.cfg (some conn.dst) with
  | some i => simp only [control_set_cfg]
  | none =>
    by_cases hvalue : value = 0
    · simp only [if_pos hvalue]
    · simp only [if_neg hvalue]
      cases find_ccc_cfg s.cfg none with
      | none => rfl
      | some i => simp only [control_set_cfg]

/-- The answer to a write, and what it leaves, do not depend on reports. -/
theorem control_write (s : Server α) (conn : bt_conn α) (attr : svc_attr) (buf : List uint8_t) (offset : uint16_t) :
    s.control.write conn attr buf offset =
      ((s.write conn attr buf offset).1, (s.write conn attr buf offset).2.control) := by
  unfold write
  by_cases hperm : bt_gatt_check_perm conn attr BT_GATT_PERM_WRITE_MASK ≠ 0
  · rw [if_pos hperm, if_pos hperm]
  · rw [if_neg hperm, if_neg hperm]
    cases attr with
    | value uuid => rfl
    | ctrl_point =>
      simp only [write_ctrl_point]
      split
      · rfl
      · cases buf with
        | nil => rfl
        | cons byte buf => rfl
    | ccc =>
      simp only [bt_gatt_attr_write_ccc]
      split
      · rfl
      · obtain _ | ⟨low, _ | ⟨high, _ | ⟨_, _⟩⟩⟩ := buf
        · rfl
        · exact control_configure s conn 1 _
        · exact control_configure s conn 2 _
        · rfl

theorem control_set_keyboard_input (s : Server α) (report : hids_report_keyboard) (refused : α → Bool) :
    (s.set_keyboard_input report refused).control = s.control := by
  simp only [set_keyboard_input, control, hog_set_keyboard_input_simulate_input]

theorem control_step (s : Server α) (max_conn : Nat) (event : Event α) :
    (s.step max_conn event).control = (s.control.step max_conn event.visible).control := by
  have hlookup : s.control.lookup = s.lookup := rfl
  cases event with
  | connected dst =>
    simp only [Event.visible, step, hlookup, apply_ite control, control_refresh]
    rfl
  | set_security dst sec err => rfl
  | security_failed dst => rfl
  | encrypt_change dst encrypt keys =>
    simp only [Event.visible, step, control_refresh]
    rfl
  | key_refresh dst keys =>
    simp only [Event.visible, step, control_refresh]
    rfl
  | write dst attr buf offset =>
    simp only [Event.visible, step, hlookup]
    cases s.lookup dst with
    | none => rfl
    | some conn =>
      simp only [control_write]
      rfl
  | disconnected dst bonded =>
    simp only [Event.visible, step, hlookup]
    cases s.lookup dst with
    | none => rfl
    | some conn =>
      simp only [control_disconnected_cb]
      rfl
  | set report refused =>
    simp only [Event.visible, step, control_set_keyboard_input]
    rfl

end Server

/-- Whether an event gives the link to the peer authenticated keys. -/
def Event.Authenticates (peer : α) : Event α → Prop
  | .encrypt_change dst _ keys | .key_refresh dst keys => dst = peer ∧ (keys.any fun keys => keys.authenticated)
  | _ => False

/-- A link that is not to the peer, or below level 3. -/
def bt_conn.Low (peer : α) (conn : bt_conn α) : Prop :=
  conn.dst = peer → conn.sec_level.level < 3

theorem sec_level_of_not_authenticated {keys : Option bt_keys} (hkeys : ¬keys.any fun keys => keys.authenticated) :
    bt_keys.sec_level keys = BT_SECURITY_L2 := by
  cases keys with
  | none => rfl
  | some keys => exact if_neg hkeys

theorem update_sec_level_low {conn : bt_conn α} {keys : Option bt_keys}
    (hkeys : ¬keys.any fun keys => keys.authenticated) : (update_sec_level conn keys).sec_level.level < 3 := by
  rw [update_sec_level_sec_level, sec_level_of_not_authenticated hkeys]
  split <;> decide

/-- Reading what depends on reports or on configurations takes level 3. -/
theorem check_perm_of_low {conn : bt_conn α} (hlow : conn.sec_level.level < 3) {attr : svc_attr}
    (hattr : attr ≠ .value .HIDS_INFO) (hmap : attr ≠ .value .HIDS_REPORT_MAP) :
    bt_gatt_check_perm conn attr BT_GATT_PERM_READ_MASK ≠ 0 := by
  have hauthen (hmask : BT_GATT_PERM_READ_MASK &&& attr.perm &&& BT_GATT_PERM_AUTHEN_MASK ≠ 0) :
      bt_gatt_check_perm conn attr BT_GATT_PERM_READ_MASK ≠ 0 := by
    unfold bt_gatt_check_perm
    split
    · decide
    · split
      · decide
      · have hdenied : BT_GATT_PERM_READ_MASK &&& attr.perm &&& BT_GATT_PERM_AUTHEN_MASK ≠ 0 ∧
            conn.sec_level.level < BT_SECURITY_L3.level := ⟨hmask, hlow⟩
        simp only [if_pos hdenied]
        decide
  cases attr with
  | ctrl_point =>
    unfold bt_gatt_check_perm
    rw [if_pos (by decide)]
    decide
  | ccc => exact hauthen (by decide)
  | value uuid =>
    cases uuid with
    | HIDS_INFO => exact absurd rfl hattr
    | HIDS_REPORT_MAP => exact absurd rfl hmap
    | HIDS_REPORT => exact hauthen (by decide)
    | HIDS_REPORT_REF => exact hauthen (by decide)

variable [DecidableEq α]

theorem bt_conn.Low.secured {peer : α} {conn : bt_conn α} (hlow : conn.Low peer) {event : Event α}
    (hevent : ¬event.Authenticates peer) : (event.secured conn).Low peer := by
  apply event.secured_invariant (P := bt_conn.Low peer) hlow
  · intro sec err hdst
    rw [bt_conn_set_security_sec_level]
    exact hlow (bt_conn_set_security_dst conn sec err ▸ hdst)
  · rintro dst encrypt keys rfl rfl hdst
    have hpeer : conn.dst = peer := (update_sec_level_dst { conn with encrypt := encrypt } keys).symm.trans hdst
    exact update_sec_level_low fun hkeys => hevent ⟨hpeer, hkeys⟩
  · rintro dst keys rfl rfl hdst
    have hpeer : conn.dst = peer := (update_sec_level_dst conn keys).symm.trans hdst
    exact update_sec_level_low fun hkeys => hevent ⟨hpeer, hkeys⟩
  · exact hlow

/-- What holds of the server while the peer has no authenticated keys. -/
structure Server.Withholds (peer : α) (s : Server α) : Prop where
  guarded : s.Guarded (bt_conn.Low peer) fun conn => conn.dst ≠ peer
  follows : s.Follows
  sent : ∀ sent ∈ s.sent, sent.conn.dst ≠ peer

theorem Server.Withholds.step {peer : α} {s : Server α} (hs : s.Withholds peer) {event : Event α}
    (hevent : ¬event.Authenticates peer) : (s.step 1 event).Withholds peer where
  guarded := by
    refine hs.guarded.step (fun _ _ => Nat.lt_of_sub_eq_succ rfl) (fun conn hlow hthree hdst => ?_)
      fun conn hlow => ⟨?_, ?_⟩
    · exact absurd hthree (Nat.not_le.mpr (hlow hdst))
    · exact hlow.secured hevent
    · intro hdst
      rwa [Event.secured_dst]
  follows := hs.follows.step 1 event
  sent := by
    intro sent hsent
    obtain hsent | ⟨hconn, -, hvalue⟩ := mem_sent_step hs.follows hsent
    · exact hs.sent sent hsent
    · obtain ⟨conn, hconns, hdst⟩ := hs.guarded.asked hvalue
      rw [hconns, List.mem_singleton] at hconn
      rwa [hconn]

/-- All that the server answers to a peer and sends it: the answers to reads and
to writes of any attribute, while there is a link, and the notifications. -/
structure View where
  reads : svc_attr → uint16_t → uint16_t → Option (Except Int (List uint8_t))
  writes : svc_attr → List uint8_t → uint16_t → Option (Except Int Nat)
  received : List hids_report_keyboard

def Server.view (peer : α) (s : Server α) : View where
  reads := fun attr len offset => (s.lookup peer).map fun conn => s.read conn attr len offset
  writes := fun attr buf offset => (s.lookup peer).map fun conn => (s.write conn attr buf offset).1
  received := (s.sent.filter fun sent => sent.conn.dst = peer).map Notification.report

theorem Server.read_of_low {conn : bt_conn α} (hlow : conn.sec_level.level < 3) (s t : Server α) (attr : svc_attr)
    (len offset : uint16_t) : s.read conn attr len offset = t.read conn attr len offset := by
  unfold read
  by_cases hinfo : attr = .value .HIDS_INFO
  · subst hinfo
    rfl
  · by_cases hmap : attr = .value .HIDS_REPORT_MAP
    · subst hmap
      rfl
    · rw [if_pos (check_perm_of_low hlow hinfo hmap), if_pos (check_perm_of_low hlow hinfo hmap)]

/-- A peer that never gets authenticated keys learns nothing about the keys that
are pressed, in any run with room for one link: whatever it reads and writes and
whenever it connects, it is answered the same and sent the same for any reports. -/
theorem unauthenticated_learns_nothing (peer : α) (cfg : List (bt_gatt_ccc_cfg α)) {trace : List (Event α)}
    (htrace : ∀ event ∈ trace, ¬event.Authenticates peer) :
    RevealsNothing (Server.step 1) Event.visible (Server.view peer) (.initial cfg) trace := by
  have hinitial : (Server.initial cfg).Withholds peer := ⟨⟨Nat.zero_le 1, nofun, absurd rfl⟩, rfl, nofun⟩
  have hvisible (event : Event α) : event.visible.Authenticates peer ↔ event.Authenticates peer := by
    cases event <;> rfl
  refine revealsNothing_of_unwinding
    (fun s t => s.control = t.control ∧ s.Withholds peer ∧ t.Withholds peer) ⟨rfl, hinitial, hinitial⟩ ?_ ?_
  · rintro s t i j hi hij ⟨hcontrol, hs, ht⟩
    refine ⟨?_, hs.step ?_, ht.step ?_⟩
    · rw [Server.control_step s, Server.control_step t, hcontrol, hij]
    · rw [← hvisible]
      exact htrace _ hi
    · rw [← hvisible, ← hij]
      exact htrace _ hi
  · rintro s t ⟨hcontrol, hs, ht⟩
    have hlookup : s.lookup peer = t.lookup peer := by
      change s.control.lookup peer = t.control.lookup peer
      rw [hcontrol]
    have hreceived {s : Server α} (hs : s.Withholds peer) :
        (s.sent.filter fun sent => sent.conn.dst = peer) = [] :=
      List.filter_eq_nil_iff.mpr fun sent hsent => by simpa using hs.sent sent hsent
    unfold Server.view
    rw [hreceived hs, hreceived ht, ← hlookup]
    cases hlink : s.lookup peer with
    | none => rfl
    | some conn =>
      obtain ⟨hconn, hdst⟩ := Server.lookup_eq_some hlink
      have hlow : conn.sec_level.level < 3 := hs.guarded.links conn hconn hdst
      have hwrite (attr : svc_attr) (buf : List uint8_t) (offset : uint16_t) :
          (s.write conn attr buf offset).1 = (t.write conn attr buf offset).1 := by
        have hs := congrArg Prod.fst (Server.control_write s conn attr buf offset)
        have ht := congrArg Prod.fst (Server.control_write t conn attr buf offset)
        rw [hcontrol] at hs
        exact hs.symm.trans ht
      simp only [Option.map_some, Server.read_of_low hlow s t, hwrite]

/-- A peer that pairs without a passkey, while another one is bonded. -/
theorem unauthenticated_learns_nothing_just_works :
    RevealsNothing (Server.step 1) Event.visible (Server.view 0) (.initial [.of_peer 1 1, clear_ccc_cfg])
      [.connected 0, .encrypt_change 0 true (some ⟨false, true, 16⟩), .write 0 .ccc [1, 0] 0,
        .set .zero fun _ => false] := by
  apply unauthenticated_learns_nothing
  simp [Event.Authenticates]

end peripheral_hids.gatt
