import PeripheralHids.Gatt.Steps

open peripheral_hids.hog
open peripheral_hids.gatt.bt_security_t peripheral_hids.gatt.bt_conn_state_t

namespace peripheral_hids.gatt

variable {α : Type}

/-- A link that has not been told to go has the level that was last required, and
is encrypted from level 2 on. -/
structure bt_conn.Sound (conn : bt_conn α) : Prop where
  required : conn.state = BT_CONN_CONNECTED → conn.sec_level.level ≤ conn.required_sec_level.level
  encrypt : 1 < conn.sec_level.level → conn.encrypt = true

/-- A link over which reports may be sent: it has ended, or is authenticated. -/
def bt_conn.Trusted (conn : bt_conn α) : Prop :=
  conn.state = BT_CONN_CONNECTED → 3 ≤ conn.sec_level.level

theorem sound_add_le (dst : α) : (bt_conn_add_le dst).Sound :=
  ⟨fun _ => Nat.le_refl _, fun hlevel => absurd hlevel (Nat.lt_irrefl 1)⟩

theorem bt_conn.Sound.reset_pairing {conn : bt_conn α} (hencrypt : 1 < conn.sec_level.level → conn.encrypt = true) :
    (gatt.reset_pairing conn).Sound :=
  ⟨fun _ => Nat.le_refl _, hencrypt⟩

theorem bt_conn.Sound.set_security {conn : bt_conn α} (hsound : conn.Sound) (sec : bt_security_t) (err : Bool) :
    (bt_conn_set_security conn sec err).Sound := by
  unfold bt_conn_set_security
  split_ifs with hstate hlower herr
  · exact hsound
  · exact hsound
  · exact .reset_pairing hsound.encrypt
  · have hraised : conn.sec_level.level < sec.level := Nat.not_le.mp (not_or.mp hlower).1
    exact ⟨fun _ => Nat.le_of_lt hraised, hsound.encrypt⟩

theorem encrypt_of_update_sec_level (conn : bt_conn α) (keys : Option bt_keys)
    (hlevel : 1 < (update_sec_level conn keys).sec_level.level) : (update_sec_level conn keys).encrypt = true := by
  rw [update_sec_level_encrypt]
  rw [update_sec_level_sec_level] at hlevel
  by_contra hencrypt
  rw [if_neg hencrypt] at hlevel
  exact Nat.lt_irrefl 1 hlevel

variable [DecidableEq α]

namespace Server

/-- With one link at most, `I` holds of it, and reports are only asked for while
`Q` holds of it. -/
structure Guarded (I Q : bt_conn α → Prop) (s : Server α) : Prop where
  alone : s.conns.length ≤ 1
  links : ∀ conn ∈ s.conns, I conn
  asked : s.value ≠ 0 → ∃ conn, s.conns = [conn] ∧ Q conn

omit [DecidableEq α] in
theorem eq_singleton_of_mem {conns : List (bt_conn α)} (halone : conns.length ≤ 1) {conn : bt_conn α}
    (hconn : conn ∈ conns) : conns = [conn] := by
  match conns, halone, hconn with
  | [other], _, hconn => rw [List.mem_singleton.mp hconn]

/-- The value is taken again only on behalf of an authenticated link. -/
theorem Guarded.refresh {I Q : bt_conn α → Prop} {s : Server α} (hguarded : s.Guarded I Q)
    (hlevel : ∀ conn, I conn → 3 ≤ conn.sec_level.level → Q conn) (dst : α) : (s.refresh dst).Guarded I Q := by
  obtain ⟨heq, -⟩ | ⟨heq, conn, hlookup, hthree⟩ := refresh_cases s dst
  · rwa [heq]
  · obtain ⟨hconn, -⟩ := lookup_eq_some hlookup
    rw [heq]
    refine ⟨?_, ?_, fun _ => ⟨conn, ?_, hlevel conn (hguarded.links conn hconn) hthree⟩⟩
    · rw [gatt_ccc_changed_conns]
      exact hguarded.alone
    · rw [gatt_ccc_changed_conns]
      exact hguarded.links
    · rw [gatt_ccc_changed_conns]
      exact eq_singleton_of_mem hguarded.alone hconn

theorem Guarded.step {I Q : bt_conn α → Prop} {s : Server α} (hguarded : s.Guarded I Q)
    (hnew : ∀ dst, I (bt_conn_add_le dst)) (hlevel : ∀ conn, I conn → 3 ≤ conn.sec_level.level → Q conn)
    {event : Event α} (hsecured : ∀ conn, I conn → I (event.secured conn) ∧ (Q conn → Q (event.secured conn))) :
    (s.step 1 event).Guarded I Q := by
  have hmap : Guarded I Q { s with conns := s.conns.map event.secured } := by
    refine ⟨?_, ?_, fun hvalue => ?_⟩
    · rw [List.length_map]
      exact hguarded.alone
    · intro conn' hconn'
      obtain ⟨conn, hconn, rfl⟩ := List.mem_map.mp hconn'
      exact (hsecured conn (hguarded.links conn hconn)).1
    · obtain ⟨conn, hconns, hasked⟩ := hguarded.asked hvalue
      have hlink : I conn := hguarded.links conn (hconns ▸ List.mem_singleton_self conn)
      exact ⟨event.secured conn, by rw [hconns]; rfl, (hsecured conn hlink).2 hasked⟩
  obtain ⟨byte, heq⟩ | ⟨dst, -, -, hroom, heq⟩ | ⟨heq, -⟩ | ⟨dst, heq, -⟩ |
    ⟨conn, i, value, hlookup, hthree, -, heq⟩ | ⟨conn, bonded, hlookup, heq⟩ | ⟨report, refused, -, heq⟩ :=
    step_cases 1 s event <;> rw [heq]
  · exact ⟨hguarded.alone, hguarded.links, hguarded.asked⟩
  · -- the first link: nothing has been asked for
    have hnone : s.conns = [] := List.length_eq_zero_iff.mp (Nat.lt_one_iff.mp hroom)
    refine Guarded.refresh ⟨?_, ?_, fun hvalue => ?_⟩ hlevel dst
    · simp only [hnone, List.nil_append, List.length_singleton, Nat.le_refl]
    · intro conn hconn
      simp only [hnone, List.nil_append, List.mem_singleton] at hconn
      rw [hconn]
      exact hnew dst
    · obtain ⟨conn, hconns, -⟩ := hguarded.asked hvalue
      cases hconns.symm.trans hnone
  · exact hmap
  · exact hmap.refresh hlevel dst
  · obtain ⟨hconn, -⟩ := lookup_eq_some hlookup
    refine ⟨?_, ?_, fun _ => ⟨conn, ?_, hlevel conn (hguarded.links conn hconn) hthree⟩⟩
    · rw [set_cfg_conns]
      exact hguarded.alone
    · rw [set_cfg_conns]
      exact hguarded.links
    · rw [set_cfg_conns]
      exact eq_singleton_of_mem hguarded.alone hconn
  · -- the last link: nothing is asked for any more
    obtain ⟨hconn, -⟩ := lookup_eq_some hlookup
    have hnone : (s.conns.filter fun other => other.dst ≠ conn.dst) = [] := by
      rw [eq_singleton_of_mem hguarded.alone hconn]
      simp
    refine ⟨?_, ?_, fun hvalue => ?_⟩
    · rw [disconnected_cb_conns]
      simp only [hnone, List.length_nil, Nat.zero_le]
    · rw [disconnected_cb_conns]
      simp only [hnone, List.not_mem_nil, false_implies, implies_true]
    · exact absurd (disconnected_cb_value hnone conn.dst bonded) hvalue
  · exact ⟨hguarded.alone, hguarded.links, hguarded.asked⟩

/-- What is sent by a step goes over a link there is, while reports are asked for. -/
theorem mem_sent_step {max_conn : Nat} {s : Server α} (hfollows : s.Follows) {event : Event α}
    {sent : Notification α} (hsent : sent ∈ (s.step max_conn event).sent) :
    sent ∈ s.sent ∨ sent.conn ∈ s.conns ∧ sent.conn.state = BT_CONN_CONNECTED ∧ s.value ≠ 0 := by
  obtain ⟨byte, heq⟩ | ⟨dst, -, -, hroom, heq⟩ | ⟨heq, -⟩ | ⟨dst, heq, -⟩ |
    ⟨conn, i, value, hlookup, hthree, -, heq⟩ | ⟨conn, bonded, hlookup, heq⟩ | ⟨report, refused, -, heq⟩ :=
    step_cases max_conn s event <;> rw [heq] at hsent
  · exact .inl hsent
  · rw [refresh_sent] at hsent
    exact .inl hsent
  · exact .inl hsent
  · rw [refresh_sent] at hsent
    exact .inl hsent
  · rw [set_cfg_sent] at hsent
    exact .inl hsent
  · rw [disconnected_cb_sent] at hsent
    exact .inl hsent
  · obtain hsent | hsent := List.mem_append.mp hsent
    · exact .inl hsent
    · split at hsent
      · cases hsent
      · rename_i hinput
        obtain ⟨-, hconn, hstate, -⟩ := mem_notify_cb hsent
        refine .inr ⟨hconn, hstate, fun hvalue => hinput ?_⟩
        rw [hfollows, hvalue]
        rfl

theorem Follows.step {s : Server α} (hfollows : s.Follows) (max_conn : Nat) (event : Event α) :
    (s.step max_conn event).Follows := by
  obtain ⟨byte, heq⟩ | ⟨dst, -, -, hroom, heq⟩ | ⟨heq, -⟩ | ⟨dst, heq, -⟩ |
    ⟨conn, i, value, hlookup, hthree, -, heq⟩ | ⟨conn, bonded, hlookup, heq⟩ | ⟨report, refused, -, heq⟩ :=
    step_cases max_conn s event <;> rw [heq]
  · exact hfollows
  · exact Follows.refresh (s := { s with conns := s.conns ++ [bt_conn_add_le dst] }) hfollows dst
  · exact hfollows
  · exact Follows.refresh (s := { s with conns := s.conns.map event.secured }) hfollows dst
  · exact hfollows.set_cfg i conn.dst value
  · exact Follows.disconnected_cb (s := { s with conns := s.conns.filter fun other => other.dst ≠ conn.dst })
      hfollows conn.dst bonded
  · exact (hog_set_keyboard_input_simulate_input s.hog report).trans hfollows

theorem follows_run (max_conn : Nat) (cfg : List (bt_gatt_ccc_cfg α)) (events : List (Event α)) :
    (run max_conn cfg events).Follows :=
  List.foldlRecOn (motive := Follows) events _ rfl fun _ hs event _ => hs.step max_conn event

end Server

theorem bt_conn.Sound.secured {conn : bt_conn α} (hsound : conn.Sound) (event : Event α) :
    (event.secured conn).Sound :=
  event.secured_invariant hsound hsound.set_security
    (fun _ _ keys _ _ => .reset_pairing (encrypt_of_update_sec_level _ keys))
    (fun _ keys _ _ => .reset_pairing (encrypt_of_update_sec_level conn keys)) (.reset_pairing hsound.encrypt)

/-- Whether an event leaves the encryption on. -/
def Event.StaysEncrypted : Event α → Prop
  | .encrypt_change _ encrypt _ => encrypt = true
  | _ => True

/-- Keys of a lower level than the link had end it. -/
theorem secured_trusted {conn : bt_conn α} (hsound : conn.Sound) {event : Event α}
    (hstays : event.StaysEncrypted) (hlevel : conn.Trusted) : (event.secured conn).Trusted := by
  apply event.secured_invariant (P := bt_conn.Trusted) hlevel
  · intro sec err hstate
    rw [bt_conn_set_security_state] at hstate
    rw [bt_conn_set_security_sec_level]
    exact hlevel hstate
  · rintro dst encrypt keys rfl - hstate
    obtain ⟨hbefore, hrequired⟩ :=
      @required_of_connected α { conn with encrypt := encrypt } keys hstays hstate
    exact Nat.le_trans (hlevel hbefore) (Nat.le_trans (hsound.required hbefore) hrequired)
  · rintro dst keys rfl - hstate
    by_cases hencrypt : conn.encrypt = true
    · obtain ⟨hbefore, hrequired⟩ := required_of_connected hencrypt hstate
      exact Nat.le_trans (hlevel hbefore) (Nat.le_trans (hsound.required hbefore) hrequired)
    · -- without encryption the link was not authenticated, so it had ended before
      have hsame : (update_sec_level conn keys).state = conn.state := by
        unfold update_sec_level
        rw [if_pos (by simpa using hencrypt)]
      have hthree : 3 ≤ conn.sec_level.level := hlevel (hsame ▸ hstate)
      exact absurd (hsound.encrypt (Nat.lt_of_lt_of_le (by decide) hthree)) hencrypt
  · exact hlevel

/-- What holds of the server in every run with room for one link. -/
structure Server.Authenticated (s : Server α) : Prop where
  guarded : s.Guarded bt_conn.Sound bt_conn.Trusted
  follows : s.Follows
  sent : ∀ sent ∈ s.sent,
    sent.conn.state = BT_CONN_CONNECTED ∧ sent.conn.encrypt = true ∧ 3 ≤ sent.conn.sec_level.level

theorem Server.Authenticated.step {s : Server α} (hs : s.Authenticated) {event : Event α}
    (hstays : event.StaysEncrypted) : (s.step 1 event).Authenticated where
  guarded := hs.guarded.step sound_add_le (fun _ _ hthree _ => hthree) fun _ hsound =>
    ⟨hsound.secured event, secured_trusted hsound hstays⟩
  follows := hs.follows.step 1 event
  sent := by
    intro sent hsent
    obtain hsent | ⟨hconn, hstate, hvalue⟩ := mem_sent_step hs.follows hsent
    · exact hs.sent sent hsent
    · obtain ⟨conn, hconns, hlevel⟩ := hs.guarded.asked hvalue
      have hsound : sent.conn.Sound := hs.guarded.links sent.conn hconn
      rw [hconns, List.mem_singleton] at hconn
      rw [← hconn] at hlevel
      exact ⟨hstate, hsound.encrypt (Nat.lt_of_lt_of_le (by decide) (hlevel hstate)), hlevel hstate⟩

/-- The links over which reports are sent, in every run with room for one link:
they are connected, encrypted and authenticated, unless the encryption of a link
is turned off. -/
theorem notifications_authenticated (cfg : List (bt_gatt_ccc_cfg α)) {events : List (Event α)}
    (hstays : ∀ event ∈ events, event.StaysEncrypted) (sent : Notification α)
    (hsent : sent ∈ (Server.run 1 cfg events).sent) :
    sent.conn.state = BT_CONN_CONNECTED ∧ sent.conn.encrypt = true ∧ 3 ≤ sent.conn.sec_level.level := by
  have hinitial : (Server.initial cfg).Authenticated := ⟨⟨Nat.zero_le 1, nofun, absurd rfl⟩, rfl, nofun⟩
  have hrun : (Server.run 1 cfg events).Authenticated :=
    List.foldlRecOn events _ hinitial fun s hs event hevent => hs.step (hstays event hevent)
  exact hrun.sent sent hsent

/-- A peer that pairs with a passkey, subscribes and is sent a report. -/
theorem notifications_authenticated_passkey :
    ⟨⟨0, true, BT_SECURITY_L4, BT_SECURITY_L4, BT_CONN_CONNECTED⟩, .zero⟩ ∈
      (Server.run 1 [clear_ccc_cfg] [.connected 0, .encrypt_change 0 true (some ⟨true, true, 16⟩),
        .write 0 .ccc [1, 0] 0, .set .zero fun _ => false]).sent ∧ 3 ≤ BT_SECURITY_L4.level := by
  have hsent : ⟨⟨0, true, BT_SECURITY_L4, BT_SECURITY_L4, BT_CONN_CONNECTED⟩, .zero⟩ ∈
      (Server.run 1 [clear_ccc_cfg] [.connected 0, .encrypt_change 0 true (some ⟨true, true, 16⟩),
        .write 0 .ccc [1, 0] 0, .set .zero fun _ => false]).sent := by decide
  exact ⟨hsent, (notifications_authenticated [clear_ccc_cfg] (by simp [Event.StaysEncrypted]) _ hsent).2.2⟩

-- with room for a second link, a bonded peer is sent reports before it has encrypted its own
example : ((Server.run 2 [.of_peer 1 1, clear_ccc_cfg] [.connected 0, .encrypt_change 0 true (some ⟨true, true, 16⟩),
    .write 0 .ccc [1, 0] 0, .connected 1, .set .zero fun _ => false]).sent.map fun sent =>
      (sent.conn.dst, sent.conn.encrypt)) = [(1, false), (0, true)] := by decide

end peripheral_hids.gatt
