import PeripheralHids.Gatt.Authenticated

open peripheral_hids.hog
open peripheral_hids.gatt.bt_security_t peripheral_hids.gatt.bt_conn_state_t

namespace peripheral_hids.gatt

namespace Server

variable {α : Type}

/-- How the consolidated value stands to the table, with one link at most: it may
lag behind, but not while the link is authenticated and its peer asks for
anything. -/
structure Tracks (s : Server α) : Prop where
  distinct : Distinct s.cfg
  alone : s.conns.length ≤ 1
  consolidated : s.value = 0 ∨ s.value = highest s.cfg
  served : ∀ conn ∈ s.conns, 3 ≤ conn.sec_level.level → Subscribed s.cfg conn.dst → s.value = highest s.cfg

theorem Tracks.gatt_ccc_changed {s : Server α} (hdistinct : Distinct s.cfg) (halone : s.conns.length ≤ 1) :
    s.gatt_ccc_changed.Tracks where
  distinct := by rwa [gatt_ccc_changed_cfg]
  alone := by rwa [gatt_ccc_changed_conns]
  consolidated := .inr (by rw [gatt_ccc_changed_value, gatt_ccc_changed_cfg])
  served := fun _ _ _ _ => by rw [gatt_ccc_changed_value, gatt_ccc_changed_cfg]

/-- What is written goes to the peer's only entry. -/
theorem Writable.own {cfg : List (bt_gatt_ccc_cfg α)} (hdistinct : Distinct cfg) {i : Nat} {peer : α}
    {value : uint16_t} (hwritable : Writable cfg i peer value) {j : Nat}
    (hj : cfg[j]?.bind bt_gatt_ccc_cfg.peer = some peer) : j = i := by
  obtain ⟨entry, hentry, hpeer | ⟨-, -, hothers⟩⟩ := hwritable
  · exact hdistinct peer j i hj (Option.bind_eq_some_iff.mpr ⟨entry, hentry, hpeer⟩)
  · obtain ⟨other, hother, hpeer⟩ := Option.bind_eq_some_iff.mp hj
    exact absurd hpeer (hothers other (List.mem_of_getElem? hother))

theorem Distinct.set_written {cfg : List (bt_gatt_ccc_cfg α)} (hdistinct : Distinct cfg) {i : Nat} {peer : α}
    {value : uint16_t} (hwritable : Writable cfg i peer value) : Distinct (cfg.set i (written peer value)) := by
  apply hdistinct.set
  intro owner howner j hj
  unfold written at howner
  split at howner
  · cases howner
  · cases howner
    exact hwritable.own hdistinct hj

/-- A peer that writes zero asks for nothing any more. -/
theorem not_subscribed_written {cfg : List (bt_gatt_ccc_cfg α)} (hdistinct : Distinct cfg) {i : Nat} {peer : α}
    (hwritable : Writable cfg i peer 0) : ¬Subscribed (cfg.set i (written peer 0)) peer := by
  rintro ⟨entry, hentry, hpeer, -⟩
  obtain ⟨j, hj⟩ := List.mem_iff_getElem?.mp hentry
  by_cases hji : j = i
  · subst hji
    rw [List.getElem?_set_self'] at hj
    obtain ⟨_, _, rfl⟩ := Option.map_eq_some_iff.mp hj
    cases hpeer
  · rw [List.getElem?_set_ne (Ne.symm hji)] at hj
    exact hji (hwritable.own hdistinct (Option.bind_eq_some_iff.mpr ⟨entry, hj, hpeer⟩))

/-- Whether the highest value is a plain subscription. -/
theorem highest_eq_notify_iff {cfg : List (bt_gatt_ccc_cfg α)} {entry : bt_gatt_ccc_cfg α} (hentry : entry ∈ cfg)
    (hvalue : entry.value = BT_GATT_CCC_NOTIFY) :
    highest cfg = BT_GATT_CCC_NOTIFY ↔ ∀ other ∈ cfg, other.value ≤ BT_GATT_CCC_NOTIFY := by
  constructor
  · intro hhighest other hother
    exact hhighest ▸ le_highest hother
  · intro hbound
    exact BitVec.le_antisymm (highest_le hbound) (hvalue ▸ le_highest hentry)

variable [DecidableEq α]

/-- A refresh on behalf of the one peer whose link has changed. -/
theorem Tracks.refresh {s : Server α} (hdistinct : Distinct s.cfg) (halone : s.conns.length ≤ 1)
    (hconsolidated : s.value = 0 ∨ s.value = highest s.cfg) {dst : α}
    (hothers : ∀ conn ∈ s.conns, conn.dst ≠ dst → 3 ≤ conn.sec_level.level → Subscribed s.cfg conn.dst →
      s.value = highest s.cfg) : (s.refresh dst).Tracks := by
  obtain ⟨heq, hwhy⟩ | ⟨heq, -⟩ := refresh_cases s dst
  · rw [heq]
    refine ⟨hdistinct, halone, hconsolidated, fun conn hconn hthree hsubscribed => ?_⟩
    by_cases hdst : conn.dst = dst
    · have hlookup : s.lookup dst = some conn := by
        rw [lookup, eq_singleton_of_mem halone hconn, List.find?_cons_of_pos (by simpa using hdst)]
      obtain hlow | hnone := hwhy conn hlookup
      · exact absurd hthree (Nat.not_le.mpr hlow)
      · exact absurd hsubscribed hnone
    · exact hothers conn hconn hdst hthree hsubscribed
  · rw [heq]
    exact .gatt_ccc_changed hdistinct halone

omit [DecidableEq α] in
theorem Tracks.set_cfg {s : Server α} (hs : s.Tracks) {conn : bt_conn α} (hconn : conn ∈ s.conns) {i : Nat}
    {value : uint16_t} (hwritable : Writable s.cfg i conn.dst value) : (s.set_cfg i conn.dst value).Tracks := by
  have hi : i < s.cfg.length := by
    obtain ⟨entry, hentry, -⟩ := hwritable
    exact (List.getElem?_eq_some_iff.mp hentry).1
  -- the value that stays is the highest of the new table, or zero when the peer has asked for nothing
  have hvalue : (s.set_cfg i conn.dst value).value = highest (s.set_cfg i conn.dst value).cfg ∨
      (s.set_cfg i conn.dst value).value = 0 ∧ value = 0 := by
    rw [set_cfg_value]
    split
    · exact .inl rfl
    · rename_i hsame
      have hsame : value = s.value := not_not.mp hsame
      by_cases hzero : value = 0
      · exact .inr ⟨hsame ▸ hzero, hzero⟩
      · have hhighest : s.value = highest s.cfg := hs.consolidated.resolve_left (hsame ▸ hzero)
        have hentry : (written conn.dst value).value = value := by rw [written, if_neg hzero]; rfl
        left
        rw [set_cfg_cfg, highest_set hi, hentry, hsame]
        rw [hentry, hsame, hhighest]
        exact BitVec.le_refl _
  refine ⟨?_, ?_, ?_, fun other hother _ hsubscribed => ?_⟩
  · rw [set_cfg_cfg]
    exact Distinct.set_written hs.distinct hwritable
  · rw [set_cfg_conns]
    exact hs.alone
  · obtain hhighest | ⟨hzero, -⟩ := hvalue
    · exact .inr hhighest
    · exact .inl hzero
  · obtain hhighest | ⟨-, rfl⟩ := hvalue
    · exact hhighest
    · rw [set_cfg_conns, eq_singleton_of_mem hs.alone hconn, List.mem_singleton] at hother
      rw [set_cfg_cfg, hother] at hsubscribed
      exact absurd hsubscribed (not_subscribed_written hs.distinct hwritable)

theorem Tracks.step {s : Server α} (hs : s.Tracks) (event : Event α) : (s.step 1 event).Tracks := by
  obtain ⟨byte, heq⟩ | ⟨dst, -, -, hroom, heq⟩ | ⟨heq, hlevel⟩ | ⟨dst, heq, hothers⟩ |
    ⟨conn, i, value, hlookup, -, hwritable, heq⟩ | ⟨conn, bonded, hlookup, heq⟩ | ⟨report, refused, -, heq⟩ :=
    step_cases 1 s event <;> rw [heq]
  · exact ⟨hs.distinct, hs.alone, hs.consolidated, hs.served⟩
  · have hnone : s.conns = [] := List.length_eq_zero_iff.mp (Nat.lt_one_iff.mp hroom)
    refine Tracks.refresh (s := { s with conns := s.conns ++ [bt_conn_add_le dst] }) hs.distinct
      (by simp [hnone]) hs.consolidated fun conn hconn hdst => ?_
    simp only [hnone, List.nil_append, List.mem_singleton] at hconn
    rw [hconn] at hdst
    exact absurd rfl hdst
  · refine ⟨hs.distinct, by rw [List.length_map]; exact hs.alone, hs.consolidated, fun conn' hconn' hthree => ?_⟩
    obtain ⟨conn, hconn, rfl⟩ := List.mem_map.mp hconn'
    rw [hlevel] at hthree
    rw [Event.secured_dst]
    exact hs.served conn hconn hthree
  · refine Tracks.refresh (s := { s with conns := s.conns.map event.secured }) hs.distinct
      (by rw [List.length_map]; exact hs.alone) hs.consolidated fun conn' hconn' hdst => ?_
    obtain ⟨conn, hconn, rfl⟩ := List.mem_map.mp hconn'
    rw [Event.secured_dst] at hdst
    rw [hothers conn hdst]
    exact hs.served conn hconn
  · exact hs.set_cfg (lookup_eq_some hlookup).1 hwritable
  · obtain ⟨hconn, -⟩ := lookup_eq_some hlookup
    have hnone : (s.conns.filter fun other => other.dst ≠ conn.dst) = [] := by
      rw [eq_singleton_of_mem hs.alone hconn]
      simp
    have hdistinct := Distinct.disconnected_cb
      (s := { s with conns := s.conns.filter fun other => other.dst ≠ conn.dst }) hs.distinct conn.dst bonded
    refine ⟨hdistinct, ?_, .inl (disconnected_cb_value hnone conn.dst bonded), ?_⟩
    · rw [disconnected_cb_conns]
      simp only [hnone, List.length_nil, Nat.zero_le]
    · rw [disconnected_cb_conns]
      simp only [hnone, List.not_mem_nil, false_implies, implies_true]
  · exact ⟨hs.distinct, hs.alone, hs.consolidated, hs.served⟩

/-- A report is sent once to the one link there is, or not at all, and nothing else
changes that decides this. -/
theorem set_keyboard_input_sent {s : Server α} (hs : s.Tracks) (hfollows : s.Follows) {conn : bt_conn α}
    (hconn : conn ∈ s.conns) (hstate : conn.state = BT_CONN_CONNECTED) (hthree : 3 ≤ conn.sec_level.level)
    (hnotify : configured s.cfg conn.dst = BT_GATT_CCC_NOTIFY) (report : hids_report_keyboard) :
    (s.set_keyboard_input report fun _ => false).sent =
      s.sent ++ if ∀ entry ∈ s.cfg, entry.value ≤ BT_GATT_CCC_NOTIFY then [⟨conn, report⟩] else [] := by
  have hne : configured s.cfg conn.dst ≠ 0 := by rw [hnotify]; decide
  obtain ⟨entry, hentry, hpeer, hvalue⟩ := exists_of_configured hne
  have hasked : s.value = highest s.cfg :=
    hs.served conn hconn hthree ⟨entry, hentry, hpeer, hvalue ▸ hne⟩
  have hnotified : notify_cb s report (fun _ => false) s.cfg = _ :=
    notify_cb_single (eq_singleton_of_mem hs.alone hconn) hstate rfl report hs.distinct
  rw [if_pos hnotify] at hnotified
  unfold set_keyboard_input
  rw [hnotified, hfollows, hasked]
  simp only [highest_eq_notify_iff hentry (hvalue.trans hnotify)]
  split_ifs <;> simp_all

/-- Reports change neither the table nor the links, so one after the other is sent. -/
theorem foldl_set_sent {s : Server α} (hs : s.Tracks) (hfollows : s.Follows) {conn : bt_conn α}
    (hconn : conn ∈ s.conns) (hstate : conn.state = BT_CONN_CONNECTED) (hthree : 3 ≤ conn.sec_level.level)
    (hnotify : configured s.cfg conn.dst = BT_GATT_CCC_NOTIFY) (reports : List hids_report_keyboard) :
    ((reports.map fun report => Event.set report fun _ => false).foldl (step 1) s).sent =
      s.sent ++ if ∀ entry ∈ s.cfg, entry.value ≤ BT_GATT_CCC_NOTIFY then
        reports.map fun report => ⟨conn, report⟩
      else [] := by
  induction reports generalizing s with
  | nil => simp
  | cons report reports ih =>
    have hnext := ih (hs.step (.set report fun _ => false)) (hfollows.step 1 (.set report fun _ => false)) hconn hnotify
    have hfirst := set_keyboard_input_sent hs hfollows hconn hstate hthree hnotify report
    rw [List.map_cons, List.foldl_cons, hnext]
    change (s.set_keyboard_input report fun _ => false).sent ++ _ = _
    rw [hfirst, List.append_assoc]
    congr 1
    change (_ ++ if ∀ entry ∈ s.cfg, entry.value ≤ BT_GATT_CCC_NOTIFY then _ else _) = _
    split <;> rfl

theorem tracks_run {cfg : List (bt_gatt_ccc_cfg α)} (hcfg : Distinct cfg) (events : List (Event α)) :
    (run 1 cfg events).Tracks := by
  have hinitial : (initial cfg).Tracks := ⟨hcfg, Nat.zero_le 1, .inl rfl, nofun⟩
  exact List.foldlRecOn events _ hinitial fun s hs event _ => hs.step event

end Server

variable {α : Type} [DecidableEq α]

/-- The reports that a connected, authenticated and subscribed peer receives, in
every run with room for one link: all of them once and in order, if no entry of
the table has a higher value than a plain subscription, and otherwise none. -/
theorem reports_reach_subscriber {cfg : List (bt_gatt_ccc_cfg α)} (hcfg : Server.Distinct cfg)
    (events : List (Event α)) {conn : bt_conn α} (hconn : conn ∈ (Server.run 1 cfg events).conns)
    (hstate : conn.state = BT_CONN_CONNECTED) (hthree : 3 ≤ conn.sec_level.level)
    (hnotify : Server.configured (Server.run 1 cfg events).cfg conn.dst = BT_GATT_CCC_NOTIFY)
    (reports : List hids_report_keyboard) :
    (Server.run 1 cfg (events ++ reports.map fun report => .set report fun _ => false)).sent =
      (Server.run 1 cfg events).sent ++
        if ∀ entry ∈ (Server.run 1 cfg events).cfg, entry.value ≤ BT_GATT_CCC_NOTIFY then
          reports.map fun report => ⟨conn, report⟩
        else [] := by
  unfold Server.run
  rw [List.foldl_append]
  exact Server.foldl_set_sent (Server.tracks_run hcfg events) (Server.follows_run 1 cfg events) hconn hstate hthree
    hnotify reports

/-- A peer that pairs and subscribes, while another is bonded with a subscription. -/
theorem reports_reach_subscriber_bonded :
    (Server.run 1 [.of_peer 1 1, clear_ccc_cfg] ([.connected 0, .encrypt_change 0 true (some ⟨true, true, 16⟩),
      .write 0 .ccc [1, 0] 0] ++ [hids_report_keyboard.zero].map fun report => .set report fun _ => false)).sent =
      [⟨⟨0, true, BT_SECURITY_L4, BT_SECURITY_L4, BT_CONN_CONNECTED⟩, .zero⟩] := by
  have hcfg : Server.Distinct [.of_peer 1 1, (clear_ccc_cfg : bt_gatt_ccc_cfg Nat)] := by
    rintro peer (_ | _ | i) (_ | _ | j) hi hj <;> first | rfl | contradiction
  exact reports_reach_subscriber hcfg [.connected 0, .encrypt_change 0 true (some ⟨true, true, 16⟩),
    .write 0 .ccc [1, 0] 0] (by decide) rfl (by decide) (by decide) [.zero]

-- while another is bonded with a value that also has the bit for indications
example : (Server.run 1 [.of_peer 1 3, clear_ccc_cfg] [.connected 0, .encrypt_change 0 true (some ⟨true, true, 16⟩),
    .write 0 .ccc [1, 0] 0, .set .zero fun _ => false]).sent = [] := by decide

end peripheral_hids.gatt
