import PeripheralHids.Gatt.Funs

open peripheral_hids.hog
open peripheral_hids.gatt.bt_security_t peripheral_hids.gatt.bt_conn_state_t

namespace peripheral_hids.gatt.Server

variable {α : Type}

/-- No peer has two entries. -/
def Distinct (cfg : List (bt_gatt_ccc_cfg α)) : Prop :=
  ∀ (peer : α) (i j : Nat), cfg[i]?.bind bt_gatt_ccc_cfg.peer = some peer →
    cfg[j]?.bind bt_gatt_ccc_cfg.peer = some peer → i = j

theorem foldl_highest (entries : List (bt_gatt_ccc_cfg α)) (value : uint16_t) :
    value ≤ entries.foldl (fun value entry => if value < entry.value then entry.value else value) value ∧
      (∀ entry ∈ entries, entry.value ≤
        entries.foldl (fun value entry => if value < entry.value then entry.value else value) value) ∧
      ∀ bound, value ≤ bound → (∀ entry ∈ entries, entry.value ≤ bound) →
        entries.foldl (fun value entry => if value < entry.value then entry.value else value) value ≤ bound := by
  induction entries generalizing value with
  | nil => exact ⟨BitVec.le_refl value, nofun, fun _ hle _ => hle⟩
  | cons entry entries ih =>
    rw [List.foldl_cons]
    obtain ⟨hfirst, hall, hbound⟩ := ih (if value < entry.value then entry.value else value)
    have hvalue : value ≤ (if value < entry.value then entry.value else value) := by
      split
      · exact BitVec.le_of_lt ‹_›
      · exact BitVec.le_refl value
    have hentry : entry.value ≤ (if value < entry.value then entry.value else value) := by
      split
      · exact BitVec.le_refl _
      · exact BitVec.not_lt.mp ‹_›
    refine ⟨BitVec.le_trans hvalue hfirst, ?_, fun bound hle hentries => hbound bound ?_ ?_⟩
    · intro other hother
      obtain rfl | hother := List.mem_cons.mp hother
      · exact BitVec.le_trans hentry hfirst
      · exact hall other hother
    · split
      · exact hentries entry List.mem_cons_self
      · exact hle
    · exact fun other hother => hentries other (List.mem_cons_of_mem entry hother)

theorem le_highest {cfg : List (bt_gatt_ccc_cfg α)} {entry : bt_gatt_ccc_cfg α} (hentry : entry ∈ cfg) :
    entry.value ≤ highest cfg :=
  (foldl_highest cfg 0).2.1 entry hentry

theorem highest_le {cfg : List (bt_gatt_ccc_cfg α)} {bound : uint16_t}
    (hbound : ∀ entry ∈ cfg, entry.value ≤ bound) : highest cfg ≤ bound :=
  (foldl_highest cfg 0).2.2 bound (Nat.zero_le _) hbound

theorem highest_set_clear (cfg : List (bt_gatt_ccc_cfg α)) (i : Nat) (peer : α) :
    highest (cfg.set i clear_ccc_cfg) = highest (cfg.set i (.of_peer peer 0)) := by
  have hvalues (cfg : List (bt_gatt_ccc_cfg α)) : highest cfg =
      (cfg.map bt_gatt_ccc_cfg.value).foldl (fun value entry => if value < entry then entry else value) 0 := by
    rw [List.foldl_map]
    rfl
  rw [hvalues, hvalues, List.map_set, List.map_set]
  rfl

/-- An entry that is set to a value at least as high as all others. -/
theorem highest_set {cfg : List (bt_gatt_ccc_cfg α)} {i : Nat} (hi : i < cfg.length) {entry : bt_gatt_ccc_cfg α}
    (hentry : highest cfg ≤ entry.value) : highest (cfg.set i entry) = entry.value := by
  apply BitVec.le_antisymm
  · apply highest_le
    intro other hother
    obtain hother | rfl := List.mem_or_eq_of_mem_set hother
    · exact BitVec.le_trans (le_highest hother) hentry
    · exact BitVec.le_refl _
  · exact le_highest (List.mem_set hi entry)

/-- An entry's peer is written over only by itself or in a free entry. -/
theorem Distinct.set {cfg : List (bt_gatt_ccc_cfg α)} (hdistinct : Distinct cfg) {i : Nat}
    {entry : bt_gatt_ccc_cfg α}
    (hentry : ∀ peer, entry.peer = some peer → ∀ j, cfg[j]?.bind bt_gatt_ccc_cfg.peer = some peer → j = i) :
    Distinct (cfg.set i entry) := by
  have hcase : ∀ peer j, (cfg.set i entry)[j]?.bind bt_gatt_ccc_cfg.peer = some peer →
      j = i ∧ entry.peer = some peer ∨ j ≠ i ∧ cfg[j]?.bind bt_gatt_ccc_cfg.peer = some peer := by
    intro peer j hj
    by_cases hji : j = i
    · subst hji
      rw [List.getElem?_set_self'] at hj
      obtain ⟨_, hsome, hpeer⟩ := Option.bind_eq_some_iff.mp hj
      obtain ⟨_, _, rfl⟩ := Option.map_eq_some_iff.mp hsome
      exact .inl ⟨rfl, hpeer⟩
    · rw [List.getElem?_set_ne (Ne.symm hji)] at hj
      exact .inr ⟨hji, hj⟩
  intro peer j k hj hk
  obtain ⟨hji, hpeer⟩ | ⟨hji, hj⟩ := hcase peer j hj
  · obtain ⟨hki, -⟩ | ⟨hki, hk⟩ := hcase peer k hk
    · exact hji.trans hki.symm
    · exact absurd (hentry peer hpeer k hk) hki
  · obtain ⟨-, hpeer⟩ | ⟨-, hk⟩ := hcase peer k hk
    · exact absurd (hentry peer hpeer j hj) hji
    · exact hdistinct peer j k hj hk

theorem Distinct.map {cfg : List (bt_gatt_ccc_cfg α)} (hdistinct : Distinct cfg)
    {f : bt_gatt_ccc_cfg α → bt_gatt_ccc_cfg α}
    (hf : ∀ entry peer, (f entry).peer = some peer → entry.peer = some peer) : Distinct (cfg.map f) := by
  have hback : ∀ (peer : α) (i : Nat), (cfg.map f)[i]?.bind bt_gatt_ccc_cfg.peer = some peer →
      cfg[i]?.bind bt_gatt_ccc_cfg.peer = some peer := by
    intro peer i hi
    obtain ⟨entry', hentry', hpeer⟩ := Option.bind_eq_some_iff.mp hi
    rw [List.getElem?_map] at hentry'
    obtain ⟨entry, hentry, rfl⟩ := Option.map_eq_some_iff.mp hentry'
    exact Option.bind_eq_some_iff.mpr ⟨entry, hentry, hf entry peer hpeer⟩
  exact fun peer i j hi hj => hdistinct peer i j (hback peer i hi) (hback peer j hj)

/-- The entries of one peer are one entry. -/
theorem Distinct.entry_eq {cfg : List (bt_gatt_ccc_cfg α)} (hdistinct : Distinct cfg) {peer : α}
    {entry other : bt_gatt_ccc_cfg α} (hentry : entry ∈ cfg) (hpeer : entry.peer = some peer)
    (hother : other ∈ cfg) (hsame : other.peer = some peer) : entry = other := by
  obtain ⟨i, hi⟩ := List.mem_iff_getElem?.mp hentry
  obtain ⟨j, hj⟩ := List.mem_iff_getElem?.mp hother
  have hij : i = j := hdistinct peer i j (Option.bind_eq_some_iff.mpr ⟨entry, hi, hpeer⟩)
    (Option.bind_eq_some_iff.mpr ⟨other, hj, hsame⟩)
  subst hij
  exact Option.some.inj (hi.symm.trans hj)

theorem Distinct.tail {entry : bt_gatt_ccc_cfg α} {rest : List (bt_gatt_ccc_cfg α)}
    (hdistinct : Distinct (entry :: rest)) : Distinct rest :=
  fun peer i j hi hj => Nat.succ.inj (hdistinct peer (i + 1) (j + 1) hi hj)

theorem Distinct.not_mem_tail {entry : bt_gatt_ccc_cfg α} {rest : List (bt_gatt_ccc_cfg α)}
    (hdistinct : Distinct (entry :: rest)) {peer : α} (hpeer : entry.peer = some peer)
    {other : bt_gatt_ccc_cfg α} (hother : other ∈ rest) : other.peer ≠ some peer := by
  intro hsame
  obtain ⟨i, hi⟩ := List.mem_iff_getElem?.mp hother
  have hzero : 0 = i + 1 := hdistinct peer 0 (i + 1) hpeer (Option.bind_eq_some_iff.mpr ⟨other, hi, hsame⟩)
  exact absurd hzero (Nat.succ_ne_zero i).symm

/-- Permission to write the configuration is a matter of the level alone. -/
theorem bt_gatt_check_perm_ccc (conn : bt_conn α) :
    bt_gatt_check_perm conn .ccc BT_GATT_PERM_WRITE_MASK =
      if conn.sec_level.level < BT_SECURITY_L3.level then BT_ATT_ERR_AUTHENTICATION else 0 := by
  unfold bt_gatt_check_perm
  rw [if_neg (by decide), if_neg (by decide)]
  have hauthen : BT_GATT_PERM_WRITE_MASK &&& svc_attr.ccc.perm &&& BT_GATT_PERM_AUTHEN_MASK ≠ 0 := by decide
  have hencrypt : ¬(BT_GATT_PERM_WRITE_MASK &&& svc_attr.ccc.perm &&& BT_GATT_PERM_ENCRYPT_MASK ≠ 0) := by decide
  simp only [hauthen, hencrypt, not_false_eq_true, true_and, false_and, if_false, ne_eq]

/-- Whether a peer's entry asks for anything. -/
def Subscribed (cfg : List (bt_gatt_ccc_cfg α)) (peer : α) : Prop :=
  ∃ entry ∈ cfg, entry.peer = some peer ∧ entry.value ≠ 0

variable [DecidableEq α]

theorem find_ccc_cfg_eq_some {cfg : List (bt_gatt_ccc_cfg α)} {peer : Option α} {i : Nat}
    (hfind : find_ccc_cfg cfg peer = some i) : ∃ entry, cfg[i]? = some entry ∧ entry.peer = peer := by
  obtain ⟨hi, hpeer, -⟩ := List.findIdx?_eq_some_iff_getElem.mp hfind
  exact ⟨cfg.get ⟨i, hi⟩, List.getElem?_eq_getElem hi, of_decide_eq_true hpeer⟩

theorem find_ccc_cfg_eq_none {cfg : List (bt_gatt_ccc_cfg α)} {peer : Option α}
    (hfind : find_ccc_cfg cfg peer = none) {entry : bt_gatt_ccc_cfg α} (hentry : entry ∈ cfg) :
    entry.peer ≠ peer :=
  of_decide_eq_false (List.findIdx?_eq_none_iff.mp hfind entry hentry)

theorem configured_of_mem {cfg : List (bt_gatt_ccc_cfg α)} (hdistinct : Distinct cfg) {peer : α}
    {entry : bt_gatt_ccc_cfg α} (hentry : entry ∈ cfg) (hpeer : entry.peer = some peer) :
    configured cfg peer = entry.value := by
  unfold configured
  cases hfind : cfg.find? fun entry => entry.peer = some peer with
  | none => exact absurd (decide_eq_true hpeer) (List.find?_eq_none.mp hfind entry hentry)
  | some other =>
    have hother : other.peer = some peer := by simpa using List.find?_some hfind
    rw [hdistinct.entry_eq hentry hpeer (List.mem_of_find?_eq_some hfind) hother]

theorem exists_of_configured {cfg : List (bt_gatt_ccc_cfg α)} {peer : α} (hconfigured : configured cfg peer ≠ 0) :
    ∃ entry ∈ cfg, entry.peer = some peer ∧ entry.value = configured cfg peer := by
  unfold configured at hconfigured ⊢
  cases hfind : cfg.find? fun entry => entry.peer = some peer with
  | none => rw [hfind] at hconfigured; exact absurd rfl hconfigured
  | some entry =>
    have hpeer : entry.peer = some peer := by simpa using List.find?_some hfind
    exact ⟨entry, List.mem_of_find?_eq_some hfind, hpeer, rfl⟩

/-- A link whose security has changed matters from level 3 on, if its peer asks for
anything. -/
theorem update_ccc_cases (s : Server α) (conn : bt_conn α) (entries : List (bt_gatt_ccc_cfg α)) :
    (update_ccc s conn entries = s ∧ (conn.sec_level.level < 3 ∨ ¬Subscribed entries conn.dst)) ∨
      update_ccc s conn entries = s.gatt_ccc_changed ∧ 3 ≤ conn.sec_level.level := by
  induction entries with
  | nil => exact .inl ⟨rfl, .inr nofun⟩
  | cons entry rest ih =>
    rw [update_ccc, bt_gatt_check_perm_ccc]
    split
    · rename_i hskip
      refine ih.imp_left fun ⟨heq, hwhy⟩ => ⟨heq, hwhy.imp_right fun hnone => ?_⟩
      rintro ⟨other, hmem, hpeer, hvalue⟩
      obtain rfl | hmem := List.mem_cons.mp hmem
      · exact hskip.elim hvalue (absurd hpeer)
      · exact hnone ⟨other, hmem, hpeer, hvalue⟩
    · by_cases hlevel : conn.sec_level.level < BT_SECURITY_L3.level
      · rw [if_pos hlevel, if_neg (by decide), if_neg (by decide), if_pos rfl]
        simp only [hlevel, if_true]
        refine .inl ⟨?_, .inl hlevel⟩
        obtain ⟨heq, -⟩ | ⟨-, hge⟩ := ih
        · exact heq
        · exact absurd hlevel (Nat.not_lt.mpr hge)
      · rw [if_neg hlevel, if_pos rfl]
        exact .inr ⟨rfl, Nat.not_lt.mp hlevel⟩

/-- A notification goes over a connected link to a peer that asks for just that. -/
theorem mem_notify_cb {s : Server α} {report : hids_report_keyboard} {refused : α → Bool}
    {entries : List (bt_gatt_ccc_cfg α)} {sent : Notification α}
    (hsent : sent ∈ notify_cb s report refused entries) :
    sent.report = report ∧ sent.conn ∈ s.conns ∧ sent.conn.state = BT_CONN_CONNECTED ∧
      ∃ entry ∈ entries, entry.peer = some sent.conn.dst ∧ entry.value = BT_GATT_CCC_NOTIFY := by
  induction entries with
  | nil => cases hsent
  | cons entry rest ih =>
    have hrest : sent ∈ notify_cb s report refused rest → sent.report = report ∧ sent.conn ∈ s.conns ∧
        sent.conn.state = BT_CONN_CONNECTED ∧ ∃ other ∈ entry :: rest, other.peer = some sent.conn.dst ∧
          other.value = BT_GATT_CCC_NOTIFY := by
      intro hrest
      obtain ⟨hreport, hconn, hstate, other, hother, hwant⟩ := ih hrest
      exact ⟨hreport, hconn, hstate, other, List.mem_cons_of_mem entry hother, hwant⟩
    rw [notify_cb] at hsent
    split at hsent
    · exact hrest hsent
    · rename_i hvalue
      split at hsent
      · exact hrest hsent
      · rename_i conn hconn
        split at hsent
        · exact hrest hsent
        · rename_i hstate
          split at hsent
          · cases hsent
          · obtain rfl | hsent := List.mem_cons.mp hsent
            · obtain ⟨peer, hpeer, hlookup⟩ := Option.bind_eq_some_iff.mp hconn
              have hdst : conn.dst = peer := by simpa using List.find?_some hlookup
              subst hdst
              exact ⟨rfl, List.mem_of_find?_eq_some hlookup, not_not.mp hstate, entry, List.mem_cons_self, hpeer,
                not_not.mp hvalue⟩
            · exact hrest hsent

/-- To the only link there is, a report goes once or not at all. -/
theorem notify_cb_single {s : Server α} {conn : bt_conn α} (hconns : s.conns = [conn])
    (hstate : conn.state = BT_CONN_CONNECTED) {refused : α → Bool} (hrefused : refused conn.dst = false)
    (report : hids_report_keyboard) {entries : List (bt_gatt_ccc_cfg α)} (hdistinct : Distinct entries) :
    notify_cb s report refused entries =
      if configured entries conn.dst = BT_GATT_CCC_NOTIFY then [⟨conn, report⟩] else [] := by
  induction entries with
  | nil => rfl
  | cons entry rest ih =>
    have ih := ih hdistinct.tail
    rw [notify_cb]
    by_cases hpeer : entry.peer = some conn.dst
    · rw [configured_of_mem hdistinct List.mem_cons_self hpeer]
      have hrest : configured rest conn.dst = 0 := by
        by_contra hrest
        obtain ⟨other, hother, hsame, -⟩ := exists_of_configured hrest
        exact hdistinct.not_mem_tail hpeer hother hsame
      rw [hrest, if_neg (by decide)] at ih
      have hlookup : entry.peer.bind s.lookup = some conn := by
        rw [hpeer, Option.bind_some, lookup, hconns, List.find?_cons_of_pos (by simp)]
      rw [hlookup, ih]
      simp only [hstate, hrefused, ne_eq, not_true_eq_false, if_false, Bool.false_eq_true, ite_not]
    · have hskip : configured (entry :: rest) conn.dst = configured rest conn.dst := by
        unfold configured
        rw [List.find?_cons_of_neg (by simpa using hpeer)]
      have hlookup : entry.peer.bind s.lookup = none := by
        cases hother : entry.peer with
        | none => rfl
        | some peer =>
          have hne : ¬conn.dst = peer := fun heq => hpeer (heq ▸ hother)
          rw [Option.bind_some, lookup, hconns, List.find?_cons_of_neg (by simpa using hne), List.find?_nil]
      rw [hskip, hlookup, ih, ite_self]

end peripheral_hids.gatt.Server
