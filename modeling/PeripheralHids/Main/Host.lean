import PeripheralHids.Hog.HostView
import PeripheralHids.Gatt.Delivery
import PeripheralHids.Translator.Independent
import PeripheralHids.Translator.Published

open peripheral_hids.hog peripheral_hids.gatt peripheral_hids.ps2_hid_translator
open peripheral_hids.gatt.bt_security_t peripheral_hids.gatt.bt_conn_state_t

namespace peripheral_hids

/-- The usages of the mapped keys are among those that the host knows. -/
theorem usage_le_of_mapped {k : Key} {usage : uint8_t} (husage : k.usage = some usage) : usage ≤ 167 := by
  by_cases hk : k = .extended 0x5A
  · subst hk
    obtain rfl : KEY_ENTER = usage := Option.some.inj ((show Key.usage _ = some KEY_ENTER from rfl).symm.trans husage)
    decide
  · have hall : (mapped_keys.all fun entry => entry.1 ≤ 167) = true := by decide +kernel
    exact of_decide_eq_true (List.all_eq_true.mp hall (usage, k) (mem_mapped_keys husage hk))

/-- What a host should see of some strokes: the usages of the ordinary keys that are
pressed, and those of the modifier bits. -/
def Sees (strokes : List (Stroke Key)) (page usage : Nat) : Prop :=
  page = keyboard_page ∧
    ((∃ i < 8, Stroke.lastDown (fun k => k.is_modifier && k.hid_key.getLsbD i) strokes = true ∧ usage = 0xE0 + i) ∨
      ∃ key ∈ Stroke.pressed Key.usage strokes, usage = key.toNat)

theorem host_usages_typed (simulate_input : uint8_t) {strokes : List (Stroke Key)} (hsix : AtMostSix strokes)
    (page usage : Nat) :
    (page, usage) ∈ HidDescriptor.host_usages report_map (typed (.initial simulate_input) strokes).key_report.bytes ↔
      Sees strokes page usage := by
  have hkeys := (tracks_typed simulate_input strokes).complete hsix
  have hkey (key : uint8_t) : key ∈ (typed (.initial simulate_input) strokes).key_report.keycode.toList ∧ key ≠ 0 ↔
      key ∈ Stroke.pressed Key.usage strokes := by
    rw [← hkeys, keys, Slots.mem_used, Vector.mem_toList_iff, and_comm]
    rfl
  rw [mem_host_usages, Sees]
  refine and_congr_right fun _ => or_congr ?_ ?_
  · constructor
    · rintro ⟨i, hi, hbit, rfl⟩
      exact ⟨i, hi, (typed_modifier simulate_input strokes hi).symm.trans hbit, rfl⟩
    · rintro ⟨i, hi, hdown, rfl⟩
      exact ⟨i, hi, (typed_modifier simulate_input strokes hi).trans hdown, rfl⟩
  · constructor
    · rintro ⟨key, hmem, hne, -, rfl⟩
      exact ⟨key, (hkey key).mp ⟨hmem, hne⟩, rfl⟩
    · rintro ⟨key, hpressed, rfl⟩
      obtain ⟨hmem, hne⟩ := (hkey key).mpr hpressed
      obtain ⟨k, husage, -⟩ := Stroke.exists_held_of_lastDown (Stroke.mem_pressed.mp hpressed)
      exact ⟨key, hmem, hne, usage_le_of_mapped (of_decide_eq_true husage), rfl⟩

/-- From the codes to the host: the notifications that a subscribed and
authenticated peer is sent while complete sequences are parsed are the reports of
the translator, and by `report_map` the last of them shows the host the modifiers
and the keys that are down, if never more than six ordinary ones were. -/
theorem subscriber_sees_strokes {α : Type} [DecidableEq α] {cfg : List (bt_gatt_ccc_cfg α)}
    (hcfg : Server.Distinct cfg) (events : List (gatt.Event α)) {conn : bt_conn α}
    (hconn : conn ∈ (Server.run 1 cfg events).conns) (hstate : conn.state = BT_CONN_CONNECTED)
    (hthree : 3 ≤ conn.sec_level.level)
    (hnotify : Server.configured (Server.run 1 cfg events).cfg conn.dst = BT_GATT_CCC_NOTIFY)
    (hplain : ∀ entry ∈ (Server.run 1 cfg events).cfg, entry.value ≤ BT_GATT_CCC_NOTIFY)
    (seqs : List Sequence) (hcomplete : ∀ q ∈ seqs, q.complete = true)
    (hsix : AtMostSix (seqs.flatMap Sequence.strokes)) :
    ∃ t reports, ProcM.calls ps2_hid_translator_parse_next_scancode seqs.length (.initial 1)
        (seqs.flatMap Sequence.codes) = some (t, []) ∧ reports = t.hog.handed ∧
      (Server.run 1 cfg (events ++ reports.map fun report => .set report fun _ => false)).sent =
        (Server.run 1 cfg events).sent ++ reports.map (fun report => ⟨conn, report⟩) ∧
      ∀ page usage, (page, usage) ∈
          HidDescriptor.host_usages report_map ((.zero :: reports).getLast (List.cons_ne_nil _ _)).bytes ↔
        Sees (seqs.flatMap Sequence.strokes) page usage := by
  have hcalls := calls_complete seqs hcomplete (.initial 1) seqs.length (Nat.le_refl _)
  rw [List.take_length, List.drop_length] at hcalls
  refine ⟨_, _, hcalls, rfl, ?_, fun page usage => ?_⟩
  · unfold Server.run
    rw [List.foldl_append]
    refine (Server.foldl_set_sent (Server.tracks_run hcfg events) (Server.follows_run 1 cfg events) hconn hstate hthree
      hnotify _).trans ?_
    rw [if_pos hplain]
    rfl
  · have hlast := congrArg (fun report : hids_report_keyboard =>
      (page, usage) ∈ HidDescriptor.host_usages report_map report.bytes) (emits_of_calls hcalls).last
    exact (iff_of_eq hlast).trans (host_usages_typed 1 hsix page usage)

theorem atMostSix_of_length_le {strokes : List (Stroke Key)} (hlength : strokes.length ≤ 6) : AtMostSix strokes := by
  intro moment hmoment
  calc (Stroke.pressed Key.usage moment).card
    _ ≤ (moment.filterMap fun e => e.key.usage).toFinset.card := Finset.card_filter_le _ _
    _ ≤ (moment.filterMap fun e => e.key.usage).length := List.toFinset_card_le _
    _ ≤ moment.length := List.length_filterMap_le _ _
    _ ≤ strokes.length := hmoment.length_le
    _ ≤ 6 := hlength

/-- A peer that has paired and subscribed sees the `A` key go down. -/
theorem subscriber_sees_a :
    ∃ t reports, ProcM.calls ps2_hid_translator_parse_next_scancode 1 (.initial 1) [0x1C] = some (t, []) ∧
      reports = t.hog.handed ∧ (keyboard_page, 0x04) ∈
        HidDescriptor.host_usages report_map ((.zero :: reports).getLast (List.cons_ne_nil _ _)).bytes := by
  have hcfg : Server.Distinct [(clear_ccc_cfg : bt_gatt_ccc_cfg Nat)] := by
    rintro peer (_ | i) (_ | j) hi hj <;> first | rfl | contradiction
  have hconn : ⟨0, true, BT_SECURITY_L4, BT_SECURITY_L4, BT_CONN_CONNECTED⟩ ∈
      (Server.run 1 [clear_ccc_cfg] [.connected 0, .encrypt_change 0 true (some ⟨true, true, 16⟩),
        .write 0 .ccc [1, 0] 0]).conns := by decide
  obtain ⟨t, reports, hcalls, hreports, -, hsees⟩ := subscriber_sees_strokes hcfg _ hconn rfl (by decide)
    (by decide) (by decide) [.make 0x1C] (by decide) (atMostSix_of_length_le (by decide))
  have hpressed : (0x04 : uint8_t) ∈ Stroke.pressed Key.usage [⟨.plain 0x1C, true⟩] :=
    Stroke.mem_pressed.mpr (by decide)
  exact ⟨t, reports, hcalls, hreports, (hsees _ _).mpr ⟨rfl, .inr ⟨0x04, hpressed, rfl⟩⟩⟩

end peripheral_hids
