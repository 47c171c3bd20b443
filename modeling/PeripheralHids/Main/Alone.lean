import PeripheralHids.Main.Adapter
import PeripheralHids.Translator.Alone

open peripheral_hids.hog peripheral_hids.msg_q peripheral_hids.bt_hid_tools
open peripheral_hids.ps2_connector peripheral_hids.ps2_hid_translator

namespace peripheral_hids

/-- What only adds to the reports handed over. -/
def HandsOn (h h' : Hog) : Prop := h.handed <+: h'.handed

instance : IsPreorder Hog HandsOn where
  refl h := List.prefix_refl h.handed
  trans _ _ _ hgh hhi := hgh.trans hhi

theorem hog_set_keyboard_input_handsOn (report : hids_report_keyboard) :
    (ProcM.modify (hog_set_keyboard_input · report) : ProcM uint8_t Hog Unit).Guarantees HandsOn
      fun _ _ => True := by
  refine ProcM.guarantees_modify (fun h => ?_) fun _ => trivial
  rw [HandsOn, hog_set_keyboard_input_handed]
  exact List.prefix_append h.handed [report]

theorem keyboard_print_loop_handsOn (str : List uint8_t) (key_report : hids_report_keyboard) :
    (keyboard_print_loop (ι := uint8_t) key_report str).Guarantees HandsOn fun _ _ => True := by
  induction str generalizing key_report with
  | nil => exact fun _ => trivial
  | cons ascii str ih =>
    rw [keyboard_print_loop]
    split
    · exact ProcM.guarantees_pure fun _ => trivial
    · refine (hog_set_keyboard_input_handsOn _).andThen fun _ => ?_
      refine ProcM.guarantees_sleep.andThen fun _ => ?_
      refine (hog_set_keyboard_input_handsOn _).andThen fun _ => ?_
      refine ProcM.guarantees_sleep.andThen fun _ => ?_
      exact ih _

/-- The keyboard thread does not notice `keyboard_print`. -/
theorem keyboard_print_unnoticed (str : List uint8_t) :
    (program.body (.keyboard_print str)).Guarantees (Unnoticed Shadows) fun _ _ => True := by
  have hprint : (keyboard_print (ι := uint8_t) str).Guarantees HandsOn fun _ _ => True := by
    refine (keyboard_print_loop_handsOn str .zero).andThen fun key_report => ?_
    exact hog_set_keyboard_input_handsOn _
  refine hprint.lift (fun s h hextends r hshadows => ?_) fun _ _ _ _ => trivial
  exact ⟨hshadows.key_report, hshadows.handed.trans hextends.sublist⟩

/-- The keyboard thread is where it would be by itself, after the same codes. -/
def Adapter.AsAlone (codes : List uint8_t) (c : Adapter) : Prop :=
  ∃ d : Solo uint8_t Translator, c.pool.Accompanies program Shadows .ps2_keyboard_thread d ∧
    Solo.Progress ps2_hid_translator_parse_next_scancode (.initial 0) codes d

namespace Adapter

theorem AsAlone.call {codes : List uint8_t} {c : Adapter} (hc : c.AsAlone codes) (g : Call) :
    (c.turn (.call g)).AsAlone codes := by
  obtain ⟨d, haccompanies, hprogress⟩ := hc
  cases g with
  | parse_next_scancode =>
    exact ⟨_, haccompanies.call (g := .parse_next_scancode) rfl shadowed_parse_next_scancode, hprogress.call⟩
  | keyboard_print str =>
    refine ⟨d, haccompanies.other_call (g := .keyboard_print str) ?_ (keyboard_print_unnoticed str), hprogress⟩
    exact Thread.noConfusion

theorem AsAlone.wake {codes : List uint8_t} {c : Adapter} (hc : c.AsAlone codes) (th : Thread) :
    (c.turn (.wake th)).AsAlone codes := by
  obtain ⟨d, haccompanies, hprogress⟩ := hc
  cases th with
  | ps2_keyboard_thread => exact ⟨_, haccompanies.wake _, hprogress.wake⟩
  | main => exact ⟨d, haccompanies.other_wake Thread.noConfusion, hprogress⟩

theorem AsAlone.input {codes : List uint8_t} {c : Adapter} (hc : c.AsAlone codes)
    {k : uint8_t → Translator → Proc uint8_t Translator Unit}
    (hwaiting : c.pool.threads .ps2_keyboard_thread = .waiting k) (code : uint8_t) :
    (c.turn (.input .ps2_keyboard_thread code)).AsAlone (codes ++ [code]) := by
  obtain ⟨d, haccompanies, hprogress⟩ := hc
  have hown := haccompanies.own
  rw [hwaiting] at hown
  cases hd : d.parked with
  | waiting l => exact ⟨_, haccompanies.input _ code, hprogress.input hd code⟩
  | idle | asleep l | faulted => rw [hd] at hown; cases hown

theorem AsAlone.of_pool {codes : List uint8_t} {c c' : Adapter} (hc : c.AsAlone codes) (hpool : c'.pool = c.pool) :
    c'.AsAlone codes := by
  rw [AsAlone, hpool]
  exact hc

theorem AsAlone.step {moments : List Moment} {traces : List Trace} {c : Adapter}
    (hconserves : c.Conserves moments traces) (hc : c.AsAlone (traces.filterMap Trace.reading)) (moment : Moment) :
    (c.step moment).2.AsAlone ((traces ++ [(c.step moment).1]).filterMap Trace.reading) := by
  have hquiet {trace : Trace} (hreading : trace.reading = none) :
      (traces ++ [trace]).filterMap Trace.reading = traces.filterMap Trace.reading := by
    rw [filterMap_concat, hreading]
    exact List.append_nil _
  cases moment with
  | edge data =>
    obtain ⟨hreading, hpool⟩ := edge_pool c data
    rw [Adapter.step, hquiet hreading]
    exact hc.of_pool hpool
  | get =>
    rw [hquiet rfl]
    exact hc.of_pool (get_pool c)
  | resume =>
    rw [Adapter.step]
    cases hswap : c.swap_data with
    | none =>
      rw [hquiet rfl]
      exact hc
    | some message =>
      obtain ⟨k, hwaiting⟩ := hconserves.pends.waits (Or.inr (by rw [hswap]; exact Option.some_ne_none message))
      rw [filterMap_concat]
      exact AsAlone.input (c := { c with swap_data := none }) hc hwaiting (reverse message)
  | call g =>
    rw [hquiet rfl]
    exact hc.call g
  | wake th =>
    rw [hquiet rfl]
    exact hc.wake th
  | ccc_changed value =>
    obtain ⟨d, haccompanies, hprogress⟩ := hc
    rw [hquiet rfl]
    refine ⟨d, ⟨?_, haccompanies.own, haccompanies.others⟩, hprogress⟩
    exact ⟨haccompanies.related.key_report, haccompanies.related.handed⟩

theorem asAlone_run (moments : List Moment) : (run moments).AsAlone (readings moments) := by
  refine (Machine.run_invariant
    (P := fun is os c => Conserves is os c ∧ AsAlone (os.filterMap Trace.reading) c) ?_ ?_ moments).2
  · refine ⟨conserves_run [], ⟨.initial 0, .idle⟩, ⟨⟨rfl, List.Sublist.refl _⟩, .idle, fun _ _ => trivial⟩, ?_⟩
    exact Solo.progress_initial _ _
  · exact fun _ _ _ moment hc => ⟨hc.1.step moment, hc.2.step hc.1 moment⟩

/-- Where the keyboard thread is after the codes that it has read, and what it has
done with them. -/
theorem AsAlone.stage {codes : List uint8_t} {c : Adapter} (hc : c.AsAlone codes) :
    ∃ n t rest, ProcM.calls ps2_hid_translator_parse_next_scancode n (.initial 0) codes = some (t, rest) ∧
      match c.pool.threads .ps2_keyboard_thread with
      | .idle => rest = [] ∧ Shadows c.pool.state t
      | .waiting _ => scan rest = .wait ∧ Shadows c.pool.state t
      | .asleep k => Shadows c.pool.state (press_key KEY_PAUSE t) ∧
          ps2_hid_translator_parse_next_scancode.run t rest =
            .returned (release_key KEY_PAUSE (press_key KEY_PAUSE t)) () [] ∧ ∃ u, k c.pool.state = .ret u ()
      | .faulted => scan rest = .fault ∧ Shadows c.pool.state t := by
  obtain ⟨d, haccompanies, hprogress⟩ := hc
  have hown := haccompanies.own
  have hrelated := haccompanies.related
  cases hthread : c.pool.threads .ps2_keyboard_thread with
  | idle =>
    cases hd : d.parked with
    | idle =>
      obtain ⟨n, hcalls⟩ := hprogress.of_idle hd
      exact ⟨n, d.state, [], hcalls, rfl, hrelated⟩
    | asleep l | waiting l | faulted => rw [hthread, hd] at hown; cases hown
  | waiting k =>
    cases hd : d.parked with
    | waiting l =>
      obtain ⟨n, t, rest, hcalls, hrun⟩ := hprogress.of_waiting hd
      obtain ⟨hscan, rfl⟩ := scan_of_run_blocked hrun
      exact ⟨n, d.state, rest, hcalls, hscan, hrelated⟩
    | idle | asleep l | faulted => rw [hthread, hd] at hown; cases hown
  | asleep k =>
    cases hd : d.parked with
    | asleep l =>
      obtain ⟨n, t, rest, hcalls, ⟨hstate, hl⟩, -, hrun⟩ := hprogress.of_asleep hd actsLast_parse_next_scancode
      rw [hthread, hd] at hown
      cases hown with
      | asleep hk =>
        have hwoken := hk _ _ hrelated
        rw [hl] at hwoken
        cases hret : k c.pool.state with
        | ret u a =>
          rw [hl, hstate] at hrun
          rw [hstate] at hrelated
          exact ⟨n, t, rest, hcalls, hrelated, hrun, u, hret⟩
        | fault | sleep u m | read u m => rw [hret] at hwoken; cases hwoken
    | idle | waiting l | faulted => rw [hthread, hd] at hown; cases hown
  | faulted =>
    cases hd : d.parked with
    | faulted =>
      obtain ⟨n, rest, hcalls, hrun⟩ := hprogress.of_faulted hd actsLast_parse_next_scancode
      exact ⟨n, d.state, rest, hcalls, scan_of_run_faulted hrun, hrelated⟩
    | idle | asleep l | waiting l => rw [hthread, hd] at hown; cases hown

end Adapter

end peripheral_hids
