import PeripheralHids.Connector.Ascent
import PeripheralHids.Main.Drain
import PeripheralHids.Translator.Pressed

open peripheral_hids.msg_q peripheral_hids.ps2_connector peripheral_hids.ps2_hid_translator

namespace peripheral_hids.ps2_hid_translator

/-- Calls on complete sequences that come to an end have read them all. -/
theorem calls_complete_unique {seqs : List Sequence} (hcomplete : ∀ q ∈ seqs, q.complete = true) {s t : Translator}
    {n : Nat} {rest : List uint8_t}
    (hcalls : ProcM.calls ps2_hid_translator_parse_next_scancode n s (seqs.flatMap Sequence.codes) = some (t, rest))
    (hend : ∀ v later, ps2_hid_translator_parse_next_scancode.run t rest ≠ .returned v () later) :
    t = typed s (seqs.flatMap Sequence.strokes) ∧ rest = [] := by
  have hall := calls_complete seqs hcomplete s seqs.length (Nat.le_refl _)
  rw [List.take_length, List.drop_length] at hall
  exact ProcM.calls_unique hcalls hall hend fun _ _ hreturned => by cases hreturned

theorem inBounds_complete {seqs : List Sequence} (hcomplete : ∀ q ∈ seqs, q.complete = true) (s : Translator) :
    InBounds s (seqs.flatMap Sequence.codes) := by
  intro n t rest hcalls hfault
  obtain ⟨-, rfl⟩ := calls_complete_unique hcomplete hcalls (by rw [hfault]; nofun)
  cases hfault

end peripheral_hids.ps2_hid_translator

namespace peripheral_hids.Adapter

theorem acceptance_sublist_arrival (traces : List Trace) :
    (traces.filterMap Trace.acceptance).Sublist (traces.filterMap Trace.arrival) := by
  induction traces with
  | nil => exact .slnil
  | cons trace traces ih =>
    cases trace with
    | quiet => exact ih
    | accepted code => exact ih.cons_cons code
    | dropped code => exact ih.cons code
    | resumed code => exact ih

theorem acceptance_eq_arrival {traces : List Trace} (hloss : traces.filterMap Trace.loss = []) :
    traces.filterMap Trace.acceptance = traces.filterMap Trace.arrival := by
  induction traces with
  | nil => rfl
  | cons trace traces ih =>
    cases trace with
    | quiet => exact ih hloss
    | accepted code => exact congrArg (code :: ·) (ih hloss)
    | dropped code => cases hloss
    | resumed code => exact ih hloss

/-- A code is dropped by an edge that finds the queue full, and by nothing else. -/
theorem full_of_dropped {c : Adapter} {w : List Bool} (hrec : Receives c.connector w) {moment : Moment}
    {code : uint8_t} (hdropped : (c.step moment).1 = .dropped code) :
    c.connector.rx_msg_que.contents.length = PS2_MSG_QUE_SIZE := by
  cases moment with
  | get | call g | wake th | ccc_changed value => cases hdropped
  | resume =>
    rw [step] at hdropped
    cases hswap : c.swap_data with
    | none | some message => rw [hswap] at hdropped; cases hdropped
  | edge data =>
    rw [step] at hdropped
    obtain ⟨-, -, hedge⟩ | ⟨arrived, -, -, hedge⟩ := edge_cases hrec data
    · rw [hedge] at hdropped
      cases hdropped
    · obtain ⟨hput, -⟩ | ⟨hput, -⟩ | ⟨-, hfull, -⟩ := k_msgq_put_cases c.connector.rx_msg_que arrived
      · rw [hedge, hput] at hdropped
        cases hdropped
      · rw [hedge, hput] at hdropped
        cases hdropped
      · exact hfull

/-- In every order of edges, threads and clients, the codes that arrive are the
bytes of the frames on the wire, and the keyboard thread gets those that found
room, each once and in their order: they have been read or are underway. Only a
full queue loses a code. -/
theorem codes_in_order (moments : List Moment) :
    arrivals moments = (parseFrames (wire moments)).1 ∧
      readings moments ++ (run moments).underway = acceptances moments ∧
      (acceptances moments).Sublist (arrivals moments) ∧
      (losses moments = [] → acceptances moments = arrivals moments) ∧
      ∀ earlier moment later code, moments = earlier ++ moment :: later →
        ((run earlier).step moment).1 = .dropped code →
        (run earlier).connector.rx_msg_que.contents.length = PS2_MSG_QUE_SIZE := by
  have hconserves := conserves_run moments
  refine ⟨?_, hconserves.conserved, acceptance_sublist_arrival _, acceptance_eq_arrival, ?_⟩
  · exact hconserves.arrived.trans (window_parseFrames (wire moments)).1
  · intro earlier moment later code _ hdropped
    exact full_of_dropped (conserves_run earlier).receives hdropped

/-- In whatever order edges, threads and clients take their turns, the keyboard
thread has done with the codes it has read what calls of the parser by themselves
do: its report is theirs, and their reports have been handed over in their order,
among those of others. -/
theorem report_as_alone (moments : List Moment) :
    ∃ n t rest, ProcM.calls ps2_hid_translator_parse_next_scancode n (.initial 0) (readings moments) =
        some (t, rest) ∧
      match (run moments).pool.threads .ps2_keyboard_thread with
      | .idle => rest = [] ∧ Shadows (run moments).pool.state t
      | .waiting _ => scan rest = .wait ∧ Shadows (run moments).pool.state t
      | .asleep k => Shadows (run moments).pool.state (press_key KEY_PAUSE t) ∧
          ps2_hid_translator_parse_next_scancode.run t rest =
            .returned (release_key KEY_PAUSE (press_key KEY_PAUSE t)) () [] ∧
          ∃ u, k (run moments).pool.state = .ret u ()
      | .faulted => scan rest = .fault ∧ Shadows (run moments).pool.state t :=
  (asAlone_run moments).stage

/-- Four turns of the keyboard thread for each code in the queue, and four more,
take it to where it pends on an empty queue with every code read, unless a code
makes it leave the table of keys. -/
theorem keyboard_thread_drains (moments : List Moment) (hbounds : InBounds (.initial 0) (acceptances moments))
    (n : Nat) (hn : 4 * (run moments).connector.rx_msg_que.contents.length + 4 ≤ n) :
    (run (moments ++ own_turns n (run moments))).connector.rx_msg_que.wait_q = 1 ∧
      (run (moments ++ own_turns n (run moments))).underway = [] ∧
      readings (moments ++ own_turns n (run moments)) = acceptances moments := by
  have hpended := pended_own_turns n moments hbounds (Nat.le_trans (work_le _) hn)
  have hconserves := conserves_run (moments ++ own_turns n (run moments))
  obtain ⟨-, hunderway, -⟩ := hconserves.pends.done hpended
  have hconserved := hconserves.conserved
  rw [hunderway, List.append_nil] at hconserved
  exact ⟨hpended, hunderway, hconserved.trans (acceptances_own_turns n moments)⟩

/-- The make of the `A` key has arrived before the thread is started. -/
theorem keyboard_thread_drains_make :
    acceptances ((frame 0x1C).map .edge) = [0x1C] ∧
      readings ((frame 0x1C).map .edge ++ own_turns 8 (run ((frame 0x1C).map .edge))) = [0x1C] := by
  have haccepted : acceptances ((frame 0x1C).map .edge) = [0x1C] := by decide
  have hbounds : InBounds (.initial 0) (acceptances ((frame 0x1C).map .edge)) := by
    rw [haccepted]
    exact @inBounds_complete [.make 0x1C] (by decide) _
  obtain ⟨-, -, hread⟩ := keyboard_thread_drains ((frame 0x1C).map .edge) hbounds 8 (by decide)
  exact ⟨haccepted, hread.trans haccepted⟩

/-- From the wire to the report: whatever is printed meanwhile and however the
turns fall, once the frames of complete sequences have been clocked in without a
full queue and the keyboard thread has had its turns, the report is that of the
keys' strokes, and their reports have been handed over in their order. -/
theorem report_of_wire (moments : List Moment) (seqs : List Sequence) (hcomplete : ∀ q ∈ seqs, q.complete = true)
    (hwire : wire moments = (seqs.flatMap Sequence.codes).flatMap frame) (hlosses : losses moments = [])
    (n : Nat) (hn : 4 * (run moments).connector.rx_msg_que.contents.length + 4 ≤ n) :
    ∃ s, (run (moments ++ own_turns n (run moments))).pool.state = s ∧
      s.key_report = (typed (.initial 0) (seqs.flatMap Sequence.strokes)).key_report ∧
      (typed (.initial 0) (seqs.flatMap Sequence.strokes)).hog.handed.Sublist s.hog.handed ∧
      keys s.key_report ⊆ Stroke.pressed Key.usage (seqs.flatMap Sequence.strokes) ∧
      (AtMostSix (seqs.flatMap Sequence.strokes) →
        keys s.key_report = Stroke.pressed Key.usage (seqs.flatMap Sequence.strokes)) := by
  have haccepted : acceptances moments = seqs.flatMap Sequence.codes := by
    have harrived := (conserves_run moments).arrived
    rw [hwire, (window_frames _).1] at harrived
    exact (acceptance_eq_arrival hlosses).trans harrived
  have hbounds : InBounds (.initial 0) (acceptances moments) := by
    rw [haccepted]
    exact inBounds_complete hcomplete _
  have hpended := pended_own_turns n moments hbounds (Nat.le_trans (work_le _) hn)
  have hconserves := conserves_run (moments ++ own_turns n (run moments))
  obtain ⟨⟨k, hwaiting⟩, hunderway, -⟩ := hconserves.pends.done hpended
  have hread : readings (moments ++ own_turns n (run moments)) = seqs.flatMap Sequence.codes := by
    have hconserved := hconserves.conserved
    rw [hunderway, List.append_nil] at hconserved
    exact hconserved.trans ((acceptances_own_turns n moments).trans haccepted)
  obtain ⟨calls, t, rest, hcalls, hstage⟩ := (asAlone_run (moments ++ own_turns n (run moments))).stage
  rw [hwaiting] at hstage
  obtain ⟨hscan, hshadows⟩ := hstage
  rw [hread] at hcalls
  obtain ⟨rfl, -⟩ := calls_complete_unique hcomplete hcalls (by
    rw [ps2_hid_translator_parse_next_scancode_run, hscan]
    nofun)
  have htracks := tracks_typed 0 (seqs.flatMap Sequence.strokes)
  rw [← hshadows.key_report] at htracks
  exact ⟨_, rfl, hshadows.key_report, hshadows.handed, htracks.subset, htracks.complete⟩

/-- The `A` key is made while `a` is being printed. -/
theorem report_of_wire_during_print :
    ∃ moments, moments = .call .parse_next_scancode :: .call (.keyboard_print [97, 0]) :: .get ::
        (frame 0x1C).map .edge ∧
      ∃ s, (run (moments ++ own_turns 4 (run moments))).pool.state = s ∧
        s.key_report = (typed (.initial 0) [⟨.plain 0x1C, true⟩]).key_report := by
  refine ⟨_, rfl, ?_⟩
  obtain ⟨s, hstate, hreport, -⟩ := report_of_wire (.call .parse_next_scancode :: .call (.keyboard_print [97, 0]) ::
    .get :: (frame 0x1C).map .edge) [.make 0x1C] (by decide) (by decide) (by decide) 4 (by decide)
  exact ⟨s, hstate, hreport⟩

end peripheral_hids.Adapter
