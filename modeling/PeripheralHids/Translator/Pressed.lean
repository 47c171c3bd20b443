import PeripheralHids.Translator.Sequence

open peripheral_hids.hog

namespace peripheral_hids.ps2_hid_translator

/-- At no moment of a history are more than six usages pressed. -/
def AtMostSix (strokes : List (Stroke Key)) : Prop :=
  ∀ moment, moment <+: strokes → (Stroke.pressed Key.usage moment).card ≤ 6

/-- How the array follows the pressed usages: it never holds a key twice, it
holds nothing else, and it holds them all as long as they have fitted in. -/
structure Tracks (report : hids_report_keyboard) (strokes : List (Stroke Key)) : Prop where
  distinct : Slots.Distinct KEY_UNKNOWN report.keycode
  subset : keys report ⊆ Stroke.pressed Key.usage strokes
  complete : AtMostSix strokes → keys report = Stroke.pressed Key.usage strokes

theorem tracks_zero : Tracks .zero [] where
  distinct := Slots.distinct_replicate 0
  subset := by rw [keys_zero]; exact Finset.empty_subset _
  complete := fun _ => keys_zero

theorem AtMostSix.init {strokes : List (Stroke Key)} {e : Stroke Key} (hsix : AtMostSix (strokes ++ [e])) :
    AtMostSix strokes :=
  fun moment hmoment => hsix moment (hmoment.trans (List.prefix_append strokes [e]))

/-- A stroke that has no usage and leaves the array alone. -/
theorem Tracks.of_no_usage {report report' : hids_report_keyboard} {strokes : List (Stroke Key)}
    (htracks : Tracks report strokes) (hkeycode : report'.keycode = report.keycode) {e : Stroke Key}
    (husage : e.key.usage = none) : Tracks report' (strokes ++ [e]) := by
  have hkeys : keys report' = keys report := by rw [keys, keys, hkeycode]
  have hpressed := Stroke.pressed_concat_none strokes husage
  refine ⟨hkeycode ▸ htracks.distinct, ?_, fun hsix => ?_⟩
  · rw [hkeys, hpressed]
    exact htracks.subset
  · rw [hkeys, hpressed]
    exact htracks.complete hsix.init

theorem Tracks.press_key {s : Translator} {strokes : List (Stroke Key)} (htracks : Tracks s.key_report strokes)
    {k : Key} (hmod : k.is_modifier = false) :
    Tracks (press_key k.hid_key s).key_report (strokes ++ [⟨k, true⟩]) := by
  by_cases hknown : k.hid_key = KEY_UNKNOWN
  · have hsame : ps2_hid_translator.press_key k.hid_key s = s := if_pos hknown
    rw [hsame]
    exact htracks.of_no_usage rfl (Key.usage_of_unknown hknown)
  have hpressed := Stroke.pressed_concat_make strokes (Key.usage_of_known hmod hknown)
  refine ⟨press_key_distinct htracks.distinct, ?_, fun hsix => ?_⟩
  · rw [hpressed]
    exact (keys_press_key_subset k.hid_key s).trans (Finset.insert_subset_insert _ htracks.subset)
  · have hkeys := htracks.complete hsix.init
    have hroom := hsix _ (List.prefix_refl _)
    rw [hpressed, ← hkeys] at hroom
    rw [hpressed, ← hkeys, keys_press_key htracks.distinct hknown hroom]

theorem Tracks.release_key {s : Translator} {strokes : List (Stroke Key)} (htracks : Tracks s.key_report strokes)
    {k : Key} (hmod : k.is_modifier = false) :
    Tracks (release_key k.hid_key s).key_report (strokes ++ [⟨k, false⟩]) := by
  by_cases hknown : k.hid_key = KEY_UNKNOWN
  · have hsame : ps2_hid_translator.release_key k.hid_key s = s := if_pos hknown
    rw [hsame]
    exact htracks.of_no_usage rfl (Key.usage_of_unknown hknown)
  have hpressed := Stroke.pressed_concat_break strokes (Key.usage_of_known hmod hknown)
  have hkeys := keys_release_key k.hid_key htracks.distinct
  refine ⟨release_key_distinct htracks.distinct, ?_, fun hsix => ?_⟩
  · rw [hkeys, hpressed]
    exact Finset.erase_subset_erase _ htracks.subset
  · rw [hkeys, hpressed, htracks.complete hsix.init]

theorem Tracks.stroke {s : Translator} {strokes : List (Stroke Key)} (htracks : Tracks s.key_report strokes)
    (e : Stroke Key) : Tracks ((action e).perform s).key_report (strokes ++ [e]) := by
  obtain ⟨k, down⟩ := e
  cases hmod : k.is_modifier with
  | true =>
    have hkeycode := Action.perform_keycode ((action_is_modifier ⟨k, down⟩).trans hmod) s
    exact htracks.of_no_usage hkeycode (Key.usage_of_modifier hmod)
  | false =>
    cases down with
    | true =>
      rw [action_make hmod]
      exact htracks.press_key hmod
    | false =>
      rw [action_break hmod]
      exact htracks.release_key hmod

theorem tracks_typed (simulate_input : uint8_t) (strokes : List (Stroke Key)) :
    Tracks (typed (.initial simulate_input) strokes).key_report strokes := by
  induction strokes using List.reverseRecOn with
  | nil => exact tracks_zero
  | append_singleton strokes e ih =>
    rw [typed_concat]
    exact ih.stroke e

/-- After every call over complete sequences the array holds only pressed usages,
and all of them unless more than six were pressed at once before. -/
theorem report_tracks_pressed (seqs : List Sequence) (hcomplete : ∀ q ∈ seqs, q.complete = true)
    (simulate_input : uint8_t) (n : Nat) (hn : n ≤ seqs.length) :
    ∃ t, ProcM.calls ps2_hid_translator_parse_next_scancode n (.initial simulate_input)
        (seqs.flatMap Sequence.codes) = some (t, (seqs.drop n).flatMap Sequence.codes) ∧
      keys t.key_report ⊆ Stroke.pressed Key.usage ((seqs.take n).flatMap Sequence.strokes) ∧
      (AtMostSix ((seqs.take n).flatMap Sequence.strokes) →
        keys t.key_report = Stroke.pressed Key.usage ((seqs.take n).flatMap Sequence.strokes)) := by
  have htracks := tracks_typed simulate_input ((seqs.take n).flatMap Sequence.strokes)
  exact ⟨_, calls_complete seqs hcomplete _ n hn, htracks.subset, htracks.complete⟩

/-- `A` and `Enter` are made, `Pause` comes in between, and `A` is released. -/
theorem report_tracks_enter :
    ∃ t, ProcM.calls ps2_hid_translator_parse_next_scancode 4 (.initial 0)
        [0x1C, 0xE1, 0x14, 0x77, 0xE1, 0xF0, 0x14, 0xF0, 0x77, 0x5A, 0xF0, 0x1C] = some (t, []) ∧
      keys t.key_report = {KEY_ENTER} := by
  obtain ⟨t, hcalls, -, hkeys⟩ :=
    report_tracks_pressed [.make 0x1C, .pause, .make 0x5A, .brk 0x1C] (by decide) 0 4 (by decide)
  refine ⟨t, hcalls, hkeys ?_⟩
  intro moment hmoment
  have hmoments : ∀ moment ∈ List.inits (([.make 0x1C, .pause, .make 0x5A, .brk 0x1C] : List Sequence).flatMap
      Sequence.strokes), (Stroke.pressed Key.usage moment).card ≤ 6 := by decide
  exact hmoments moment ((List.mem_inits _ _).mpr hmoment)

theorem perform_action_modifier (e : Stroke Key) (s : Translator) :
    ((action e).perform s).key_report.modifier =
      if e.key.is_modifier then
        if e.down then s.key_report.modifier ||| e.key.hid_key else s.key_report.modifier &&& ~~~e.key.hid_key
      else s.key_report.modifier := by
  cases hmod : e.key.is_modifier with
  | false => exact Action.perform_modifier ((action_is_modifier e).trans hmod) s
  | true =>
    obtain ⟨k, down⟩ := e
    cases down with
    | true =>
      rw [action_make_modifier hmod]
      rfl
    | false =>
      rw [action_break_modifier hmod]
      rfl

/-- Each bit of the modifier byte follows the last stroke on the keys whose byte
has it, also where these bytes overlap. -/
theorem typed_modifier (simulate_input : uint8_t) (strokes : List (Stroke Key)) {i : Nat} (hi : i < 8) :
    (typed (.initial simulate_input) strokes).key_report.modifier.getLsbD i =
      Stroke.lastDown (fun k => k.is_modifier && k.hid_key.getLsbD i) strokes := by
  induction strokes using List.reverseRecOn with
  | nil => exact BitVec.getLsbD_zero
  | append_singleton strokes e ih =>
    rw [typed_concat, Stroke.lastDown_concat, ← ih, perform_action_modifier]
    cases hmod : e.key.is_modifier with
    | false => simp only [Bool.false_and, Bool.false_eq_true, if_false]
    | true =>
      cases hdown : e.down with
      | true =>
        rw [if_pos rfl, if_pos rfl, BitVec.getLsbD_or]
        cases e.key.hid_key.getLsbD i with
        | true => exact Bool.or_true _
        | false => exact Bool.or_false _
      | false =>
        rw [if_pos rfl, if_neg Bool.false_ne_true, BitVec.getLsbD_and, BitVec.getLsbD_not, decide_eq_true hi]
        cases e.key.hid_key.getLsbD i with
        | true => exact Bool.and_false _
        | false => exact Bool.and_true _

theorem typed_reserved (simulate_input : uint8_t) (strokes : List (Stroke Key)) :
    (typed (.initial simulate_input) strokes).key_report.reserved = 0 := by
  induction strokes using List.reverseRecOn with
  | nil => rfl
  | append_singleton strokes e ih =>
    rw [typed_concat, Action.perform_reserved, ih]

/-- When every key that was made has been released, in whatever order and however
many were held, the report is empty. -/
theorem no_stuck_keys (seqs : List Sequence) (hcomplete : ∀ q ∈ seqs, q.complete = true)
    (hreleased : ∀ k, ⟨k, true⟩ ∈ seqs.flatMap Sequence.strokes →
      Stroke.held (seqs.flatMap Sequence.strokes) k = false) (simulate_input : uint8_t) :
    ∃ t, ProcM.calls ps2_hid_translator_parse_next_scancode seqs.length (.initial simulate_input)
        (seqs.flatMap Sequence.codes) = some (t, []) ∧ t.key_report = .zero := by
  have hcalls := calls_complete seqs hcomplete (.initial simulate_input) seqs.length (Nat.le_refl _)
  rw [List.take_length, List.drop_length] at hcalls
  refine ⟨_, hcalls, ?_⟩
  have hup (p : Key → Bool) : Stroke.lastDown p (seqs.flatMap Sequence.strokes) = false := by
    by_contra hdown
    obtain ⟨k, -, hheld⟩ := Stroke.exists_held_of_lastDown (Bool.eq_true_of_not_eq_false hdown)
    rw [hreleased k (Stroke.mem_of_held hheld)] at hheld
    cases hheld
  have hmodifier : (typed (.initial simulate_input) (seqs.flatMap Sequence.strokes)).key_report.modifier = 0 := by
    apply BitVec.eq_of_getLsbD_eq
    intro i hi
    rw [typed_modifier simulate_input _ hi, hup]
    exact BitVec.getLsbD_zero.symm
  have hkeys : keys (typed (.initial simulate_input) (seqs.flatMap Sequence.strokes)).key_report = ∅ := by
    rw [← Finset.subset_empty, Finset.subset_iff]
    intro u hu
    have hpressed := Stroke.mem_pressed.mp ((tracks_typed simulate_input _).subset hu)
    rw [hup] at hpressed
    cases hpressed
  have hkeycode := Slots.eq_replicate_of_used hkeys
  have hreserved := typed_reserved simulate_input (seqs.flatMap Sequence.strokes)
  exact hids_report_keyboard.ext hmodifier hreserved hkeycode

/-- Both `Shift` keys and `A`, released in another order than they were made. -/
theorem no_stuck_shift :
    ∃ t, ProcM.calls ps2_hid_translator_parse_next_scancode 6 (.initial 0)
        [0x12, 0x59, 0x1C, 0xF0, 0x12, 0xF0, 0x1C, 0xF0, 0x59] = some (t, []) ∧ t.key_report = .zero := by
  let seqs : List Sequence := [.make 0x12, .make 0x59, .make 0x1C, .brk 0x12, .brk 0x1C, .brk 0x59]
  have hreleased : ∀ e ∈ seqs.flatMap Sequence.strokes, e.down = true →
      Stroke.held (seqs.flatMap Sequence.strokes) e.key = false := by decide
  exact no_stuck_keys seqs (by decide) (fun k hmade => hreleased ⟨k, true⟩ hmade rfl) 0

end peripheral_hids.ps2_hid_translator
