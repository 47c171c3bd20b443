import PeripheralHids.Translator.Pressed

namespace peripheral_hids.ps2_hid_translator

/-- The two `Enter` keys, of the main block and of the keypad. -/
def Key.is_enter (k : Key) : Bool := k = .plain 0x5A ∨ k = .extended 0x5A

/-- The codes of the ordinary extended keys, the `Enter` of the keypad apart. -/
def extended_codes : List uint8_t :=
  [0x2F, 0x70, 0x6C, 0x7D, 0x71, 0x69, 0x7A, 0x75, 0x6B, 0x72, 0x74, 0x4A]

/-- The keys with a usage, again without that `Enter`, each with its usage. -/
def mapped_keys : List (uint8_t × Key) :=
  (table_entries.filter fun entry => entry.1 ≠ KEY_UNKNOWN ∧ is_modifier_code entry.2 = false).map
      (fun entry => (entry.1, Key.plain entry.2)) ++
    extended_codes.map (fun code => (ps2_extended_code_to_hid_key code, Key.extended code)) ++
    [(KEY_SYSRQ, Key.print_screen), (KEY_PAUSE, Key.pause)]

/-- No two of them have the same usage. -/
theorem mapped_keys_nodup : (mapped_keys.map fun entry => entry.1.toNat).Nodup := by
  decide +kernel

theorem mem_extended_codes {code : uint8_t} (hordinary : (Key.extended code).is_modifier = false)
    (hknown : ps2_extended_code_to_hid_key code ≠ KEY_UNKNOWN) (henter : code ≠ 0x5A) : code ∈ extended_codes := by
  revert code
  decide +kernel

theorem mem_mapped_keys {k : Key} {usage : uint8_t} (husage : k.usage = some usage) (hk : k ≠ .extended 0x5A) :
    (usage, k) ∈ mapped_keys := by
  obtain ⟨hordinary, hknown, rfl⟩ := Key.usage_eq_some husage
  cases k with
  | plain code =>
    have hentry := (Key.plain_hid_key_cases code).resolve_left hknown
    refine List.mem_append_left _ (List.mem_append_left _ (List.mem_map.mpr ⟨(_, code), ?_, rfl⟩))
    exact List.mem_filter.mpr ⟨hentry, decide_eq_true ⟨hknown, hordinary⟩⟩
  | extended code =>
    have hcode := mem_extended_codes hordinary hknown fun heq => hk (congrArg Key.extended heq)
    exact List.mem_append_left _ (List.mem_append_right _ (List.mem_map_of_mem hcode))
  | print_screen | pause => exact List.mem_append_right _ (by simp [Key.hid_key])

/-- Apart from that `Enter`, the usage tells the key. -/
theorem Key.eq_of_usage {k k' : Key} {usage : uint8_t} (husage : k.usage = some usage)
    (husage' : k'.usage = some usage) (hk : k ≠ .extended 0x5A) (hk' : k' ≠ .extended 0x5A) : k = k' := by
  have hpair := List.inj_on_of_nodup_map mapped_keys_nodup (mem_mapped_keys husage hk)
    (mem_mapped_keys husage' hk') rfl
  exact (Prod.mk.inj hpair).2

/-- Two keys with one usage are the same key or the two `Enter` keys. -/
theorem Key.usage_injective {k k' : Key} {usage : uint8_t} (husage : k.usage = some usage)
    (husage' : k'.usage = some usage) : k = k' ∨ usage = KEY_ENTER := by
  by_cases hk : k = .extended 0x5A
  · subst hk
    exact Or.inr (Option.some.inj (husage.symm.trans rfl))
  by_cases hk' : k' = .extended 0x5A
  · subst hk'
    exact Or.inr (Option.some.inj (husage'.symm.trans rfl))
  exact Or.inl (Key.eq_of_usage husage husage' hk hk')

theorem Key.usage_eq_enter {k : Key} : k.usage = some KEY_ENTER ↔ k.is_enter = true := by
  constructor
  · intro husage
    by_cases hk : k = .extended 0x5A
    · exact decide_eq_true (Or.inr hk)
    · have hplain : (Key.plain 0x5A).usage = some KEY_ENTER := rfl
      exact decide_eq_true (Or.inl (Key.eq_of_usage husage hplain hk (by decide)))
  · intro henter
    obtain rfl | rfl := of_decide_eq_true henter
    · rfl
    · rfl

/-- At no moment of a history are more than six ordinary mapped keys held. -/
def AtMostSixHeld (strokes : List (Stroke Key)) : Prop :=
  ∀ moment, moment <+: strokes → (Stroke.heldKeys (fun k => k.usage.isSome) moment).card ≤ 6

theorem AtMostSixHeld.atMostSix {strokes : List (Stroke Key)} (hsix : AtMostSixHeld strokes) : AtMostSix strokes :=
  fun moment hmoment => (Stroke.card_pressed_le Key.usage moment).trans (hsix moment hmoment)

/-- A held key is pressed, unless it is one of the `Enter` keys and the other was
released last. -/
theorem mem_pressed_of_held {strokes : List (Stroke Key)} {k : Key} {usage : uint8_t}
    (husage : k.usage = some usage) (hheld : Stroke.held strokes k = true) :
    usage ∈ Stroke.pressed Key.usage strokes ↔
      (k.is_enter = true → Stroke.lastDown Key.is_enter strokes = true) := by
  rw [Stroke.mem_pressed]
  by_cases henter : usage = KEY_ENTER
  · subst henter
    have hgroup (k' : Key) : decide (k'.usage = some KEY_ENTER) = k'.is_enter := by
      rw [Bool.eq_iff_iff, decide_eq_true_iff, Key.usage_eq_enter]
    rw [Stroke.lastDown_congr hgroup]
    exact ⟨fun hdown _ => hdown, fun hdown => hdown (Key.usage_eq_enter.mp husage)⟩
  · have halone (k' : Key) : decide (k'.usage = some usage) = decide (k' = k) := by
      rw [Bool.eq_iff_iff, decide_eq_true_iff, decide_eq_true_iff]
      constructor
      · intro husage'
        exact (Key.usage_injective husage' husage).resolve_right henter
      · rintro rfl
        exact husage
    rw [Stroke.lastDown_congr halone]
    refine iff_of_true hheld fun hk => absurd ?_ henter
    exact Option.some.inj (husage.symm.trans (Key.usage_eq_enter.mpr hk))

/-- Held keys keep their usages in the report exactly when no `Enter` key is held
while the last stroke on the two of them was a break. -/
theorem held_usages_reported_iff (seqs : List Sequence) (hcomplete : ∀ q ∈ seqs, q.complete = true)
    (hsix : AtMostSixHeld (seqs.flatMap Sequence.strokes)) (simulate_input : uint8_t) :
    ∃ t, ProcM.calls ps2_hid_translator_parse_next_scancode seqs.length (.initial simulate_input)
        (seqs.flatMap Sequence.codes) = some (t, []) ∧
      ((∀ k usage, Stroke.held (seqs.flatMap Sequence.strokes) k = true → k.usage = some usage →
          usage ∈ t.key_report.keycode) ↔
        ∀ k : Key, k.is_enter = true → Stroke.held (seqs.flatMap Sequence.strokes) k = true →
          Stroke.lastDown Key.is_enter (seqs.flatMap Sequence.strokes) = true) := by
  have hcalls := calls_complete seqs hcomplete (.initial simulate_input) seqs.length (Nat.le_refl _)
  rw [List.take_length, List.drop_length] at hcalls
  refine ⟨_, hcalls, ?_⟩
  have hkeys := (tracks_typed simulate_input (seqs.flatMap Sequence.strokes)).complete hsix.atMostSix
  have hreported {k : Key} {usage : uint8_t} (husage : k.usage = some usage) :
      usage ∈ (typed (.initial simulate_input) (seqs.flatMap Sequence.strokes)).key_report.keycode ↔
        usage ∈ Stroke.pressed Key.usage (seqs.flatMap Sequence.strokes) := by
    rw [← hkeys, keys, Slots.mem_used, and_iff_right]
    exact (Key.usage_eq_some husage).2.2 ▸ (Key.usage_eq_some husage).2.1
  constructor
  · intro hall k henter hheld
    have husage := Key.usage_eq_enter.mpr henter
    exact (mem_pressed_of_held husage hheld).mp ((hreported husage).mp (hall k _ hheld husage)) henter
  · intro henters k usage hheld husage
    exact (hreported husage).mpr ((mem_pressed_of_held husage hheld).mpr fun henter => henters k henter hheld)

/-- Both `Enter` keys are made, then `A`. -/
theorem enter_and_a_reported :
    ∃ t, ProcM.calls ps2_hid_translator_parse_next_scancode 3 (.initial 0) [0x5A, 0xE0, 0x5A, 0x1C] = some (t, []) ∧
      KEY_ENTER ∈ t.key_report.keycode := by
  have hsix : ∀ moment ∈ List.inits (([.make 0x5A, .extended_make 0x5A, .make 0x1C] : List Sequence).flatMap
      Sequence.strokes), (Stroke.heldKeys (fun k : Key => k.usage.isSome) moment).card ≤ 6 := by decide
  obtain ⟨t, hcalls, hreported⟩ := held_usages_reported_iff [.make 0x5A, .extended_make 0x5A, .make 0x1C] (by decide)
    (fun moment hmoment => hsix moment ((List.mem_inits _ _).mpr hmoment)) 0
  exact ⟨t, hcalls, hreported.mpr (fun _ _ _ => by decide) (.plain 0x5A) KEY_ENTER (by decide) rfl⟩

/-- The keypad's `Enter` is held while the other is pressed and released. -/
theorem enter_break_releases_both :
    ∃ t, ProcM.calls ps2_hid_translator_parse_next_scancode 3 (.initial 0) [0xE0, 0x5A, 0x5A, 0xF0, 0x5A] =
        some (t, []) ∧
      Stroke.held ([.extended_make 0x5A, .make 0x5A, .brk 0x5A].flatMap Sequence.strokes) (.extended 0x5A) = true ∧
      (Key.extended 0x5A).usage = some KEY_ENTER ∧ KEY_ENTER ∉ t.key_report.keycode :=
  ⟨_, rfl, rfl, rfl, Slots.first_eq_none.mp (by decide)⟩

end peripheral_hids.ps2_hid_translator
