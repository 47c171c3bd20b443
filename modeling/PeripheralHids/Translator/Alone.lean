import PeripheralHids.Lib.Solo
import PeripheralHids.Translator.Scan

open peripheral_hids.hog

namespace peripheral_hids.ps2_hid_translator

/-- A translator among other writers and the same translator by itself: they have
the same report, and all that the one by itself has handed over has been handed
over, in the same order. -/
structure Shadows (s r : Translator) : Prop where
  key_report : s.key_report = r.key_report
  handed : r.hog.handed.Sublist s.hog.handed

/-- An action that looks at the report only: with the same report it does the same,
nothing or to publish another one. -/
def ByReport (f : Translator → Translator) : Prop :=
  ∀ s r, s.key_report = r.key_report → f s = s ∧ f r = r ∨
    ∃ report, f s = { s with key_report := report }.publish ∧ f r = { r with key_report := report }.publish

theorem ByReport.shadows {f : Translator → Translator} (hf : ByReport f) (s r : Translator) (hsr : Shadows s r) :
    Shadows (f s) (f r) := by
  obtain ⟨hs, hr⟩ | ⟨report, hs, hr⟩ := hf s r hsr.key_report
  · rw [hs, hr]
    exact hsr
  · rw [hs, hr]
    refine ⟨rfl, ?_⟩
    rw [Translator.publish_handed, Translator.publish_handed]
    exact hsr.handed.append_right _

theorem press_mod_key_byReport (key : uint8_t) : ByReport (press_mod_key key) := by
  intro s r hsr
  refine Or.inr ⟨{ r.key_report with modifier := r.key_report.modifier ||| key }, ?_, rfl⟩
  rw [press_mod_key, hsr]

theorem release_mod_key_byReport (key : uint8_t) : ByReport (release_mod_key key) := by
  intro s r hsr
  refine Or.inr ⟨{ r.key_report with modifier := r.key_report.modifier &&& ~~~key }, ?_, rfl⟩
  rw [release_mod_key, hsr]

theorem set_keycode_of_report {s r : Translator} (hsr : s.key_report = r.key_report) (i : Fin 6) (key : uint8_t) :
    s.set_keycode i key = { s with key_report := (r.set_keycode i key).key_report } := by
  rw [Translator.set_keycode, Translator.set_keycode_key_report, hsr]

theorem press_key_byReport (key : uint8_t) : ByReport (press_key key) := by
  intro s r hsr
  have hset (i : Fin 6) : ∃ report, (s.set_keycode i key).publish = { s with key_report := report }.publish ∧
      (r.set_keycode i key).publish = { r with key_report := report }.publish :=
    ⟨_, congrArg Translator.publish (set_keycode_of_report hsr i key), rfl⟩
  unfold press_key pos_at_pressed_keys
  rw [hsr]
  by_cases hunknown : key = KEY_UNKNOWN
  · rw [if_pos hunknown, if_pos hunknown]
    exact Or.inl ⟨rfl, rfl⟩
  rw [if_neg hunknown, if_neg hunknown]
  cases Slots.first r.key_report.keycode key with
  | some pos => exact Or.inl ⟨rfl, rfl⟩
  | none =>
    cases Slots.last r.key_report.keycode 0 with
    | some i => exact Or.inr (hset i)
    | none => exact Or.inr (hset 5)

theorem release_key_byReport (key : uint8_t) : ByReport (release_key key) := by
  intro s r hsr
  unfold release_key pos_at_pressed_keys
  rw [hsr]
  by_cases hunknown : key = KEY_UNKNOWN
  · rw [if_pos hunknown, if_pos hunknown]
    exact Or.inl ⟨rfl, rfl⟩
  rw [if_neg hunknown, if_neg hunknown]
  cases Slots.first r.key_report.keycode key with
  | none => exact Or.inl ⟨rfl, rfl⟩
  | some pos => exact Or.inr ⟨_, congrArg Translator.publish (set_keycode_of_report hsr pos 0), rfl⟩

/-- A part of the parser that does the same in both. -/
def Shadowed {α : Type} (m : TranslatorM α) : Prop := m.Follows Shadows m

theorem shadowed_modify {f : Translator → Translator} (hf : ByReport f) : Shadowed (ProcM.modify f) :=
  ProcM.follows_modify hf.shadows

theorem shadowed_match_codes (codes : List uint8_t) : Shadowed (match_codes codes) := by
  induction codes with
  | nil => exact ProcM.follows_pure true
  | cons expected codes ih =>
    refine ProcM.follows_next.bind fun code => ?_
    split
    · exact ProcM.follows_pure false
    · exact ih

theorem shadowed_matched (codes : List uint8_t) {m : TranslatorM Unit} (hm : Shadowed m) :
    Shadowed (do if ← match_codes codes then m) := by
  refine (shadowed_match_codes codes).bind fun matched => ?_
  split
  · exact hm
  · exact ProcM.follows_pure ()

theorem shadowed_press_pause_break : Shadowed press_pause_break := by
  refine (shadowed_modify (press_key_byReport KEY_PAUSE)).bind fun _ => ?_
  refine ProcM.follows_sleep.bind fun _ => ?_
  exact shadowed_modify (release_key_byReport KEY_PAUSE)

/-- What the parser does depends on the codes and on the report only. -/
theorem shadowed_parse_next_scancode : Shadowed ps2_hid_translator_parse_next_scancode := by
  refine ProcM.follows_next.bind fun code => ?_
  split
  · exact (ProcM.follows_checked _).bind fun key => shadowed_modify (press_mod_key_byReport key)
  split
  · refine ProcM.follows_next.bind fun code => ?_
    split
    · refine ProcM.follows_next.bind fun code => ?_
      split
      · exact shadowed_matched _ (shadowed_modify (release_key_byReport KEY_SYSRQ))
      dsimp only
      split
      · exact shadowed_modify (release_mod_key_byReport _)
      · exact shadowed_modify (release_key_byReport _)
    split
    · exact shadowed_matched _ (shadowed_modify (press_key_byReport KEY_SYSRQ))
    dsimp only
    split
    · exact shadowed_modify (press_mod_key_byReport _)
    · exact shadowed_modify (press_key_byReport _)
  split
  · refine ProcM.follows_next.bind fun code => (ProcM.follows_checked _).bind fun key => ?_
    split
    · exact shadowed_modify (release_mod_key_byReport key)
    · exact shadowed_modify (release_key_byReport key)
  split
  · exact shadowed_matched _ shadowed_press_pause_break
  · exact (ProcM.follows_checked _).bind fun key => shadowed_modify (press_key_byReport key)

/-- The one sleep of a call, that of `press_pause_break`: the key is pressed, and
will be released. -/
def Nap (s t : Translator) (k : Translator → Proc uint8_t Translator Unit) : Prop :=
  t = press_key KEY_PAUSE s ∧ ∀ u, k u = .ret (release_key KEY_PAUSE u) ()

/-- A part of the parser that reads all its codes before it acts. -/
def ActsLast (m : TranslatorM Unit) : Prop := ∀ s, (m s).ReadsFirst s (Nap s)

theorem actsLast_modify (f : Translator → Translator) : ActsLast (ProcM.modify f) := fun _ => trivial

theorem actsLast_next {m : uint8_t → TranslatorM Unit} (hm : ∀ code, ActsLast (m code)) :
    ActsLast (ProcM.next >>= m) :=
  fun s => ⟨rfl, fun code => hm code s⟩

theorem actsLast_checked (access : Option uint8_t) {m : uint8_t → TranslatorM Unit} (hm : ∀ key, ActsLast (m key)) :
    ActsLast (ProcM.checked access >>= m) := by
  cases access with
  | none => exact fun _ => trivial
  | some key => exact hm key

theorem match_codes_readsOnly (codes : List uint8_t) (s : Translator) : (match_codes codes s).ReadsOnly s := by
  induction codes with
  | nil => exact rfl
  | cons expected codes ih =>
    refine ⟨rfl, fun code => ?_⟩
    change ((if expected ≠ code then pure false else match_codes codes : TranslatorM Bool) s).ReadsOnly s
    split
    · exact rfl
    · exact ih

theorem actsLast_matched (codes : List uint8_t) {m : TranslatorM Unit} (hm : ActsLast m) :
    ActsLast (do if ← match_codes codes then m) := by
  refine fun s => (match_codes_readsOnly codes s).bind_readsFirst fun matched => ?_
  cases matched with
  | false => trivial
  | true => exact hm s

theorem actsLast_press_pause_break : ActsLast press_pause_break :=
  fun _ => ⟨⟨rfl, fun _ => rfl⟩, fun _ => ⟨_, _, rfl⟩⟩

theorem actsLast_parse_next_scancode : ActsLast ps2_hid_translator_parse_next_scancode := by
  refine actsLast_next fun code => ?_
  split
  · exact actsLast_checked _ fun key => actsLast_modify _
  split
  · refine actsLast_next fun code => ?_
    split
    · refine actsLast_next fun code => ?_
      split
      · exact actsLast_matched _ (actsLast_modify _)
      dsimp only
      split
      · exact actsLast_modify _
      · exact actsLast_modify _
    split
    · exact actsLast_matched _ (actsLast_modify _)
    dsimp only
    split
    · exact actsLast_modify _
    · exact actsLast_modify _
  split
  · refine actsLast_next fun code => actsLast_checked _ fun key => ?_
    split
    · exact actsLast_modify _
    · exact actsLast_modify _
  split
  · exact actsLast_matched _ actsLast_press_pause_break
  · exact actsLast_checked _ fun key => actsLast_modify _

/-- A call that waits for more has left the state as it found it. -/
theorem scan_of_run_blocked {s t : Translator} {inp : List uint8_t}
    (hrun : ps2_hid_translator_parse_next_scancode.run s inp = .blocked t) : scan inp = .wait ∧ s = t := by
  rw [ps2_hid_translator_parse_next_scancode_run] at hrun
  cases hscan : scan inp with
  | wait =>
    rw [hscan] at hrun
    cases hrun
    exact ⟨rfl, rfl⟩
  | fault | act done rest =>
    rw [hscan] at hrun
    cases hrun

theorem scan_of_run_faulted {s : Translator} {inp : List uint8_t}
    (hrun : ps2_hid_translator_parse_next_scancode.run s inp = .faulted) : scan inp = .fault := by
  rw [ps2_hid_translator_parse_next_scancode_run] at hrun
  cases hscan : scan inp with
  | fault => rfl
  | wait | act done rest =>
    rw [hscan] at hrun
    cases hrun

end peripheral_hids.ps2_hid_translator
