import PeripheralHids.Translator.Scan

open peripheral_hids.hog

namespace peripheral_hids.ps2_hid_translator

/-- Two reports that differ in one keycode and in nothing else. -/
def DifferInOneKeycode (a b : hids_report_keyboard) : Prop :=
  a.modifier = b.modifier ∧ a.reserved = b.reserved ∧ ∃! i : Fin 6, a.keycode.get i ≠ b.keycode.get i

/-- Two reports that differ in the modifier byte, if at all. -/
def DifferInModifier (a b : hids_report_keyboard) : Prop :=
  a.reserved = b.reserved ∧ a.keycode = b.keycode

/-- What one of the four operations does: nothing, or it changes the report and
hands over the result. -/
def Publishes (R : hids_report_keyboard → hids_report_keyboard → Prop) (s t : Translator) : Prop :=
  t = s ∨ ∃ report, R s.key_report report ∧ t = { s with key_report := report }.publish

theorem differInOneKeycode_set (s : Translator) {i : Fin 6} {key : uint8_t} (hkey : s.key_report.keycode.get i ≠ key) :
    DifferInOneKeycode s.key_report (s.set_keycode i key).key_report := by
  refine ⟨rfl, rfl, i, ?_, ?_⟩
  · simpa only [Translator.set_keycode_key_report, Slots.get_set, if_true] using hkey
  · intro j hj
    simp only [Translator.set_keycode_key_report, Slots.get_set] at hj
    by_contra hji
    exact hj (if_neg hji).symm

theorem press_key_publishes (key : uint8_t) (s : Translator) :
    Publishes DifferInOneKeycode s (press_key key s) := by
  obtain ⟨-, heq⟩ | ⟨-, hnew, i, -, heq⟩ := press_key_cases key s
  · exact Or.inl heq
  · have hkey : s.key_report.keycode.get i ≠ key := fun hslot => hnew ((Slots.mem_iff _ _).mpr ⟨i, hslot⟩)
    exact Or.inr ⟨_, differInOneKeycode_set s hkey, heq⟩

theorem release_key_publishes (key : uint8_t) (s : Translator) :
    Publishes DifferInOneKeycode s (release_key key s) := by
  obtain ⟨-, heq⟩ | ⟨hknown, i, hslot, heq⟩ := release_key_cases key s
  · exact Or.inl heq
  · have hkey : s.key_report.keycode.get i ≠ 0 := fun hfree => hknown (hslot.symm.trans hfree)
    exact Or.inr ⟨_, differInOneKeycode_set s hkey, heq⟩

theorem press_mod_key_publishes (key : uint8_t) (s : Translator) :
    Publishes DifferInModifier s (press_mod_key key s) :=
  Or.inr ⟨{ s.key_report with modifier := s.key_report.modifier ||| key }, ⟨rfl, rfl⟩, rfl⟩

theorem release_mod_key_publishes (key : uint8_t) (s : Translator) :
    Publishes DifferInModifier s (release_mod_key key s) :=
  Or.inr ⟨{ s.key_report with modifier := s.key_report.modifier &&& ~~~key }, ⟨rfl, rfl⟩, rfl⟩

/-- What holds of all that was handed over and of the new report holds of all
that has been handed over then. -/
theorem Publishes.handed {R : hids_report_keyboard → hids_report_keyboard → Prop} {s t : Translator}
    (hpublishes : Publishes R s t) {P : hids_report_keyboard → Prop} (hhanded : ∀ report ∈ s.hog.handed, P report)
    (hreport : P t.key_report) : ∀ report ∈ t.hog.handed, P report := by
  obtain rfl | ⟨next, -, rfl⟩ := hpublishes
  · exact hhanded
  · intro report hmem
    rw [Translator.publish_handed, List.mem_append, List.mem_singleton] at hmem
    obtain hold | rfl := hmem
    · exact hhanded report hold
    · exact hreport

/-- The keys in a report: the non-zero entries of its array. -/
def keys (report : hids_report_keyboard) : Finset uint8_t := Slots.used KEY_UNKNOWN report.keycode

theorem keys_zero : keys .zero = ∅ := Slots.used_replicate KEY_UNKNOWN

@[simp] theorem press_mod_key_key_report (key : uint8_t) (s : Translator) :
    (press_mod_key key s).key_report =
      { s.key_report with modifier := s.key_report.modifier ||| key } := rfl

@[simp] theorem release_mod_key_key_report (key : uint8_t) (s : Translator) :
    (release_mod_key key s).key_report =
      { s.key_report with modifier := s.key_report.modifier &&& ~~~key } := rfl

@[simp] theorem press_key_modifier (key : uint8_t) (s : Translator) :
    (press_key key s).key_report.modifier = s.key_report.modifier := by
  obtain ⟨-, heq⟩ | ⟨-, -, i, -, heq⟩ := press_key_cases key s
  · rw [heq]
  · rw [heq]
    rfl

@[simp] theorem release_key_modifier (key : uint8_t) (s : Translator) :
    (release_key key s).key_report.modifier = s.key_report.modifier := by
  obtain ⟨-, heq⟩ | ⟨-, i, -, heq⟩ := release_key_cases key s
  · rw [heq]
  · rw [heq]
    rfl

@[simp] theorem press_key_reserved (key : uint8_t) (s : Translator) :
    (press_key key s).key_report.reserved = s.key_report.reserved := by
  obtain ⟨-, heq⟩ | ⟨-, -, i, -, heq⟩ := press_key_cases key s
  · rw [heq]
  · rw [heq]
    rfl

@[simp] theorem release_key_reserved (key : uint8_t) (s : Translator) :
    (release_key key s).key_report.reserved = s.key_report.reserved := by
  obtain ⟨-, heq⟩ | ⟨-, i, -, heq⟩ := release_key_cases key s
  · rw [heq]
  · rw [heq]
    rfl

theorem press_key_distinct {key : uint8_t} {s : Translator}
    (hdistinct : Slots.Distinct KEY_UNKNOWN s.key_report.keycode) :
    Slots.Distinct KEY_UNKNOWN (press_key key s).key_report.keycode := by
  obtain ⟨-, heq⟩ | ⟨-, hnew, i, -, heq⟩ := press_key_cases key s
  · rw [heq]
    exact hdistinct
  · rw [heq]
    exact hdistinct.set i (Or.inr hnew)

theorem release_key_distinct {key : uint8_t} {s : Translator}
    (hdistinct : Slots.Distinct KEY_UNKNOWN s.key_report.keycode) :
    Slots.Distinct KEY_UNKNOWN (release_key key s).key_report.keycode := by
  obtain ⟨-, heq⟩ | ⟨-, i, -, heq⟩ := release_key_cases key s
  · rw [heq]
    exact hdistinct
  · rw [heq]
    exact hdistinct.set i (Or.inl rfl)

theorem keys_press_key_subset (key : uint8_t) (s : Translator) :
    keys (press_key key s).key_report ⊆ insert key (keys s.key_report) := by
  obtain ⟨-, heq⟩ | ⟨-, -, i, -, heq⟩ := press_key_cases key s
  · rw [heq]
    exact Finset.subset_insert key _
  · rw [heq]
    exact Slots.used_set_subset KEY_UNKNOWN _ i key

/-- Unless six other keys are in the report already, a pressed key joins them. -/
theorem keys_press_key {key : uint8_t} {s : Translator}
    (hdistinct : Slots.Distinct KEY_UNKNOWN s.key_report.keycode) (hknown : key ≠ KEY_UNKNOWN)
    (hroom : (insert key (keys s.key_report)).card ≤ 6) :
    keys (press_key key s).key_report = insert key (keys s.key_report) := by
  obtain ⟨hold, heq⟩ | ⟨-, hnew, i, hslot, heq⟩ := press_key_cases key s
  · have hmem : key ∈ keys s.key_report := Slots.mem_used.mpr ⟨hknown, hold.resolve_left hknown⟩
    rw [heq, Finset.insert_eq_of_mem hmem]
  · have hnotin : key ∉ keys s.key_report := fun hmem => hnew (Slots.mem_used.mp hmem).2
    rw [Finset.card_insert_of_notMem hnotin] at hroom
    have hfree := Slots.mem_free_of_card_lt hdistinct (Nat.lt_of_succ_le hroom)
    obtain hslot | ⟨-, hfull⟩ := hslot
    · rw [heq]
      exact Slots.used_set_of_free hslot hknown
    · exact absurd hfree hfull

/-- A released key is not in the report. -/
theorem keys_release_key (key : uint8_t) {s : Translator}
    (hdistinct : Slots.Distinct KEY_UNKNOWN s.key_report.keycode) :
    keys (release_key key s).key_report = (keys s.key_report).erase key := by
  obtain ⟨habsent, heq⟩ | ⟨hknown, i, hslot, heq⟩ := release_key_cases key s
  · rw [heq, Finset.erase_eq_of_notMem]
    intro hmem
    obtain ⟨hknown, hin⟩ := Slots.mem_used.mp hmem
    exact habsent.elim hknown (fun hout => hout hin)
  · rw [heq, ← hslot]
    exact Slots.used_set_free hdistinct (hslot ▸ hknown)

def Action.is_modifier : Action → Bool
  | .press_mod_key _ | .release_mod_key _ => true
  | .ignore | .press_key _ | .release_key _ | .press_pause_break => false

theorem Action.perform_keycode {done : Action} (hmod : done.is_modifier = true) (s : Translator) :
    (done.perform s).key_report.keycode = s.key_report.keycode := by
  cases done with
  | press_mod_key key | release_mod_key key => rfl
  | ignore | press_key key | release_key key | press_pause_break => cases hmod

theorem Action.perform_modifier {done : Action} (hmod : done.is_modifier = false) (s : Translator) :
    (done.perform s).key_report.modifier = s.key_report.modifier := by
  cases done with
  | press_mod_key key | release_mod_key key => cases hmod
  | ignore => rfl
  | press_key key => exact press_key_modifier key s
  | release_key key => exact release_key_modifier key s
  | press_pause_break => exact (release_key_modifier KEY_PAUSE _).trans (press_key_modifier KEY_PAUSE s)

theorem Action.perform_reserved (done : Action) (s : Translator) :
    (done.perform s).key_report.reserved = s.key_report.reserved := by
  cases done with
  | ignore | press_mod_key key | release_mod_key key => rfl
  | press_key key => exact press_key_reserved key s
  | release_key key => exact release_key_reserved key s
  | press_pause_break => exact (release_key_reserved KEY_PAUSE _).trans (press_key_reserved KEY_PAUSE s)

theorem Action.perform_distinct (done : Action) {s : Translator}
    (hdistinct : Slots.Distinct KEY_UNKNOWN s.key_report.keycode) :
    Slots.Distinct KEY_UNKNOWN (done.perform s).key_report.keycode := by
  cases done with
  | ignore | press_mod_key key | release_mod_key key => exact hdistinct
  | press_key key => exact press_key_distinct hdistinct
  | release_key key => exact release_key_distinct hdistinct
  | press_pause_break => exact release_key_distinct (press_key_distinct hdistinct)

theorem mem_press_key {key : uint8_t} (hknown : key ≠ KEY_UNKNOWN) (s : Translator) :
    key ∈ (press_key key s).key_report.keycode := by
  obtain ⟨hold, heq⟩ | ⟨-, -, i, -, heq⟩ := press_key_cases key s
  · rw [heq]
    exact hold.resolve_left hknown
  · rw [heq]
    exact Slots.mem_set_self _ i key

theorem of_mem_press_key {key other : uint8_t} {s : Translator}
    (hmem : other ∈ (press_key key s).key_report.keycode) : other = key ∨ other ∈ s.key_report.keycode := by
  obtain ⟨-, heq⟩ | ⟨-, -, i, -, heq⟩ := press_key_cases key s
  · rw [heq] at hmem
    exact Or.inr hmem
  · rw [heq] at hmem
    by_cases hother : other = key
    · exact Or.inl hother
    · exact Or.inr (Slots.mem_of_mem_set hmem hother)

theorem of_mem_release_key {key other : uint8_t} (hknown : other ≠ KEY_UNKNOWN) {s : Translator}
    (hmem : other ∈ (release_key key s).key_report.keycode) : other ∈ s.key_report.keycode := by
  obtain ⟨-, heq⟩ | ⟨-, i, -, heq⟩ := release_key_cases key s
  · rw [heq] at hmem
    exact hmem
  · rw [heq] at hmem
    exact Slots.mem_of_mem_set hmem hknown

theorem mem_release_key {key other : uint8_t} (hother : other ≠ key) {s : Translator}
    (hmem : other ∈ s.key_report.keycode) : other ∈ (release_key key s).key_report.keycode := by
  obtain ⟨-, heq⟩ | ⟨-, i, hslot, heq⟩ := release_key_cases key s
  · rw [heq]
    exact hmem
  · rw [heq]
    exact Slots.mem_set_of_mem hmem (fun heq => hother (heq.symm.trans hslot)) 0

theorem notMem_release_key {key : uint8_t} (hknown : key ≠ KEY_UNKNOWN) {s : Translator}
    (hdistinct : Slots.Distinct KEY_UNKNOWN s.key_report.keycode) :
    key ∉ (release_key key s).key_report.keycode := by
  intro hmem
  have hkeys : key ∈ keys (release_key key s).key_report := Slots.mem_used.mpr ⟨hknown, hmem⟩
  rw [keys_release_key key hdistinct] at hkeys
  exact Finset.notMem_erase key _ hkeys

end peripheral_hids.ps2_hid_translator
