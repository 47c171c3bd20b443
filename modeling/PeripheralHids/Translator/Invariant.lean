import PeripheralHids.Hog.ReportMap
import PeripheralHids.Translator.Calls

open peripheral_hids.hog

namespace peripheral_hids.ps2_hid_translator

/-- The usages of the ordinary keys. -/
def Ordinary (key : uint8_t) : Prop := ∃ k : Key, k.usage = some key

theorem table_usage_range {entry : uint8_t × uint8_t} (hentry : entry ∈ table_entries)
    (hmod : is_modifier_code entry.2 = false) :
    entry.1 = KEY_UNKNOWN ∨ 0x04 ≤ entry.1 ∧ entry.1 ≤ 0x76 ∧ entry.1 ≠ KEY_PAUSE := by
  have hall : (table_entries.all fun entry => is_modifier_code entry.2 = false →
      entry.1 = KEY_UNKNOWN ∨ 0x04 ≤ entry.1 ∧ entry.1 ≤ 0x76 ∧ entry.1 ≠ KEY_PAUSE) = true := by
    decide +kernel
  exact of_decide_eq_true (List.all_eq_true.mp hall entry hentry) hmod

theorem plain_usage_range (code : uint8_t) (hmod : is_modifier_code code = false) :
    (Key.plain code).hid_key = KEY_UNKNOWN ∨
      0x04 ≤ (Key.plain code).hid_key ∧ (Key.plain code).hid_key ≤ 0x76 ∧
        (Key.plain code).hid_key ≠ KEY_PAUSE := by
  obtain hunknown | hentry := Key.plain_hid_key_cases code
  · exact Or.inl hunknown
  · exact table_usage_range hentry hmod

theorem extended_usage_range : ∀ code, is_extended_modifier (ps2_extended_code_to_hid_key code) = false →
    ps2_extended_code_to_hid_key code = KEY_UNKNOWN ∨
      0x04 ≤ ps2_extended_code_to_hid_key code ∧ ps2_extended_code_to_hid_key code ≤ 0x76 ∧
        ps2_extended_code_to_hid_key code ≠ KEY_PAUSE := by
  decide +kernel

theorem Ordinary.range {key : uint8_t} (hordinary : Ordinary key) : 0x04 ≤ key ∧ key ≤ 0x76 := by
  obtain ⟨k, husage⟩ := hordinary
  obtain ⟨hmod, hknown, rfl⟩ := Key.usage_eq_some husage
  cases k with
  | plain code =>
    obtain ⟨hlow, hhigh, -⟩ := (plain_usage_range code hmod).resolve_left hknown
    exact ⟨hlow, hhigh⟩
  | extended code =>
    obtain ⟨hlow, hhigh, -⟩ := (extended_usage_range code hmod).resolve_left hknown
    exact ⟨hlow, hhigh⟩
  | print_screen => decide
  | pause => decide

/-- What every report that leaves the translator satisfies. -/
structure ValidReport (report : hids_report_keyboard) : Prop where
  reserved : report.reserved = 0
  distinct : Slots.Distinct KEY_UNKNOWN report.keycode
  ordinary : ∀ key ∈ keys report, Ordinary key

theorem ValidReport.press_key {s : Translator} (hvalid : ValidReport s.key_report) {key : uint8_t}
    (hkey : key = KEY_UNKNOWN ∨ Ordinary key) : ValidReport (press_key key s).key_report := by
  refine ⟨(press_key_reserved key s).trans hvalid.reserved, press_key_distinct hvalid.distinct, ?_⟩
  intro other hother
  obtain rfl | hold := Finset.mem_insert.mp (keys_press_key_subset key s hother)
  · exact hkey.resolve_left (Slots.mem_used.mp hother).1
  · exact hvalid.ordinary other hold

theorem ValidReport.release_key {s : Translator} (hvalid : ValidReport s.key_report) (key : uint8_t) :
    ValidReport (release_key key s).key_report := by
  refine ⟨(release_key_reserved key s).trans hvalid.reserved, release_key_distinct hvalid.distinct, ?_⟩
  intro other hother
  rw [keys_release_key key hvalid.distinct] at hother
  exact hvalid.ordinary other (Finset.mem_of_mem_erase hother)

theorem validReport_modifier {report : hids_report_keyboard} (hvalid : ValidReport report) (modifier : uint8_t) :
    ValidReport { report with modifier := modifier } :=
  ⟨hvalid.reserved, hvalid.distinct, hvalid.ordinary⟩

theorem hid_key_of_getElem? {code key : uint8_t}
    (hkey : ps2_scan_code_to_usb_hid_key[code.toNat]? = some key) : key = (Key.plain code).hid_key := by
  rw [Key.hid_key, List.getD_eq_getElem?_getD, hkey, Option.getD_some]

/-- A call only ever presses an ordinary key, or none. `Pause` it presses and
releases. -/
theorem Reads.press_key_ordinary {codes : List uint8_t} {key : uint8_t} (hreads : Reads codes (.press_key key)) :
    key = KEY_UNKNOWN ∨ Ordinary key ∧ key ≠ KEY_PAUSE := by
  cases hreads with
  | @press code _ hmod hext hbreak hpause hkey =>
    obtain rfl := hid_key_of_getElem? hkey
    by_cases hknown : (Key.plain code).hid_key = KEY_UNKNOWN
    · exact Or.inl hknown
    · obtain ⟨-, -, hpause⟩ := (plain_usage_range code hmod).resolve_left hknown
      exact Or.inr ⟨⟨.plain code, Key.usage_of_known hmod hknown⟩, hpause⟩
  | @extended_press code hbreak hreq hmod =>
    by_cases hknown : ps2_extended_code_to_hid_key code = KEY_UNKNOWN
    · exact Or.inl hknown
    · obtain ⟨-, -, hpause⟩ := (extended_usage_range code hmod).resolve_left hknown
      exact Or.inr ⟨⟨.extended code, Key.usage_of_known hmod hknown⟩, hpause⟩
  | sys_req_make hmatched =>
    obtain hdone | hdone := hmatched.action_cases
    · cases hdone
      exact Or.inr ⟨⟨.print_screen, rfl⟩, by decide⟩
    · cases hdone
  | sys_req_break hmatched => obtain hdone | hdone := hmatched.action_cases <;> cases hdone
  | pause_break hmatched => obtain hdone | hdone := hmatched.action_cases <;> cases hdone

/-- The translator between two calls: its own report and all it has handed over
are valid, and `Pause` is not in it. -/
structure Valid (s : Translator) : Prop where
  report : ValidReport s.key_report
  handed : ∀ report ∈ s.hog.handed, ValidReport report
  no_pause : KEY_PAUSE ∉ keys s.key_report

theorem valid_initial (simulate_input : uint8_t) : Valid (.initial simulate_input) where
  report := ⟨rfl, Slots.distinct_replicate KEY_UNKNOWN, fun key hkey => by
    rw [Translator.initial, keys_zero] at hkey
    exact absurd hkey (Finset.notMem_empty key)⟩
  handed := fun report hreport => absurd hreport List.not_mem_nil
  no_pause := by rw [Translator.initial, keys_zero]; exact Finset.notMem_empty KEY_PAUSE

/-- Every call keeps the invariant. -/
theorem Valid.perform {s : Translator} (hvalid : Valid s) {codes : List uint8_t} {done : Action}
    (hreads : Reads codes done) : Valid (done.perform s) := by
  obtain ⟨hreport, hhanded, hpause⟩ := hvalid
  cases done with
  | ignore => exact ⟨hreport, hhanded, hpause⟩
  | press_mod_key key =>
    have hnext := validReport_modifier hreport (s.key_report.modifier ||| key)
    exact ⟨hnext, (press_mod_key_publishes key s).handed hhanded hnext, hpause⟩
  | release_mod_key key =>
    have hnext := validReport_modifier hreport (s.key_report.modifier &&& ~~~key)
    exact ⟨hnext, (release_mod_key_publishes key s).handed hhanded hnext, hpause⟩
  | press_key key =>
    have hkey := hreads.press_key_ordinary
    have hnext := hreport.press_key (hkey.imp id And.left)
    refine ⟨hnext, (press_key_publishes key s).handed hhanded hnext, fun hin => ?_⟩
    obtain rfl | hold := Finset.mem_insert.mp (keys_press_key_subset key s hin)
    · obtain hunknown | ⟨-, hother⟩ := hkey
      · exact absurd hunknown (by decide)
      · exact hother rfl
    · exact hpause hold
  | release_key key =>
    have hnext := hreport.release_key key
    refine ⟨hnext, (release_key_publishes key s).handed hhanded hnext, fun hin => ?_⟩
    rw [Action.perform, keys_release_key key hreport.distinct] at hin
    exact hpause (Finset.mem_of_mem_erase hin)
  | press_pause_break =>
    have hpressed : ValidReport (press_key KEY_PAUSE s).key_report := hreport.press_key (Or.inr ⟨.pause, rfl⟩)
    have hnext := hpressed.release_key KEY_PAUSE
    have hboth := (press_key_publishes KEY_PAUSE s).handed hhanded hpressed
    refine ⟨hnext, (release_key_publishes KEY_PAUSE _).handed hboth hnext, fun hin => ?_⟩
    rw [Action.perform, keys_release_key KEY_PAUSE hpressed.distinct] at hin
    exact Finset.notMem_erase KEY_PAUSE _ hin

theorem valid_of_calls {simulate_input : uint8_t} {n : Nat} {stream rest : List uint8_t} {t : Translator}
    (hcalls : ProcM.calls ps2_hid_translator_parse_next_scancode n (.initial simulate_input) stream =
      some (t, rest)) : Valid t := by
  refine ProcM.calls_invariant (P := fun s _ => Valid s) ?_ (valid_initial simulate_input) hcalls
  intro s inp u left hvalid hrun
  obtain ⟨codes, done, -, hreads, rfl⟩ := reads_of_run hrun
  exact hvalid.perform hreads

/-- The representation invariant of the report under any stream of codes. The
parser reads all of it, and after every call each report handed over and the
report that is kept are valid: their keys are distinct ordinary usages that the
report map declares. Only a modifier's sequence touches the modifier byte, and
no other touches the array. -/
theorem report_invariant (stream : List uint8_t) (hff : 0xFF ∉ stream) (simulate_input : uint8_t) :
    (∃ n t rest, ProcM.calls ps2_hid_translator_parse_next_scancode n (.initial simulate_input) stream =
        some (t, rest) ∧ ps2_hid_translator_parse_next_scancode.run t rest = .blocked t) ∧
    ∀ n t rest, ProcM.calls ps2_hid_translator_parse_next_scancode n (.initial simulate_input) stream =
        some (t, rest) →
      (∀ report, report ∈ t.key_report :: t.hog.handed →
        report.reserved = 0 ∧ Slots.Distinct KEY_UNKNOWN report.keycode ∧
        ∀ key ∈ report.keycode, key ≠ KEY_UNKNOWN → Ordinary key ∧ 0x04 ≤ key ∧ key ≤ 0x76 ∧ Declared key ∧
          ¬ (0xE0 ≤ key ∧ key ≤ 0xE7)) ∧
      KEY_PAUSE ∉ t.key_report.keycode ∧
      ∀ u codes later, rest = codes ++ later →
        ps2_hid_translator_parse_next_scancode.run t rest = .returned u () later →
        (codes ∈ modifier_sequences → u.key_report.keycode = t.key_report.keycode) ∧
        (codes ∉ modifier_sequences → u.key_report.modifier = t.key_report.modifier) := by
  refine ⟨exists_calls_wait hff _, fun n t rest hcalls => ?_⟩
  have hvalid := valid_of_calls hcalls
  refine ⟨fun report hreport => ?_, fun hin => ?_, fun u codes later hrest hrun => ?_⟩
  · have hreport : ValidReport report := by
      obtain rfl | hhanded := List.mem_cons.mp hreport
      · exact hvalid.report
      · exact hvalid.handed report hhanded
    refine ⟨hreport.reserved, hreport.distinct, fun key hkey hknown => ?_⟩
    have hordinary := hreport.ordinary key (Slots.mem_used.mpr ⟨hknown, hkey⟩)
    obtain ⟨hlow, hhigh⟩ := hordinary.range
    refine ⟨hordinary, hlow, hhigh, declared_iff.mpr ?_, ?_⟩
    · exact BitVec.le_trans hhigh (by decide)
    · rintro ⟨husage, -⟩
      exact absurd (BitVec.le_trans husage hhigh) (by decide)
  · exact hvalid.no_pause (Slots.mem_used.mpr ⟨by decide, hin⟩)
  · obtain ⟨read, done, hread, hreads, rfl⟩ := reads_of_run hrun
    obtain rfl : codes = read := List.append_cancel_right (hrest.symm.trans hread)
    refine ⟨fun hmod => ?_, fun hmod => ?_⟩
    · exact Action.perform_keycode (hreads.is_modifier.mpr hmod) t
    · exact Action.perform_modifier (Bool.eq_false_of_not_eq_true (mt hreads.is_modifier.mp hmod)) t

/-- `A` and the beginning of `Pause`, broken off. -/
theorem report_invariant_broken_pause :
    ∃ t, ProcM.calls ps2_hid_translator_parse_next_scancode 2 (.initial 0) [0x1C, 0xE1, 0x14, 0x1C, 0x11] =
      some (t, [0x11]) ∧ KEY_PAUSE ∉ t.key_report.keycode :=
  ⟨_, rfl, ((report_invariant [0x1C, 0xE1, 0x14, 0x1C, 0x11] (by decide) 0).2 2 _ _ rfl).2.1⟩

end peripheral_hids.ps2_hid_translator
