import PeripheralHids.Translator.Calls

open peripheral_hids.hog

namespace peripheral_hids.ps2_hid_translator

theorem Matched.length_le {action done : Action} {es codes : List uint8_t}
    (hmatched : Matched action es codes done) : codes.length ≤ es.length := by
  induction hmatched with
  | done => exact Nat.le_refl 0
  | deviate expected es hcode => simp
  | next code hrest ih => simpa using ih

theorem Matched.eq_of_ne_ignore {action done : Action} {es codes : List uint8_t}
    (hmatched : Matched action es codes done) (hdone : done ≠ .ignore) : codes = es ∧ done = action := by
  induction hmatched with
  | done => exact ⟨rfl, rfl⟩
  | deviate => exact absurd rfl hdone
  | next code hrest ih =>
    obtain ⟨hcodes, hsame⟩ := ih hdone
    exact ⟨congrArg (code :: ·) hcodes, hsame⟩

/-- One call reads at most the eight codes of `Pause`. -/
theorem Reads.length_le {codes : List uint8_t} {done : Action} (hreads : Reads codes done) :
    codes.length ≤ 8 := by
  cases hreads with
  | sys_req_make hmatched => exact (Nat.add_le_add_right hmatched.length_le 2).trans (by decide)
  | sys_req_break hmatched => exact (Nat.add_le_add_right hmatched.length_le 3).trans (by decide)
  | pause_break hmatched => exact (Nat.add_le_add_right hmatched.length_le 1).trans (by decide)
  | _ => simp

/-- What a call has read so far decides nothing while it waits for more: a
stream that ends inside a sequence leaves the call waiting. -/
theorem scan_of_truncated {codes part : List uint8_t} {done : Action} (hreads : Reads codes done)
    (hpart : part <+: codes) (hne : part ≠ codes) : scan part = .wait := by
  obtain ⟨more, rfl⟩ := hpart
  have hall := scan_of_reads hreads []
  rw [List.append_nil] at hall
  cases hscan : scan part with
  | wait => rfl
  | fault =>
    have hfault : scan (part ++ more) = .fault := by
      rw [scan_eq_fault_iff] at hscan ⊢
      exact hscan.imp (·.trans (List.prefix_append _ _)) (·.trans (List.prefix_append _ _))
    rw [hall] at hfault
    cases hfault
  | act early rest =>
    obtain ⟨read, rfl, hearly⟩ := exists_reads_of_scan hscan
    rw [List.append_assoc, scan_of_reads hearly] at hall
    injection hall with _ hleft
    have hmore : more = [] := (List.append_eq_nil_iff.mp hleft).2
    rw [hmore, List.append_nil] at hne
    exact absurd rfl hne

/-- The codes of a match that goes wrong after `n` codes, at least `least`. -/
def Deviates (expected : List uint8_t) (least : Nat) (codes : List uint8_t) : Prop :=
  ∃ n code next, least ≤ n ∧ expected[n]? = some next ∧ next ≠ code ∧ codes = expected.take n ++ [code]

/-- The matches that may go wrong, each from the code on that commits to it. -/
def DeviatingMatch (codes : List uint8_t) : Prop :=
  Deviates sys_req_make 2 codes ∨ Deviates sys_req_break 3 codes ∨ Deviates pause_break_code 1 codes

theorem matched_of_deviates (action : Action) {es codes : List uint8_t} (hdeviates : Deviates es 0 codes) :
    Matched action es codes .ignore := by
  obtain ⟨n, code, next, -, hnext, hcode, rfl⟩ := hdeviates
  induction es generalizing n with
  | nil => cases hnext
  | cons expected es ih =>
    cases n with
    | zero =>
      obtain rfl : expected = next := Option.some.inj hnext
      exact .deviate expected es hcode
    | succ n => exact .next expected (ih n hnext)

/-- A match that goes wrong past its first codes goes wrong in the rest. -/
theorem Deviates.exists_drop {es codes : List uint8_t} {least : Nat} (hdeviates : Deviates es least codes) :
    ∃ rest, codes = es.take least ++ rest ∧ Deviates (es.drop least) 0 rest := by
  obtain ⟨n, code, next, hle, hnext, hcode, rfl⟩ := hdeviates
  obtain ⟨k, rfl⟩ := Nat.exists_eq_add_of_le hle
  refine ⟨(es.drop least).take k ++ [code], ?_, k, code, next, Nat.zero_le k, ?_, hcode, rfl⟩
  · rw [List.take_add, List.append_assoc]
  · rw [List.getElem?_drop]
    exact hnext

theorem reads_of_deviatingMatch {codes : List uint8_t} (hdeviates : DeviatingMatch codes) :
    Reads codes .ignore := by
  obtain hmake | hbreak | hpause := hdeviates
  · obtain ⟨rest, rfl, hrest⟩ := hmake.exists_drop
    exact .sys_req_make (matched_of_deviates _ hrest)
  · obtain ⟨rest, rfl, hrest⟩ := hbreak.exists_drop
    exact .sys_req_break (matched_of_deviates _ hrest)
  · obtain ⟨rest, rfl, hrest⟩ := hpause.exists_drop
    exact .pause_break (matched_of_deviates _ hrest)

/-- The keys that an action gives to `press_key` or `release_key`. -/
def Action.operands : Action → List uint8_t
  | .press_key key | .release_key key => [key]
  | .press_pause_break => [KEY_PAUSE]
  | .ignore | .press_mod_key _ | .release_mod_key _ => []

theorem notMem_table : KEY_SYSRQ ∉ ps2_scan_code_to_usb_hid_key ∧ KEY_PAUSE ∉ ps2_scan_code_to_usb_hid_key := by
  decide +kernel

theorem extended_ne : ∀ code, ps2_extended_code_to_hid_key code ≠ KEY_SYSRQ ∧
    ps2_extended_code_to_hid_key code ≠ KEY_PAUSE := by
  decide +kernel

/-- `KEY_SYSRQ` is pressed and released only by the sequences of `PrtScr`, and
`KEY_PAUSE` is only touched by that of `Pause`: neither is in one of the maps. -/
theorem Reads.operands {codes : List uint8_t} {done : Action} (hreads : Reads codes done) :
    (KEY_SYSRQ ∈ done.operands →
      codes = ps2_hid_translator.sys_req_make ∧ done = .press_key KEY_SYSRQ ∨
        codes = ps2_hid_translator.sys_req_break ∧ done = .release_key KEY_SYSRQ) ∧
    (KEY_PAUSE ∈ done.operands → codes = pause_break_code ∧ done = .press_pause_break) := by
  have htable {code key : uint8_t} (hkey : ps2_scan_code_to_usb_hid_key[code.toNat]? = some key) :
      key ≠ KEY_SYSRQ ∧ key ≠ KEY_PAUSE :=
    ⟨fun heq => notMem_table.1 (heq ▸ List.mem_of_getElem? hkey),
      fun heq => notMem_table.2 (heq ▸ List.mem_of_getElem? hkey)⟩
  have hother {key : uint8_t} (hkey : key ≠ KEY_SYSRQ ∧ key ≠ KEY_PAUSE) :
      KEY_SYSRQ ∉ [key] ∧ KEY_PAUSE ∉ [key] :=
    ⟨fun hmem => hkey.1 (List.mem_singleton.mp hmem).symm, fun hmem => hkey.2 (List.mem_singleton.mp hmem).symm⟩
  cases hreads with
  | press_modifier | release_modifier | extended_press_modifier | extended_release_modifier =>
    exact ⟨nofun, nofun⟩
  | press hmod hext hbreak hpause hkey | release hmod hkey =>
    exact ⟨fun hmem => absurd hmem (hother (htable hkey)).1, fun hmem => absurd hmem (hother (htable hkey)).2⟩
  | extended_press | extended_release =>
    exact ⟨fun hmem => absurd hmem (hother (extended_ne _)).1, fun hmem => absurd hmem (hother (extended_ne _)).2⟩
  | sys_req_make hmatched =>
    by_cases hdone : done = .ignore
    · subst hdone
      exact ⟨nofun, nofun⟩
    · obtain ⟨rfl, rfl⟩ := hmatched.eq_of_ne_ignore hdone
      exact ⟨fun _ => Or.inl ⟨rfl, rfl⟩, fun hmem => absurd hmem (by decide)⟩
  | sys_req_break hmatched =>
    by_cases hdone : done = .ignore
    · subst hdone
      exact ⟨nofun, nofun⟩
    · obtain ⟨rfl, rfl⟩ := hmatched.eq_of_ne_ignore hdone
      exact ⟨fun _ => Or.inr ⟨rfl, rfl⟩, fun hmem => absurd hmem (by decide)⟩
  | pause_break hmatched =>
    by_cases hdone : done = .ignore
    · subst hdone
      exact ⟨nofun, nofun⟩
    · obtain ⟨rfl, rfl⟩ := hmatched.eq_of_ne_ignore hdone
      exact ⟨fun hmem => absurd hmem (by decide), fun _ => ⟨rfl, rfl⟩⟩

/-- A seventh key: no slot is free, and the first report handed over has a new
key in place of the one in the last slot. -/
def SeventhKey (s t : Translator) : Prop :=
  KEY_UNKNOWN ∉ s.key_report.keycode ∧ ∃ key more, key ∉ s.key_report.keycode ∧
    t.hog.handed = s.hog.handed ++ (s.set_keycode (Fin.last 5) key).key_report :: more

theorem press_key_keeps (key : uint8_t) {other : uint8_t} (hknown : other ≠ KEY_UNKNOWN) {s : Translator}
    (hmem : other ∈ s.key_report.keycode) :
    other ∈ (press_key key s).key_report.keycode ∨ SeventhKey s (press_key key s) := by
  obtain ⟨-, heq⟩ | ⟨-, hnew, i, hfree | ⟨rfl, hfull⟩, heq⟩ := press_key_cases key s
  · rw [heq]
    exact Or.inl hmem
  · rw [heq]
    exact Or.inl (Slots.mem_set_of_mem hmem (fun hslot => hknown (hslot.symm.trans hfree)) key)
  · rw [heq]
    exact Or.inr ⟨hfull, key, [], hnew, by simp⟩

theorem SeventhKey.release_key {s t : Translator} (hseventh : SeventhKey s t) (key : uint8_t) :
    SeventhKey s (release_key key t) := by
  obtain ⟨hfull, new, more, hnew, hhanded⟩ := hseventh
  obtain heq | ⟨report, -, heq⟩ := release_key_publishes key t
  · rw [heq]
    exact ⟨hfull, new, more, hnew, hhanded⟩
  · rw [heq]
    refine ⟨hfull, new, more ++ [report], hnew, ?_⟩
    rw [Translator.publish_handed, hhanded, List.append_assoc, List.cons_append]

/-- A key enters the report by an action that presses it. -/
theorem Action.operands_of_enters {done : Action} {key : uint8_t} (hknown : key ≠ KEY_UNKNOWN) {s : Translator}
    (habsent : key ∉ s.key_report.keycode) (hmem : key ∈ (done.perform s).key_report.keycode) :
    key ∈ done.operands ∧ ∀ other, done ≠ .release_key other := by
  cases done with
  | ignore | press_mod_key other | release_mod_key other => exact absurd hmem habsent
  | press_key other =>
    have hkey := (of_mem_press_key hmem).resolve_right habsent
    exact ⟨List.mem_singleton.mpr hkey, nofun⟩
  | release_key other => exact absurd (of_mem_release_key hknown hmem) habsent
  | press_pause_break =>
    have hkey := (of_mem_press_key (of_mem_release_key hknown hmem)).resolve_right habsent
    exact ⟨List.mem_singleton.mpr hkey, nofun⟩

/-- A key leaves the report by an action that releases it, or for a seventh key. -/
theorem Action.operands_of_leaves {done : Action} {key : uint8_t} (hknown : key ≠ KEY_UNKNOWN) {s : Translator}
    (hmem : key ∈ s.key_report.keycode) (habsent : key ∉ (done.perform s).key_report.keycode) :
    (key ∈ done.operands ∧ ∀ other, done ≠ .press_key other) ∨ SeventhKey s (done.perform s) := by
  cases done with
  | ignore | press_mod_key other | release_mod_key other => exact absurd hmem habsent
  | press_key other => exact Or.inr ((press_key_keeps other hknown hmem).resolve_left habsent)
  | release_key other =>
    by_cases hkey : key = other
    · exact Or.inl ⟨List.mem_singleton.mpr hkey, nofun⟩
    · exact absurd (mem_release_key hkey hmem) habsent
  | press_pause_break =>
    by_cases hkey : key = KEY_PAUSE
    · exact Or.inl ⟨List.mem_singleton.mpr hkey, nofun⟩
    · obtain hpressed | hseventh := press_key_keeps KEY_PAUSE hknown hmem
      · exact absurd (mem_release_key hkey hpressed) habsent
      · exact Or.inr (hseventh.release_key KEY_PAUSE)

/-- What one call does on the codes it reads, from `s` to `t`: it reads at most
eight codes, does nothing before the last of them, and touches `KEY_SYSRQ` and
`KEY_PAUSE` only on their own sequences. -/
structure Atomic (s : Translator) (codes : List uint8_t) (t : Translator) : Prop where
  length : 1 ≤ codes.length ∧ codes.length ≤ 8
  truncated : ∀ part, part <+: codes → part ≠ codes →
    ps2_hid_translator_parse_next_scancode.run s part = .blocked s
  sysrq_enters : KEY_SYSRQ ∉ s.key_report.keycode → KEY_SYSRQ ∈ t.key_report.keycode → codes = sys_req_make
  sysrq_leaves : KEY_SYSRQ ∈ s.key_report.keycode → KEY_SYSRQ ∉ t.key_report.keycode →
    codes = sys_req_break ∨ SeventhKey s t
  pause : ∃ done, Reads codes done ∧ t = done.perform s ∧ (KEY_PAUSE ∈ done.operands → codes = pause_break_code)

theorem Reads.atomic {codes : List uint8_t} {done : Action} (hreads : Reads codes done) (s : Translator) :
    Atomic s codes (done.perform s) where
  length := ⟨List.length_pos_of_ne_nil hreads.ne_nil, hreads.length_le⟩
  truncated := fun part hpart hne => by
    rw [ps2_hid_translator_parse_next_scancode_run, scan_of_truncated hreads hpart hne]
    rfl
  sysrq_enters := fun habsent hmem => by
    obtain ⟨hoperand, hpress⟩ := Action.operands_of_enters (by decide) habsent hmem
    obtain ⟨hcodes, -⟩ | ⟨-, hrelease⟩ := hreads.operands.1 hoperand
    · exact hcodes
    · exact absurd hrelease (hpress KEY_SYSRQ)
  sysrq_leaves := fun hmem habsent => by
    obtain ⟨hoperand, hrelease⟩ | hseventh := Action.operands_of_leaves (by decide) hmem habsent
    · obtain ⟨-, hpress⟩ | ⟨hcodes, -⟩ := hreads.operands.1 hoperand
      · exact absurd hpress (hrelease KEY_SYSRQ)
      · exact Or.inl hcodes
    · exact Or.inr hseventh
  pause := ⟨done, hreads, rfl, fun hoperand => (hreads.operands.2 hoperand).1⟩

/-- Parsing is atomic per sequence: on a stream without `FF` a call waits with
nothing done or reads its codes and returns, as `Atomic` says; and a match that
goes wrong returns with nothing done. -/
theorem parse_atomic (stream : List uint8_t) (hff : 0xFF ∉ stream) (s : Translator) :
    (ps2_hid_translator_parse_next_scancode.run s stream = .blocked s ∨
      ∃ codes rest t, stream = codes ++ rest ∧
        ps2_hid_translator_parse_next_scancode.run s stream = .returned t () rest ∧ Atomic s codes t) ∧
    ∀ codes rest, DeviatingMatch codes →
      ps2_hid_translator_parse_next_scancode.run s (codes ++ rest) = .returned s () rest := by
  constructor
  · rw [ps2_hid_translator_parse_next_scancode_run]
    cases hscan : scan stream with
    | wait => exact Or.inl rfl
    | fault => exact absurd hscan (scan_ne_fault hff)
    | act done rest =>
      obtain ⟨codes, hstream, hreads⟩ := exists_reads_of_scan hscan
      exact Or.inr ⟨codes, rest, done.perform s, hstream, rfl, hreads.atomic s⟩
  · intro codes rest hdeviates
    rw [ps2_hid_translator_parse_next_scancode_run, scan_of_reads (reads_of_deviatingMatch hdeviates)]
    rfl

/-- `Pause` that breaks off at its third code, before an `A`. -/
theorem parse_atomic_broken_pause :
    0xFF ∉ ([0xE1, 0x14, 0x12, 0x1C] : List uint8_t) ∧
      ps2_hid_translator_parse_next_scancode.run (.initial 0) [0xE1, 0x14, 0x12, 0x1C] =
        .returned (.initial 0) () [0x1C] := by
  refine ⟨by decide, (parse_atomic [0xE1, 0x14, 0x12, 0x1C] (by decide) (.initial 0)).2 [0xE1, 0x14, 0x12] [0x1C] ?_⟩
  exact Or.inr (Or.inr ⟨2, 0x12, 0x77, by decide, rfl, by decide, rfl⟩)

end peripheral_hids.ps2_hid_translator
