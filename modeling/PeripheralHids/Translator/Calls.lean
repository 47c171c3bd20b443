import PeripheralHids.Translator.Sequence

namespace peripheral_hids.ps2_hid_translator

/-- A call that returns read codes of the grammar and performed their action. -/
theorem reads_of_run {s t : Translator} {inp rest : List uint8_t}
    (hrun : ps2_hid_translator_parse_next_scancode.run s inp = .returned t () rest) :
    ∃ codes done, inp = codes ++ rest ∧ Reads codes done ∧ t = done.perform s := by
  rw [ps2_hid_translator_parse_next_scancode_run] at hrun
  cases hscan : scan inp with
  | wait =>
    rw [hscan] at hrun
    cases hrun
  | fault =>
    rw [hscan] at hrun
    cases hrun
  | act done later =>
    rw [hscan] at hrun
    cases hrun
    obtain ⟨codes, hinp, hreads⟩ := exists_reads_of_scan hscan
    exact ⟨codes, done, hinp, hreads, rfl⟩

theorem Matched.action_cases {action done : Action} {es codes : List uint8_t}
    (hmatched : Matched action es codes done) : done = action ∨ done = .ignore := by
  induction hmatched with
  | done => exact Or.inl rfl
  | deviate => exact Or.inr rfl
  | next code hrest ih => exact ih

theorem Reads.ne_nil {codes : List uint8_t} {done : Action} (hreads : Reads codes done) : codes ≠ [] := by
  cases hreads <;> nofun

theorem scan_match_ne_fault (action : Action) (es inp : List uint8_t) : scan_match action es inp ≠ .fault := by
  induction es generalizing inp with
  | nil => exact Scanned.noConfusion
  | cons expected es ih =>
    cases inp with
    | nil => exact Scanned.noConfusion
    | cons code inp =>
      rw [scan_match]
      split
      · exact Scanned.noConfusion
      · exact ih inp

theorem scan_key_ne_fault (action : uint8_t → Action) {code : uint8_t} (hcode : code ≠ 0xFF)
    (rest : List uint8_t) : scan_key action code rest ≠ .fault := by
  rw [scan_key_of_key (getElem?_hid_key hcode)]
  exact Scanned.noConfusion

theorem scan_extended_break_ne_fault (inp : List uint8_t) : scan_extended_break inp ≠ .fault := by
  cases inp with
  | nil => exact Scanned.noConfusion
  | cons code inp =>
    rw [scan_extended_break]
    split
    · exact scan_match_ne_fault _ _ _
    split
    · exact Scanned.noConfusion
    · exact Scanned.noConfusion

theorem scan_extended_ne_fault (inp : List uint8_t) : scan_extended inp ≠ .fault := by
  cases inp with
  | nil => exact Scanned.noConfusion
  | cons code inp =>
    rw [scan_extended]
    split
    · exact scan_extended_break_ne_fault inp
    split
    · exact scan_match_ne_fault _ _ _
    split
    · exact Scanned.noConfusion
    · exact Scanned.noConfusion

theorem scan_key_eq_fault {action : uint8_t → Action} {code : uint8_t} {rest : List uint8_t}
    (hscan : scan_key action code rest = .fault) : code = 0xFF := by
  by_contra hcode
  exact scan_key_ne_fault action hcode rest hscan

/-- A call reads beyond the table exactly when it finds `FF` first, or first
after `F0`. -/
theorem scan_eq_fault_iff (inp : List uint8_t) :
    scan inp = .fault ↔ [0xFF] <+: inp ∨ [BREAK_CODE, 0xFF] <+: inp := by
  constructor
  · intro hscan
    cases inp with
    | nil => cases hscan
    | cons code inp =>
      rw [scan] at hscan
      split at hscan
      · rw [scan_key_eq_fault hscan]
        exact Or.inl ⟨inp, rfl⟩
      split at hscan
      · exact absurd hscan (scan_extended_ne_fault inp)
      split at hscan
      · rename_i hbreak
        subst hbreak
        cases inp with
        | nil => cases hscan
        | cons next inp =>
          rw [scan_break] at hscan
          split at hscan
          · rw [scan_key_eq_fault hscan]
            exact Or.inr ⟨inp, rfl⟩
          · rw [scan_key_eq_fault hscan]
            exact Or.inr ⟨inp, rfl⟩
      split at hscan
      · exact absurd hscan (scan_match_ne_fault _ _ _)
      · rw [scan_key_eq_fault hscan]
        exact Or.inl ⟨inp, rfl⟩
  · rintro (⟨rest, rfl⟩ | ⟨rest, rfl⟩)
    · rfl
    · rfl

theorem scan_ne_fault {inp : List uint8_t} (hff : 0xFF ∉ inp) : scan inp ≠ .fault := by
  rw [Ne, scan_eq_fault_iff]
  rintro (hfirst | hbroken)
  · exact hff (hfirst.subset (List.mem_singleton_self _))
  · exact hff (hbroken.subset (by simp))

/-- Without `FF` the calls read the stream until one of them waits for more. -/
theorem exists_calls_wait {stream : List uint8_t} (hff : 0xFF ∉ stream) (s : Translator) :
    ∃ n t rest, ProcM.calls ps2_hid_translator_parse_next_scancode n s stream = some (t, rest) ∧
      ps2_hid_translator_parse_next_scancode.run t rest = .blocked t := by
  refine ProcM.exists_calls_blocked (P := fun inp => 0xFF ∉ inp) ?_ s stream hff
  intro s inp hff
  rw [ps2_hid_translator_parse_next_scancode_run]
  cases hscan : scan inp with
  | wait => exact Or.inl rfl
  | fault => exact absurd hscan (scan_ne_fault hff)
  | act done rest =>
    obtain ⟨codes, rfl, hreads⟩ := exists_reads_of_scan hscan
    refine Or.inr ⟨_, rest, rfl, ?_, fun hin => hff (List.mem_append_right codes hin)⟩
    have hpos := List.length_pos_of_ne_nil hreads.ne_nil
    rw [List.length_append]
    omega

/-- The sequences of the modifier keys. -/
def modifier_sequences : List (List uint8_t) :=
  [0x11, 0x12, 0x14, 0x59].map (fun code => [code]) ++
    [0x11, 0x12, 0x14, 0x59].map (fun code => [0xF0, code]) ++
    [0x1F, 0x11, 0x27, 0x14].map (fun code => [0xE0, code]) ++
    [0x1F, 0x11, 0x27, 0x14].map (fun code => [0xE0, 0xF0, code])

theorem mem_modifier_sequences (code : uint8_t) :
    ([code] ∈ modifier_sequences ↔ is_modifier_code code = true) ∧
    ([BREAK_CODE, code] ∈ modifier_sequences ↔ is_modifier_code code = true) ∧
    ([EXTENDED_CODE, code] ∈ modifier_sequences ↔
      is_extended_modifier (ps2_extended_code_to_hid_key code) = true) ∧
    ([EXTENDED_CODE, BREAK_CODE, code] ∈ modifier_sequences ↔
      is_extended_modifier (ps2_extended_code_to_hid_key code) = true) := by
  rw [is_extended_modifier_iff]
  refine ⟨?_, ?_, ?_, ?_⟩ <;>
    simp [modifier_sequences, is_modifier_code, EXTENDED_CODE, BREAK_CODE]

theorem Matched.not_modifier {action done : Action} {es codes : List uint8_t}
    (hmatched : Matched action es codes done) (haction : action.is_modifier = false) : done.is_modifier = false := by
  obtain rfl | rfl := hmatched.action_cases
  · exact haction
  · rfl

/-- The calls that touch the modifier byte are those that read the sequence of a
modifier. -/
theorem Reads.is_modifier {codes : List uint8_t} {done : Action} (hreads : Reads codes done) :
    done.is_modifier = true ↔ codes ∈ modifier_sequences := by
  cases hreads with
  | @press_modifier code _ hmod hkey => exact iff_of_true rfl ((mem_modifier_sequences code).1.mpr hmod)
  | @press code _ hmod hext hbreak hpause hkey =>
    rw [(mem_modifier_sequences code).1, hmod]
    rfl
  | @release_modifier code _ hmod hkey => exact iff_of_true rfl ((mem_modifier_sequences code).2.1.mpr hmod)
  | @release code _ hmod hkey =>
    rw [(mem_modifier_sequences code).2.1, hmod]
    rfl
  | @extended_press_modifier code hmod =>
    exact iff_of_true rfl ((mem_modifier_sequences code).2.2.1.mpr hmod)
  | @extended_press code hbreak hreq hmod =>
    rw [(mem_modifier_sequences code).2.2.1, hmod]
    rfl
  | @extended_release_modifier code hmod =>
    exact iff_of_true rfl ((mem_modifier_sequences code).2.2.2.mpr hmod)
  | @extended_release code hreq hmod =>
    rw [(mem_modifier_sequences code).2.2.2, hmod]
    rfl
  | sys_req_make hmatched =>
    rw [hmatched.not_modifier rfl]
    simp [modifier_sequences, EXTENDED_CODE]
  | sys_req_break hmatched =>
    rw [hmatched.not_modifier rfl]
    simp [modifier_sequences, EXTENDED_CODE, BREAK_CODE]
  | pause_break hmatched =>
    rw [hmatched.not_modifier rfl]
    simp [modifier_sequences]

end peripheral_hids.ps2_hid_translator
