import PeripheralHids.Translator.Scan

namespace peripheral_hids.ps2_hid_translator

/-- The codes that a call reads when it has to match `expected`, and what it does
then: all of them and the action, or up to the first other code and nothing. -/
inductive Matched (action : Action) : (expected codes : List uint8_t) → Action → Prop where
  | done : Matched action [] [] action
  | deviate (expected : uint8_t) (es : List uint8_t) {code : uint8_t} (hcode : expected ≠ code) :
      Matched action (expected :: es) [code] .ignore
  | next (code : uint8_t) {es codes : List uint8_t} {done : Action} (hrest : Matched action es codes done) :
      Matched action (code :: es) (code :: codes) done

theorem Matched.all (action : Action) (es : List uint8_t) : Matched action es es action := by
  induction es with
  | nil => exact .done
  | cons code es ih => exact .next code ih

theorem scan_match_of_matched {action done : Action} {es codes : List uint8_t}
    (hmatched : Matched action es codes done) (rest : List uint8_t) :
    scan_match action es (codes ++ rest) = .act done rest := by
  induction hmatched with
  | done => rfl
  | deviate expected es hcode => exact if_pos hcode
  | next code hrest ih => exact (if_neg (not_not_intro rfl)).trans ih

theorem exists_matched_of_scan_match {action done : Action} {es inp rest : List uint8_t}
    (hscan : scan_match action es inp = .act done rest) :
    ∃ codes, inp = codes ++ rest ∧ Matched action es codes done := by
  induction es generalizing inp with
  | nil =>
    obtain ⟨rfl, rfl⟩ : action = done ∧ inp = rest := by simpa [scan_match] using hscan
    exact ⟨[], rfl, .done⟩
  | cons expected es ih =>
    cases inp with
    | nil => cases hscan
    | cons code inp =>
      rw [scan_match] at hscan
      by_cases hcode : expected = code
      · rw [if_neg (not_not_intro hcode)] at hscan
        obtain ⟨codes, rfl, hmatched⟩ := ih hscan
        exact ⟨code :: codes, rfl, hcode ▸ .next expected hmatched⟩
      · rw [if_pos hcode] at hscan
        cases hscan
        exact ⟨[code], rfl, .deviate expected es hcode⟩

/-- The codes that one returning call reads and the action it then performs. -/
inductive Reads : List uint8_t → Action → Prop where
  | press_modifier {code key : uint8_t} (hmod : is_modifier_code code = true)
      (hkey : ps2_scan_code_to_usb_hid_key[code.toNat]? = some key) : Reads [code] (.press_mod_key key)
  | press {code key : uint8_t} (hmod : is_modifier_code code = false) (hext : code ≠ EXTENDED_CODE)
      (hbreak : code ≠ BREAK_CODE) (hpause : code ≠ 0xE1)
      (hkey : ps2_scan_code_to_usb_hid_key[code.toNat]? = some key) : Reads [code] (.press_key key)
  | release_modifier {code key : uint8_t} (hmod : is_modifier_code code = true)
      (hkey : ps2_scan_code_to_usb_hid_key[code.toNat]? = some key) :
      Reads [BREAK_CODE, code] (.release_mod_key key)
  | release {code key : uint8_t} (hmod : is_modifier_code code = false)
      (hkey : ps2_scan_code_to_usb_hid_key[code.toNat]? = some key) :
      Reads [BREAK_CODE, code] (.release_key key)
  | extended_press_modifier {code : uint8_t}
      (hmod : is_extended_modifier (ps2_extended_code_to_hid_key code) = true) :
      Reads [EXTENDED_CODE, code] (.press_mod_key (ps2_extended_code_to_hid_key code))
  | extended_press {code : uint8_t} (hbreak : code ≠ BREAK_CODE) (hreq : code ≠ 0x12)
      (hmod : is_extended_modifier (ps2_extended_code_to_hid_key code) = false) :
      Reads [EXTENDED_CODE, code] (.press_key (ps2_extended_code_to_hid_key code))
  | extended_release_modifier {code : uint8_t}
      (hmod : is_extended_modifier (ps2_extended_code_to_hid_key code) = true) :
      Reads [EXTENDED_CODE, BREAK_CODE, code] (.release_mod_key (ps2_extended_code_to_hid_key code))
  | extended_release {code : uint8_t} (hreq : code ≠ 0x7C)
      (hmod : is_extended_modifier (ps2_extended_code_to_hid_key code) = false) :
      Reads [EXTENDED_CODE, BREAK_CODE, code] (.release_key (ps2_extended_code_to_hid_key code))
  | sys_req_make {codes : List uint8_t} {done : Action}
      (hmatched : Matched (.press_key KEY_SYSRQ) (sys_req_make.drop 2) codes done) :
      Reads (EXTENDED_CODE :: 0x12 :: codes) done
  | sys_req_break {codes : List uint8_t} {done : Action}
      (hmatched : Matched (.release_key KEY_SYSRQ) (sys_req_break.drop 3) codes done) :
      Reads (EXTENDED_CODE :: BREAK_CODE :: 0x7C :: codes) done
  | pause_break {codes : List uint8_t} {done : Action}
      (hmatched : Matched .press_pause_break (pause_break_code.drop 1) codes done) :
      Reads (0xE1 :: codes) done

theorem scan_key_of_key {action : uint8_t → Action} {code key : uint8_t}
    (hkey : ps2_scan_code_to_usb_hid_key[code.toNat]? = some key) (rest : List uint8_t) :
    scan_key action code rest = .act (action key) rest := by
  rw [scan_key, hkey]

theorem exists_key_of_scan_key {action : uint8_t → Action} {code : uint8_t} {inp rest : List uint8_t}
    {done : Action} (hscan : scan_key action code inp = .act done rest) :
    ∃ key, ps2_scan_code_to_usb_hid_key[code.toNat]? = some key ∧ done = action key ∧ inp = rest := by
  unfold scan_key at hscan
  cases hkey : ps2_scan_code_to_usb_hid_key[code.toNat]? with
  | none =>
    rw [hkey] at hscan
    cases hscan
  | some key =>
    rw [hkey] at hscan
    cases hscan
    exact ⟨key, rfl, rfl, rfl⟩

theorem is_extended_modifier_iff : ∀ code, is_extended_modifier (ps2_extended_code_to_hid_key code) = true ↔
    code ∈ [0x1F, 0x11, 0x27, 0x14] := by
  decide +kernel

theorem ne_of_is_extended_modifier {code : uint8_t}
    (hmod : is_extended_modifier (ps2_extended_code_to_hid_key code) = true) :
    code ≠ BREAK_CODE ∧ code ≠ 0x12 ∧ code ≠ 0x7C := by
  refine ⟨?_, ?_, ?_⟩ <;> rintro rfl <;> exact absurd hmod (by decide)

theorem sys_req_make_second : sys_req_make.get ⟨1, one_lt_sys_req_make⟩ = 0x12 := rfl

theorem sys_req_break_third : sys_req_break.get ⟨2, two_lt_sys_req_break⟩ = 0x7C := rfl

theorem scan_extended_code (rest : List uint8_t) : scan (EXTENDED_CODE :: rest) = scan_extended rest := rfl

theorem scan_break_code (rest : List uint8_t) : scan (BREAK_CODE :: rest) = scan_break rest := rfl

theorem scan_extended_break_code (rest : List uint8_t) :
    scan_extended (BREAK_CODE :: rest) = scan_extended_break rest := rfl

/-- A call that finds the codes of the grammar performs their action. -/
theorem scan_of_reads {codes : List uint8_t} {done : Action} (hreads : Reads codes done)
    (rest : List uint8_t) : scan (codes ++ rest) = .act done rest := by
  cases hreads with
  | press_modifier hmod hkey =>
    rw [List.singleton_append, scan, if_pos hmod, scan_key_of_key hkey]
  | press hmod hext hbreak hpause hkey =>
    rw [List.singleton_append, scan, hmod, if_neg Bool.false_ne_true, if_neg hext, if_neg hbreak, if_neg hpause,
      scan_key_of_key hkey]
  | release_modifier hmod hkey =>
    rw [List.cons_append, scan_break_code, List.singleton_append, scan_break, if_pos hmod, scan_key_of_key hkey]
  | release hmod hkey =>
    rw [List.cons_append, scan_break_code, List.singleton_append, scan_break, hmod, if_neg Bool.false_ne_true,
      scan_key_of_key hkey]
  | extended_press_modifier hmod =>
    obtain ⟨hbreak, hreq, -⟩ := ne_of_is_extended_modifier hmod
    rw [List.cons_append, scan_extended_code, List.singleton_append, scan_extended, if_neg hbreak,
      sys_req_make_second, if_neg hreq, if_pos hmod]
  | extended_press hbreak hreq hmod =>
    rw [List.cons_append, scan_extended_code, List.singleton_append, scan_extended, if_neg hbreak,
      sys_req_make_second, if_neg hreq, hmod, if_neg Bool.false_ne_true]
  | extended_release_modifier hmod =>
    obtain ⟨-, -, hreq⟩ := ne_of_is_extended_modifier hmod
    rw [List.cons_append, scan_extended_code, List.cons_append, scan_extended_break_code, List.singleton_append,
      scan_extended_break, sys_req_break_third, if_neg hreq, if_pos hmod]
  | extended_release hreq hmod =>
    rw [List.cons_append, scan_extended_code, List.cons_append, scan_extended_break_code, List.singleton_append,
      scan_extended_break, sys_req_break_third, if_neg hreq, hmod, if_neg Bool.false_ne_true]
  | sys_req_make hmatched => exact scan_match_of_matched hmatched rest
  | sys_req_break hmatched => exact scan_match_of_matched hmatched rest
  | pause_break hmatched => exact scan_match_of_matched hmatched rest

theorem exists_reads_of_scan_break {inp rest : List uint8_t} {done : Action}
    (hscan : scan_break inp = .act done rest) :
    ∃ codes, inp = codes ++ rest ∧ Reads (BREAK_CODE :: codes) done := by
  cases inp with
  | nil => cases hscan
  | cons code inp =>
    rw [scan_break] at hscan
    by_cases hmod : is_modifier_code code = true
    · rw [if_pos hmod] at hscan
      obtain ⟨key, hkey, rfl, rfl⟩ := exists_key_of_scan_key hscan
      exact ⟨[code], rfl, .release_modifier hmod hkey⟩
    · rw [if_neg hmod] at hscan
      obtain ⟨key, hkey, rfl, rfl⟩ := exists_key_of_scan_key hscan
      exact ⟨[code], rfl, .release (Bool.eq_false_of_not_eq_true hmod) hkey⟩

theorem exists_reads_of_scan_extended_break {inp rest : List uint8_t} {done : Action}
    (hscan : scan_extended_break inp = .act done rest) :
    ∃ codes, inp = codes ++ rest ∧ Reads (EXTENDED_CODE :: BREAK_CODE :: codes) done := by
  cases inp with
  | nil => cases hscan
  | cons code inp =>
    rw [scan_extended_break] at hscan
    by_cases hreq : code = sys_req_break.get ⟨2, two_lt_sys_req_break⟩
    · rw [if_pos hreq] at hscan
      obtain ⟨codes, rfl, hmatched⟩ := exists_matched_of_scan_match hscan
      exact ⟨code :: codes, rfl, hreq ▸ .sys_req_break hmatched⟩
    rw [if_neg hreq] at hscan
    by_cases hmod : is_extended_modifier (ps2_extended_code_to_hid_key code) = true
    · rw [if_pos hmod] at hscan
      cases hscan
      exact ⟨[code], rfl, .extended_release_modifier hmod⟩
    · rw [if_neg hmod] at hscan
      cases hscan
      exact ⟨[code], rfl, .extended_release hreq (Bool.eq_false_of_not_eq_true hmod)⟩

theorem exists_reads_of_scan_extended {inp rest : List uint8_t} {done : Action}
    (hscan : scan_extended inp = .act done rest) :
    ∃ codes, inp = codes ++ rest ∧ Reads (EXTENDED_CODE :: codes) done := by
  cases inp with
  | nil => cases hscan
  | cons code inp =>
    rw [scan_extended] at hscan
    by_cases hbreak : code = BREAK_CODE
    · rw [if_pos hbreak] at hscan
      obtain ⟨codes, rfl, hreads⟩ := exists_reads_of_scan_extended_break hscan
      exact ⟨code :: codes, rfl, hbreak ▸ hreads⟩
    rw [if_neg hbreak] at hscan
    by_cases hreq : code = sys_req_make.get ⟨1, one_lt_sys_req_make⟩
    · rw [if_pos hreq] at hscan
      obtain ⟨codes, rfl, hmatched⟩ := exists_matched_of_scan_match hscan
      exact ⟨code :: codes, rfl, hreq ▸ .sys_req_make hmatched⟩
    rw [if_neg hreq] at hscan
    by_cases hmod : is_extended_modifier (ps2_extended_code_to_hid_key code) = true
    · rw [if_pos hmod] at hscan
      cases hscan
      exact ⟨[code], rfl, .extended_press_modifier hmod⟩
    · rw [if_neg hmod] at hscan
      cases hscan
      exact ⟨[code], rfl, .extended_press hbreak hreq (Bool.eq_false_of_not_eq_true hmod)⟩

/-- Every returning call read codes of the grammar. -/
theorem exists_reads_of_scan {inp rest : List uint8_t} {done : Action} (hscan : scan inp = .act done rest) :
    ∃ codes, inp = codes ++ rest ∧ Reads codes done := by
  cases inp with
  | nil => cases hscan
  | cons code inp =>
    rw [scan] at hscan
    by_cases hmod : is_modifier_code code = true
    · rw [if_pos hmod] at hscan
      obtain ⟨key, hkey, rfl, rfl⟩ := exists_key_of_scan_key hscan
      exact ⟨[code], rfl, .press_modifier hmod hkey⟩
    rw [if_neg hmod] at hscan
    by_cases hext : code = EXTENDED_CODE
    · rw [if_pos hext] at hscan
      obtain ⟨codes, rfl, hreads⟩ := exists_reads_of_scan_extended hscan
      exact ⟨code :: codes, rfl, hext ▸ hreads⟩
    rw [if_neg hext] at hscan
    by_cases hbreak : code = BREAK_CODE
    · rw [if_pos hbreak] at hscan
      obtain ⟨codes, rfl, hreads⟩ := exists_reads_of_scan_break hscan
      exact ⟨code :: codes, rfl, hbreak ▸ hreads⟩
    rw [if_neg hbreak] at hscan
    by_cases hpause : code = 0xE1
    · rw [if_pos hpause] at hscan
      obtain ⟨codes, rfl, hmatched⟩ := exists_matched_of_scan_match hscan
      exact ⟨code :: codes, rfl, hpause ▸ .pause_break hmatched⟩
    · rw [if_neg hpause] at hscan
      obtain ⟨key, hkey, rfl, rfl⟩ := exists_key_of_scan_key hscan
      exact ⟨[code], rfl, .press (Bool.eq_false_of_not_eq_true hmod) hext hbreak hpause hkey⟩

/-- A stream that some number of calls read exactly, with their actions. -/
inductive Parses : List uint8_t → List Action → Prop where
  | nil : Parses [] []
  | cons {codes rest : List uint8_t} {done : Action} {actions : List Action} (hreads : Reads codes done)
      (hrest : Parses rest actions) : Parses (codes ++ rest) (done :: actions)

theorem Parses.of_reads {codes : List uint8_t} {done : Action} (hreads : Reads codes done) :
    Parses codes [done] := by
  have hone := Parses.cons hreads .nil
  rwa [List.append_nil] at hone

theorem Parses.append {stream later : List uint8_t} {actions more : List Action} (hparses : Parses stream actions)
    (hlater : Parses later more) : Parses (stream ++ later) (actions ++ more) := by
  induction hparses with
  | nil => exact hlater
  | cons hreads hrest ih =>
    rw [List.append_assoc, List.cons_append]
    exact .cons hreads ih

theorem Parses.of_scan {stream rest : List uint8_t} {done : Action} {actions : List Action}
    (hscan : scan stream = .act done rest) (hrest : Parses rest actions) : Parses stream (done :: actions) := by
  obtain ⟨codes, rfl, hreads⟩ := exists_reads_of_scan hscan
  exact .cons hreads hrest

/-- The actions of several calls, one after another. -/
def perform_all (s : Translator) (actions : List Action) : Translator :=
  actions.foldl (fun s done => done.perform s) s

theorem Parses.calls {stream : List uint8_t} {actions : List Action} (hparses : Parses stream actions)
    (s : Translator) (rest : List uint8_t) :
    ProcM.calls ps2_hid_translator_parse_next_scancode actions.length s (stream ++ rest) =
      some (perform_all s actions, rest) := by
  induction hparses generalizing s with
  | nil => rfl
  | cons hreads hrest ih =>
    rw [List.append_assoc, List.length_cons, ProcM.calls, ps2_hid_translator_parse_next_scancode_run,
      scan_of_reads hreads]
    exact ih _

end peripheral_hids.ps2_hid_translator
