import PeripheralHids.Translator.Funs

namespace peripheral_hids.ps2_hid_translator

/-- What one call does to the report once it has read its codes. -/
inductive Action where
  | ignore
  | press_mod_key (key : uint8_t)
  | release_mod_key (key : uint8_t)
  | press_key (key : uint8_t)
  | release_key (key : uint8_t)
  | press_pause_break
  deriving DecidableEq, Repr

def Action.perform : Action → Translator → Translator
  | .ignore, s => s
  | .press_mod_key key, s => ps2_hid_translator.press_mod_key key s
  | .release_mod_key key, s => ps2_hid_translator.release_mod_key key s
  | .press_key key, s => ps2_hid_translator.press_key key s
  | .release_key key, s => ps2_hid_translator.release_key key s
  | .press_pause_break, s =>
    ps2_hid_translator.release_key KEY_PAUSE (ps2_hid_translator.press_key KEY_PAUSE s)

/-- How far the codes at hand take one call: it waits for more, reads beyond the
table of keys, or has the codes of its action and leaves the rest. -/
inductive Scanned where
  | wait
  | fault
  | act (action : Action) (rest : List uint8_t)
  deriving DecidableEq, Repr

def scan_key (action : uint8_t → Action) (code : uint8_t) (rest : List uint8_t) : Scanned :=
  match ps2_scan_code_to_usb_hid_key[code.toNat]? with
  | some key => .act (action key) rest
  | none => .fault

def scan_match (action : Action) : List uint8_t → List uint8_t → Scanned
  | [], rest => .act action rest
  | _ :: _, [] => .wait
  | expected :: es, code :: rest => if expected ≠ code then .act .ignore rest else scan_match action es rest

def scan_break : List uint8_t → Scanned
  | [] => .wait
  | code :: rest =>
    if is_modifier_code code then scan_key .release_mod_key code rest else scan_key .release_key code rest

def scan_extended_break : List uint8_t → Scanned
  | [] => .wait
  | code :: rest =>
    if code = sys_req_break.get ⟨2, two_lt_sys_req_break⟩ then
      scan_match (.release_key KEY_SYSRQ) (sys_req_break.drop 3) rest
    else if is_extended_modifier (ps2_extended_code_to_hid_key code) then
      .act (.release_mod_key (ps2_extended_code_to_hid_key code)) rest
    else .act (.release_key (ps2_extended_code_to_hid_key code)) rest

def scan_extended : List uint8_t → Scanned
  | [] => .wait
  | code :: rest =>
    if code = BREAK_CODE then scan_extended_break rest
    else if code = sys_req_make.get ⟨1, one_lt_sys_req_make⟩ then
      scan_match (.press_key KEY_SYSRQ) (sys_req_make.drop 2) rest
    else if is_extended_modifier (ps2_extended_code_to_hid_key code) then
      .act (.press_mod_key (ps2_extended_code_to_hid_key code)) rest
    else .act (.press_key (ps2_extended_code_to_hid_key code)) rest

/-- The reading half of `ps2_hid_translator_parse_next_scancode`: it looks at the
codes only, never at the report. -/
def scan : List uint8_t → Scanned
  | [] => .wait
  | code :: rest =>
    if is_modifier_code code then scan_key .press_mod_key code rest
    else if code = EXTENDED_CODE then scan_extended rest
    else if code = BREAK_CODE then scan_break rest
    else if code = 0xE1 then scan_match .press_pause_break (pause_break_code.drop 1) rest
    else scan_key .press_key code rest

/-- How a call ends whose codes have been scanned: a call that waits has not
touched the report. -/
def Scanned.outcome (s : Translator) : Scanned → Proc.Outcome uint8_t Translator Unit
  | .wait => .blocked s
  | .fault => .faulted
  | .act action rest => .returned (action.perform s) () rest

theorem run_match_codes (s : Translator) {m : TranslatorM Unit} {action : Action}
    (hm : ∀ rest, m.run s rest = .returned (action.perform s) () rest) (es inp : List uint8_t) :
    (match_codes es >>= fun found => if found then m else pure ()).run s inp =
      (scan_match action es inp).outcome s := by
  simp only [ProcM.run_bind]
  induction es generalizing inp with
  | nil => simp [match_codes, scan_match, Scanned.outcome, hm]
  | cons expected es ih =>
    cases inp with
    | nil => simp [match_codes, scan_match, Scanned.outcome]
    | cons code rest =>
      by_cases hcode : expected = code
      · simp [match_codes, scan_match, hcode, ih]
      · simp [match_codes, scan_match, Scanned.outcome, Action.perform, hcode]

theorem run_checked_key (s : Translator) (action : uint8_t → Action) {m : uint8_t → TranslatorM Unit}
    (hm : ∀ key rest, (m key).run s rest = .returned ((action key).perform s) () rest)
    (code : uint8_t) (rest : List uint8_t) :
    (ProcM.checked ps2_scan_code_to_usb_hid_key[code.toNat]? >>= m).run s rest =
      (scan_key action code rest).outcome s := by
  unfold scan_key
  cases ps2_scan_code_to_usb_hid_key[code.toNat]? with
  | none => simp [Scanned.outcome]
  | some key => simp [Scanned.outcome, hm]

/-- One call of the parser reads codes as `scan` does and then performs the one
action they stand for. -/
theorem ps2_hid_translator_parse_next_scancode_run (s : Translator) (inp : List uint8_t) :
    ps2_hid_translator_parse_next_scancode.run s inp = (scan inp).outcome s := by
  cases inp with
  | nil => rfl
  | cons code inp =>
    rw [ps2_hid_translator_parse_next_scancode, ProcM.run_bind, ProcM.run_next_cons, ProcM.andThen_returned, scan]
    by_cases hmod : is_modifier_code code = true
    · rw [if_pos hmod, if_pos hmod]
      exact run_checked_key s .press_mod_key (fun _ _ => rfl) code inp
    rw [if_neg hmod, if_neg hmod]
    by_cases hext : code = EXTENDED_CODE
    · rw [if_pos hext, if_pos hext]
      cases inp with
      | nil => rfl
      | cons code inp =>
        rw [ProcM.run_bind, ProcM.run_next_cons, ProcM.andThen_returned, scan_extended]
        by_cases hbreak : code = BREAK_CODE
        · rw [if_pos hbreak, if_pos hbreak]
          cases inp with
          | nil => rfl
          | cons code inp =>
            rw [ProcM.run_bind, ProcM.run_next_cons, ProcM.andThen_returned, scan_extended_break]
            by_cases hreq : code = sys_req_break.get ⟨2, two_lt_sys_req_break⟩
            · rw [if_pos hreq, if_pos hreq]
              exact run_match_codes s (fun _ => rfl) _ inp
            rw [if_neg hreq, if_neg hreq]
            dsimp only
            split <;> rfl
        rw [if_neg hbreak, if_neg hbreak]
        by_cases hreq : code = sys_req_make.get ⟨1, one_lt_sys_req_make⟩
        · rw [if_pos hreq, if_pos hreq]
          exact run_match_codes s (fun _ => rfl) _ inp
        rw [if_neg hreq, if_neg hreq]
        dsimp only
        split <;> rfl
    rw [if_neg hext, if_neg hext]
    by_cases hbreak : code = BREAK_CODE
    · rw [if_pos hbreak, if_pos hbreak]
      cases inp with
      | nil => rfl
      | cons code inp =>
        rw [ProcM.run_bind, ProcM.run_next_cons, ProcM.andThen_returned, scan_break]
        by_cases hmod : is_modifier_code code = true
        · simp only [if_pos hmod]
          exact run_checked_key s .release_mod_key (fun _ _ => rfl) code inp
        · simp only [if_neg hmod]
          exact run_checked_key s .release_key (fun _ _ => rfl) code inp
    rw [if_neg hbreak, if_neg hbreak]
    by_cases hpause : code = 0xE1
    · rw [if_pos hpause, if_pos hpause]
      exact run_match_codes s (fun _ => rfl) _ inp
    · rw [if_neg hpause, if_neg hpause]
      exact run_checked_key s .press_key (fun _ _ => rfl) code inp

end peripheral_hids.ps2_hid_translator
