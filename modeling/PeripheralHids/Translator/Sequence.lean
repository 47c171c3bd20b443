import PeripheralHids.Lib.History
import PeripheralHids.Translator.Grammar
import PeripheralHids.Translator.Report

namespace peripheral_hids.ps2_hid_translator

/-- A physical key, by the codes that it sends. -/
inductive Key where
  | plain (code : uint8_t)
  | extended (code : uint8_t)
  | print_screen
  | pause
  deriving DecidableEq, Repr

def Key.is_modifier : Key → Bool
  | .plain code => is_modifier_code code
  | .extended code => is_extended_modifier (ps2_extended_code_to_hid_key code)
  | .print_screen | .pause => false

/-- The byte that the translator has for a key. -/
def Key.hid_key : Key → uint8_t
  | .plain code => ps2_scan_code_to_usb_hid_key.getD code.toNat KEY_UNKNOWN
  | .extended code => ps2_extended_code_to_hid_key code
  | .print_screen => KEY_SYSRQ
  | .pause => KEY_PAUSE

/-- The entries of the table, each with its scan code. -/
def table_entries : List (uint8_t × uint8_t) :=
  ps2_scan_code_to_usb_hid_key.zipIdx.map fun entry => (entry.1, BitVec.ofNat 8 entry.2)

/-- A plain key has no byte, or the one of an entry of the table. -/
theorem Key.plain_hid_key_cases (code : uint8_t) :
    (Key.plain code).hid_key = KEY_UNKNOWN ∨ ((Key.plain code).hid_key, code) ∈ table_entries := by
  rw [Key.hid_key, List.getD_eq_getElem?_getD]
  cases hget : ps2_scan_code_to_usb_hid_key[code.toNat]? with
  | none => exact Or.inl rfl
  | some key =>
    right
    have hentry : (key, code.toNat) ∈ ps2_scan_code_to_usb_hid_key.zipIdx := List.mk_mem_zipIdx_iff_getElem?.mpr hget
    have hcode : BitVec.ofNat 8 code.toNat = code := by rw [BitVec.ofNat_toNat, BitVec.setWidth_eq]
    rw [Option.getD_some, table_entries, List.mem_map]
    exact ⟨(key, code.toNat), hentry, by rw [hcode]⟩

/-- The HID usage of an ordinary mapped key. -/
def Key.usage (k : Key) : Option uint8_t :=
  if k.is_modifier ∨ k.hid_key = KEY_UNKNOWN then none else some k.hid_key

theorem Key.usage_of_modifier {k : Key} (hmod : k.is_modifier = true) : k.usage = none :=
  if_pos (Or.inl hmod)

theorem Key.usage_of_unknown {k : Key} (hunknown : k.hid_key = KEY_UNKNOWN) : k.usage = none :=
  if_pos (Or.inr hunknown)

theorem Key.usage_of_known {k : Key} (hmod : k.is_modifier = false) (hknown : k.hid_key ≠ KEY_UNKNOWN) :
    k.usage = some k.hid_key := by
  apply if_neg
  rintro (hmod' | hunknown)
  · rw [hmod] at hmod'
    cases hmod'
  · exact hknown hunknown

theorem Key.usage_eq_some {k : Key} {key : uint8_t} (husage : k.usage = some key) :
    k.is_modifier = false ∧ k.hid_key ≠ KEY_UNKNOWN ∧ k.hid_key = key := by
  cases hmod : k.is_modifier with
  | true =>
    rw [Key.usage_of_modifier hmod] at husage
    cases husage
  | false =>
    by_cases hknown : k.hid_key = KEY_UNKNOWN
    · rw [Key.usage_of_unknown hknown] at husage
      cases husage
    · rw [Key.usage_of_known hmod hknown] at husage
      exact ⟨rfl, hknown, Option.some.inj husage⟩

/-- What a make or break of a key has the translator do. -/
def action (e : Stroke Key) : Action :=
  if e.down then
    if e.key.is_modifier then .press_mod_key e.key.hid_key else .press_key e.key.hid_key
  else
    if e.key.is_modifier then .release_mod_key e.key.hid_key else .release_key e.key.hid_key

theorem action_make_modifier {k : Key} (hmod : k.is_modifier = true) :
    action ⟨k, true⟩ = .press_mod_key k.hid_key := if_pos hmod

theorem action_make {k : Key} (hmod : k.is_modifier = false) : action ⟨k, true⟩ = .press_key k.hid_key :=
  if_neg (Bool.eq_false_iff.mp hmod)

theorem action_break_modifier {k : Key} (hmod : k.is_modifier = true) :
    action ⟨k, false⟩ = .release_mod_key k.hid_key := if_pos hmod

theorem action_break {k : Key} (hmod : k.is_modifier = false) : action ⟨k, false⟩ = .release_key k.hid_key :=
  if_neg (Bool.eq_false_iff.mp hmod)

theorem action_is_modifier (e : Stroke Key) : (action e).is_modifier = e.key.is_modifier := by
  obtain ⟨k, down⟩ := e
  cases hmod : k.is_modifier with
  | true =>
    cases down with
    | true => rw [action_make_modifier hmod]; rfl
    | false => rw [action_break_modifier hmod]; rfl
  | false =>
    cases down with
    | true => rw [action_make hmod]; rfl
    | false => rw [action_break hmod]; rfl

/-- The code sequences that a keyboard sends. -/
inductive Sequence where
  | make (code : uint8_t)
  | brk (code : uint8_t)
  | extended_make (code : uint8_t)
  | extended_brk (code : uint8_t)
  | print_make
  | print_brk
  | pause
  deriving DecidableEq, Repr

def Sequence.codes : Sequence → List uint8_t
  | .make code => [code]
  | .brk code => [0xF0, code]
  | .extended_make code => [0xE0, code]
  | .extended_brk code => [0xE0, 0xF0, code]
  | .print_make => [0xE0, 0x12, 0xE0, 0x7C]
  | .print_brk => [0xE0, 0xF0, 0x7C, 0xE0, 0xF0, 0x12]
  | .pause => [0xE1, 0x14, 0x77, 0xE1, 0xF0, 0x14, 0xF0, 0x77]

/-- The makes and breaks that a sequence stands for. The `Pause` key sends both
when it is pressed and nothing when it is released. -/
def Sequence.strokes : Sequence → List (Stroke Key)
  | .make code => [⟨.plain code, true⟩]
  | .brk code => [⟨.plain code, false⟩]
  | .extended_make code => [⟨.extended code, true⟩]
  | .extended_brk code => [⟨.extended code, false⟩]
  | .print_make => [⟨.print_screen, true⟩]
  | .print_brk => [⟨.print_screen, false⟩]
  | .pause => [⟨.pause, true⟩, ⟨.pause, false⟩]

/-- The sequences that are not the beginning of a longer one. -/
def Sequence.complete : Sequence → Bool
  | .make code => code ∉ [0xE0, 0xE1, 0xF0, 0xFF]
  | .brk code => code ≠ 0xFF
  | .extended_make code => code ∉ [0xF0, 0x12]
  | .extended_brk code => code ≠ 0x7C
  | .print_make | .print_brk | .pause => true

/-- The state after the actions of a history of strokes. -/
def typed (s : Translator) (strokes : List (Stroke Key)) : Translator :=
  strokes.foldl (fun s e => (action e).perform s) s

theorem typed_append (s : Translator) (strokes later : List (Stroke Key)) :
    typed s (strokes ++ later) = typed (typed s strokes) later := List.foldl_append

theorem typed_concat (s : Translator) (strokes : List (Stroke Key)) (e : Stroke Key) :
    typed s (strokes ++ [e]) = (action e).perform (typed s strokes) := typed_append s strokes [e]

set_option maxRecDepth 4096 in
theorem ps2_scan_code_to_usb_hid_key_length : ps2_scan_code_to_usb_hid_key.length = 255 := by decide

theorem getElem?_hid_key {code : uint8_t} (hcode : code ≠ 0xFF) :
    ps2_scan_code_to_usb_hid_key[code.toNat]? = some (Key.plain code).hid_key := by
  have hlt : code.toNat < ps2_scan_code_to_usb_hid_key.length := by
    rw [ps2_scan_code_to_usb_hid_key_length]
    have hne : code.toNat ≠ 255 := fun heq => hcode (BitVec.eq_of_toNat_eq heq)
    omega
  rw [Key.hid_key, List.getD_eq_getElem?_getD, List.getElem?_eq_getElem hlt, Option.getD_some]

/-- The grammar has the complete sequences, with their strokes as the action. -/
theorem exists_reads_of_complete {q : Sequence} (hcomplete : q.complete = true) :
    ∃ done, Reads q.codes done ∧ ∀ s, done.perform s = typed s q.strokes := by
  cases q with
  | make code =>
    obtain ⟨hext, hpause, hbreak, hlast⟩ : code ≠ 0xE0 ∧ code ≠ 0xE1 ∧ code ≠ 0xF0 ∧ code ≠ 0xFF := by
      simpa [Sequence.complete] using hcomplete
    refine ⟨action ⟨.plain code, true⟩, ?_, fun s => rfl⟩
    cases hmod : (Key.plain code).is_modifier with
    | true =>
      rw [action_make_modifier hmod]
      exact .press_modifier hmod (getElem?_hid_key hlast)
    | false =>
      rw [action_make hmod]
      exact .press hmod hext hbreak hpause (getElem?_hid_key hlast)
  | brk code =>
    have hlast : code ≠ 0xFF := by simpa [Sequence.complete] using hcomplete
    refine ⟨action ⟨.plain code, false⟩, ?_, fun s => rfl⟩
    cases hmod : (Key.plain code).is_modifier with
    | true =>
      rw [action_break_modifier hmod]
      exact .release_modifier hmod (getElem?_hid_key hlast)
    | false =>
      rw [action_break hmod]
      exact .release hmod (getElem?_hid_key hlast)
  | extended_make code =>
    obtain ⟨hbreak, hreq⟩ : code ≠ 0xF0 ∧ code ≠ 0x12 := by simpa [Sequence.complete] using hcomplete
    refine ⟨action ⟨.extended code, true⟩, ?_, fun s => rfl⟩
    cases hmod : (Key.extended code).is_modifier with
    | true =>
      rw [action_make_modifier hmod]
      exact .extended_press_modifier hmod
    | false =>
      rw [action_make hmod]
      exact .extended_press hbreak hreq hmod
  | extended_brk code =>
    have hreq : code ≠ 0x7C := by simpa [Sequence.complete] using hcomplete
    refine ⟨action ⟨.extended code, false⟩, ?_, fun s => rfl⟩
    cases hmod : (Key.extended code).is_modifier with
    | true =>
      rw [action_break_modifier hmod]
      exact .extended_release_modifier hmod
    | false =>
      rw [action_break hmod]
      exact .extended_release hreq hmod
  | print_make => exact ⟨.press_key KEY_SYSRQ, .sys_req_make (.all _ _), fun s => rfl⟩
  | print_brk => exact ⟨.release_key KEY_SYSRQ, .sys_req_break (.all _ _), fun s => rfl⟩
  | pause =>
    refine ⟨.press_pause_break, .pause_break (.all _ _), fun s => ?_⟩
    rw [Sequence.strokes, typed, List.foldl_cons, List.foldl_cons, List.foldl_nil, action_make (k := .pause) rfl,
      action_break (k := .pause) rfl]
    rfl

/-- A call that finds a complete sequence reads it, no more and no less, and
performs its strokes. -/
theorem run_complete {q : Sequence} (hcomplete : q.complete = true) (s : Translator) (rest : List uint8_t) :
    ps2_hid_translator_parse_next_scancode.run s (q.codes ++ rest) =
      .returned (typed s q.strokes) () rest := by
  obtain ⟨done, hreads, hperform⟩ := exists_reads_of_complete hcomplete
  rw [ps2_hid_translator_parse_next_scancode_run, scan_of_reads hreads, Scanned.outcome, hperform]

theorem foldl_typed (s : Translator) (seqs : List Sequence) :
    seqs.foldl (fun s q => typed s q.strokes) s = typed s (seqs.flatMap Sequence.strokes) := by
  induction seqs generalizing s with
  | nil => rfl
  | cons q seqs ih => rw [List.foldl_cons, ih, List.flatMap_cons, typed_append]

/-- Over complete sequences the parser never loses alignment: `n` calls read the
first `n` of them. -/
theorem calls_complete (seqs : List Sequence) (hcomplete : ∀ q ∈ seqs, q.complete = true) (s : Translator)
    (n : Nat) (hn : n ≤ seqs.length) :
    ProcM.calls ps2_hid_translator_parse_next_scancode n s (seqs.flatMap Sequence.codes) =
      some (typed s ((seqs.take n).flatMap Sequence.strokes), (seqs.drop n).flatMap Sequence.codes) := by
  have hunit : ∀ q ∈ seqs.take n, ∀ s rest, ps2_hid_translator_parse_next_scancode.run s (q.codes ++ rest) =
      .returned (typed s q.strokes) () rest := by
    intro q hq s rest
    exact run_complete (hcomplete q (List.mem_of_mem_take hq)) s rest
  have hcalls := ProcM.calls_units hunit s ((seqs.drop n).flatMap Sequence.codes)
  rwa [← List.flatMap_append, List.take_append_drop, List.length_take, Nat.min_eq_left hn, foldl_typed] at hcalls

end peripheral_hids.ps2_hid_translator
