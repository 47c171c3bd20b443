import PeripheralHids.Lib.Synchronise
import PeripheralHids.Translator.FakeShift
import PeripheralHids.Translator.Invariant
import PeripheralHids.Translator.Pressed

namespace peripheral_hids.ps2_hid_translator

/-- The codes on which a call waits for more. -/
def waiting : List (List uint8_t) :=
  [BREAK_CODE] :: (sys_req_make.dropLast.inits ++ (sys_req_break.dropLast.inits ++ pause_break_code.dropLast.inits))

theorem mem_waiting {p : List uint8_t} :
    p ∈ waiting ↔ p = [BREAK_CODE] ∨ p <+: sys_req_make.dropLast ∨ p <+: sys_req_break.dropLast ∨
      p <+: pause_break_code.dropLast := by
  rw [waiting, List.mem_cons, List.mem_append, List.mem_append, List.mem_inits, List.mem_inits, List.mem_inits]

theorem prefix_of_scan_match_wait {action : Action} {es inp : List uint8_t}
    (hscan : scan_match action es inp = .wait) : inp <+: es.dropLast := by
  induction es generalizing inp with
  | nil => cases hscan
  | cons expected es ih =>
    cases inp with
    | nil => exact List.nil_prefix
    | cons code inp =>
      rw [scan_match] at hscan
      by_cases hcode : expected = code
      · rw [if_neg (not_not_intro hcode)] at hscan
        cases es with
        | nil => cases hscan
        | cons next es => exact List.cons_prefix_cons.mpr ⟨hcode.symm, ih hscan⟩
      · rw [if_pos hcode] at hscan
        cases hscan

theorem scan_key_ne_wait (action : uint8_t → Action) (code : uint8_t) (rest : List uint8_t) :
    scan_key action code rest ≠ .wait := by
  unfold scan_key
  cases ps2_scan_code_to_usb_hid_key[code.toNat]? with
  | none => exact Scanned.noConfusion
  | some key => exact Scanned.noConfusion

theorem mem_waiting_of_scan_extended_break {rest : List uint8_t} (hscan : scan_extended_break rest = .wait) :
    EXTENDED_CODE :: BREAK_CODE :: rest ∈ waiting := by
  cases rest with
  | nil => decide
  | cons code rest =>
    rw [scan_extended_break] at hscan
    split at hscan
    · rename_i hreq
      subst hreq
      have hrest := prefix_of_scan_match_wait hscan
      exact mem_waiting.mpr (.inr (.inr (.inl (by simpa [sys_req_break, EXTENDED_CODE, BREAK_CODE] using hrest))))
    · split at hscan <;> cases hscan

theorem mem_waiting_of_scan_extended {rest : List uint8_t} (hscan : scan_extended rest = .wait) :
    EXTENDED_CODE :: rest ∈ waiting := by
  cases rest with
  | nil => decide
  | cons code rest =>
    rw [scan_extended] at hscan
    split at hscan
    · rename_i hbreak
      subst hbreak
      exact mem_waiting_of_scan_extended_break hscan
    split at hscan
    · rename_i hreq
      subst hreq
      have hrest := prefix_of_scan_match_wait hscan
      exact mem_waiting.mpr (.inr (.inl (by simpa [sys_req_make, EXTENDED_CODE] using hrest)))
    · split at hscan <;> cases hscan

/-- A call waits only in front of the rest of a sequence that it has begun to read. -/
theorem mem_waiting_of_scan {inp : List uint8_t} (hscan : scan inp = .wait) : inp ∈ waiting := by
  cases inp with
  | nil => decide
  | cons code rest =>
    rw [scan] at hscan
    split at hscan
    · exact absurd hscan (scan_key_ne_wait _ _ _)
    split at hscan
    · rename_i hext
      subst hext
      exact mem_waiting_of_scan_extended hscan
    split at hscan
    · rename_i hbreak
      subst hbreak
      cases rest with
      | nil => decide
      | cons key rest => rw [scan_break] at hscan; split at hscan <;> exact absurd hscan (scan_key_ne_wait _ _ _)
    split at hscan
    · rename_i hpause
      subst hpause
      have hrest := prefix_of_scan_match_wait hscan
      exact mem_waiting.mpr (.inr (.inr (.inr (by simpa [pause_break_code] using hrest))))
    · exact absurd hscan (scan_key_ne_wait _ _ _)

theorem waiting_closed {w p : List uint8_t} (hw : w ∈ waiting) (hp : p <+: w) : p ∈ waiting := by
  obtain rfl | hmake | hbreak | hpause := mem_waiting.mp hw
  · obtain rfl | rfl : p = [] ∨ p = [BREAK_CODE] := by
      simpa using (List.mem_inits p [BREAK_CODE]).mpr hp
    · decide
    · decide
  · exact mem_waiting.mpr (.inr (.inl (hp.trans hmake)))
  · exact mem_waiting.mpr (.inr (.inr (.inl (hp.trans hbreak))))
  · exact mem_waiting.mpr (.inr (.inr (.inr (hp.trans hpause))))

theorem not_mem_waiting {code : uint8_t} (hunmarked : (Sequence.make code).complete = true) :
    [code] ∉ waiting ∧ [0xF0, code] ∉ waiting ∧ (code ≠ 0x12 → [0xE0, code] ∉ waiting) ∧
      (code ≠ 0x7C → [0xE0, 0xF0, code] ∉ waiting) := by
  obtain ⟨hext, hpause, hbreak, -⟩ : code ≠ 0xE0#8 ∧ code ≠ 0xE1#8 ∧ code ≠ 0xF0#8 ∧ code ≠ 0xFF#8 := by
    simpa [Sequence.complete] using hunmarked
  simp [mem_waiting, sys_req_make, sys_req_break, pause_break_code, BREAK_CODE, hext, hpause, hbreak]

/-- No end of a sequence that a keyboard sends is the beginning of another. -/
theorem eq_nil_of_suffix {q : Sequence} (hcomplete : q.complete = true) (hunmarked : q.unmarked = true)
    {p : List uint8_t} (hp : p ∈ waiting) (hsuffix : p <:+ q.codes) : p = [] := by
  have htail : p ∈ q.codes.tails := (List.mem_tails p q.codes).mpr hsuffix
  cases q with
  | make code =>
    obtain ⟨hone, -⟩ := not_mem_waiting hunmarked
    obtain rfl | rfl : p = [code] ∨ p = [] := by simpa [Sequence.codes] using htail
    exacts [absurd hp hone, rfl]
  | brk code =>
    obtain ⟨hone, hbrk, -⟩ := not_mem_waiting hunmarked
    obtain rfl | rfl | rfl : p = [0xF0, code] ∨ p = [code] ∨ p = [] := by simpa [Sequence.codes] using htail
    exacts [absurd hp hbrk, absurd hp hone, rfl]
  | extended_make code =>
    obtain ⟨hone, -, hext, -⟩ := not_mem_waiting hunmarked
    obtain ⟨-, hreq⟩ : code ≠ 0xF0 ∧ code ≠ 0x12 := by simpa [Sequence.complete] using hcomplete
    obtain rfl | rfl | rfl : p = [0xE0, code] ∨ p = [code] ∨ p = [] := by simpa [Sequence.codes] using htail
    exacts [absurd hp (hext hreq), absurd hp hone, rfl]
  | extended_brk code =>
    obtain ⟨hone, hbrk, -, hext⟩ := not_mem_waiting hunmarked
    have hreq : code ≠ 0x7C := by simpa [Sequence.complete] using hcomplete
    obtain rfl | rfl | rfl | rfl : p = [0xE0, 0xF0, code] ∨ p = [0xF0, code] ∨ p = [code] ∨ p = [] := by
      simpa [Sequence.codes] using htail
    exacts [absurd hp (hext hreq), absurd hp hbrk, absurd hp hone, rfl]
  | print_make => exact (by decide : ∀ p ∈ Sequence.print_make.codes.tails, p ∈ waiting → p = []) p htail hp
  | print_brk => exact (by decide : ∀ p ∈ Sequence.print_brk.codes.tails, p ∈ waiting → p = []) p htail hp
  | pause => exact (by decide : ∀ p ∈ Sequence.pause.codes.tails, p ∈ waiting → p = []) p htail hp

/-- How many codes the sequence has that begins here. -/
def sequence_length : List uint8_t → Nat
  | [] => 1
  | code :: rest =>
    if code = 0xE1 then 8
    else if code = 0xF0 then 2
    else if code ≠ 0xE0 then 1
    else if [0xF0, 0x7C] <+: rest then 6
    else if [0xF0] <+: rest then 3
    else if [0x12] <+: rest then 4
    else 2

theorem sequence_length_codes {q : Sequence} (hcomplete : q.complete = true) (rest : List uint8_t) :
    sequence_length (q.codes ++ rest) = q.codes.length := by
  cases q with
  | make code =>
    obtain ⟨hext, hpause, hbreak, -⟩ : code ≠ 0xE0#8 ∧ code ≠ 0xE1#8 ∧ code ≠ 0xF0#8 ∧ code ≠ 0xFF#8 := by
      simpa [Sequence.complete] using hcomplete
    simp [Sequence.codes, sequence_length, hext, hpause, hbreak]
  | brk code => simp [Sequence.codes, sequence_length]
  | extended_make code =>
    obtain ⟨hbreak, hreq⟩ : code ≠ 0xF0#8 ∧ code ≠ 0x12#8 := by simpa [Sequence.complete] using hcomplete
    simp [Sequence.codes, sequence_length, hbreak.symm, hreq.symm]
  | extended_brk code =>
    have hreq : code ≠ 0x7C#8 := by simpa [Sequence.complete] using hcomplete
    simp [Sequence.codes, sequence_length, hreq.symm]
  | print_make => rfl
  | print_brk => rfl
  | pause => rfl

def next_sequence (codes : List uint8_t) (i : Nat) : Nat := i + sequence_length (codes.drop i)

theorem next_sequence_codes {q : Sequence} (hcomplete : q.complete = true) (before rest : List uint8_t) :
    next_sequence (before ++ (q.codes ++ rest)) before.length = (before ++ q.codes).length := by
  rw [next_sequence, List.drop_left, sequence_length_codes hcomplete, List.length_append]

/-- Behind its first code none of the begun sequences has room for three whole ones. -/
theorem waiting_room : ∀ w ∈ waiting, ∀ before ∈ w.inits, before ≠ [] →
    w.length < next_sequence w (next_sequence w (next_sequence w before.length)) := by
  decide

theorem not_mem_waiting_of_three {seqs : List Sequence} (hthree : 3 ≤ seqs.length)
    (hseqs : ∀ q ∈ seqs, q.complete = true) {before : List uint8_t} (hbefore : before ≠ []) :
    before ++ seqs.flatMap Sequence.codes ∉ waiting := by
  obtain _ | ⟨q, _ | ⟨r, _ | ⟨v, more⟩⟩⟩ := seqs
  · cases hthree
  · exact absurd hthree (by simp)
  · exact absurd hthree (by simp)
  obtain ⟨hq, hr, hv, -⟩ := by simpa only [List.forall_mem_cons] using hseqs
  intro hw
  have hroom := waiting_room _ hw before ((List.mem_inits _ _).mpr (List.prefix_append _ _)) hbefore
  have hfirst := next_sequence_codes hq before (r.codes ++ (v.codes ++ more.flatMap Sequence.codes))
  have hsecond := next_sequence_codes hr (before ++ q.codes) (v.codes ++ more.flatMap Sequence.codes)
  have hthird := next_sequence_codes hv (before ++ q.codes ++ r.codes) (more.flatMap Sequence.codes)
  rw [List.append_assoc] at hsecond
  rw [List.append_assoc, List.append_assoc] at hthird
  simp only [List.flatMap_cons] at hroom
  rw [hfirst, hsecond, hthird] at hroom
  simp only [List.length_append] at hroom
  omega

theorem ff_not_mem_codes {q : Sequence} (hunmarked : q.unmarked = true) : 0xFF ∉ q.codes := by
  cases q with
  | make code | brk code | extended_make code | extended_brk code =>
    have hcode : 0xFF#8 ≠ code := by
      intro hff
      subst hff
      exact absurd hunmarked (by decide)
    simp [Sequence.codes, hcode]
  | print_make => decide
  | print_brk => decide
  | pause => decide

/-- Whatever codes came before, behind three sequences the parser is between two calls. -/
theorem exists_calls_realigned {lost : List uint8_t} (hff : 0xFF ∉ lost) {seqs : List Sequence}
    (hthree : 3 ≤ seqs.length) (hseqs : ∀ q ∈ seqs, q.complete = true ∧ q.unmarked = true) (s : Translator) :
    ∃ n t, ProcM.calls ps2_hid_translator_parse_next_scancode n s (lost ++ seqs.flatMap Sequence.codes) =
      some (t, []) := by
  have hall : 0xFF ∉ lost ++ seqs.flatMap Sequence.codes := by
    rw [List.mem_append, List.mem_flatMap]
    rintro (hlost | ⟨q, hq, hin⟩)
    · exact hff hlost
    · exact ff_not_mem_codes (hseqs q hq).2 hin
  refine ProcM.exists_calls_synchronised (W := fun p => p ∈ waiting) ?_ (fun _ _ => waiting_closed) ?_
    (fun before hbefore => not_mem_waiting_of_three hthree (fun q hq => (hseqs q hq).1) hbefore)
    (exists_calls_wait hall s)
  · intro t inp hrun
    rw [ps2_hid_translator_parse_next_scancode_run] at hrun
    cases hscan : scan inp with
    | wait => exact mem_waiting_of_scan hscan
    | fault =>
      rw [hscan] at hrun
      cases hrun
    | act done rest =>
      rw [hscan] at hrun
      cases hrun
  · intro q hq p hp hsuffix
    exact eq_nil_of_suffix (hseqs q hq).1 (hseqs q hq).2 hp hsuffix

/-- The parser resynchronises. After any codes, whole sequences or not, it misreads
at most three complete sequences of a keyboard; from then on each call reads one. -/
theorem resynchronises_after_three (lost : List uint8_t) (hff : 0xFF ∉ lost) (first later : List Sequence)
    (hthree : 3 ≤ first.length) (hfirst : ∀ q ∈ first, q.complete = true ∧ q.unmarked = true)
    (hlater : ∀ q ∈ later, q.complete = true) (s : Translator) :
    ∃ n t, ∀ m ≤ later.length,
      ProcM.calls ps2_hid_translator_parse_next_scancode (n + m) s
          (lost ++ first.flatMap Sequence.codes ++ later.flatMap Sequence.codes) =
        some (typed t ((later.take m).flatMap Sequence.strokes), (later.drop m).flatMap Sequence.codes) := by
  obtain ⟨n, t, hcalls⟩ := exists_calls_realigned hff hthree hfirst s
  refine ⟨n, t, fun m hm => ?_⟩
  rw [ProcM.calls_add (ProcM.calls_append hcalls _), List.nil_append]
  exact calls_complete later hlater t m hm

/-- A `Pause` that breaks off after its first code. -/
theorem resynchronises_after_pause :
    ∃ n t, ProcM.calls ps2_hid_translator_parse_next_scancode (n + 1) (.initial 0)
      [0xE1, 0x14, 0x77, 0x1C, 0xF0, 0x1C] = some (typed t [⟨.plain 0x1C, false⟩], []) := by
  obtain ⟨n, t, hcalls⟩ := resynchronises_after_three [0xE1] (by decide) [.make 0x14, .make 0x77, .make 0x1C]
    [.brk 0x1C] (by decide) (by decide) (by decide) (.initial 0)
  exact ⟨n, t, hcalls 1 (by decide)⟩

-- Two sequences are not always enough.
example : scan ([0xE1] ++ [Sequence.make 0x14, .make 0x77].flatMap Sequence.codes) = .wait := by decide

/-- An action that some strokes have the translator do. -/
def Action.Strokes (done : Action) : Prop := ∃ strokes, ∀ s, done.perform s = typed s strokes

theorem strokes_of_action {e : Stroke Key} {done : Action} (hdone : action e = done) : done.Strokes :=
  ⟨[e], fun s => by rw [← hdone]; rfl⟩

theorem Matched.strokes {action done : Action} {es codes : List uint8_t} (hmatched : Matched action es codes done)
    (haction : action.Strokes) : done.Strokes := by
  obtain rfl | rfl := hmatched.action_cases
  · exact haction
  · exact ⟨[], fun s => rfl⟩

/-- Whatever a call reads, it does what some strokes do. -/
theorem Reads.strokes {codes : List uint8_t} {done : Action} (hreads : Reads codes done) : done.Strokes := by
  cases hreads with
  | @press_modifier code _ hmod hkey =>
    obtain rfl := hid_key_of_getElem? hkey
    exact strokes_of_action (action_make_modifier (k := .plain code) hmod)
  | @press code _ hmod hext hbreak hpause hkey =>
    obtain rfl := hid_key_of_getElem? hkey
    exact strokes_of_action (action_make (k := .plain code) hmod)
  | @release_modifier code _ hmod hkey =>
    obtain rfl := hid_key_of_getElem? hkey
    exact strokes_of_action (action_break_modifier (k := .plain code) hmod)
  | @release code _ hmod hkey =>
    obtain rfl := hid_key_of_getElem? hkey
    exact strokes_of_action (action_break (k := .plain code) hmod)
  | @extended_press_modifier code hmod => exact strokes_of_action (action_make_modifier (k := .extended code) hmod)
  | @extended_press code hbreak hreq hmod => exact strokes_of_action (action_make (k := .extended code) hmod)
  | @extended_release_modifier code hmod =>
    exact strokes_of_action (action_break_modifier (k := .extended code) hmod)
  | @extended_release code hreq hmod => exact strokes_of_action (action_break (k := .extended code) hmod)
  | sys_req_make hmatched => exact hmatched.strokes (strokes_of_action (action_make (k := .print_screen) rfl))
  | sys_req_break hmatched => exact hmatched.strokes (strokes_of_action (action_break (k := .print_screen) rfl))
  | pause_break hmatched => exact hmatched.strokes ⟨[⟨.pause, true⟩, ⟨.pause, false⟩], fun s => rfl⟩

theorem exists_strokes_of_calls {n : Nat} {s t : Translator} {inp rest : List uint8_t}
    (hcalls : ProcM.calls ps2_hid_translator_parse_next_scancode n s inp = some (t, rest)) :
    ∃ strokes, t = typed s strokes := by
  refine ProcM.calls_invariant (P := fun u _ => ∃ strokes, u = typed s strokes) ?_ ⟨[], rfl⟩ hcalls
  rintro u inp v left ⟨strokes, rfl⟩ hrun
  obtain ⟨codes, done, -, hreads, rfl⟩ := reads_of_run hrun
  obtain ⟨more, hperform⟩ := hreads.strokes
  exact ⟨strokes ++ more, by rw [hperform, typed_append]⟩

/-- The report recovers from lost codes. Three complete sequences later a key that has
been struck again is in the report only if it is down, and each modifier bit that has
been struck again is what the last stroke on it says. -/
theorem report_recovers (lost : List uint8_t) (hff : 0xFF ∉ lost) (first later : List Sequence)
    (hthree : 3 ≤ first.length) (hfirst : ∀ q ∈ first, q.complete = true ∧ q.unmarked = true)
    (hlater : ∀ q ∈ later, q.complete = true) (simulate_input : uint8_t) :
    ∃ n t, ProcM.calls ps2_hid_translator_parse_next_scancode n (.initial simulate_input)
        (lost ++ first.flatMap Sequence.codes ++ later.flatMap Sequence.codes) = some (t, []) ∧
      (∀ usage ∈ keys t.key_report, (∃ e ∈ later.flatMap Sequence.strokes, e.key.usage = some usage) →
        usage ∈ Stroke.pressed Key.usage (later.flatMap Sequence.strokes)) ∧
      ∀ i < 8, (∃ e ∈ later.flatMap Sequence.strokes, (e.key.is_modifier && e.key.hid_key.getLsbD i) = true) →
        t.key_report.modifier.getLsbD i =
          Stroke.lastDown (fun k => k.is_modifier && k.hid_key.getLsbD i) (later.flatMap Sequence.strokes) := by
  obtain ⟨n, t, hcalls⟩ := exists_calls_realigned hff hthree hfirst (.initial simulate_input)
  obtain ⟨misread, rfl⟩ := exists_strokes_of_calls hcalls
  have hall := (ProcM.calls_add (ProcM.calls_append hcalls (later.flatMap Sequence.codes)) later.length).trans
    (calls_complete later hlater _ later.length (Nat.le_refl _))
  rw [List.take_length, List.drop_length, ← typed_append] at hall
  refine ⟨_, _, hall, fun usage husage hstruck => ?_, fun i hi hstruck => ?_⟩
  · have hpressed := (tracks_typed simulate_input _).subset husage
    rw [Stroke.mem_pressed, Stroke.lastDown_append, if_pos] at hpressed
    · exact Stroke.mem_pressed.mpr hpressed
    · obtain ⟨e, he, hkey⟩ := hstruck
      exact List.any_eq_true.mpr ⟨e, he, decide_eq_true hkey⟩
  · rw [typed_modifier simulate_input _ hi, Stroke.lastDown_append, if_pos]
    exact List.any_eq_true.mpr hstruck

/-- `A` goes down and its break is lost: the key is out of the report after its next break. -/
theorem report_recovers_a :
    ∃ n t, ProcM.calls ps2_hid_translator_parse_next_scancode n (.initial 0)
      [0x1C, 0xE0, 0x1B, 0x23, 0x2B, 0x1C, 0xF0, 0x1C] = some (t, []) ∧ KEY_A ∉ keys t.key_report := by
  obtain ⟨n, t, hcalls, hkeys, -⟩ := report_recovers [0x1C, 0xE0] (by decide) [.make 0x1B, .make 0x23, .make 0x2B]
    [.make 0x1C, .brk 0x1C] (by decide) (by decide) (by decide) 0
  refine ⟨n, t, hcalls, fun hin => ?_⟩
  have hpressed := hkeys KEY_A hin ⟨⟨.plain 0x1C, true⟩, by decide, by decide⟩
  exact absurd (Stroke.mem_pressed.mp hpressed) (by decide)

end peripheral_hids.ps2_hid_translator
