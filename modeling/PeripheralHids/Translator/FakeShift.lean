import Mathlib.Algebra.Group.Nat.Even
import PeripheralHids.Translator.Sequence

namespace peripheral_hids.ps2_hid_translator

/-- The sequences that a keyboard sends, with any code that is not itself a
marker. The first halves of the `PrtScr` sequences may also stand alone. -/
def Sequence.unmarked : Sequence → Bool
  | .make code | .brk code | .extended_make code | .extended_brk code => (Sequence.make code).complete
  | .print_make | .print_brk | .pause => true

/-- A lone first half of a `PrtScr` sequence: a fake shift, or the break of
`PrtScr` with a modifier held. -/
def Sequence.fake (q : Sequence) : Bool := q = .extended_make 0x12 ∨ q = .extended_brk 0x7C

/-- How many fakes a stream ends in. -/
def fakes_at_end (seqs : List Sequence) : Nat := (seqs.reverse.takeWhile Sequence.fake).length

theorem fakes_at_end_concat (seqs : List Sequence) (q : Sequence) :
    fakes_at_end (seqs ++ [q]) = if q.fake then fakes_at_end seqs + 1 else 0 := by
  rw [fakes_at_end, List.reverse_append, List.reverse_singleton, List.singleton_append, List.takeWhile_cons]
  cases q.fake <;> rfl

theorem Sequence.complete_of_unmarked {q : Sequence} (hunmarked : q.unmarked = true) (hfake : q.fake = false) :
    q.complete = true := by
  cases q with
  | make code => exact hunmarked
  | brk code =>
    have hlast : code ≠ 0xFF := by
      rintro rfl
      exact absurd hunmarked (by decide)
    exact decide_eq_true hlast
  | extended_make code =>
    have hbreak : code ≠ 0xF0 := by
      rintro rfl
      exact absurd hunmarked (by decide)
    have hreq : code ≠ 0x12 := by
      rintro rfl
      exact absurd hfake (by decide)
    exact decide_eq_true (List.not_mem_cons_of_ne_of_not_mem hbreak (mt List.mem_singleton.1 hreq))
  | extended_brk code =>
    have hreq : code ≠ 0x7C := by
      rintro rfl
      exact absurd hfake (by decide)
    exact decide_eq_true hreq
  | print_make | print_brk | pause => rfl

theorem exists_parses_of_complete {q : Sequence} (hcomplete : q.complete = true) :
    ∃ actions, Parses q.codes actions := by
  obtain ⟨done, hreads, -⟩ := exists_reads_of_complete hcomplete
  exact ⟨[done], .of_reads hreads⟩

theorem exists_parses_code {code : uint8_t} (hmarks : code ∉ [0xE0, 0xE1, 0xF0, 0xFF]) :
    ∃ actions, Parses [code] actions := by
  have hcomplete : (Sequence.make code).complete = true := decide_eq_true hmarks
  exact exists_parses_of_complete hcomplete

/-- After `E0 12` the next call expects `E0 7C`. -/
theorem exists_parses_after_fake_make {q : Sequence} (hunmarked : q.unmarked = true) :
    ∃ actions, Parses (0xE0 :: 0x12 :: q.codes) actions := by
  cases q with
  | make code =>
    have hcode : (0xE0 : uint8_t) ≠ code := by
      rintro rfl
      exact absurd hunmarked (by decide)
    exact ⟨_, .of_reads (.sys_req_make (.deviate 0xE0 [0x7C] hcode))⟩
  | brk code =>
    obtain ⟨actions, hparses⟩ := exists_parses_code (of_decide_eq_true hunmarked)
    have hreads : Reads [0xE0, 0x12, 0xF0] .ignore := .sys_req_make (.deviate 0xE0 [0x7C] (by decide))
    exact ⟨_, .cons hreads hparses⟩
  | extended_make code =>
    by_cases hcode : (0x7C : uint8_t) = code
    · rw [← hcode]
      exact ⟨_, .of_reads (.sys_req_make (.all _ _))⟩
    · exact ⟨_, .of_reads (.sys_req_make (.next 0xE0 (.deviate 0x7C [] hcode)))⟩
  | extended_brk code =>
    obtain ⟨actions, hparses⟩ := exists_parses_code (of_decide_eq_true hunmarked)
    have hreads : Reads [0xE0, 0x12, 0xE0, 0xF0] .ignore :=
      .sys_req_make (.next 0xE0 (.deviate 0x7C [] (by decide)))
    exact ⟨_, .cons hreads hparses⟩
  | print_make => exact ⟨_, .of_scan rfl (.of_scan rfl .nil)⟩
  | print_brk => exact ⟨_, .of_scan rfl (.of_scan rfl (.of_scan rfl .nil))⟩
  | pause =>
    exact ⟨_, .of_scan rfl (.of_scan rfl (.of_scan rfl (.of_scan rfl (.of_scan rfl (.of_scan rfl .nil)))))⟩

/-- After `E0 F0 7C` the next call expects `E0 F0 12`. -/
theorem exists_parses_after_fake_break {q : Sequence} (hunmarked : q.unmarked = true) :
    ∃ actions, Parses (0xE0 :: 0xF0 :: 0x7C :: q.codes) actions := by
  cases q with
  | make code =>
    have hcode : (0xE0 : uint8_t) ≠ code := by
      rintro rfl
      exact absurd hunmarked (by decide)
    exact ⟨_, .of_reads (.sys_req_break (.deviate 0xE0 [0xF0, 0x12] hcode))⟩
  | brk code =>
    obtain ⟨actions, hparses⟩ := exists_parses_code (of_decide_eq_true hunmarked)
    have hreads : Reads [0xE0, 0xF0, 0x7C, 0xF0] .ignore :=
      .sys_req_break (.deviate 0xE0 [0xF0, 0x12] (by decide))
    exact ⟨_, .cons hreads hparses⟩
  | extended_make code =>
    have hcode : (0xF0 : uint8_t) ≠ code := by
      rintro rfl
      exact absurd hunmarked (by decide)
    exact ⟨_, .of_reads (.sys_req_break (.next 0xE0 (.deviate 0xF0 [0x12] hcode)))⟩
  | extended_brk code =>
    by_cases hcode : (0x12 : uint8_t) = code
    · rw [← hcode]
      exact ⟨_, .of_reads (.sys_req_break (.all _ _))⟩
    · exact ⟨_, .of_reads (.sys_req_break (.next 0xE0 (.next 0xF0 (.deviate 0x12 [] hcode))))⟩
  | print_make => exact ⟨_, .of_scan rfl (.of_scan rfl .nil)⟩
  | print_brk => exact ⟨_, .of_scan rfl (.of_scan rfl .nil)⟩
  | pause =>
    exact ⟨_, .of_scan rfl (.of_scan rfl (.of_scan rfl (.of_scan rfl (.of_scan rfl (.of_scan rfl .nil)))))⟩

theorem Sequence.codes_of_fake {f : Sequence} (hfake : f.fake = true) :
    f.codes = [0xE0, 0x12] ∨ f.codes = [0xE0, 0xF0, 0x7C] := by
  have hf : f = .extended_make 0x12 ∨ f = .extended_brk 0x7C := by simpa [Sequence.fake] using hfake
  obtain rfl | rfl := hf
  · exact Or.inl rfl
  · exact Or.inr rfl

/-- A fake makes the next call lose codes of the sequence after it, but never
more than that sequence: what is left of it is read in step. -/
theorem exists_parses_after_fake {f q : Sequence} (hfake : f.fake = true) (hunmarked : q.unmarked = true) :
    ∃ actions, Parses (f.codes ++ q.codes) actions := by
  obtain hcodes | hcodes := Sequence.codes_of_fake hfake
  · rw [hcodes]
    exact exists_parses_after_fake_make hunmarked
  · rw [hcodes]
    exact exists_parses_after_fake_break hunmarked

/-- A stream that ends in an even number of fakes is read to its end. One that
ends in an odd number leaves a call waiting with the last fake. -/
theorem exists_parses_stream (seqs : List Sequence) (hunmarked : ∀ q ∈ seqs, q.unmarked = true) :
    (Even (fakes_at_end seqs) → ∃ actions, Parses (seqs.flatMap Sequence.codes) actions) ∧
      (¬ Even (fakes_at_end seqs) → ∃ stream f actions, seqs.flatMap Sequence.codes = stream ++ Sequence.codes f ∧
        f.fake = true ∧ Parses stream actions) := by
  induction seqs using List.reverseRecOn with
  | nil => exact ⟨fun _ => ⟨[], .nil⟩, fun hodd => absurd (by decide) hodd⟩
  | append_singleton seqs q ih =>
    obtain ⟨iheven, ihodd⟩ := ih fun q' hq' => hunmarked q' (List.mem_append_left [q] hq')
    have hq := hunmarked q (List.mem_append_right seqs (List.mem_singleton_self q))
    -- after an odd number of fakes the last one and `q` are read together
    have hpair (hodd : ¬ Even (fakes_at_end seqs)) :
        ∃ actions, Parses (seqs.flatMap Sequence.codes ++ q.codes) actions := by
      obtain ⟨stream, f, actions, hstream, hf, hparses⟩ := ihodd hodd
      obtain ⟨more, hmore⟩ := exists_parses_after_fake hf hq
      rw [hstream, List.append_assoc]
      exact ⟨_, hparses.append hmore⟩
    rw [List.flatMap_append, List.flatMap_singleton, fakes_at_end_concat]
    cases hfake : q.fake with
    | true =>
      rw [if_pos rfl, Nat.even_add_one]
      refine ⟨hpair, fun heven => ?_⟩
      obtain ⟨actions, hparses⟩ := iheven (not_not.mp heven)
      exact ⟨_, q, actions, rfl, hfake, hparses⟩
    | false =>
      rw [if_neg Bool.false_ne_true]
      refine ⟨fun _ => ?_, fun hodd => absurd (by decide) hodd⟩
      by_cases heven : Even (fakes_at_end seqs)
      · obtain ⟨actions, hparses⟩ := iheven heven
        obtain ⟨more, hmore⟩ := exists_parses_of_complete (Sequence.complete_of_unmarked hq hfake)
        exact ⟨_, hparses.append hmore⟩
      · exact hpair heven

theorem unmarked_of_mapped {code : uint8_t} (hknown : (Key.plain code).hid_key ≠ KEY_UNKNOWN) :
    code ≠ 0xE0 ∧ code ≠ 0xE1 ∧ code ≠ 0xF0 ∧ code ≠ 0xFF := by
  refine ⟨?_, ?_, ?_, ?_⟩ <;> rintro rfl <;> exact hknown (by decide +kernel)

theorem perform_all_distinct (actions : List Action) {s : Translator}
    (hdistinct : Slots.Distinct KEY_UNKNOWN s.key_report.keycode) :
    Slots.Distinct KEY_UNKNOWN (perform_all s actions).key_report.keycode := by
  induction actions generalizing s with
  | nil => exact hdistinct
  | cons done actions ih => exact ih (done.perform_distinct hdistinct)

theorem perform_all_append (s : Translator) (actions more : List Action) :
    perform_all s (actions ++ more) = perform_all (perform_all s actions) more := List.foldl_append

/-- A fake right before a break swallows its `F0`. -/
theorem parses_fake_break {f : Sequence} (hfake : f.fake = true) {code key : uint8_t}
    (hcode : Reads [code] (.press_key key)) :
    Parses (f.codes ++ [0xF0, code]) [.ignore, .press_key key] := by
  obtain hcodes | hcodes := Sequence.codes_of_fake hfake
  · rw [hcodes]
    change Parses ([0xE0, 0x12, 0xF0] ++ [code]) _
    exact .cons (.sys_req_make (.deviate 0xE0 [0x7C] (by decide))) (.of_reads hcode)
  · rw [hcodes]
    change Parses ([0xE0, 0xF0, 0x7C, 0xF0] ++ [code]) _
    exact .cons (.sys_req_break (.deviate 0xE0 [0xF0, 0x12] (by decide))) (.of_reads hcode)

/-- A break of an ordinary key takes it out of the report if and only if an even
number of lone first halves of `PrtScr` sequences come right before it. After an
odd number its `F0` is swallowed and the key is pressed instead. -/
theorem break_releases_iff (seqs : List Sequence) (hunmarked : ∀ q ∈ seqs, q.unmarked = true)
    (code key : uint8_t) (hmapped : (Key.plain code).usage = some key) (simulate_input : uint8_t) :
    ∃ n t, ProcM.calls ps2_hid_translator_parse_next_scancode n (.initial simulate_input)
        ((seqs ++ [Sequence.brk code]).flatMap Sequence.codes) = some (t, []) ∧
      (key ∉ t.key_report.keycode ↔ Even (fakes_at_end seqs)) := by
  obtain ⟨hmod, hknown, rfl⟩ := Key.usage_eq_some hmapped
  obtain ⟨hext, hpause, hbreak, hlast⟩ := unmarked_of_mapped hknown
  have hcalls {actions : List Action}
      (hparses : Parses ((seqs ++ [Sequence.brk code]).flatMap Sequence.codes) actions) :=
    hparses.calls (.initial simulate_input) []
  rw [List.flatMap_append, List.flatMap_singleton, List.append_nil] at hcalls
  have hdistinct (actions : List Action) := perform_all_distinct actions (s := .initial simulate_input)
    (Slots.distinct_replicate KEY_UNKNOWN)
  rw [List.flatMap_append, List.flatMap_singleton]
  by_cases heven : Even (fakes_at_end seqs)
  · obtain ⟨actions, hparses⟩ := (exists_parses_stream seqs hunmarked).1 heven
    have hall := hparses.append (.of_reads (.release hmod (getElem?_hid_key hlast)))
    refine ⟨_, _, hcalls hall, iff_of_true ?_ heven⟩
    rw [perform_all_append]
    exact notMem_release_key hknown (hdistinct actions)
  · obtain ⟨stream, f, actions, hstream, hfake, hparses⟩ := (exists_parses_stream seqs hunmarked).2 heven
    have hpressed : Reads [code] (.press_key (Key.plain code).hid_key) :=
      .press hmod hext hbreak hpause (getElem?_hid_key hlast)
    have hall := hparses.append (parses_fake_break hfake hpressed)
    rw [← List.append_assoc, ← hstream] at hall
    refine ⟨_, _, hcalls hall, iff_of_false (not_not_intro ?_) heven⟩
    rw [perform_all_append]
    exact mem_press_key hknown _

/-- `A` is made and released with two fake shifts in between. -/
theorem break_releases_after_two_fakes :
    ∃ n t, ProcM.calls ps2_hid_translator_parse_next_scancode n (.initial 0)
        [0x1C, 0xE0, 0x12, 0xE0, 0x12, 0xF0, 0x1C] = some (t, []) ∧ KEY_A ∉ t.key_report.keycode := by
  obtain ⟨n, t, hcalls, hiff⟩ := break_releases_iff
    [.make 0x1C, .extended_make 0x12, .extended_make 0x12] (by decide) 0x1C KEY_A (by decide) 0
  exact ⟨n, t, hcalls, hiff.mpr (by decide)⟩

/-- `A` is made, a fake shift follows and `A` is released: it stays in the report. -/
theorem fake_shift_swallows_break :
    ∃ t, ProcM.calls ps2_hid_translator_parse_next_scancode 3 (.initial 0)
        (([.make 0x1C, .extended_make 0x12, .brk 0x1C] : List Sequence).flatMap Sequence.codes) = some (t, []) ∧
      ps2_scan_code_to_usb_hid_key[0x1C]? = some KEY_A ∧ KEY_A ∈ t.key_report.keycode :=
  ⟨_, rfl, by decide, mem_press_key (by decide) _⟩

end peripheral_hids.ps2_hid_translator
