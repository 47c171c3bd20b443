import PeripheralHids.HidTools.Print
import PeripheralHids.Lib.Threads
import PeripheralHids.Translator.Report

open peripheral_hids.hog peripheral_hids.bt_hid_tools peripheral_hids.ps2_hid_translator

namespace peripheral_hids

/-- The threads that hand reports to the service. -/
inductive Thread where
  | ps2_keyboard_thread
  | main
  deriving DecidableEq, Repr

/-- What they call in their loops, at any time: the memory of a string is that
from its first character on. -/
inductive Call where
  | parse_next_scancode
  | keyboard_print (str : List uint8_t)
  deriving DecidableEq, Repr

/-- The two threads on the statics of the translator and of the service, where a
write is a call of `hog_set_keyboard_input`. -/
def program : Program Thread Call uint8_t Translator where
  thread
    | .parse_next_scancode => .ps2_keyboard_thread
    | .keyboard_print _ => .main
  body
    | .parse_next_scancode => ps2_hid_translator_parse_next_scancode
    | .keyboard_print str => ProcM.lift Translator.hog (fun s h => { s with hog := h }) (keyboard_print str)
  clock s := s.hog.handed.length

/-- What each thread's writes establish: the translator hands over its report. -/
def Established : Thread → Translator → Prop
  | .ps2_keyboard_thread, s => s.hog.input_keyboard = s.key_report
  | .main, _ => True

/-- How each thread's calls end: `keyboard_print` with all keys released. -/
def Ended : Thread → Translator → Prop
  | .ps2_keyboard_thread, _ => True
  | .main, s => s.hog.input_keyboard = .zero

/-- A part of the parser that hands over the translator's report whenever it
hands over one. -/
def Publishing {α : Type} (m : TranslatorM α) : Prop :=
  m.Guarantees (Writes program.clock (Established .ps2_keyboard_thread)) fun _ _ => True

theorem publishing_modify {f : Translator → Translator} {R : hids_report_keyboard → hids_report_keyboard → Prop}
    (hf : ∀ s, Publishes R s (f s)) : Publishing (ProcM.modify f) := by
  refine ProcM.guarantees_modify (fun s => ?_) fun _ => trivial
  obtain hsame | ⟨report, -, hpublish⟩ := hf s
  · exact Or.inl hsame
  · rw [hpublish]
    refine Or.inr ⟨?_, Translator.publish_input_keyboard _⟩
    simp only [program, Translator.publish_handed, List.length_append, List.length_singleton]
    exact Nat.lt_succ_self _

theorem publishing_match_codes (codes : List uint8_t) : Publishing (match_codes codes) := by
  induction codes with
  | nil => exact ProcM.guarantees_pure fun _ => trivial
  | cons expected codes ih =>
    refine ProcM.guarantees_next.andThen fun code => ?_
    split
    · exact ProcM.guarantees_pure fun _ => trivial
    · exact ih

theorem publishing_press_pause_break : Publishing press_pause_break := by
  refine (publishing_modify (press_key_publishes KEY_PAUSE)).andThen fun _ => ?_
  refine ProcM.guarantees_sleep.andThen fun _ => ?_
  exact publishing_modify (release_key_publishes KEY_PAUSE)

/-- The rest of a multi-code sequence and what is done at its end. -/
theorem publishing_matched (codes : List uint8_t) {m : TranslatorM Unit} (hm : Publishing m) :
    Publishing (do if ← match_codes codes then m) := by
  refine (publishing_match_codes codes).andThen fun matched => ?_
  split
  · exact hm
  · exact ProcM.guarantees_pure fun _ => trivial

theorem publishing_parse_next_scancode : Publishing ps2_hid_translator_parse_next_scancode := by
  refine ProcM.guarantees_next.andThen fun code => ?_
  split
  · refine (ProcM.guarantees_checked _).andThen fun key => ?_
    exact publishing_modify (press_mod_key_publishes key)
  split
  · refine ProcM.guarantees_next.andThen fun code => ?_
    split
    · refine ProcM.guarantees_next.andThen fun code => ?_
      split
      · exact publishing_matched _ (publishing_modify (release_key_publishes KEY_SYSRQ))
      dsimp only
      split
      · exact publishing_modify (release_mod_key_publishes _)
      · exact publishing_modify (release_key_publishes _)
    split
    · exact publishing_matched _ (publishing_modify (press_key_publishes KEY_SYSRQ))
    dsimp only
    split
    · exact publishing_modify (press_mod_key_publishes _)
    · exact publishing_modify (press_key_publishes _)
  split
  · refine ProcM.guarantees_next.andThen fun code => ?_
    refine (ProcM.guarantees_checked _).andThen fun key => ?_
    split
    · exact publishing_modify (release_mod_key_publishes key)
    · exact publishing_modify (release_key_publishes key)
  split
  · exact publishing_matched _ publishing_press_pause_break
  · refine (ProcM.guarantees_checked _).andThen fun key => ?_
    exact publishing_modify (press_key_publishes key)

/-- Changes of the service by calls of `hog_set_keyboard_input` only. -/
abbrev HandsOver : Hog → Hog → Prop := Writes (fun h => h.handed.length) fun _ => True

theorem hog_set_keyboard_input_guarantees (report : hids_report_keyboard) :
    (ProcM.modify (hog_set_keyboard_input · report) : ProcM uint8_t Hog Unit).Guarantees HandsOver
      fun _ h => h.input_keyboard = report := by
  refine ProcM.guarantees_modify (fun h => Or.inr ⟨?_, trivial⟩) fun h => ?_
  · simp only [hog_set_keyboard_input_handed, List.length_append, List.length_singleton]
    exact Nat.lt_succ_self _
  · exact hog_set_keyboard_input_input_keyboard h report

/-- The loop keeps a report of its own in which only the last slot is used. -/
theorem keyboard_print_loop_guarantees (str : List uint8_t) (old : uint8_t) :
    (keyboard_print_loop (ι := uint8_t) (single_key old) str).Guarantees HandsOver
      fun key_report _ => ∃ key, key_report = single_key key := by
  induction str generalizing old with
  | nil => exact fun _ => trivial
  | cons ascii str ih =>
    rw [keyboard_print_loop]
    split
    · exact ProcM.guarantees_pure fun _ => ⟨old, rfl⟩
    · simp only [set_last_keycode_single_key]
      refine (hog_set_keyboard_input_guarantees _).andThen fun _ => ?_
      refine ProcM.guarantees_sleep.andThen fun _ => ?_
      refine (hog_set_keyboard_input_guarantees _).andThen fun _ => ?_
      refine ProcM.guarantees_sleep.andThen fun _ => ?_
      exact ih _

theorem keyboard_print_guarantees (str : List uint8_t) :
    (keyboard_print (ι := uint8_t) str).Guarantees HandsOver fun _ h => h.input_keyboard = .zero := by
  refine (keyboard_print_loop_guarantees str 0).bind fun key_report h hsingle => ?_
  obtain ⟨key, rfl⟩ := hsingle
  rw [set_last_keycode_single_key]
  exact hog_set_keyboard_input_guarantees (single_key 0) h

theorem lift_keyboard_print_guarantees (str : List uint8_t) :
    (ProcM.lift (ι := uint8_t) Translator.hog (fun s h => { s with hog := h }) (keyboard_print str)).Guarantees
      (Writes program.clock (Established .main)) fun _ => Ended .main := by
  refine (keyboard_print_guarantees str).lift (fun s h hwrites => ?_) fun _ _ _ hzero => hzero
  obtain rfl | hwrite := hwrites
  · exact Or.inl rfl
  · exact Or.inr hwrite

theorem body_guarantees (call : Call) :
    (program.body call).Guarantees (Writes program.clock (Established (program.thread call)))
      fun _ => Ended (program.thread call) := by
  cases call with
  | parse_next_scancode => exact publishing_parse_next_scancode
  | keyboard_print str => exact lift_keyboard_print_guarantees str

/-- While no `keyboard_print` is in progress, the service's report is that of the
translator, or all zero if `keyboard_print` was the last to hand over one. -/
theorem input_keyboard_between_prints (simulate_input : uint8_t) (turns : List (Turn Thread Call uint8_t))
    (hidle : (Pool.interleave program (.initial simulate_input) turns).threads .main = .idle) :
    ((Pool.interleave program (.initial simulate_input) turns).writer = some .main →
        (Pool.interleave program (.initial simulate_input) turns).state.hog.input_keyboard = .zero) ∧
      ((Pool.interleave program (.initial simulate_input) turns).writer ≠ some .main →
        (Pool.interleave program (.initial simulate_input) turns).state.hog.input_keyboard =
          (Pool.interleave program (.initial simulate_input) turns).state.key_report) := by
  have hattributed := Pool.attributed_interleave body_guarantees (.initial simulate_input) turns
  refine ⟨fun hmain => hattributed.returned .main hmain hidle, fun hother => ?_⟩
  cases hwriter : (Pool.interleave program (.initial simulate_input) turns).writer with
  | none =>
    rw [hattributed.unwritten hwriter]
    rfl
  | some thread =>
    cases thread with
    | ps2_keyboard_thread => exact hattributed.written .ps2_keyboard_thread hwriter
    | main => exact absurd hwriter hother

/-- `A` is pressed while `a` is being printed. -/
theorem press_during_print :
    (Pool.interleave program (.initial 1) [.call .parse_next_scancode, .call (.keyboard_print [97, 0]),
        .input .ps2_keyboard_thread 0x1C, .wake .main, .wake .main]).state.hog.input_keyboard = .zero :=
  (input_keyboard_between_prints 1 [.call .parse_next_scancode, .call (.keyboard_print [97, 0]),
    .input .ps2_keyboard_thread 0x1C, .wake .main, .wake .main] rfl).1 rfl

/-- `A` is held across a `keyboard_print`: it is still in the translator's report
afterwards, and not in the one handed over last. -/
theorem held_key_lost_by_print :
    ∃ c, Pool.interleave program (.initial 1) [.call .parse_next_scancode, .input .ps2_keyboard_thread 0x1C,
        .call (.keyboard_print [97, 0]), .wake .main, .wake .main] = c ∧
      c.threads .main = .idle ∧ c.state.key_report = single_key KEY_A ∧ c.state.hog.input_keyboard = .zero ∧
      c.state.hog.input_keyboard ≠ c.state.key_report :=
  ⟨_, rfl, rfl, rfl, rfl, by decide⟩

end peripheral_hids
