import Mathlib.Data.List.Chain
import PeripheralHids.Translator.Invariant

open peripheral_hids.hog

namespace peripheral_hids.ps2_hid_translator

/-- Two reports that differ in at most one of their eight bytes. -/
def DifferAtMostOnce (a b : hids_report_keyboard) : Prop :=
  ∀ i j : Nat, a.bytes[i]? ≠ b.bytes[i]? → a.bytes[j]? ≠ b.bytes[j]? → i = j

theorem DifferInModifier.atMostOnce {a b : hids_report_keyboard} (hdiffer : DifferInModifier a b) :
    DifferAtMostOnce a b := by
  have hfirst (i : Nat) (hi : a.bytes[i]? ≠ b.bytes[i]?) : i = 0 := by
    cases i with
    | zero => rfl
    | succ i =>
      have hsame : a.bytes[i + 1]? = b.bytes[i + 1]? := by
        rw [hids_report_keyboard.bytes, hids_report_keyboard.bytes, List.getElem?_cons_succ,
          List.getElem?_cons_succ, hdiffer.1, hdiffer.2]
      exact absurd hsame hi
  intro i j hi hj
  rw [hfirst i hi, hfirst j hj]

theorem DifferInOneKeycode.atMostOnce {a b : hids_report_keyboard} (hdiffer : DifferInOneKeycode a b) :
    DifferAtMostOnce a b := by
  obtain ⟨hmodifier, hreserved, slot, -, hslot⟩ := hdiffer
  have honly (i : Nat) (hi : a.bytes[i]? ≠ b.bytes[i]?) : i = slot + 2 := by
    match i with
    | 0 => exact absurd (congrArg some hmodifier) hi
    | 1 => exact absurd (congrArg some hreserved) hi
    | k + 2 =>
      by_cases hk : k < 6
      · have hkeycode : a.keycode[k] ≠ b.keycode[k] := by
          intro heq
          apply hi
          simp [hids_report_keyboard.bytes, hk, heq]
        have hk : k = slot := congrArg Fin.val (hslot ⟨k, hk⟩ hkeycode)
        rw [hk]
      · exact absurd (by simp [hids_report_keyboard.bytes, hk]) hi
  intro i j hi hj
  rw [honly i hi, honly j hj]

/-- The reports that some operations handed over, one after another: each differs
from the one before by `R`, and the last is the report they left. -/
structure Emits (R : hids_report_keyboard → hids_report_keyboard → Prop) (s : Translator)
    (emitted : List hids_report_keyboard) (t : Translator) : Prop where
  handed : t.hog.handed = s.hog.handed ++ emitted
  chain : (s.key_report :: emitted).IsChain R
  last : (s.key_report :: emitted).getLast (List.cons_ne_nil _ _) = t.key_report
  input_keyboard : s.hog.input_keyboard = s.key_report → t.hog.input_keyboard = t.key_report

theorem Publishes.emits {R : hids_report_keyboard → hids_report_keyboard → Prop} {s t : Translator}
    (hpublishes : Publishes R s t) : ∃ emitted, Emits R s emitted t := by
  obtain rfl | ⟨report, hR, rfl⟩ := hpublishes
  · exact ⟨[], by simp, .singleton _, rfl, id⟩
  · exact ⟨[report], by simp, List.isChain_pair.mpr hR, rfl, fun _ => by simp⟩

theorem Emits.trans {R : hids_report_keyboard → hids_report_keyboard → Prop} {s t u : Translator}
    {emitted more : List hids_report_keyboard} (hfirst : Emits R s emitted t) (hnext : Emits R t more u) :
    Emits R s (emitted ++ more) u where
  handed := by rw [hnext.handed, hfirst.handed, List.append_assoc]
  chain := by
    obtain ⟨hjoin, hmore⟩ := List.isChain_cons.mp hnext.chain
    rw [← List.cons_append, List.isChain_append]
    refine ⟨hfirst.chain, hmore, fun report hreport => ?_⟩
    rw [List.getLast?_eq_getLast_of_ne_nil (List.cons_ne_nil _ _), hfirst.last] at hreport
    obtain rfl := Option.mem_some.mp hreport
    exact hjoin
  last := by
    cases more with
    | nil =>
      have hlast := hfirst.last.trans hnext.last
      simpa using hlast
    | cons report more =>
      have hlast := hnext.last
      simpa using hlast
  input_keyboard := fun hsame => hnext.input_keyboard (hfirst.input_keyboard hsame)

theorem Emits.imp {R S : hids_report_keyboard → hids_report_keyboard → Prop} (himp : ∀ a b, R a b → S a b)
    {s t : Translator} {emitted : List hids_report_keyboard} (hemits : Emits R s emitted t) :
    Emits S s emitted t :=
  ⟨hemits.handed, hemits.chain.imp himp, hemits.last, hemits.input_keyboard⟩

theorem Action.emits_modifier {done : Action} (hmod : done.is_modifier = true) (s : Translator) :
    ∃ emitted, Emits DifferInModifier s emitted (done.perform s) := by
  cases done with
  | press_mod_key key => exact (press_mod_key_publishes key s).emits
  | release_mod_key key => exact (release_mod_key_publishes key s).emits
  | ignore | press_key key | release_key key | press_pause_break => cases hmod

theorem Action.emits_ordinary {done : Action} (hmod : done.is_modifier = false) (s : Translator) :
    ∃ emitted, Emits DifferInOneKeycode s emitted (done.perform s) := by
  cases done with
  | press_mod_key key | release_mod_key key => cases hmod
  | ignore => exact Publishes.emits (Or.inl rfl)
  | press_key key => exact (press_key_publishes key s).emits
  | release_key key => exact (release_key_publishes key s).emits
  | press_pause_break =>
    obtain ⟨pressed, hpressed⟩ := (press_key_publishes KEY_PAUSE s).emits
    obtain ⟨released, hreleased⟩ :=
      (release_key_publishes KEY_PAUSE (ps2_hid_translator.press_key KEY_PAUSE s)).emits
    exact ⟨pressed ++ released, hpressed.trans hreleased⟩

theorem Action.emits (done : Action) (s : Translator) :
    ∃ emitted, Emits DifferAtMostOnce s emitted (done.perform s) := by
  cases hmod : done.is_modifier with
  | true =>
    obtain ⟨emitted, hemits⟩ := done.emits_modifier hmod s
    exact ⟨emitted, hemits.imp fun _ _ => DifferInModifier.atMostOnce⟩
  | false =>
    obtain ⟨emitted, hemits⟩ := done.emits_ordinary hmod s
    exact ⟨emitted, hemits.imp fun _ _ => DifferInOneKeycode.atMostOnce⟩

theorem emits_of_calls {simulate_input : uint8_t} {n : Nat} {stream rest : List uint8_t} {t : Translator}
    (hcalls : ProcM.calls ps2_hid_translator_parse_next_scancode n (.initial simulate_input) stream =
      some (t, rest)) : Emits DifferAtMostOnce (.initial simulate_input) t.hog.handed t := by
  refine ProcM.calls_invariant
    (P := fun s _ => Emits DifferAtMostOnce (.initial simulate_input) s.hog.handed s) ?_ ?_ hcalls
  · intro s inp u left hemits hrun
    obtain ⟨codes, done, -, -, rfl⟩ := reads_of_run hrun
    obtain ⟨emitted, hnext⟩ := done.emits s
    rw [hnext.handed]
    exact hemits.trans hnext
  · exact ⟨rfl, .singleton _, rfl, id⟩

/-- A stroke on an ordinary key that does not change the report: an unmapped
key, a make of a key already in it, a break of a key not in it. -/
def Silent (e : Stroke Key) (report : hids_report_keyboard) : Prop :=
  e.key.is_modifier = false ∧
    (e.key.hid_key = KEY_UNKNOWN ∨ (e.down = true ↔ e.key.hid_key ∈ report.keycode))

theorem Silent.perform {e : Stroke Key} {s : Translator} (hsilent : Silent e s.key_report) :
    (action e).perform s = s := by
  obtain ⟨k, down⟩ := e
  obtain ⟨hmod, hsame⟩ := hsilent
  cases down with
  | true =>
    rw [action_make hmod]
    obtain ⟨-, heq⟩ | ⟨hknown, hnew, -⟩ := press_key_cases k.hid_key s
    · exact heq
    · exact absurd ((hsame.resolve_left hknown).mp rfl) hnew
  | false =>
    rw [action_break hmod]
    obtain ⟨-, heq⟩ | ⟨hknown, i, hslot, -⟩ := release_key_cases k.hid_key s
    · exact heq
    · have hin := (Slots.mem_iff _ _).mpr ⟨i, hslot⟩
      exact absurd ((hsame.resolve_left hknown).mpr hin) Bool.false_ne_true

/-- The stream of reports has no gaps and is fine-grained: after every call the
last report handed over, and the copy that the service keeps, is the report of
the translator; consecutive reports differ in at most one byte; and a call for
an ordinary key hands over reports that each differ in exactly one keycode, none
if it has nothing to change. -/
theorem report_stream (stream : List uint8_t) (hff : 0xFF ∉ stream) (simulate_input : uint8_t) :
    (∃ n t rest, ProcM.calls ps2_hid_translator_parse_next_scancode n (.initial simulate_input) stream =
        some (t, rest) ∧ ps2_hid_translator_parse_next_scancode.run t rest = .blocked t) ∧
    ∀ n t rest, ProcM.calls ps2_hid_translator_parse_next_scancode n (.initial simulate_input) stream =
        some (t, rest) →
      (.zero :: t.hog.handed).getLast (List.cons_ne_nil _ _) = t.key_report ∧
      t.hog.input_keyboard = t.key_report ∧
      (.zero :: t.hog.handed).IsChain DifferAtMostOnce ∧
      ∀ u codes later, rest = codes ++ later →
        ps2_hid_translator_parse_next_scancode.run t rest = .returned u () later →
        ∃ emitted, u.hog.handed = t.hog.handed ++ emitted ∧
          (codes ∉ modifier_sequences → (t.key_report :: emitted).IsChain DifferInOneKeycode) ∧
          ∀ (q : Sequence) e, q.complete = true → q.codes = codes → q.strokes = [e] → Silent e t.key_report →
            emitted = [] := by
  refine ⟨exists_calls_wait hff _, fun n t rest hcalls => ?_⟩
  have hemits := emits_of_calls hcalls
  refine ⟨hemits.last, hemits.input_keyboard rfl, hemits.chain, fun u codes later hrest hrun => ?_⟩
  obtain ⟨emitted, hhanded, hchain⟩ : ∃ emitted, u.hog.handed = t.hog.handed ++ emitted ∧
      (codes ∉ modifier_sequences → (t.key_report :: emitted).IsChain DifferInOneKeycode) := by
    obtain ⟨read, done, hread, hreads, rfl⟩ := reads_of_run hrun
    obtain rfl : codes = read := List.append_cancel_right (hrest.symm.trans hread)
    cases hmod : done.is_modifier with
    | true =>
      obtain ⟨emitted, hdone⟩ := done.emits_modifier hmod t
      exact ⟨emitted, hdone.handed, fun hother => absurd (hreads.is_modifier.mp hmod) hother⟩
    | false =>
      obtain ⟨emitted, hdone⟩ := done.emits_ordinary hmod t
      exact ⟨emitted, hdone.handed, fun _ => hdone.chain⟩
  refine ⟨emitted, hhanded, hchain, fun q e hcomplete hcodes hstrokes hsilent => ?_⟩
  rw [hrest, ← hcodes, run_complete hcomplete, hstrokes] at hrun
  have hsame : t = u := by
    rw [← hsilent.perform]
    injection hrun
  rw [← hsame] at hhanded
  exact List.self_eq_append_right.mp hhanded

/-- `A` is made and repeats. -/
theorem report_stream_repeat :
    ∃ t u, ProcM.calls ps2_hid_translator_parse_next_scancode 1 (.initial 0) [0x1C, 0x1C] = some (t, [0x1C]) ∧
      ps2_hid_translator_parse_next_scancode.run t [0x1C] = .returned u () [] ∧ u.hog.handed = t.hog.handed := by
  refine ⟨_, _, rfl, rfl, ?_⟩
  obtain ⟨-, -, -, hcall⟩ := (report_stream [0x1C, 0x1C] (by decide) 0).2 1 _ _ rfl
  obtain ⟨emitted, hhanded, -, hsilent⟩ := hcall _ [0x1C] [] rfl rfl
  rw [hsilent (.make 0x1C) ⟨.plain 0x1C, true⟩ (by decide) rfl rfl ?_, List.append_nil] at hhanded
  · exact hhanded
  · exact ⟨by decide, Or.inr (iff_of_true rfl (mem_press_key (by decide) _))⟩

end peripheral_hids.ps2_hid_translator
