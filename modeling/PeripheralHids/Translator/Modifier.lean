import PeripheralHids.Lib.Mask
import PeripheralHids.Translator.Pressed

open peripheral_hids.hog

namespace peripheral_hids.ps2_hid_translator

/-- The bit that the HID modifier byte has for each modifier key. -/
def modifier_bits : List (Key × uint8_t) := [
  (.plain 0x14, KEY_MOD_LCTRL), (.plain 0x12, KEY_MOD_LSHIFT), (.plain 0x11, KEY_MOD_LALT),
  (.extended 0x1F, KEY_MOD_LMETA), (.extended 0x14, KEY_MOD_RCTRL), (.plain 0x59, KEY_MOD_RSHIFT),
  (.extended 0x11, KEY_MOD_RALT), (.extended 0x27, KEY_MOD_RMETA)]

/-- The bits of the modifier keys that are held, what the byte should be. -/
def held_bits (strokes : List (Stroke Key)) : uint8_t := Mask.union modifier_bits (Stroke.held strokes)

def Key.bit (k : Key) : uint8_t := Mask.union modifier_bits fun k' => k' = k

theorem held_bits_concat (strokes : List (Stroke Key)) (e : Stroke Key) :
    held_bits (strokes ++ [e]) =
      if e.down then held_bits strokes ||| e.key.bit else held_bits strokes &&& ~~~e.key.bit := by
  cases hdown : e.down with
  | true =>
    apply Mask.union_insert
    intro k
    rw [Stroke.held_concat, hdown]
  | false =>
    apply Mask.union_erase (by unfold Mask.Owned; decide)
    intro k
    rw [Stroke.held_concat, hdown]

theorem plain_bit_of_modifier {code : uint8_t} (hmod : is_modifier_code code = true) :
    (Key.plain code).bit = (Key.plain code).hid_key ∧ (Key.plain code).bit &&& 0xD8 = 0 := by
  obtain rfl | rfl | rfl | rfl := of_decide_eq_true hmod <;> decide

theorem Key.bit_of_ordinary {k : Key} (hmod : k.is_modifier = false) : k.bit = 0 := by
  have hkeys : ∀ m ∈ modifier_bits, m.1.is_modifier = true := by decide
  refine Mask.union_eq_zero fun m hm => decide_eq_false ?_
  rintro rfl
  exact Bool.false_ne_true (hmod.symm.trans (hkeys m hm))

/-- The usages of the extended modifiers as masks: pressing one never sets just
its own bit, and releasing one clears the bits of others that are set. -/
theorem extended_modifier_mask (code : uint8_t)
    (hmod : is_extended_modifier (ps2_extended_code_to_hid_key code) = true) :
    ∀ m : uint8_t, m &&& 0xD8 = 0 →
      m ||| ps2_extended_code_to_hid_key code ≠ m ||| (Key.extended code).bit ∧
      m &&& ~~~(Key.extended code).bit = m ∧
      (m &&& ~~~ps2_extended_code_to_hid_key code = m ↔ m &&& ps2_extended_code_to_hid_key code = 0) := by
  have hcode := (is_extended_modifier_iff code).mp hmod
  simp only [List.mem_cons, List.not_mem_nil, or_false] at hcode
  obtain rfl | rfl | rfl | rfl := hcode <;> decide +kernel

/-- What a sequence must not do for the modifier byte to stay exact: press an
extended modifier, or release one whose usage, taken as a mask, has the bit of a
modifier that is held. -/
def Sequence.Undisturbing (q : Sequence) (earlier : List (Stroke Key)) : Prop :=
  match q with
  | .extended_make code => is_extended_modifier (ps2_extended_code_to_hid_key code) = false
  | .extended_brk code => is_extended_modifier (ps2_extended_code_to_hid_key code) = true →
    held_bits earlier &&& ps2_extended_code_to_hid_key code = 0
  | _ => True

def ModifierSafe (seqs : List Sequence) : Prop :=
  ∀ earlier q, earlier ++ [q] <+: seqs → q.Undisturbing (earlier.flatMap Sequence.strokes)

theorem modifierSafe_nil : ModifierSafe [] := by
  intro earlier q hnil
  have hlength := hnil.length_le
  simp at hlength

theorem modifierSafe_concat (seqs : List Sequence) (q : Sequence) :
    ModifierSafe (seqs ++ [q]) ↔ ModifierSafe seqs ∧ q.Undisturbing (seqs.flatMap Sequence.strokes) := by
  constructor
  · intro hsafe
    refine ⟨fun earlier q' hbefore => ?_, hsafe seqs q (List.prefix_refl _)⟩
    exact hsafe earlier q' (hbefore.trans (List.prefix_append seqs [q]))
  · rintro ⟨hsafe, hlast⟩ earlier q' hbefore
    rw [List.prefix_concat_iff] at hbefore
    obtain heq | hbefore := hbefore
    · obtain ⟨rfl, hq⟩ := List.append_inj' heq rfl
      cases hq
      exact hlast
    · exact hsafe earlier q' hbefore

/-- A key for which the translator has the right bit, or none. -/
structure Key.Exact (k : Key) : Prop where
  bit_eq : k.bit = if k.is_modifier then k.hid_key else 0
  not_extended : k.bit &&& 0xD8 = 0

theorem Key.exact_plain (code : uint8_t) : (Key.plain code).Exact := by
  cases hmod : is_modifier_code code with
  | true =>
    obtain ⟨hbit, hbits⟩ := plain_bit_of_modifier hmod
    exact ⟨hbit.trans (if_pos hmod).symm, hbits⟩
  | false =>
    have hbit := Key.bit_of_ordinary (k := .plain code) hmod
    exact ⟨hbit.trans (if_neg (Bool.eq_false_iff.mp hmod)).symm, by rw [hbit]; rfl⟩

theorem Key.exact_extended {code : uint8_t}
    (hmod : is_extended_modifier (ps2_extended_code_to_hid_key code) = false) : (Key.extended code).Exact := by
  have hbit := Key.bit_of_ordinary (k := .extended code) hmod
  exact ⟨hbit.trans (if_neg (Bool.eq_false_iff.mp hmod)).symm, by rw [hbit]; rfl⟩

theorem Key.exact_print_screen : Key.print_screen.Exact := ⟨rfl, rfl⟩

theorem Key.exact_pause : Key.pause.Exact := ⟨rfl, rfl⟩

/-- The byte is exact after some strokes and none of the extended modifiers is
held. -/
structure ExactFor (strokes : List (Stroke Key)) (s : Translator) : Prop where
  modifier_eq : s.key_report.modifier = held_bits strokes
  not_extended : held_bits strokes &&& 0xD8 = 0

theorem held_bits_break_not_extended {strokes : List (Stroke Key)} (hbits : held_bits strokes &&& 0xD8 = 0)
    (k : Key) : held_bits (strokes ++ [⟨k, false⟩]) &&& 0xD8 = 0 := by
  rw [held_bits_concat, if_neg Bool.false_ne_true, BitVec.and_assoc, BitVec.and_comm (~~~_), ← BitVec.and_assoc,
    hbits]
  exact BitVec.zero_and

theorem ExactFor.stroke {strokes : List (Stroke Key)} {s : Translator} (hexact : ExactFor strokes s) {k : Key}
    (hk : k.Exact) (down : Bool) : ExactFor (strokes ++ [⟨k, down⟩]) ((action ⟨k, down⟩).perform s) := by
  refine ⟨?_, ?_⟩
  · rw [perform_action_modifier, held_bits_concat, hexact.modifier_eq, hk.bit_eq]
    cases k.is_modifier with
    | true => rfl
    | false =>
      cases down with
      | true => exact BitVec.or_zero.symm
      | false =>
        have hkept : held_bits strokes &&& ~~~(0 : uint8_t) = held_bits strokes := by
          rw [show ~~~(0 : uint8_t) = BitVec.allOnes 8 from rfl, BitVec.and_allOnes]
        exact hkept.symm
  · cases down with
    | true =>
      rw [held_bits_concat, if_pos rfl, BitVec.and_or_distrib_right, hexact.not_extended, hk.not_extended]
      rfl
    | false => exact held_bits_break_not_extended hexact.not_extended k

/-- From an exact byte, one sequence leads to an exact byte if and only if it
does not disturb. -/
theorem ExactFor.sequence {strokes : List (Stroke Key)} {s : Translator} (hexact : ExactFor strokes s)
    (q : Sequence) :
    ((typed s q.strokes).key_report.modifier = held_bits (strokes ++ q.strokes) ↔ q.Undisturbing strokes) ∧
      (q.Undisturbing strokes → ExactFor (strokes ++ q.strokes) (typed s q.strokes)) := by
  have hof (hnext : ExactFor (strokes ++ q.strokes) (typed s q.strokes)) (hq : q.Undisturbing strokes) :
      ((typed s q.strokes).key_report.modifier = held_bits (strokes ++ q.strokes) ↔ q.Undisturbing strokes) ∧
        (q.Undisturbing strokes → ExactFor (strokes ++ q.strokes) (typed s q.strokes)) :=
    ⟨iff_of_true hnext.modifier_eq hq, fun _ => hnext⟩
  cases q with
  | make code => exact hof (hexact.stroke (Key.exact_plain code) true) trivial
  | brk code => exact hof (hexact.stroke (Key.exact_plain code) false) trivial
  | print_make => exact hof (hexact.stroke Key.exact_print_screen true) trivial
  | print_brk => exact hof (hexact.stroke Key.exact_print_screen false) trivial
  | pause =>
    have hboth := (hexact.stroke Key.exact_pause true).stroke Key.exact_pause false
    rw [List.append_assoc] at hboth
    exact hof hboth trivial
  | extended_make code =>
    cases hmod : is_extended_modifier (ps2_extended_code_to_hid_key code) with
    | false => exact hof (hexact.stroke (Key.exact_extended hmod) true) hmod
    | true =>
      have hdisturbs : ¬ (Sequence.extended_make code).Undisturbing strokes := Bool.eq_false_iff.not_left.mpr hmod
      refine ⟨iff_of_false ?_ hdisturbs, fun hq => absurd hq hdisturbs⟩
      obtain ⟨hne, -, -⟩ := extended_modifier_mask code hmod _ hexact.not_extended
      have hpressed := perform_action_modifier ⟨.extended code, true⟩ s
      rw [Key.is_modifier, hmod, if_pos rfl, if_pos rfl, hexact.modifier_eq] at hpressed
      intro heq
      rw [Sequence.strokes, held_bits_concat, if_pos rfl] at heq
      exact hne (hpressed.symm.trans heq)
  | extended_brk code =>
    cases hmod : is_extended_modifier (ps2_extended_code_to_hid_key code) with
    | false =>
      exact hof (hexact.stroke (Key.exact_extended hmod) false) (fun hmod' => absurd hmod' (by simp [hmod]))
    | true =>
      obtain ⟨-, hkept, hcleared⟩ := extended_modifier_mask code hmod _ hexact.not_extended
      have hreleased := perform_action_modifier ⟨.extended code, false⟩ s
      rw [Key.is_modifier, hmod, if_pos rfl, if_neg Bool.false_ne_true, hexact.modifier_eq] at hreleased
      have hbits : held_bits (strokes ++ [⟨.extended code, false⟩]) = held_bits strokes := by
        rw [held_bits_concat, if_neg Bool.false_ne_true]
        exact hkept
      have hiff : (typed s [⟨.extended code, false⟩]).key_report.modifier =
          held_bits (strokes ++ [⟨.extended code, false⟩]) ↔
            (Sequence.extended_brk code).Undisturbing strokes := by
        rw [hbits, typed, List.foldl_cons, List.foldl_nil, hreleased, Sequence.Undisturbing, hmod]
        exact hcleared.trans ⟨fun hclear _ => hclear, fun hclear => hclear rfl⟩
      refine ⟨hiff, fun hq => ⟨hiff.mpr hq, ?_⟩⟩
      exact held_bits_break_not_extended hexact.not_extended _

/-- The byte is exact after every sequence if and only if every sequence, with
what came before it, does not disturb. -/
theorem typed_modifier_exact_iff (simulate_input : uint8_t) (seqs : List Sequence) :
    ((∀ earlier, earlier <+: seqs →
        (typed (.initial simulate_input) (earlier.flatMap Sequence.strokes)).key_report.modifier =
          held_bits (earlier.flatMap Sequence.strokes)) ↔ ModifierSafe seqs) ∧
      (ModifierSafe seqs → ExactFor (seqs.flatMap Sequence.strokes)
        (typed (.initial simulate_input) (seqs.flatMap Sequence.strokes))) := by
  induction seqs using List.reverseRecOn with
  | nil =>
    refine ⟨iff_of_true (fun earlier hnil => ?_) modifierSafe_nil, fun _ => ⟨rfl, rfl⟩⟩
    rw [List.prefix_nil.mp hnil]
    rfl
  | append_singleton seqs q ih =>
    obtain ⟨ihiff, ihexact⟩ := ih
    rw [modifierSafe_concat, List.flatMap_append, List.flatMap_singleton, typed_append]
    refine ⟨⟨fun hall => ?_, fun hsafe earlier hearlier => ?_⟩, fun hsafe => ?_⟩
    · have hsafe := ihiff.mp fun earlier hearlier => hall earlier (hearlier.trans (List.prefix_append seqs [q]))
      have hlast := hall (seqs ++ [q]) (List.prefix_refl _)
      rw [List.flatMap_append, List.flatMap_singleton, typed_append] at hlast
      exact ⟨hsafe, ((ihexact hsafe).sequence q).1.mp hlast⟩
    · rw [List.prefix_concat_iff] at hearlier
      obtain rfl | hearlier := hearlier
      · rw [List.flatMap_append, List.flatMap_singleton, typed_append]
        exact ((ihexact hsafe.1).sequence q).1.mpr hsafe.2
      · exact ihiff.mpr hsafe.1 earlier hearlier
    · exact ((ihexact hsafe.1).sequence q).2 hsafe.2

/-- The modifier byte has exactly the bits of the held modifiers after every call
if and only if no extended modifier is ever pressed and none is released while a
modifier with a bit in its usage is held. -/
theorem modifier_exact_iff (seqs : List Sequence) (hcomplete : ∀ q ∈ seqs, q.complete = true)
    (simulate_input : uint8_t) :
    (∀ n ≤ seqs.length, ∃ t, ProcM.calls ps2_hid_translator_parse_next_scancode n (.initial simulate_input)
        (seqs.flatMap Sequence.codes) = some (t, (seqs.drop n).flatMap Sequence.codes) ∧
      t.key_report.modifier = held_bits ((seqs.take n).flatMap Sequence.strokes)) ↔ ModifierSafe seqs := by
  rw [← (typed_modifier_exact_iff simulate_input seqs).1]
  constructor
  · intro hall earlier hearlier
    obtain ⟨t, hcalls, hmodifier⟩ := hall earlier.length hearlier.length_le
    rw [calls_complete seqs hcomplete _ _ hearlier.length_le, ← List.prefix_iff_eq_take.mp hearlier] at hcalls
    cases hcalls
    rwa [← List.prefix_iff_eq_take.mp hearlier] at hmodifier
  · intro hall n hn
    exact ⟨_, calls_complete seqs hcomplete _ n hn, hall _ (List.take_prefix n seqs)⟩

/-- `LCTRL` held over a break of `RALT`, whose usage has other bits. -/
theorem modifier_exact_lctrl :
    ∃ t, ProcM.calls ps2_hid_translator_parse_next_scancode 2 (.initial 0) [0x14, 0xE0, 0xF0, 0x11] =
      some (t, []) ∧ t.key_report.modifier = KEY_MOD_LCTRL := by
  have hsafe : ModifierSafe [.make 0x14, .extended_brk 0x11] := by
    apply (modifierSafe_concat [.make 0x14] (.extended_brk 0x11)).mpr
    exact ⟨(modifierSafe_concat [] (.make 0x14)).mpr ⟨modifierSafe_nil, trivial⟩, fun _ => by decide⟩
  have hbits : held_bits [⟨.plain 0x14, true⟩, ⟨.extended 0x11, false⟩] = KEY_MOD_LCTRL := by decide
  obtain ⟨t, hcalls, hmodifier⟩ :=
    (modifier_exact_iff [.make 0x14, .extended_brk 0x11] (by decide) 0).mpr hsafe 2 (Nat.le_refl 2)
  exact ⟨t, hcalls, hmodifier.trans hbits⟩

/-- `RALT` alone: its usage `0xE6` goes into the byte where its bit `0x40` should. -/
theorem right_alt_sets_its_usage :
    (ProcM.calls ps2_hid_translator_parse_next_scancode 1 (.initial 0)
        (Sequence.extended_make 0x11).codes).map (fun after => after.1.key_report.modifier) = some 0xE6 ∧
      held_bits (Sequence.extended_make 0x11).strokes = 0x40 ∧ (0xE6 : uint8_t) ≠ 0x40 := by
  decide

end peripheral_hids.ps2_hid_translator
