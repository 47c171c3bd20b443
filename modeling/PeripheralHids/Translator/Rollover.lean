import PeripheralHids.Lib.History
import PeripheralHids.Translator.Report

namespace peripheral_hids.ps2_hid_translator

/-- A call of `press_key` or `release_key`. -/
def operate (s : Translator) (e : Stroke uint8_t) : Translator :=
  if e.down then press_key e.key s else release_key e.key s

/-- The state after a history of calls from the all-zero report. -/
def operated (simulate_input : uint8_t) (calls : List (Stroke uint8_t)) : Translator :=
  calls.foldl operate (.initial simulate_input)

def slots (simulate_input : uint8_t) (calls : List (Stroke uint8_t)) : Vector uint8_t 6 :=
  (operated simulate_input calls).key_report.keycode

/-- When a key of the report came into it: how many calls there were up to the
one that put it there. -/
def entered (simulate_input : uint8_t) (calls : List (Stroke uint8_t)) (key : uint8_t) : Nat :=
  History.lastChange (fun calls => (pos_at_pressed_keys (operated simulate_input calls) key).isSome) calls

/-- When a slot was last written. -/
def written (simulate_input : uint8_t) (calls : List (Stroke uint8_t)) (i : Fin 6) : Nat :=
  History.lastChange (fun calls => (slots simulate_input calls).get i) calls

theorem isSome_pos_at_pressed_keys {s : Translator} {key : uint8_t} :
    (pos_at_pressed_keys s key).isSome = true ↔ key ∈ s.key_report.keycode := by
  rw [← not_iff_not, Bool.not_eq_true, Option.isSome_eq_false_iff, Option.isNone_iff_eq_none]
  exact Slots.first_eq_none

theorem operated_concat (simulate_input : uint8_t) (calls : List (Stroke uint8_t)) (e : Stroke uint8_t) :
    operated simulate_input (calls ++ [e]) = operate (operated simulate_input calls) e := List.foldl_append

/-- All that a call can do: nothing, or to free a slot or write a key to it that
was not in the report. -/
theorem operate_cases (s : Translator) (e : Stroke uint8_t) :
    operate s e = s ∨ ∃ i key, (key = KEY_UNKNOWN ∨ key ∉ s.key_report.keycode) ∧
      operate s e = (s.set_keycode i key).publish := by
  unfold operate
  split
  · obtain ⟨-, heq⟩ | ⟨-, hnew, i, -, heq⟩ := press_key_cases e.key s
    · exact Or.inl heq
    · exact Or.inr ⟨i, e.key, Or.inr hnew, heq⟩
  · obtain ⟨-, heq⟩ | ⟨-, i, -, heq⟩ := release_key_cases e.key s
    · exact Or.inl heq
    · exact Or.inr ⟨i, 0, Or.inl rfl, heq⟩

theorem slots_distinct (simulate_input : uint8_t) (calls : List (Stroke uint8_t)) :
    Slots.Distinct KEY_UNKNOWN (slots simulate_input calls) := by
  induction calls using List.reverseRecOn with
  | nil => exact Slots.distinct_replicate 0
  | append_singleton calls e ih =>
    rw [slots, operated_concat]
    obtain heq | ⟨i, key, hnew, heq⟩ := operate_cases (operated simulate_input calls) e
    · rw [heq]
      exact ih
    · rw [heq]
      exact Slots.Distinct.set ih i hnew

/-- A key that a call writes to a slot was in none before. -/
theorem notMem_of_operate {s : Translator} {e : Stroke uint8_t} {i : Fin 6}
    (hchanged : (operate s e).key_report.keycode.get i ≠ s.key_report.keycode.get i)
    (hused : (operate s e).key_report.keycode.get i ≠ KEY_UNKNOWN) :
    (operate s e).key_report.keycode.get i ∉ s.key_report.keycode := by
  obtain heq | ⟨j, key, hnew, heq⟩ := operate_cases s e
  · rw [heq] at hchanged
    exact absurd rfl hchanged
  · rw [heq, Translator.publish_key_report, Translator.set_keycode_key_report] at hchanged hused ⊢
    simp only [Slots.get_set] at hchanged hused ⊢
    by_cases hji : i = j
    · rw [if_pos hji] at hused ⊢
      exact hnew.resolve_left hused
    · rw [if_neg hji] at hchanged
      exact absurd rfl hchanged

/-- A key came into the report when its slot was last written. -/
theorem entered_eq_written (simulate_input : uint8_t) (calls : List (Stroke uint8_t)) {i : Fin 6}
    (hused : (slots simulate_input calls).get i ≠ KEY_UNKNOWN) :
    entered simulate_input calls ((slots simulate_input calls).get i) = written simulate_input calls i := by
  induction calls using List.reverseRecOn with
  | nil =>
    have hfree : (slots simulate_input []).get i = KEY_UNKNOWN := Vector.getElem_replicate i.isLt
    exact absurd hfree hused
  | append_singleton calls e ih =>
    have hnow : (slots simulate_input (calls ++ [e])).get i ∈ slots simulate_input (calls ++ [e]) :=
      (Slots.mem_iff _ _).mpr ⟨i, rfl⟩
    rw [entered, written, History.lastChange_concat, History.lastChange_concat, isSome_pos_at_pressed_keys.mpr hnow]
    by_cases hsame : (slots simulate_input (calls ++ [e])).get i = (slots simulate_input calls).get i
    · have hbefore : (slots simulate_input (calls ++ [e])).get i ∈ slots simulate_input calls :=
        (Slots.mem_iff _ _).mpr ⟨i, hsame.symm⟩
      rw [if_pos hsame, if_pos (isSome_pos_at_pressed_keys.mpr hbefore).symm, hsame]
      exact ih (hsame ▸ hused)
    · have hnew : (slots simulate_input (calls ++ [e])).get i ∉ slots simulate_input calls := by
        unfold slots at hsame hused ⊢
        rw [operated_concat] at hsame hused ⊢
        exact notMem_of_operate hsame hused
      rw [if_neg hsame, if_neg]
      exact fun hin => hnew (isSome_pos_at_pressed_keys.mp hin.symm)

/-- With no slot free the new key takes the place of the one in the last slot. -/
theorem keys_press_key_of_full {key : uint8_t} (hknown : key ≠ KEY_UNKNOWN) {s : Translator}
    (hdistinct : Slots.Distinct KEY_UNKNOWN s.key_report.keycode) (hnew : key ∉ s.key_report.keycode)
    (hfull : KEY_UNKNOWN ∉ s.key_report.keycode) :
    keys (press_key key s).key_report = insert key ((keys s.key_report).erase (s.key_report.keycode.get 5)) := by
  have hused (i : Fin 6) : s.key_report.keycode.get i ≠ KEY_UNKNOWN :=
    fun heq => hfull ((Slots.mem_iff _ _).mpr ⟨i, heq⟩)
  obtain ⟨hold, -⟩ | ⟨-, -, i, hfree | ⟨rfl, -⟩, heq⟩ := press_key_cases key s
  · exact absurd (hold.resolve_left hknown) hnew
  · exact absurd hfree (hused i)
  · rw [heq]
    exact Slots.used_set_of_used hdistinct (hused 5) hknown

/-- Pressing `key` after a history of calls drops the key that has been in the
report longest, and no other. -/
def DropsOldest (simulate_input : uint8_t) (calls : List (Stroke uint8_t)) (key : uint8_t) : Prop :=
  ∃ oldest ∈ keys (operated simulate_input calls).key_report,
    (∀ other ∈ keys (operated simulate_input calls).key_report, other ≠ oldest →
      entered simulate_input calls oldest < entered simulate_input calls other) ∧
    keys (press_key key (operated simulate_input calls)).key_report =
      insert key ((keys (operated simulate_input calls).key_report).erase oldest)

theorem eq_of_insert_erase {α : Type} [DecidableEq α] {set : Finset α} {a b c : α} (hc : c ∉ set) (ha : a ∈ set)
    (heq : insert c (set.erase a) = insert c (set.erase b)) : a = b := by
  by_contra hab
  have hmem : a ∈ insert c (set.erase b) := Finset.mem_insert_of_mem (Finset.mem_erase.mpr ⟨hab, ha⟩)
  rw [← heq, Finset.mem_insert] at hmem
  obtain rfl | herased := hmem
  · exact hc ha
  · exact Finset.notMem_erase a set herased

/-- A rollover drops the oldest key exactly when the last slot is the one whose
contents are oldest: each of the others has been written since. -/
theorem drops_oldest_iff (simulate_input : uint8_t) (calls : List (Stroke uint8_t)) (key : uint8_t)
    (hknown : key ≠ KEY_UNKNOWN) (hnew : key ∉ slots simulate_input calls)
    (hfull : KEY_UNKNOWN ∉ slots simulate_input calls) :
    DropsOldest simulate_input calls key ↔
      ∀ i : Fin 6, i ≠ 5 → written simulate_input calls 5 < written simulate_input calls i := by
  have hdistinct := slots_distinct simulate_input calls
  have hused (i : Fin 6) : (slots simulate_input calls).get i ≠ KEY_UNKNOWN :=
    fun heq => hfull ((Slots.mem_iff _ _).mpr ⟨i, heq⟩)
  have hmem (i : Fin 6) : (slots simulate_input calls).get i ∈ keys (operated simulate_input calls).key_report :=
    Slots.mem_used.mpr ⟨hused i, (Slots.mem_iff _ _).mpr ⟨i, rfl⟩⟩
  have hnotin : key ∉ keys (operated simulate_input calls).key_report := fun hkey => hnew (Slots.mem_used.mp hkey).2
  have hkeys := keys_press_key_of_full hknown hdistinct hnew hfull
  constructor
  · rintro ⟨oldest, -, hages, hdropped⟩ i hi
    obtain rfl : (slots simulate_input calls).get 5 = oldest :=
      eq_of_insert_erase hnotin (hmem 5) (hkeys.symm.trans hdropped)
    have hother : (slots simulate_input calls).get i ≠ (slots simulate_input calls).get 5 :=
      fun heq => hi (hdistinct i 5 (hused i) heq)
    have hage := hages _ (hmem i) hother
    rwa [entered_eq_written simulate_input calls (hused 5), entered_eq_written simulate_input calls (hused i)] at hage
  · intro hwritten
    refine ⟨(slots simulate_input calls).get 5, hmem 5, fun other hother hne => ?_, hkeys⟩
    obtain ⟨i, rfl⟩ := (Slots.mem_iff _ _).mp (Slots.mem_used.mp hother).2
    have hi : i ≠ 5 := by
      rintro rfl
      exact hne rfl
    have hage := hwritten i hi
    rwa [← entered_eq_written simulate_input calls (hused 5),
      ← entered_eq_written simulate_input calls (hused i)] at hage

/-- Six keys and a seventh one. -/
theorem first_rollover_drops_oldest :
    DropsOldest 0 [⟨KEY_A, true⟩, ⟨KEY_B, true⟩, ⟨KEY_C, true⟩, ⟨KEY_D, true⟩, ⟨KEY_E, true⟩, ⟨KEY_F, true⟩] KEY_G :=
  (drops_oldest_iff 0 [⟨KEY_A, true⟩, ⟨KEY_B, true⟩, ⟨KEY_C, true⟩, ⟨KEY_D, true⟩, ⟨KEY_E, true⟩, ⟨KEY_F, true⟩]
    KEY_G (by decide) (Slots.first_eq_none.mp (by decide)) (Slots.first_eq_none.mp (by decide))).mpr (by decide)

/-- An eighth key then drops the seventh, not the second. -/
theorem second_rollover_drops_newest :
    let calls : List (Stroke uint8_t) := [⟨KEY_A, true⟩, ⟨KEY_B, true⟩, ⟨KEY_C, true⟩, ⟨KEY_D, true⟩,
      ⟨KEY_E, true⟩, ⟨KEY_F, true⟩, ⟨KEY_G, true⟩]
    KEY_H ∉ slots 0 calls ∧ KEY_UNKNOWN ∉ slots 0 calls ∧ ¬ DropsOldest 0 calls KEY_H := by
  refine ⟨Slots.first_eq_none.mp (by decide), Slots.first_eq_none.mp (by decide), ?_⟩
  unfold DropsOldest
  decide +kernel

end peripheral_hids.ps2_hid_translator
