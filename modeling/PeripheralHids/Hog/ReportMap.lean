import PeripheralHids.Lib.HidDescriptor
import PeripheralHids.Hog.Funs

open HidDescriptor

namespace peripheral_hids.hog

/-- The page of the keyboard's usages. -/
def keyboard_page : Nat := 0x07

/-- The input fields that `report_map` declares: a bit for each modifier key, a byte
without meaning, and six keys out of the first 168 usages. -/
theorem inputs_report_map :
    (HidDescriptor.items report_map).map (inputs .initial) = some [
      ⟨keyboard_page, List.range' 0xE0 8, 0, 1, 1, 8, false, false⟩,
      ⟨keyboard_page, [], 0, 1, 8, 1, true, false⟩,
      ⟨keyboard_page, List.range' 0 168, 0, 167, 8, 6, false, true⟩] := by
  decide +kernel

/-- The usages that a keycode of the report may have by `report_map`: those of its
input arrays. -/
def Declared (key : uint8_t) : Prop :=
  ∃ parsed ∈ HidDescriptor.items report_map, ∃ field ∈ inputs .initial parsed,
    field.array = true ∧ field.constant = false ∧ key.toNat ∈ field.usages

theorem declared_iff {key : uint8_t} : Declared key ↔ key ≤ 167 := by
  obtain ⟨parsed, hparsed, hinputs⟩ := Option.map_eq_some_iff.mp inputs_report_map
  have husage : key.toNat ∈ List.range' 0 168 ↔ key ≤ 167 := by
    rw [List.mem_range'_1, BitVec.le_def]
    exact ⟨fun hkey => Nat.le_of_lt_succ hkey.2, fun hkey => ⟨Nat.zero_le _, Nat.lt_succ_of_le hkey⟩⟩
  rw [← husage]
  constructor
  · rintro ⟨_, hother, field, hfield, harray, -, hkey⟩
    obtain rfl := Option.some.inj (hparsed.symm.trans hother)
    rw [hinputs] at hfield
    simp only [List.mem_cons, List.not_mem_nil, or_false] at hfield
    obtain rfl | rfl | rfl := hfield
    · cases harray
    · cases harray
    · exact hkey
  · intro hkey
    refine ⟨parsed, hparsed, ⟨keyboard_page, List.range' 0 168, 0, 167, 8, 6, false, true⟩, ?_, rfl, rfl, hkey⟩
    rw [hinputs]
    exact List.mem_cons_of_mem _ (List.mem_cons_of_mem _ List.mem_cons_self)

end peripheral_hids.hog
