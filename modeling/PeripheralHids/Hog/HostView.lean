import PeripheralHids.Hog.ReportMap

open HidDescriptor

namespace peripheral_hids.hog

theorem exists_keycode_iff (report : hids_report_keyboard) (P : uint8_t → Prop) :
    (∃ j < 6, P (report.bytes.getD (2 + j) 0)) ↔ ∃ key ∈ report.keycode.toList, P key := by
  have hlength : report.keycode.toList.length = 6 := Vector.length_toList
  have hbyte (j : Nat) : report.bytes.getD (2 + j) 0 = report.keycode.toList.getD j 0 := by
    rw [Nat.add_comm]
    rfl
  simp only [hbyte, List.getD_eq_getElem?_getD]
  constructor
  · rintro ⟨j, hj, hP⟩
    have hget := List.getElem?_eq_getElem (Nat.lt_of_lt_of_eq hj hlength.symm)
    rw [hget] at hP
    exact ⟨_, List.getElem_mem _, hP⟩
  · rintro ⟨key, hkey, hP⟩
    obtain ⟨j, hj⟩ := List.mem_iff_getElem?.mp hkey
    refine ⟨j, ?_, by rwa [hj]⟩
    exact Nat.lt_of_lt_of_eq (List.getElem?_eq_some_iff.mp hj).1 hlength

/-- The report has the layout that `report_map` declares: what a host takes from it
are the modifier keys of the bits that are set and the keycodes up to 167. -/
theorem mem_host_usages (report : hids_report_keyboard) (page usage : Nat) :
    (page, usage) ∈ host_usages report_map report.bytes ↔ page = keyboard_page ∧
      ((∃ i < 8, report.modifier.getLsbD i = true ∧ usage = 0xE0 + i) ∨
        ∃ key ∈ report.keycode.toList, key ≠ 0 ∧ key ≤ 167 ∧ usage = key.toNat) := by
  obtain ⟨parsed, hparsed, hinputs⟩ := Option.map_eq_some_iff.mp inputs_report_map
  have hmodifier (j : Nat) (hj : j < 8) : (List.range' 0xE0 8)[j]? = some (0xE0 + j) := by
    rw [List.getElem?_range' hj, Nat.one_mul]
  have hkey (v : Nat) (hv : v ≤ 167) : (List.range' 0 168)[v - 0]? = some v := by
    rw [Nat.sub_zero, List.getElem?_range' (Nat.lt_succ_of_le hv), Nat.one_mul, Nat.zero_add]
  have hbits : (page, usage) ∈
      (⟨keyboard_page, List.range' 0xE0 8, 0, 1, 1, 8, false, false⟩ : Field).active (8 * 0) report.bytes ↔
        page = keyboard_page ∧ ∃ i < 8, report.modifier.getLsbD i = true ∧ usage = 0xE0 + i := by
    rw [Field.mem_active_bits rfl (Nat.le_refl 8) rfl rfl]
    refine and_congr_right fun _ => ⟨?_, ?_⟩
    · rintro ⟨-, j, hj, hbit, husage⟩
      exact ⟨j, hj, hbit, (Option.some.inj ((hmodifier j hj).symm.trans husage)).symm⟩
    · rintro ⟨j, hj, hbit, rfl⟩
      exact ⟨by omega, j, hj, hbit, hmodifier j hj⟩
  have hkeys : (page, usage) ∈
      (⟨keyboard_page, List.range' 0 168, 0, 167, 8, 6, false, true⟩ : Field).active (8 * 2) report.bytes ↔
        page = keyboard_page ∧ ∃ key ∈ report.keycode.toList, key ≠ 0 ∧ key ≤ 167 ∧ usage = key.toNat := by
    rw [Field.mem_active_bytes rfl rfl rfl, ← exists_keycode_iff]
    refine and_congr_right fun _ => ⟨?_, ?_⟩
    · rintro ⟨hne, j, hj, -, hhigh, husage⟩
      have husage : (report.bytes.getD (2 + j) 0).toNat = usage :=
        Option.some.inj ((hkey _ hhigh).symm.trans husage)
      refine ⟨j, hj, fun hzero => hne ?_, hhigh, husage.symm⟩
      rw [← husage, hzero]
      rfl
    · rintro ⟨j, hj, hne, hhigh, rfl⟩
      refine ⟨fun hzero => hne ?_, j, hj, Nat.zero_le _, hhigh, hkey _ hhigh⟩
      exact BitVec.eq_of_toNat_eq hzero
  have hreserved :
      (⟨keyboard_page, [], 0, 1, 8, 1, true, false⟩ : Field).active (0 + 8 * 1) report.bytes = [] :=
    Field.active_constant rfl _ _
  rw [host_usages, hparsed]
  simp only [hinputs, active, hreserved, List.append_nil, List.nil_append, List.mem_append]
  rw [and_or_left, ← hbits, ← hkeys]

/-- `report_map` describes the report: its input fields are as long as the report,
and by them a host takes the modifiers and the keys from it, no more and no less. -/
theorem report_map_describes_report (report : hids_report_keyboard) :
    (∃ fields, (HidDescriptor.items report_map).map (inputs .initial) = some fields ∧
      (fields.map fun field => field.count * field.size).sum = 8 * report.bytes.length) ∧
    ∀ page usage, (page, usage) ∈ host_usages report_map report.bytes ↔ page = keyboard_page ∧
      ((∃ i < 8, report.modifier.getLsbD i = true ∧ usage = 0xE0 + i) ∨
        ∃ key ∈ report.keycode.toList, key ≠ 0 ∧ key ≤ 167 ∧ usage = key.toNat) := by
  have hlength : report.bytes.length = 8 := by
    rw [hids_report_keyboard.bytes, List.length_cons, List.length_cons, Vector.length_toList]
  refine ⟨⟨_, inputs_report_map, ?_⟩, mem_host_usages report⟩
  rw [hlength]
  rfl

end peripheral_hids.hog
