import Mathlib.Data.Nat.Digits.Lemmas

namespace HidDescriptor

/-- The items that matter for the fields of an input report. -/
inductive Item where
  | input (flags : Nat)
  | main
  | usage_page (page : Nat)
  | logical_minimum (value : Nat)
  | logical_maximum (value : Nat)
  | report_size (bits : Nat)
  | report_count (count : Nat)
  | usage (usage : Nat)
  | usage_minimum (usage : Nat)
  | usage_maximum (usage : Nat)
  | other
  deriving DecidableEq, Repr

/-- An item by its first byte without the two bits that give the size of its data. -/
def Item.of_tag (tag data : Nat) : Item :=
  match tag with
  | 0x20 => .input data
  | 0x24 | 0x28 | 0x2C | 0x30 => .main
  | 0x01 => .usage_page data
  | 0x05 => .logical_minimum data
  | 0x09 => .logical_maximum data
  | 0x1D => .report_size data
  | 0x25 => .report_count data
  | 0x02 => .usage data
  | 0x06 => .usage_minimum data
  | 0x0A => .usage_maximum data
  | _ => .other

/-- The value of some bytes, low byte first. -/
def number (bytes : List (BitVec 8)) : Nat :=
  Nat.ofDigits 256 (bytes.map BitVec.toNat)

/-- The short items of a descriptor, unless it ends within one. -/
def items : List (BitVec 8) → Option (List Item)
  | [] => some []
  | head :: rest =>
    let item (data : List (BitVec 8)) : Item := .of_tag (head.toNat / 4) (number data)
    match (head &&& 3).toNat with
    | 0 => (items rest).map (item [] :: ·)
    | 1 =>
      match rest with
      | a :: rest => (items rest).map (item [a] :: ·)
      | _ => none
    | 2 =>
      match rest with
      | a :: b :: rest => (items rest).map (item [a, b] :: ·)
      | _ => none
    | _ =>
      match rest with
      | a :: b :: c :: d :: rest => (items rest).map (item [a, b, c, d] :: ·)
      | _ => none

/-- `count` elements of `size` bits each. The usages are those of the elements, or
in an array those that an element can name. -/
structure Field where
  page : Nat
  usages : List Nat
  logical_minimum : Nat
  logical_maximum : Nat
  size : Nat
  count : Nat
  constant : Bool
  array : Bool
  deriving DecidableEq, Repr

/-- The field that the next main item would declare. The bounds are read as
unsigned, as they are when the minimum is not negative. -/
structure State where
  field : Field
  usage_minimum : Nat

def State.initial : State := ⟨⟨0, [], 0, 0, 0, 0, false, false⟩, 0⟩

/-- Usages are local: they end with the main item. -/
def State.end_main (s : State) : State := ⟨{ s.field with usages := [] }, 0⟩

def State.step (s : State) : Item → State
  | .input _ | .main => s.end_main
  | .usage_page page => { s with field := { s.field with page := page } }
  | .logical_minimum value => { s with field := { s.field with logical_minimum := value } }
  | .logical_maximum value => { s with field := { s.field with logical_maximum := value } }
  | .report_size bits => { s with field := { s.field with size := bits } }
  | .report_count count => { s with field := { s.field with count := count } }
  | .usage usage => { s with field := { s.field with usages := s.field.usages ++ [usage] } }
  | .usage_minimum usage => { s with usage_minimum := usage }
  | .usage_maximum usage =>
    let range := List.range' s.usage_minimum (usage + 1 - s.usage_minimum)
    { s with field := { s.field with usages := s.field.usages ++ range } }
  | .other => s

/-- The input fields that some items declare, in the order of the report. -/
def inputs : State → List Item → List Field
  | _, [] => []
  | s, .input flags :: rest =>
    { s.field with constant := flags.testBit 0, array := !flags.testBit 1 } :: inputs s.end_main rest
  | s, item :: rest => inputs (s.step item) rest

/-- The element at index `j` of a field that starts at bit `offset`. -/
def Field.element (field : Field) (offset : Nat) (report : List (BitVec 8)) (j : Nat) : Nat :=
  number report / 2 ^ (offset + j * field.size) % 2 ^ field.size

/-- The usage that a value at index `j` stands for. Usage 0 is undefined. -/
def Field.usage (field : Field) (j value : Nat) : Option Nat :=
  Option.filter (· ≠ 0) <|
    if field.constant then none
    else if field.array then
      if field.logical_minimum ≤ value ∧ value ≤ field.logical_maximum then
        field.usages[value - field.logical_minimum]?
      else none
    else if value = 0 then none
    else field.usages[j]?

/-- The usages that are on in a field of a report, with their page. -/
def Field.active (field : Field) (offset : Nat) (report : List (BitVec 8)) : List (Nat × Nat) :=
  (List.range field.count).filterMap fun j =>
    (field.usage j (field.element offset report j)).map fun usage => (field.page, usage)

/-- The usages that are on in a report, its fields one after the other. -/
def active : Nat → List Field → List (BitVec 8) → List (Nat × Nat)
  | _, [], _ => []
  | offset, field :: fields, report =>
    field.active offset report ++ active (offset + field.count * field.size) fields report

/-- A host's view of a report, by the bytes of the descriptor. -/
def host_usages (descriptor report : List (BitVec 8)) : List (Nat × Nat) :=
  match items descriptor with
  | some items => active 0 (inputs .initial items) report
  | none => []

theorem number_div (bytes : List (BitVec 8)) (k : Nat) : number bytes / 2 ^ (8 * k) = number (bytes.drop k) := by
  have hdigits : ∀ digit ∈ bytes.map BitVec.toNat, digit < 256 := by
    intro digit hdigit
    obtain ⟨byte, -, rfl⟩ := List.mem_map.mp hdigit
    exact byte.isLt
  rw [number, Nat.pow_mul, Nat.ofDigits_div_pow_eq_ofDigits_drop k (by decide) _ hdigits, ← List.map_drop]
  rfl

theorem number_cons (byte : BitVec 8) (bytes : List (BitVec 8)) :
    number (byte :: bytes) = byte.toNat + 256 * number bytes :=
  Nat.ofDigits_cons

/-- The bits of one byte. -/
theorem number_div_mod (bytes : List (BitVec 8)) (k i size : Nat) (hfits : i + size ≤ 8) :
    number bytes / 2 ^ (8 * k + i) % 2 ^ size = (bytes.getD k 0).toNat / 2 ^ i % 2 ^ size := by
  rw [Nat.pow_add, ← Nat.div_div_eq_div_mul, number_div, List.getD_eq_getElem?_getD]
  cases hdrop : bytes.drop k with
  | nil =>
    have hnone : bytes[k]? = none := by
      rw [List.getElem?_eq_none_iff]
      exact List.drop_eq_nil_iff.mp hdrop
    rw [hnone]
    rfl
  | cons byte rest =>
    have hget : bytes[k]? = some byte := by
      have hhead := congrArg List.head? hdrop
      rwa [List.head?_drop, List.head?_cons] at hhead
    have hshift : 256 * number rest = 2 ^ i * (2 ^ size * (2 ^ (8 - i - size) * number rest)) := by
      rw [← Nat.mul_assoc, ← Nat.mul_assoc, ← Nat.pow_add, ← Nat.pow_add, show i + size + (8 - i - size) = 8 by omega]
    rw [hget, Option.getD_some, number_cons, hshift, Nat.add_mul_div_left _ _ (Nat.two_pow_pos i),
      Nat.add_mul_mod_self_left]

/-- An element of a field of whole bytes. -/
theorem Field.element_byte {field : Field} (hsize : field.size = 8) (k : Nat) (report : List (BitVec 8)) (j : Nat) :
    field.element (8 * k) report j = (report.getD (k + j) 0).toNat := by
  have hbyte := number_div_mod report (k + j) 0 8 (Nat.le_refl 8)
  rw [Nat.pow_zero, Nat.div_one, Nat.mod_eq_of_lt (report.getD (k + j) 0).isLt] at hbyte
  rw [Field.element, hsize, show 8 * k + j * 8 = 8 * (k + j) + 0 by omega, hbyte]

/-- An element of a field of single bits within a byte. -/
theorem Field.element_bit {field : Field} (hsize : field.size = 1) (k : Nat) (report : List (BitVec 8)) {j : Nat}
    (hj : j < 8) : field.element (8 * k) report j = ((report.getD k 0).getLsbD j).toNat := by
  rw [Field.element, hsize, Nat.mul_one, number_div_mod report k j 1 hj, BitVec.getLsbD,
    Nat.testBit_eq_decide_div_mod_eq]
  have hlt : (report.getD k 0).toNat / 2 ^ j % 2 < 2 := Nat.mod_lt _ (by decide)
  rw [Nat.pow_one]
  generalize (report.getD k 0).toNat / 2 ^ j % 2 = bit at hlt ⊢
  obtain rfl | rfl : bit = 0 ∨ bit = 1 := by omega
  · rfl
  · rfl

theorem Field.mem_active {field : Field} {offset : Nat} {report : List (BitVec 8)} {page usage : Nat} :
    (page, usage) ∈ field.active offset report ↔
      page = field.page ∧ ∃ j < field.count, field.usage j (field.element offset report j) = some usage := by
  simp only [Field.active, List.mem_filterMap, List.mem_range, Option.map_eq_some_iff, Prod.mk.injEq]
  constructor
  · rintro ⟨j, hj, _, husage, rfl, rfl⟩
    exact ⟨rfl, j, hj, husage⟩
  · rintro ⟨rfl, j, hj, husage⟩
    exact ⟨j, hj, usage, husage, rfl, rfl⟩

/-- The usages of a field of single bits within a byte. -/
theorem Field.mem_active_bits {field : Field} (hsize : field.size = 1) (hcount : field.count ≤ 8)
    (hconstant : field.constant = false) (harray : field.array = false) {k : Nat} {report : List (BitVec 8)}
    {page usage : Nat} :
    (page, usage) ∈ field.active (8 * k) report ↔ page = field.page ∧ usage ≠ 0 ∧
      ∃ j < field.count, (report.getD k 0).getLsbD j = true ∧ field.usages[j]? = some usage := by
  rw [Field.mem_active]
  refine and_congr_right fun _ => ?_
  simp only [Field.usage, hconstant, harray, Bool.false_eq_true, if_false, Option.filter_eq_some_iff, decide_eq_true_eq]
  constructor
  · rintro ⟨j, hj, husage, hne⟩
    rw [Field.element_bit hsize k report (Nat.lt_of_lt_of_le hj hcount)] at husage
    refine ⟨hne, j, hj, ?_⟩
    cases hbit : (report.getD k 0).getLsbD j with
    | false =>
      rw [hbit] at husage
      cases husage
    | true =>
      rw [hbit] at husage
      exact ⟨rfl, husage⟩
  · rintro ⟨hne, j, hj, hbit, husage⟩
    refine ⟨j, hj, ?_, hne⟩
    rw [Field.element_bit hsize k report (Nat.lt_of_lt_of_le hj hcount), hbit]
    exact husage

/-- The usages of an array of whole bytes. -/
theorem Field.mem_active_bytes {field : Field} (hsize : field.size = 8) (hconstant : field.constant = false)
    (harray : field.array = true) {k : Nat} {report : List (BitVec 8)} {page usage : Nat} :
    (page, usage) ∈ field.active (8 * k) report ↔ page = field.page ∧ usage ≠ 0 ∧
      ∃ j < field.count, field.logical_minimum ≤ (report.getD (k + j) 0).toNat ∧
        (report.getD (k + j) 0).toNat ≤ field.logical_maximum ∧
        field.usages[(report.getD (k + j) 0).toNat - field.logical_minimum]? = some usage := by
  rw [Field.mem_active]
  refine and_congr_right fun _ => ?_
  simp only [Field.usage, hconstant, harray, Bool.false_eq_true, if_false, if_true, Option.filter_eq_some_iff,
    decide_eq_true_eq, Field.element_byte hsize]
  constructor
  · rintro ⟨j, hj, husage, hne⟩
    split at husage
    · rename_i hbounds
      exact ⟨hne, j, hj, hbounds.1, hbounds.2, husage⟩
    · cases husage
  · rintro ⟨hne, j, hj, hlow, hhigh, husage⟩
    exact ⟨j, hj, (if_pos ⟨hlow, hhigh⟩).trans husage, hne⟩

/-- A constant field says nothing. -/
theorem Field.active_constant {field : Field} (hconstant : field.constant = true) (offset : Nat)
    (report : List (BitVec 8)) : field.active offset report = [] := by
  simp only [Field.active, Field.usage, hconstant, if_true, Option.filter_none, Option.map_none,
    List.filterMap_none]

end HidDescriptor
