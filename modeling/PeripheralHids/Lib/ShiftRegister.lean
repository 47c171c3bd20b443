import Mathlib.Data.List.GetD
import Mathlib.Data.List.Induction
import Mathlib.Data.List.OfFn

namespace ShiftRegister

/-- Shift one bit into the low end of a register. The top bit falls out. -/
def shiftIn {w : Nat} (x : BitVec w) (b : Bool) : BitVec w :=
  (x <<< 1) ||| (BitVec.ofBool b).setWidth w

/-- Shift a stream of bits into a register, first bit first. -/
def shiftAll {w : Nat} (x : BitVec w) (bs : List Bool) : BitVec w :=
  bs.foldl shiftIn x

/-- The bits of a word, least significant first. -/
def bits {w : Nat} (x : BitVec w) : List Bool :=
  List.ofFn fun i : Fin w => x.getLsbD i

/-- The word whose bits are given least significant first. -/
def ofBits (w : Nat) (bs : List Bool) : BitVec w :=
  (BitVec.ofBoolListLE bs).setWidth w

/-- Whether a stream of bits holds an odd number of ones. -/
def oddOnes (bs : List Bool) : Bool :=
  bs.count true % 2 == 1

@[simp] theorem bits_length {w : Nat} (x : BitVec w) : (bits x).length = w := by
  simp [bits]

@[simp] theorem shiftAll_nil {w : Nat} (x : BitVec w) : shiftAll x [] = x := rfl

@[simp] theorem shiftAll_cons {w : Nat} (x : BitVec w) (b : Bool) (bs : List Bool) :
    shiftAll x (b :: bs) = shiftAll (shiftIn x b) bs := rfl

theorem shiftAll_append {w : Nat} (x : BitVec w) (bs cs : List Bool) :
    shiftAll x (bs ++ cs) = shiftAll (shiftAll x bs) cs :=
  List.foldl_append

theorem getLsbD_shiftIn {w : Nat} (x : BitVec w) (b : Bool) {i : Nat} (hi : i < w) :
    (shiftIn x b).getLsbD i = if i = 0 then b else x.getLsbD (i - 1) := by
  rcases i with _ | i
  · simp [shiftIn, hi]
  · have hlow : i < w := by omega
    simp [shiftIn, hi, hlow]

/-- A register holds the last bits shifted into it, most recent lowest, and
above them what it held before. -/
theorem getLsbD_shiftAll {w : Nat} (x : BitVec w) (bs : List Bool) {i : Nat} (hi : i < w) :
    (shiftAll x bs).getLsbD i =
      if i < bs.length then bs.reverse.getD i false else x.getLsbD (i - bs.length) := by
  induction bs using List.reverseRecOn generalizing i with
  | nil => simp
  | append_singleton bs b ih =>
    rw [shiftAll_append, shiftAll_cons, shiftAll_nil, getLsbD_shiftIn _ _ hi]
    rcases i with _ | i
    · simp
    · rw [if_neg (by omega), Nat.add_sub_cancel, ih (by omega)]
      simp [Nat.add_sub_add_right]

/-- Once as many bits as the register is wide have been shifted in, nothing of
the earlier contents is left, and the register holds them mirrored. -/
theorem bits_shiftAll {w : Nat} (x : BitVec w) (bs : List Bool) (hlength : bs.length = w) :
    bits (shiftAll x bs) = bs.reverse := by
  apply List.ext_getElem
  · simp [hlength]
  · intro i hi _
    have hbound : i < w := by simpa using hi
    simp only [bits, List.getElem_ofFn]
    rw [getLsbD_shiftAll x bs hbound, if_pos (by omega), List.getD_eq_getElem _ _ (by simp; omega)]

theorem ofBits_bits {w : Nat} (x : BitVec w) : ofBits w (bits x) = x := by
  apply BitVec.eq_of_getLsbD_eq
  intro i hi
  have hbit : (BitVec.ofBoolListLE (bits x)).getLsbD i = x.getLsbD i := by
    rw [BitVec.getLsbD_ofBoolListLE, List.getD_eq_getElem _ _ (by simpa using hi)]
    simp [bits, hi]
  simpa [ofBits, hi] using hbit

theorem oddOnes_append (bs cs : List Bool) :
    oddOnes (bs ++ cs) = (oddOnes bs ^^ oddOnes cs) := by
  have hleft := Nat.mod_two_eq_zero_or_one (bs.count true)
  have hright := Nat.mod_two_eq_zero_or_one (cs.count true)
  simp only [oddOnes, List.count_append]
  rcases hleft with hl | hl <;> rcases hright with hr | hr <;> simp [Nat.add_mod, hl, hr]

@[simp] theorem oddOnes_cons_false (bs : List Bool) : oddOnes (false :: bs) = oddOnes bs := by
  simp [oddOnes]

@[simp] theorem oddOnes_singleton (b : Bool) : oddOnes [b] = b := by
  cases b <;> rfl

@[simp] theorem oddOnes_reverse (bs : List Bool) : oddOnes bs.reverse = oddOnes bs := by
  simp [oddOnes]

theorem oddOnes_cons (b : Bool) (bs : List Bool) : oddOnes (b :: bs) = (b ^^ oddOnes bs) := by
  rw [← List.singleton_append, oddOnes_append, oddOnes_singleton]

/-- One flipped bit turns the parity over. -/
theorem oddOnes_modify_not {bs : List Bool} {i : Nat} (hi : i < bs.length) :
    oddOnes (bs.modify i not) = !oddOnes bs := by
  induction bs generalizing i with
  | nil => simp at hi
  | cons b bs ih =>
    cases i with
    | zero => rw [List.modify_zero_cons, oddOnes_cons, oddOnes_cons, Bool.not_xor]
    | succ i =>
      rw [List.modify_succ_cons, oddOnes_cons, oddOnes_cons, ih (by simpa using hi), Bool.xor_not]

end ShiftRegister
