import Mathlib.Data.List.OfFn
import Mathlib.Data.Nat.ModEq

/-- A circular buffer of fixed capacity: a read position, a write position and
the number of stored items. The write position is always the read position
advanced by the number of items, so no independent full or empty flag exists. -/
structure RingBuffer (α : Type) (cap : Nat) where
  buffer : Vector α cap
  read_ptr : Nat
  write_ptr : Nat
  used : Nat
  read_lt : read_ptr < cap
  used_le : used ≤ cap
  write_eq : write_ptr = (read_ptr + used) % cap

namespace RingBuffer

/-- Move a position one slot on, back to the start at the end of the buffer. -/
def advance (cap ptr : Nat) : Nat :=
  if ptr + 1 = cap then 0 else ptr + 1

theorem advance_eq_mod {cap ptr : Nat} (hptr : ptr < cap) :
    advance cap ptr = (ptr + 1) % cap := by
  unfold advance
  split
  · rename_i hend
    rw [hend, Nat.mod_self]
  · exact (Nat.mod_eq_of_lt (by omega)).symm

theorem write_lt {α : Type} {cap : Nat} (r : RingBuffer α cap) : r.write_ptr < cap := by
  rw [r.write_eq]
  exact Nat.mod_lt _ (by have := r.read_lt; omega)

/-- A buffer with nothing in it. The slots keep whatever they held. -/
def empty {α : Type} {cap : Nat} (buffer : Vector α cap) (hcap : 0 < cap) : RingBuffer α cap where
  buffer := buffer
  read_ptr := 0
  write_ptr := 0
  used := 0
  read_lt := hcap
  used_le := Nat.zero_le cap
  write_eq := by simp

/-- Store an item at the write position of a buffer that is not full. -/
def push {α : Type} {cap : Nat} (r : RingBuffer α cap) (x : α) (hroom : r.used < cap) :
    RingBuffer α cap where
  buffer := r.buffer.set r.write_ptr x r.write_lt
  read_ptr := r.read_ptr
  write_ptr := advance cap r.write_ptr
  used := r.used + 1
  read_lt := r.read_lt
  used_le := hroom
  write_eq := by
    rw [advance_eq_mod r.write_lt, r.write_eq, Nat.mod_add_mod, Nat.add_assoc]

/-- The item at the read position. -/
def front {α : Type} {cap : Nat} (r : RingBuffer α cap) : α :=
  getElem r.buffer r.read_ptr r.read_lt

/-- Take the item at the read position out of a buffer that is not empty. -/
def pop {α : Type} {cap : Nat} (r : RingBuffer α cap) (hused : 0 < r.used) : RingBuffer α cap where
  buffer := r.buffer
  read_ptr := advance cap r.read_ptr
  write_ptr := r.write_ptr
  used := r.used - 1
  read_lt := by
    rw [advance_eq_mod r.read_lt]
    exact Nat.mod_lt _ (by have := r.read_lt; omega)
  used_le := by have := r.used_le; omega
  write_eq := by
    rw [advance_eq_mod r.read_lt, r.write_eq, Nat.mod_add_mod]
    congr 1
    omega

/-- Forget the items: the read position moves up to the write position. -/
def clear {α : Type} {cap : Nat} (r : RingBuffer α cap) : RingBuffer α cap where
  buffer := r.buffer
  read_ptr := r.write_ptr
  write_ptr := r.write_ptr
  used := 0
  read_lt := r.write_lt
  used_le := Nat.zero_le cap
  write_eq := (Nat.mod_eq_of_lt r.write_lt).symm

/-- The slot that lies `i` places after the read position. -/
def slot {α : Type} {cap : Nat} (r : RingBuffer α cap) (i : Nat) : α :=
  getElem r.buffer ((r.read_ptr + i) % cap) (Nat.mod_lt _ (by have := r.read_lt; omega))

/-- The stored items, oldest first. -/
def contents {α : Type} {cap : Nat} (r : RingBuffer α cap) : List α :=
  (List.range r.used).map r.slot

@[simp] theorem contents_length {α : Type} {cap : Nat} (r : RingBuffer α cap) :
    r.contents.length = r.used := by
  simp [contents]

@[simp] theorem contents_empty {α : Type} {cap : Nat} (buffer : Vector α cap) (hcap : 0 < cap) :
    (empty buffer hcap).contents = [] := rfl

@[simp] theorem contents_clear {α : Type} {cap : Nat} (r : RingBuffer α cap) : r.clear.contents = [] := rfl

private theorem add_mod_ne {cap read i j : Nat} (hij : i < j) (hj : j < cap) :
    (read + j) % cap ≠ (read + i) % cap := by
  intro heq
  have hmod : j % cap = i % cap := Nat.ModEq.add_left_cancel' read heq
  rw [Nat.mod_eq_of_lt hj, Nat.mod_eq_of_lt (by omega)] at hmod
  omega

/-- Storing an item leaves the occupied slots alone and fills the next one. -/
theorem slot_push {α : Type} {cap : Nat} (r : RingBuffer α cap) (x : α) (hroom : r.used < cap)
    {i : Nat} (hi : i ≤ r.used) :
    (r.push x hroom).slot i = if i = r.used then x else r.slot i := by
  have hbound : (r.read_ptr + i) % cap < cap := Nat.mod_lt _ (by omega)
  change getElem (r.buffer.set r.write_ptr x r.write_lt) ((r.read_ptr + i) % cap) hbound = _
  rw [Vector.getElem_set]
  by_cases hlast : i = r.used
  · rw [if_pos hlast, if_pos (by rw [r.write_eq, hlast])]
  · have hne : r.write_ptr ≠ (r.read_ptr + i) % cap := by
      rw [r.write_eq]
      exact add_mod_ne (by omega) hroom
    rw [if_neg hlast, if_neg hne]
    rfl

/-- A buffer with room appends the stored item to its contents. -/
theorem contents_push {α : Type} {cap : Nat} (r : RingBuffer α cap) (x : α) (hroom : r.used < cap) :
    (r.push x hroom).contents = r.contents ++ [x] := by
  have hused : (r.push x hroom).used = r.used + 1 := rfl
  unfold contents
  rw [hused, List.range_succ, List.map_append]
  congr 1
  · apply List.map_congr_left
    intro i hi
    have hlt : i < r.used := List.mem_range.mp hi
    rw [slot_push r x hroom (by omega), if_neg (by omega)]
  · simp [slot_push r x hroom (Nat.le_refl _)]

/-- A buffer that is not empty gives up the oldest item and keeps the rest. -/
theorem contents_pop {α : Type} {cap : Nat} (r : RingBuffer α cap) (hused : 0 < r.used) :
    r.contents = r.front :: (r.pop hused).contents := by
  have hsucc : r.used = (r.used - 1) + 1 := by omega
  have hpop : (r.pop hused).used = r.used - 1 := rfl
  unfold contents
  rw [hpop, hsucc, List.range_succ_eq_map, List.map_cons, List.map_map, Nat.add_sub_cancel]
  congr 1
  · simp [slot, front, Nat.mod_eq_of_lt r.read_lt]
  · apply List.map_congr_left
    intro i _
    have hindex : (r.read_ptr + (i + 1)) % cap = (advance cap r.read_ptr + i) % cap := by
      rw [advance_eq_mod r.read_lt, Nat.mod_add_mod, Nat.add_assoc, Nat.add_comm 1 i]
    simp only [Function.comp, slot, pop, hindex]

end RingBuffer
