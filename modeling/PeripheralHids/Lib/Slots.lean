import Mathlib.Data.Finset.Card
import Mathlib.Data.Fintype.Card
import Mathlib.Data.List.FinRange

namespace Slots

/-- The first slot that holds a value. -/
def first {α : Type} [DecidableEq α] {n : Nat} (v : Vector α n) (a : α) : Option (Fin n) :=
  (List.finRange n).find? fun i => v[i] = a

/-- The last slot that holds a value. -/
def last {α : Type} [DecidableEq α] {n : Nat} (v : Vector α n) (a : α) : Option (Fin n) :=
  (List.finRange n).reverse.find? fun i => v[i] = a

theorem mem_iff {α : Type} {n : Nat} (v : Vector α n) (a : α) : a ∈ v ↔ ∃ i : Fin n, v[i] = a := by
  rw [Vector.mem_iff_getElem]
  constructor
  · rintro ⟨i, hi, heq⟩
    exact ⟨⟨i, hi⟩, heq⟩
  · rintro ⟨i, heq⟩
    exact ⟨i.val, i.isLt, heq⟩

theorem getElem_of_first {α : Type} [DecidableEq α] {n : Nat} {v : Vector α n} {a : α} {i : Fin n}
    (hfirst : first v a = some i) : v[i] = a := by
  have hfound := List.find?_some hfirst
  simpa using hfound

theorem getElem_of_last {α : Type} [DecidableEq α] {n : Nat} {v : Vector α n} {a : α} {i : Fin n}
    (hlast : last v a = some i) : v[i] = a := by
  have hfound := List.find?_some hlast
  simpa using hfound

theorem first_eq_none {α : Type} [DecidableEq α] {n : Nat} {v : Vector α n} {a : α} :
    first v a = none ↔ a ∉ v := by
  simp [first, mem_iff]

theorem last_eq_none {α : Type} [DecidableEq α] {n : Nat} {v : Vector α n} {a : α} :
    last v a = none ↔ a ∉ v := by
  simp [last, mem_iff]

theorem getElem_set {α : Type} {n : Nat} (v : Vector α n) (i j : Fin n) (a : α) :
    (v.set i a)[j] = if j = i then a else v[j] := by
  simp only [Fin.getElem_fin, Vector.getElem_set, eq_comm, Fin.ext_iff]

theorem get_set {α : Type} {n : Nat} (v : Vector α n) (i j : Fin n) (a : α) :
    (v.set i a).get j = if j = i then a else v.get j :=
  getElem_set v i j a

theorem mem_of_mem_set {α : Type} {n : Nat} {v : Vector α n} {i : Fin n} {a b : α} (hmem : b ∈ v.set i a)
    (hne : b ≠ a) : b ∈ v := by
  obtain ⟨j, hj⟩ := (mem_iff _ b).mp hmem
  rw [getElem_set] at hj
  by_cases hji : j = i
  · rw [if_pos hji] at hj
    exact absurd hj.symm hne
  · rw [if_neg hji] at hj
    exact (mem_iff v b).mpr ⟨j, hj⟩

theorem mem_set_of_mem {α : Type} {n : Nat} {v : Vector α n} {i : Fin n} {b : α} (hmem : b ∈ v)
    (hother : v[i] ≠ b) (a : α) : b ∈ v.set i a := by
  obtain ⟨j, hj⟩ := (mem_iff v b).mp hmem
  refine (mem_iff _ b).mpr ⟨j, ?_⟩
  rw [getElem_set, if_neg, hj]
  rintro rfl
  exact hother hj

theorem mem_set_self {α : Type} {n : Nat} (v : Vector α n) (i : Fin n) (a : α) : a ∈ v.set i a :=
  (mem_iff _ a).mpr ⟨i, by rw [getElem_set, if_pos rfl]⟩

/-- No value other than `free` is in two slots. -/
def Distinct {α : Type} {n : Nat} (free : α) (v : Vector α n) : Prop :=
  ∀ i j : Fin n, v[i] ≠ free → v[i] = v[j] → i = j

theorem distinct_replicate {α : Type} {n : Nat} (free : α) : Distinct free (Vector.replicate n free) := by
  intro i j hused
  simp at hused

/-- Writing a new value, or freeing a slot, keeps the values distinct. -/
theorem Distinct.set {α : Type} {n : Nat} {free : α} {v : Vector α n}
    (hdistinct : Distinct free v) (i : Fin n) {a : α} (hnew : a = free ∨ a ∉ v) : Distinct free (v.set i a) := by
  have hother (j : Fin n) (hused : a ≠ free) : v[j] ≠ a := by
    intro heq
    obtain hfree | habsent := hnew
    · exact hused hfree
    · exact habsent ((mem_iff v a).mpr ⟨j, heq⟩)
  intro j k hused heq
  rw [getElem_set] at hused heq
  rw [getElem_set] at heq
  by_cases hj : j = i
  · by_cases hk : k = i
    · rw [hj, hk]
    · rw [if_pos hj] at hused heq
      rw [if_neg hk] at heq
      exact absurd heq.symm (hother k hused)
  · rw [if_neg hj] at hused heq
    by_cases hk : k = i
    · rw [if_pos hk] at heq
      exact absurd heq (hother j (heq ▸ hused))
    · rw [if_neg hk] at heq
      exact hdistinct j k hused heq

/-- The values in use. -/
def used {α : Type} [DecidableEq α] {n : Nat} (free : α) (v : Vector α n) : Finset α :=
  v.toList.toFinset.erase free

theorem mem_used {α : Type} [DecidableEq α] {n : Nat} {free : α} {v : Vector α n} {a : α} :
    a ∈ used free v ↔ a ≠ free ∧ a ∈ v := by
  simp [used]

theorem used_replicate {α : Type} [DecidableEq α] {n : Nat} (free : α) :
    used free (Vector.replicate n free) = ∅ := by
  ext a
  simp only [mem_used, Vector.mem_replicate, Finset.notMem_empty, iff_false]
  rintro ⟨hne, -, heq⟩
  exact hne heq

theorem eq_replicate_of_used {α : Type} [DecidableEq α] {n : Nat} {free : α} {v : Vector α n}
    (hused : used free v = ∅) : v = Vector.replicate n free := by
  ext i hi
  by_contra hne
  rw [Vector.getElem_replicate] at hne
  have hmem : v[i] ∈ used free v := mem_used.mpr ⟨hne, Vector.getElem_mem hi⟩
  rw [hused] at hmem
  exact absurd hmem (Finset.notMem_empty _)

theorem used_set_subset {α : Type} [DecidableEq α] {n : Nat} (free : α) (v : Vector α n) (i : Fin n) (a : α) :
    used free (v.set i a) ⊆ insert a (used free v) := by
  intro b hb
  obtain ⟨hne, hmem⟩ := mem_used.mp hb
  by_cases hba : b = a
  · exact Finset.mem_insert.mpr (Or.inl hba)
  · exact Finset.mem_insert_of_mem (mem_used.mpr ⟨hne, mem_of_mem_set hmem hba⟩)

/-- A value written to a free slot joins those in use. -/
theorem used_set_of_free {α : Type} [DecidableEq α] {n : Nat} {free : α} {v : Vector α n} {i : Fin n}
    (hfree : v[i] = free) {a : α} (hused : a ≠ free) : used free (v.set i a) = insert a (used free v) := by
  apply Finset.Subset.antisymm (used_set_subset free v i a)
  intro b hb
  obtain rfl | hb := Finset.mem_insert.mp hb
  · exact mem_used.mpr ⟨hused, mem_set_self v i b⟩
  · obtain ⟨hne, hmem⟩ := mem_used.mp hb
    have hother : v[i] ≠ b := fun heq => hne (heq.symm.trans hfree)
    exact mem_used.mpr ⟨hne, mem_set_of_mem hmem hother a⟩

/-- Freeing the slot of a value takes it out of those in use: no other slot
holds it. -/
theorem used_set_free {α : Type} [DecidableEq α] {n : Nat} {free : α} {v : Vector α n}
    (hdistinct : Distinct free v) {i : Fin n} (hused : v[i] ≠ free) :
    used free (v.set i free) = (used free v).erase v[i] := by
  ext b
  simp only [Finset.mem_erase, mem_used, mem_iff, getElem_set]
  constructor
  · rintro ⟨hne, j, hj⟩
    by_cases hji : j = i
    · rw [if_pos hji] at hj
      exact absurd hj.symm hne
    · rw [if_neg hji] at hj
      refine ⟨?_, hne, j, hj⟩
      intro heq
      exact hji (hdistinct j i (hj ▸ hne) (hj.trans heq))
  · rintro ⟨hother, hne, j, hj⟩
    refine ⟨hne, j, ?_⟩
    rw [if_neg, hj]
    rintro rfl
    exact hother hj.symm

/-- A new value takes the place of the one in its slot. -/
theorem used_set_of_used {α : Type} [DecidableEq α] {n : Nat} {free : α} {v : Vector α n}
    (hdistinct : Distinct free v) {i : Fin n} (hused : v[i] ≠ free) {a : α} (hknown : a ≠ free) :
    used free (v.set i a) = insert a ((used free v).erase v[i]) := by
  have hfreed : (v.set i free)[i] = free := by rw [getElem_set, if_pos rfl]
  have htwice : v.set i a = (v.set i free).set i a := by simp
  rw [htwice, used_set_of_free hfreed hknown, used_set_free hdistinct hused]

/-- With fewer values in use than slots one slot is free. -/
theorem mem_free_of_card_lt {α : Type} [DecidableEq α] {n : Nat} {free : α} {v : Vector α n}
    (hdistinct : Distinct free v) (hcard : (used free v).card < n) : free ∈ v := by
  by_contra hfull
  have hused (i : Fin n) : v[i] ≠ free := fun heq => hfull ((mem_iff v free).mpr ⟨i, heq⟩)
  have hmaps (i : Fin n) (_ : i ∈ Finset.univ) : v[i] ∈ used free v :=
    mem_used.mpr ⟨hused i, (mem_iff v _).mpr ⟨i, rfl⟩⟩
  have hinjective : Set.InjOn (fun i : Fin n => v[i]) (Finset.univ : Finset (Fin n)) :=
    fun i _ j _ heq => hdistinct i j (hused i) heq
  have hle := Finset.card_le_card_of_injOn _ hmaps hinjective
  rw [Finset.card_univ, Fintype.card_fin] at hle
  omega

end Slots
