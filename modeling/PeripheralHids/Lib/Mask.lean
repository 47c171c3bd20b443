import Mathlib.Data.List.Basic

namespace Mask

/-- The bits that a table gives to the keys of `p`, all together. -/
def union {κ : Type} {w : Nat} (table : List (κ × BitVec w)) (p : κ → Bool) : BitVec w :=
  ((table.filter fun m => p m.1).map Prod.snd).foldr (· ||| ·) 0

theorem getLsbD_union {κ : Type} {w : Nat} (table : List (κ × BitVec w)) (p : κ → Bool) (i : Nat) :
    (union table p).getLsbD i = table.any fun m => p m.1 && m.2.getLsbD i := by
  induction table with
  | nil => exact BitVec.getLsbD_zero
  | cons m table ih =>
    rw [List.any_cons, ← ih]
    cases hp : p m.1 with
    | false => simp [union, hp]
    | true => simp [union, hp]

theorem getLsbD_union_eq_true {κ : Type} {w : Nat} {table : List (κ × BitVec w)} {p : κ → Bool} {i : Nat} :
    (union table p).getLsbD i = true ↔ ∃ m ∈ table, p m.1 = true ∧ m.2.getLsbD i = true := by
  simp [getLsbD_union]

theorem union_eq_zero {κ : Type} {w : Nat} {table : List (κ × BitVec w)} {p : κ → Bool}
    (hp : ∀ m ∈ table, p m.1 = false) : union table p = 0 := by
  have hnone : (table.filter fun m => p m.1) = [] := by simpa using hp
  rw [union, hnone]
  rfl

/-- Every bit belongs to one key. -/
def Owned {κ : Type} {w : Nat} (table : List (κ × BitVec w)) : Prop :=
  ∀ m ∈ table, ∀ m' ∈ table, ∀ i < w, m.2.getLsbD i = true → m'.2.getLsbD i = true → m.1 = m'.1

/-- One more key adds its own bits. -/
theorem union_insert {κ : Type} [DecidableEq κ] {w : Nat} (table : List (κ × BitVec w)) {p p' : κ → Bool} {k : κ}
    (hp : ∀ k', p' k' = if k = k' then true else p k') :
    union table p' = union table p ||| union table (fun k' => k' = k) := by
  apply BitVec.eq_of_getLsbD_eq
  intro i _
  rw [BitVec.getLsbD_or, Bool.eq_iff_iff, Bool.or_eq_true]
  simp only [getLsbD_union_eq_true, hp, decide_eq_true_eq]
  constructor
  · rintro ⟨m, hm, hkey, hbit⟩
    by_cases hk : k = m.1
    · exact Or.inr ⟨m, hm, hk.symm, hbit⟩
    · rw [if_neg hk] at hkey
      exact Or.inl ⟨m, hm, hkey, hbit⟩
  · rintro (⟨m, hm, hkey, hbit⟩ | ⟨m, hm, hk, hbit⟩)
    · refine ⟨m, hm, ?_, hbit⟩
      split
      · rfl
      · exact hkey
    · exact ⟨m, hm, if_pos hk.symm, hbit⟩

/-- One key less takes away its own bits, which are no other key's. -/
theorem union_erase {κ : Type} [DecidableEq κ] {w : Nat} {table : List (κ × BitVec w)} (howned : Owned table)
    {p p' : κ → Bool} {k : κ} (hp : ∀ k', p' k' = if k = k' then false else p k') :
    union table p' = union table p &&& ~~~union table (fun k' => k' = k) := by
  apply BitVec.eq_of_getLsbD_eq
  intro i hi
  rw [BitVec.getLsbD_and, BitVec.getLsbD_not, Bool.eq_iff_iff, Bool.and_eq_true, decide_eq_true hi,
    Bool.true_and, Bool.not_eq_true', ← Bool.not_eq_true]
  simp only [getLsbD_union_eq_true, hp, decide_eq_true_eq]
  constructor
  · rintro ⟨m, hm, hkey, hbit⟩
    have hk : k ≠ m.1 := by
      intro hk
      rw [if_pos hk] at hkey
      cases hkey
    rw [if_neg hk] at hkey
    refine ⟨⟨m, hm, hkey, hbit⟩, ?_⟩
    rintro ⟨m', hm', hk', hbit'⟩
    exact hk (hk'.symm.trans (howned m' hm' m hm i hi hbit' hbit))
  · rintro ⟨⟨m, hm, hkey, hbit⟩, hother⟩
    refine ⟨m, hm, ?_, hbit⟩
    rw [if_neg, hkey]
    intro hk
    exact hother ⟨m, hm, hk.symm, hbit⟩

end Mask
