import Mathlib.Data.Finset.Card

/-- One make or break of a key. -/
structure Stroke (κ : Type) where
  key : κ
  down : Bool
  deriving DecidableEq, Repr

namespace Stroke

/-- Whether the last stroke on a key of `p` is a make. -/
def lastDown {κ : Type} (p : κ → Bool) (strokes : List (Stroke κ)) : Bool :=
  ((strokes.filter fun e => p e.key).getLast?.map down).getD false

theorem lastDown_concat {κ : Type} (p : κ → Bool) (strokes : List (Stroke κ)) (e : Stroke κ) :
    lastDown p (strokes ++ [e]) = if p e.key then e.down else lastDown p strokes := by
  cases hkey : p e.key with
  | true => simp [lastDown, List.filter_append, hkey]
  | false => simp [lastDown, List.filter_append, hkey]

/-- A key is held when its own last stroke is a make. -/
def held {κ : Type} [DecidableEq κ] (strokes : List (Stroke κ)) (k : κ) : Bool :=
  lastDown (fun k' => k' = k) strokes

theorem held_concat {κ : Type} [DecidableEq κ] (strokes : List (Stroke κ)) (e : Stroke κ) (k : κ) :
    held (strokes ++ [e]) k = if e.key = k then e.down else held strokes k := by
  rw [held, lastDown_concat]
  simp only [decide_eq_true_eq, held]

theorem mem_of_held {κ : Type} [DecidableEq κ] {strokes : List (Stroke κ)} {k : κ}
    (hheld : held strokes k = true) : ⟨k, true⟩ ∈ strokes := by
  induction strokes using List.reverseRecOn with
  | nil => cases hheld
  | append_singleton strokes e ih =>
    rw [held_concat] at hheld
    by_cases hkey : e.key = k
    · rw [if_pos hkey] at hheld
      have he : e = ⟨k, true⟩ := by rw [← hkey, ← hheld]
      exact he ▸ List.mem_append_right strokes (List.mem_singleton_self e)
    · rw [if_neg hkey] at hheld
      exact List.mem_append_left [e] (ih hheld)

/-- If the last stroke on a group of keys is a make, then one of them is held. -/
theorem exists_held_of_lastDown {κ : Type} [DecidableEq κ] {p : κ → Bool} {strokes : List (Stroke κ)}
    (hdown : lastDown p strokes = true) : ∃ k, p k = true ∧ held strokes k = true := by
  induction strokes using List.reverseRecOn with
  | nil => cases hdown
  | append_singleton strokes e ih =>
    rw [lastDown_concat] at hdown
    by_cases hkey : p e.key = true
    · rw [if_pos hkey] at hdown
      exact ⟨e.key, hkey, by rw [held_concat, if_pos rfl, hdown]⟩
    · rw [if_neg hkey] at hdown
      obtain ⟨k, hk, hheld⟩ := ih hdown
      refine ⟨k, hk, ?_⟩
      rw [held_concat, if_neg, hheld]
      rintro rfl
      exact hkey hk

/-- The values that `f` gives to the keys, of those whose last stroke, on any
key with the same value, is a make. -/
def pressed {κ ν : Type} [DecidableEq ν] (f : κ → Option ν) (strokes : List (Stroke κ)) : Finset ν :=
  (strokes.filterMap fun e => f e.key).toFinset.filter fun u => lastDown (fun k => f k = some u) strokes

theorem mem_pressed {κ ν : Type} [DecidableEq ν] {f : κ → Option ν} {strokes : List (Stroke κ)} {u : ν} :
    u ∈ pressed f strokes ↔ lastDown (fun k => f k = some u) strokes = true := by
  rw [pressed, Finset.mem_filter, and_iff_right_iff_imp]
  intro hdown
  induction strokes using List.reverseRecOn with
  | nil => cases hdown
  | append_singleton strokes e ih =>
    rw [lastDown_concat] at hdown
    by_cases hkey : f e.key = some u
    · simp [hkey]
    · rw [if_neg (by simpa using hkey)] at hdown
      have hmem := ih hdown
      simp only [List.mem_toFinset, List.filterMap_append, List.mem_append] at hmem ⊢
      exact Or.inl hmem

theorem pressed_concat_none {κ ν : Type} [DecidableEq ν] {f : κ → Option ν} (strokes : List (Stroke κ))
    {e : Stroke κ} (hkey : f e.key = none) : pressed f (strokes ++ [e]) = pressed f strokes := by
  ext u
  rw [mem_pressed, mem_pressed, lastDown_concat, hkey]
  simp

theorem pressed_concat_make {κ ν : Type} [DecidableEq ν] {f : κ → Option ν} (strokes : List (Stroke κ))
    {k : κ} {u : ν} (hkey : f k = some u) :
    pressed f (strokes ++ [⟨k, true⟩]) = insert u (pressed f strokes) := by
  ext w
  rw [Finset.mem_insert, mem_pressed, mem_pressed, lastDown_concat, hkey]
  by_cases hw : w = u
  · simp [hw]
  · simp [hw, Ne.symm hw]

theorem pressed_concat_break {κ ν : Type} [DecidableEq ν] {f : κ → Option ν} (strokes : List (Stroke κ))
    {k : κ} {u : ν} (hkey : f k = some u) :
    pressed f (strokes ++ [⟨k, false⟩]) = (pressed f strokes).erase u := by
  ext w
  rw [Finset.mem_erase, mem_pressed, mem_pressed, lastDown_concat, hkey]
  by_cases hw : w = u
  · simp [hw]
  · simp [hw, Ne.symm hw]

/-- The keys of `p` that are held. -/
def heldKeys {κ : Type} [DecidableEq κ] (p : κ → Bool) (strokes : List (Stroke κ)) : Finset κ :=
  (strokes.map key).toFinset.filter fun k => p k && held strokes k

theorem mem_heldKeys {κ : Type} [DecidableEq κ] {p : κ → Bool} {strokes : List (Stroke κ)} {k : κ} :
    k ∈ heldKeys p strokes ↔ p k = true ∧ held strokes k = true := by
  rw [heldKeys, Finset.mem_filter, Bool.and_eq_true, and_iff_right_iff_imp]
  rintro ⟨-, hheld⟩
  exact List.mem_toFinset.mpr (List.mem_map.mpr ⟨_, mem_of_held hheld, rfl⟩)

/-- A pressed value is that of a held key, so there are no more of them. -/
theorem card_pressed_le {κ ν : Type} [DecidableEq κ] [DecidableEq ν] (f : κ → Option ν)
    (strokes : List (Stroke κ)) :
    (pressed f strokes).card ≤ (heldKeys (fun k => (f k).isSome) strokes).card := by
  have himage : (pressed f strokes).image some ⊆ (heldKeys (fun k => (f k).isSome) strokes).image f := by
    intro value hvalue
    obtain ⟨u, hu, rfl⟩ := Finset.mem_image.mp hvalue
    obtain ⟨k, hk, hheld⟩ := exists_held_of_lastDown (mem_pressed.mp hu)
    have hkey : f k = some u := of_decide_eq_true hk
    exact Finset.mem_image.mpr ⟨k, mem_heldKeys.mpr ⟨by rw [hkey]; rfl, hheld⟩, hkey⟩
  calc (pressed f strokes).card
      = ((pressed f strokes).image some).card :=
        (Finset.card_image_of_injective _ (Option.some_injective ν)).symm
    _ ≤ ((heldKeys (fun k => (f k).isSome) strokes).image f).card := Finset.card_le_card himage
    _ ≤ (heldKeys (fun k => (f k).isSome) strokes).card := Finset.card_image_le

theorem lastDown_congr {κ : Type} {p q : κ → Bool} (hpq : ∀ k, p k = q k) (strokes : List (Stroke κ)) :
    lastDown p strokes = lastDown q strokes := by
  rw [funext hpq]

theorem lastDown_append {κ : Type} (p : κ → Bool) (strokes later : List (Stroke κ)) :
    lastDown p (strokes ++ later) = if later.any fun e => p e.key then lastDown p later else lastDown p strokes := by
  induction later using List.reverseRecOn with
  | nil => rw [List.append_nil, List.any_nil, if_neg Bool.false_ne_true]
  | append_singleton later e ih =>
    rw [← List.append_assoc, lastDown_concat, lastDown_concat, ih, List.any_append]
    cases hkey : p e.key with
    | true => simp [hkey]
    | false => simp [hkey]

end Stroke

namespace History

private def lastChangeRev {α β : Type} [DecidableEq β] (f : List α → β) : List α → Nat
  | [] => 0
  | a :: past => if f (past.reverse ++ [a]) = f past.reverse then lastChangeRev f past else past.length + 1

/-- How many entries of a history lead up to the last change of `f`, that entry
included. -/
def lastChange {α β : Type} [DecidableEq β] (f : List α → β) (history : List α) : Nat :=
  lastChangeRev f history.reverse

theorem lastChange_concat {α β : Type} [DecidableEq β] (f : List α → β) (history : List α) (a : α) :
    lastChange f (history ++ [a]) =
      if f (history ++ [a]) = f history then lastChange f history else history.length + 1 := by
  simp [lastChange, lastChangeRev]

end History
