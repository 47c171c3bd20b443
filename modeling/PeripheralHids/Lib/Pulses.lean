import Mathlib.Data.List.Dedup

namespace Pulses

/-- What appears in a sequence of snapshots: the elements of each snapshot that
the one before it did not have, with the snapshot they appear in. -/
def rises {ρ κ : Type} [DecidableEq κ] (content : ρ → List κ) : ρ → List ρ → List (κ × ρ)
  | _, [] => []
  | previous, snapshot :: rest =>
    ((content snapshot).dedup.filter fun k => k ∉ content previous).map (fun k => (k, snapshot)) ++
      rises content snapshot rest

theorem rises_of_empty {ρ κ : Type} [DecidableEq κ] {content : ρ → List κ} {previous : ρ}
    (hprevious : content previous = []) (snapshot : ρ) (rest : List ρ) :
    rises content previous (snapshot :: rest) =
      (content snapshot).dedup.map (fun k => (k, snapshot)) ++ rises content snapshot rest := by
  rw [rises, hprevious]
  simp

theorem rises_empty {ρ κ : Type} [DecidableEq κ] {content : ρ → List κ} {idle : ρ}
    (hidle : content idle = []) (previous : ρ) (rest : List ρ) :
    rises content previous (idle :: rest) = rises content idle rest := by
  rw [rises, hidle]
  rfl

/-- When every snapshot comes after an empty one, nothing is lost or merged: what
appears is the content of each snapshot, in order. -/
theorem rises_pulses {ρ κ υ : Type} [DecidableEq κ] {content : ρ → List κ} {idle : ρ}
    (hidle : content idle = []) (pulse : υ → ρ) (units : List υ) (previous : ρ) :
    rises content previous (units.flatMap (fun u => [idle, pulse u]) ++ [idle]) =
      units.flatMap fun u => (content (pulse u)).dedup.map fun k => (k, pulse u) := by
  induction units generalizing previous with
  | nil => rw [List.flatMap_nil, List.nil_append, rises_empty hidle, rises, List.flatMap_nil]
  | cons u units ih =>
    rw [List.flatMap_cons, List.flatMap_cons, List.append_assoc, List.cons_append, List.cons_append,
      List.nil_append, rises_empty hidle, rises_of_empty hidle, ih]

end Pulses
