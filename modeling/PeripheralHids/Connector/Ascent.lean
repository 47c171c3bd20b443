import PeripheralHids.Connector.RoundTrip

open ShiftRegister

namespace peripheral_hids.ps2_connector

/-- Eleven bits with a low start bit, odd parity and a high stop bit are
delivered and leave an empty window. -/
theorem window_well_formed (bs : List Bool) (hnine : bs.length = 9) (hodd : oddOnes bs = true) :
    delivered [] (false :: (bs ++ [true])) = [ofBits 8 (bs.take 8)] ∧
      Machine.final windowStep [] (false :: (bs ++ [true])) = [] := by
  obtain ⟨hnone, hten⟩ := window_ten_bits bs hnine
  rw [if_pos hodd] at hten
  have hstop := windowStep_stop (w := false :: bs) true (by simp [hnine])
  rw [← List.cons_append, delivered_append, Machine.final_append, hnone, hten, delivered_cons,
    Machine.final, hstop]
  exact ⟨rfl, rfl⟩

theorem window_frame (byte : uint8_t) :
    delivered [] (frame byte) = [byte] ∧ Machine.final windowStep [] (frame byte) = [] := by
  have hsplit : frame byte = false :: ((bits byte ++ [!oddOnes (bits byte)]) ++ [true]) := by simp [frame]
  obtain ⟨hbyte, hfinal⟩ := window_well_formed _ (by simp) (oddOnes_with_parity byte)
  rw [← hsplit] at hbyte hfinal
  rw [List.take_left' (by simp), ofBits_bits] at hbyte
  exact ⟨hbyte, hfinal⟩

/-- An aligned receiver delivers every frame and is aligned after it. -/
theorem window_frames (bytes : List uint8_t) :
    delivered [] (bytes.flatMap frame) = bytes ∧
      Machine.final windowStep [] (bytes.flatMap frame) = [] := by
  induction bytes with
  | nil => exact ⟨rfl, rfl⟩
  | cons byte bytes ih =>
    obtain ⟨hbyte, hempty⟩ := window_frame byte
    rw [List.flatMap_cons, delivered_append, Machine.final_append, hbyte, hempty, ih.1, ih.2]
    exact ⟨rfl, rfl⟩

/-- A stream of zeros followed by ones. -/
def ascent (zeros ones : Nat) : List Bool :=
  List.replicate zeros false ++ List.replicate ones true

@[simp] theorem ascent_length (zeros ones : Nat) : (ascent zeros ones).length = zeros + ones := by
  simp [ascent]

theorem oddOnes_ascent (zeros ones : Nat) : oddOnes (ascent zeros ones) = (ones % 2 == 1) := by
  simp [oddOnes, ascent, List.count_append, List.count_replicate]

theorem ascent_succ (zeros ones : Nat) : ascent (zeros + 1) ones = false :: ascent zeros ones := rfl

theorem ascent_drop (zeros ones m : Nat) :
    (ascent zeros ones).drop m = ascent (zeros - m) (ones - (m - zeros)) := by
  simp [ascent, List.drop_append, List.drop_replicate]

theorem window_ones (n : Nat) : Machine.final windowStep [] (List.replicate n true) = [] := by
  induction n with
  | zero => rfl
  | succ n ih => exact ih

/-- From an empty window an ascent with an even number of ones is skipped or
becomes the new window; it never survives a parity check. -/
theorem window_ascent {zeros ones : Nat} (hlength : zeros + ones ≤ 10) (heven : ones % 2 = 0) :
    Machine.final windowStep [] (ascent zeros ones) =
      if zeros = 0 ∨ zeros + ones = 10 then [] else ascent zeros ones := by
  cases zeros with
  | zero => simpa [ascent] using window_ones ones
  | succ zeros =>
    rw [ascent_succ]
    by_cases hten : zeros + 1 + ones = 10
    · have hnine : (ascent zeros ones).length = 9 := by rw [ascent_length]; omega
      rw [(window_ten_bits _ hnine).2, oddOnes_ascent, heven, if_pos (Or.inr hten)]
      rfl
    · rw [if_neg (by omega), Machine.final, windowStep_start]
      exact (window_collect [false] _ (by simp) (by simp; omega)).2

/-- The window holds a low start bit, then zeros, then an even number of ones,
short of its parity bit. -/
def Trails (w : List Bool) : Prop :=
  ∃ zeros ones, 0 < zeros ∧ ones % 2 = 0 ∧ zeros + ones ≤ 9 ∧ w = ascent zeros ones

/-- What is left of an ascending frame after its first `m` bits realigns the
receiver or leaves a trailing window. -/
theorem window_rest_of_ascent {zeros m : Nat} (hzeros : zeros % 2 = 1) (hle : zeros ≤ 9) (hm : 0 < m) :
    Machine.final windowStep [] ((ascent zeros (11 - zeros)).drop m) = [] ∨
      m < zeros ∧ Trails (Machine.final windowStep [] ((ascent zeros (11 - zeros)).drop m)) ∧
        (Machine.final windowStep [] ((ascent zeros (11 - zeros)).drop m)).length = 11 - m := by
  rw [ascent_drop]
  by_cases hones : zeros ≤ m
  · left
    have hzero : zeros - m = 0 := by omega
    simpa [hzero, ascent] using window_ones (11 - zeros - (m - zeros))
  · have hfull : 11 - zeros - (m - zeros) = 11 - zeros := by omega
    rw [hfull, window_ascent (by omega) (by omega)]
    by_cases hten : zeros - m + (11 - zeros) = 10
    · left
      rw [if_pos (Or.inr hten)]
    · right
      rw [if_neg (by omega), ascent_length]
      exact ⟨by omega, ⟨zeros - m, 11 - zeros, by omega, by omega, by omega, rfl⟩, by omega⟩

theorem Trails.length_le {w : List Bool} (htrails : Trails w) : 0 < w.length ∧ w.length ≤ 9 := by
  obtain ⟨zeros, ones, hzeros, -, hle, rfl⟩ := htrails
  rw [ascent_length]
  omega

/-- A trailing window that is completed by zeros alone has even parity. -/
theorem Trails.even_with_zeros {w : List Bool} (htrails : Trails w) (n : Nat) :
    oddOnes (w ++ List.replicate n false).tail = false := by
  obtain ⟨zeros, ones, hzeros, heven, -, rfl⟩ := htrails
  obtain ⟨zeros, rfl⟩ : ∃ z, zeros = z + 1 := ⟨zeros - 1, by omega⟩
  rw [ascent_succ, List.cons_append, List.tail_cons, oddOnes_append, oddOnes_ascent, heven]
  simp [oddOnes, List.count_replicate]

/-- One frame of zeros followed by ones realigns the receiver or leaves a
trailing window no shorter than the one before, and strictly longer if that one
was trailing. With a single zero, the start bit, it always realigns. -/
theorem window_ascending_frame {byte : uint8_t} {zeros : Nat} (hodd : zeros % 2 = 1) (hle : zeros ≤ 9)
    (hframe : frame byte = ascent zeros (11 - zeros)) (w : List Bool) (hw : w.length ≤ 10) :
    Machine.final windowStep w (frame byte) = [] ∨
      1 < zeros ∧ Trails (Machine.final windowStep w (frame byte)) ∧
        w.length ≤ (Machine.final windowStep w (frame byte)).length ∧
        (Trails w → w.length < (Machine.final windowStep w (frame byte)).length) := by
  by_cases hnil : w = []
  · left
    rw [hnil]
    exact (window_frame byte).2
  have hpos : 0 < w.length := List.length_pos_iff.mpr hnil
  rw [hframe]
  by_cases hten : w.length = 10
  · obtain ⟨zeros, rfl⟩ : ∃ z, zeros = z + 1 := ⟨zeros - 1, by omega⟩
    have hrest := window_rest_of_ascent (m := 1) hodd hle (by decide)
    rw [ascent_succ, List.drop_one, List.tail_cons] at hrest
    rw [ascent_succ, Machine.final, windowStep_stop false hten]
    obtain hempty | ⟨-, htrails, hlength⟩ := hrest
    · exact Or.inl hempty
    · have hbound := htrails.length_le
      omega
  · obtain ⟨m, hm⟩ : ∃ m, w.length + m = 10 := ⟨10 - w.length, by omega⟩
    have hmpos : 0 < m := by omega
    have hlength : (ascent zeros (11 - zeros)).length = 11 := by rw [ascent_length]; omega
    have htake : ((ascent zeros (11 - zeros)).take m).length = m := by rw [List.length_take]; omega
    have hcomplete := (window_complete w ((ascent zeros (11 - zeros)).take m) hpos (by omega) (by omega)).2
    have hdrop := List.drop_eq_getElem_cons (l := ascent zeros (11 - zeros)) (i := m) (by omega)
    rw [← List.take_append_drop m (ascent zeros (11 - zeros)), Machine.final_append, hcomplete]
    split
    · rename_i hparity
      rw [hdrop, Machine.final, windowStep_stop _ (by rw [List.length_append]; omega)]
      obtain hempty | ⟨hzeros, htrails, hrest⟩ := window_rest_of_ascent (m := m + 1) hodd hle (by omega)
      · exact Or.inl hempty
      · refine Or.inr ⟨by omega, htrails, by simp only; omega, fun hw => ?_⟩
        have hlow : (ascent zeros (11 - zeros)).take m = List.replicate m false := by
          simp [ascent, List.take_append, List.take_replicate, show min m zeros = m by omega,
            show m - zeros = 0 by omega]
        rw [hlow, hw.even_with_zeros] at hparity
        cases hparity
    · obtain hempty | ⟨hzeros, htrails, hrest⟩ := window_rest_of_ascent hodd hle hmpos
      · exact Or.inl hempty
      · exact Or.inr ⟨by omega, htrails, by omega, fun _ => by omega⟩

/-- The bytes whose frames have no zero after a one. -/
def ascendingBytes : List uint8_t := [0x00, 0xC0, 0xF0, 0xFC, 0xFF]

theorem frame_of_mem_ascendingBytes {byte : uint8_t} (hbyte : byte ∈ ascendingBytes) :
    ∃ zeros, zeros % 2 = 1 ∧ zeros ≤ 9 ∧ frame byte = ascent zeros (11 - zeros) := by
  simp only [ascendingBytes, List.mem_cons, List.not_mem_nil, or_false] at hbyte
  obtain rfl | rfl | rfl | rfl | rfl := hbyte
  · exact ⟨9, by decide⟩
  · exact ⟨7, by decide⟩
  · exact ⟨5, by decide⟩
  · exact ⟨3, by decide⟩
  · exact ⟨1, by decide⟩

/-- Over ascending frames a trailing window grows with every frame until the
receiver is aligned. -/
theorem window_ascending_frames (bytes : List uint8_t) (hbytes : ∀ byte ∈ bytes, byte ∈ ascendingBytes)
    (w : List Bool) (htrails : Trails w) :
    Machine.final windowStep w (bytes.flatMap frame) = [] ∨
      Trails (Machine.final windowStep w (bytes.flatMap frame)) ∧
        w.length + bytes.length ≤ (Machine.final windowStep w (bytes.flatMap frame)).length := by
  induction bytes generalizing w with
  | nil => exact Or.inr ⟨htrails, Nat.le_refl _⟩
  | cons byte bytes ih =>
    obtain ⟨zeros, hodd, hle, hframe⟩ := frame_of_mem_ascendingBytes (hbytes byte (by simp))
    have hw := htrails.length_le
    rw [List.flatMap_cons, Machine.final_append]
    obtain hempty | ⟨-, hnext, -, hgrows⟩ := window_ascending_frame hodd hle hframe w (by omega)
    · left
      rw [hempty]
      exact (window_frames bytes).2
    · have hlonger := hgrows htrails
      obtain hempty | ⟨hfinal, hlength⟩ := ih (fun b hb => hbytes b (by simp [hb])) _ hnext
      · exact Or.inl hempty
      · exact Or.inr ⟨hfinal, by rw [List.length_cons]; omega⟩

/-- Ten ascending frames realign the receiver from every window. -/
theorem window_realigned (bytes : List uint8_t) (hbytes : ∀ byte ∈ bytes, byte ∈ ascendingBytes)
    (hten : 10 ≤ bytes.length) (w : List Bool) (hw : w.length ≤ 10) :
    Machine.final windowStep w (bytes.flatMap frame) = [] := by
  cases bytes with
  | nil => simp at hten
  | cons byte bytes =>
    obtain ⟨zeros, hodd, hle, hframe⟩ := frame_of_mem_ascendingBytes (hbytes byte (by simp))
    rw [List.flatMap_cons, Machine.final_append]
    obtain hempty | ⟨-, htrails, -⟩ := window_ascending_frame hodd hle hframe w hw
    · rw [hempty]
      exact (window_frames bytes).2
    · obtain hempty | ⟨hfinal, hlength⟩ :=
        window_ascending_frames bytes (fun b hb => hbytes b (by simp [hb])) _ htrails
      · exact hempty
      · have hfirst := htrails.length_le
        have hlast := hfinal.length_le
        rw [List.length_cons] at hten
        omega

end peripheral_hids.ps2_connector
