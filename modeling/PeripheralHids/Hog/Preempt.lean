import PeripheralHids.Hog.Subscription
import PeripheralHids.Lib.Tearing

namespace peripheral_hids.hog

/-- The offsets that each access of a copy by single bytes is at. -/
def copy_bytes : Nat → Nat → List (List Nat)
  | _, 0 => []
  | i, n + 1 => [i] :: copy_bytes (i + 1) n

/-- By words as long as possible, then by bytes. -/
def copy_words : Nat → Nat → List (List Nat)
  | i, n + 4 => [i, i + 1, i + 2, i + 3] :: copy_words (i + 4) n
  | i, n => copy_bytes i n

/-- `sizeof(mem_word_t) - 1` -/
def mask : Nat := 3

/-- By bytes until the destination is at a word, then by words. -/
def copy_aligned (d : Nat) : Nat → Nat → List (List Nat)
  | _, 0 => []
  | i, n + 1 => if (d + i) &&& mask = 0 then copy_words i (n + 1) else [i] :: copy_aligned d (i + 1) n

/-- The accesses of `memcpy`, which tries words only where both addresses are at the
same place in one. -/
def memcpy (d s n : Nat) : List (List Nat) := if (d ^^^ s) &&& mask = 0 then copy_aligned d 0 n else copy_bytes 0 n

theorem flatten_copy_bytes (i n : Nat) : (copy_bytes i n).flatten = List.range' i n := by
  induction n generalizing i with
  | zero => rfl
  | succ n ih => rw [copy_bytes, List.flatten_cons, ih, List.range'_succ, List.singleton_append]

theorem flatten_copy_words (i n : Nat) : (copy_words i n).flatten = List.range' i n := by
  fun_induction copy_words i n with
  | case1 i n ih =>
    rw [List.flatten_cons, ih]
    rfl
  | case2 i n hn => exact flatten_copy_bytes i n

theorem flatten_copy_aligned (d i n : Nat) : (copy_aligned d i n).flatten = List.range' i n := by
  induction n generalizing i with
  | zero => rfl
  | succ n ih =>
    rw [copy_aligned]
    split
    · exact flatten_copy_words i (n + 1)
    · rw [List.flatten_cons, ih, List.range'_succ, List.singleton_append]

/-- Wherever it copies from and to, `memcpy` copies every byte once, in order. -/
theorem flatten_memcpy (d s n : Nat) : (memcpy d s n).flatten = List.range n := by
  rw [List.range_eq_range', memcpy]
  split
  · exact flatten_copy_aligned d 0 n
  · exact flatten_copy_bytes 0 n

/-- The copy of a report between two addresses. -/
def memcpy_report (d s : Nat) : CopyPlan (Fin 8) where
  chunks := (memcpy d s 8).map (List.map (Fin.ofNat 8))
  covers i := by
    rw [← List.map_flatten, flatten_memcpy, List.mem_map]
    exact ⟨i.val, List.mem_range.mpr i.isLt, Fin.ofNat_val_eq_self i⟩

/-- A byte of a report. -/
def hids_report_keyboard.byte (report : hids_report_keyboard) (i : Fin 8) : uint8_t := report.bytes.getD i 0

/-- A call of `hog_set_keyboard_input` by a thread, with the addresses of the report,
of `input_keyboard` and of the value in the buffer of the notification, and what that
buffer holds before. -/
structure SetCall (τ : Type) where
  thread : τ
  kb_report : hids_report_keyboard
  kb_report_at : Nat
  input_keyboard_at : Nat
  value_at : Nat
  value : Fin 8 → uint8_t

namespace SetCall

variable {τ : Type}

/-- `memcpy(&input_keyboard, kb_report, ...)` -/
def stores (c : SetCall τ) : CopyPlan (Fin 8) := memcpy_report c.input_keyboard_at c.kb_report_at

/-- `memcpy(nfy->value, params->data, params->len)` in `bt_gatt_notify` -/
def loads (c : SetCall τ) : CopyPlan (Fin 8) := memcpy_report c.value_at c.input_keyboard_at

end SetCall

/-- What happens to `input_keyboard` at the grain of memory accesses: a thread begins a
call, makes its next access or decision, or the configuration of the one client
changes. -/
inductive Access (τ : Type) where
  | call (c : SetCall τ)
  | next (thread : τ)
  | ccc_changed (value : uint16_t)

section

variable {τ : Type}

def Access.event : Access τ → Tearing.Event τ (Fin 8) uint8_t
  | .call c => .call c.thread c.kb_report.byte c.stores c.loads c.value
  | .next thread => .step thread
  | .ccc_changed value => .enable (value = BT_GATT_CCC_NOTIFY)

/-- The report that a call is given, with its thread. -/
def Access.given : Access τ → Option (τ × (Fin 8 → uint8_t))
  | .call c => some (c.thread, c.kb_report.byte)
  | .next _ => none
  | .ccc_changed _ => none

theorem Access.given_event (access : Access τ) : access.event.given = access.given := by
  cases access <;> rfl

/-- The statics as they are initialised, and no call in progress. -/
def memory_initial : Tearing.State τ (Fin 8) uint8_t where
  shared := hids_report_keyboard.zero.byte
  enabled := false
  calls := fun _ => none
  handed := []
  sent := []

variable [DecidableEq τ]

def memory (accesses : List (Access τ)) : Tearing.State τ (Fin 8) uint8_t :=
  memory_initial.run (accesses.map Access.event)

theorem memory_handed (accesses : List (Access τ)) :
    (memory accesses).handed ⊆ accesses.filterMap Access.given := by
  intro r hr
  have hgiven := Tearing.State.handed_run memory_initial (accesses.map Access.event) hr
  rw [List.filterMap_map] at hgiven
  rwa [← funext Access.given_event]

/-- Reports without atomicity. Whatever threads call `hog_set_keyboard_input` and
wherever they are preempted, in the middle of a copy too, each byte of a notification
is the byte in this place of the report that its call was given, or of one that a call
of another thread was storing meanwhile; where no other call stored anything meanwhile
it is the report. -/
theorem notified_bytes (accesses : List (Access τ)) : ∀ x ∈ (memory accesses).sent,
    (x.thread, x.record) ∈ accesses.filterMap Access.given ∧
    (∀ r ∈ x.overlapped, r.1 ≠ x.thread ∧ r ∈ accesses.filterMap Access.given) ∧
    (∀ i, x.image i = x.record i ∨ ∃ r ∈ x.overlapped, x.image i = r.2 i) ∧
    (x.overlapped = [] → x.image = x.record) := by
  have hinitial : (memory_initial : Tearing.State τ (Fin 8) uint8_t).Sound := ⟨nofun, nofun⟩
  intro x hx
  obtain ⟨⟨hown, hothers⟩, horigin⟩ := (hinitial.run (accesses.map Access.event)).sent x hx
  refine ⟨memory_handed accesses hown, fun r hr => ?_, horigin, Tearing.Origin.eq horigin⟩
  exact ⟨(hothers r hr).1, memory_handed accesses (hothers r hr).2⟩

/-- A report with left control down and a report with two keys down, of two threads;
the second is preempted between the two words of its copy. -/
def torn_accesses : List (Access Bool) :=
  let report (modifier a b : uint8_t) : hids_report_keyboard := ⟨modifier, 0, #v[a, 0, 0, 0, b, 0]⟩
  let call (thread : Bool) (kb_report : hids_report_keyboard) : Access Bool :=
    .call ⟨thread, kb_report, 0x2000, 0x2010, 0x2020, fun _ => 0⟩
  [.ccc_changed BT_GATT_CCC_NOTIFY, call true (report 0 0x04 0x05), .next true, call false (report 1 0 0)] ++
    List.replicate 7 (.next false) ++ List.replicate 6 (.next true)

theorem notified_bytes_torn : ∃ x, (memory torn_accesses).sent.getLast? = some x ∧
    List.ofFn x.record = [0, 0, 0x04, 0, 0, 0, 0x05, 0] ∧ List.ofFn x.image = [1, 0, 0, 0, 0, 0, 0x05, 0] ∧
    (∀ r ∈ x.overlapped, r.1 ≠ x.thread ∧ r ∈ torn_accesses.filterMap Access.given) ∧
    ∀ i, x.image i = x.record i ∨ ∃ r ∈ x.overlapped, x.image i = r.2 i := by
  have hsent : ∃ x, (memory torn_accesses).sent.getLast? = some x ∧
      List.ofFn x.record = [0, 0, 0x04, 0, 0, 0, 0x05, 0] ∧
      List.ofFn x.image = [1, 0, 0, 0, 0, 0, 0x05, 0] := ⟨_, rfl, by decide, by decide⟩
  obtain ⟨x, hx, hrecord, himage⟩ := hsent
  obtain ⟨-, hothers, horigin, -⟩ := notified_bytes torn_accesses x (List.mem_of_getLast? hx)
  exact ⟨x, hx, hrecord, himage, hothers, horigin⟩

/-- A call from its beginning to its end, with no other in between. -/
def SetCall.accesses (c : SetCall τ) : List (Access τ) :=
  .call c :: (List.replicate c.stores.chunks.length (.next c.thread) ++ [.next c.thread, .next c.thread] ++
    List.replicate c.loads.chunks.length (.next c.thread) ++ [.next c.thread])

/-- What happens where calls do not overlap. -/
inductive Turn (τ : Type) where
  | call (c : SetCall τ)
  | ccc_changed (value : uint16_t)

def Turn.accesses : Turn τ → List (Access τ)
  | .call c => c.accesses
  | .ccc_changed value => [.ccc_changed value]

def Turn.event : Turn τ → Event
  | .call c => .set c.kb_report
  | .ccc_changed value => .ccc_changed value

/-- The service as it is with no call in progress, in the model that takes a call as
one step. -/
structure Represents (s : Tearing.State τ (Fin 8) uint8_t) (h : Hog) : Prop where
  idle : s.calls = fun _ => none
  shared : s.shared = h.input_keyboard.byte
  enabled : s.enabled = h.enabled
  sent : s.sent.map Tearing.Sent.image = h.notified.map hids_report_keyboard.byte

theorem Represents.turn {s : Tearing.State τ (Fin 8) uint8_t} {h : Hog} (hs : Represents s h) (turn : Turn τ) :
    Represents (s.run (turn.accesses.map Access.event)) (serve h turn.event) := by
  cases turn with
  | call c =>
    have hrun := Tearing.State.run_alone hs.idle c.thread c.kb_report.byte c.value c.stores c.loads
    have haccesses : (Turn.call c).accesses.map Access.event =
        .call c.thread c.kb_report.byte c.stores c.loads c.value ::
          (List.replicate c.stores.chunks.length (.step c.thread) ++ [.step c.thread, .step c.thread] ++
            List.replicate c.loads.chunks.length (.step c.thread) ++ [.step c.thread]) := by
      simp only [Turn.accesses, SetCall.accesses, List.map_cons, List.map_append, List.map_replicate, List.map_nil,
        Access.event]
    rw [haccesses, hrun]
    refine ⟨hs.idle, ?_, ?_, ?_⟩
    · simp only [serve, Turn.event, hog_set_keyboard_input_input_keyboard]
    · rw [Turn.event, serve, hog_set_keyboard_input_enabled]
      exact hs.enabled
    · rw [Turn.event, serve, hog_set_keyboard_input_notified, List.map_append, hs.sent, hs.enabled]
      cases h.enabled with
      | false => exact List.append_nil _
      | true =>
        rw [if_pos rfl, if_pos rfl, List.map_append]
        rfl
  | ccc_changed value =>
    refine ⟨hs.idle, hs.shared, ?_, hs.sent⟩
    rw [Turn.event, serve, input_ccc_changed_enabled]
    rfl

theorem Represents.turns {s : Tearing.State τ (Fin 8) uint8_t} {h : Hog} (hs : Represents s h)
    (turns : List (Turn τ)) :
    Represents (s.run ((turns.flatMap Turn.accesses).map Access.event)) ((turns.map Turn.event).foldl serve h) := by
  induction turns generalizing s h with
  | nil => exact hs
  | cons turn turns ih =>
    rw [List.flatMap_cons, List.map_append, Tearing.State.run_append, List.map_cons, List.foldl_cons]
    exact ih (hs.turn turn)

/-- Refinement: calls that do not overlap, by any threads, between any addresses and
with the configuration changed in between, leave in the buffer and pass on what they
do where a call is one step. -/
theorem turns_atomic (turns : List (Turn τ)) :
    Represents (memory (turns.flatMap Turn.accesses)) ((turns.map Turn.event).foldl serve .initial) :=
  Represents.turns ⟨rfl, rfl, rfl, rfl⟩ turns

end

end peripheral_hids.hog
