import PeripheralHids.Main.Alone
import PeripheralHids.Translator.Bounds

open peripheral_hids.msg_q peripheral_hids.ps2_connector peripheral_hids.ps2_hid_translator

namespace peripheral_hids.Adapter

/-- What the keyboard thread does when it is next to run. -/
def next_turn (c : Adapter) : Moment :=
  match c.pool.threads .ps2_keyboard_thread with
  | .idle => .call .parse_next_scancode
  | .asleep _ => .wake .ps2_keyboard_thread
  | .waiting _ => if c.swap_data = none then .get else .resume
  | .faulted => .get

/-- A number of turns of the keyboard thread, with nothing in between. -/
def own_turns : Nat → Adapter → List Moment
  | 0, _ => []
  | n + 1, c => c.next_turn :: own_turns n (c.step c.next_turn).2

/-- How many turns the keyboard thread needs until it pends on an empty queue, at
most: each code costs it a get, the return from it, the end of the sleep if it is
the last one of `Pause`, and the call for the codes after it. -/
def work (c : Adapter) : Nat :=
  4 * c.connector.rx_msg_que.contents.length +
    match c.pool.threads .ps2_keyboard_thread with
    | .idle => 2
    | .asleep _ => 3
    | .waiting _ => if c.swap_data = none then if c.connector.rx_msg_que.wait_q = 0 then 1 else 0 else 4
    | .faulted => 0

theorem work_le (c : Adapter) : c.work ≤ 4 * c.connector.rx_msg_que.contents.length + 4 := by
  unfold work
  apply Nat.add_le_add_left
  split
  · decide
  · decide
  · split
    · split <;> decide
    · decide
  · decide

/-- The calls on the codes that the queue took stay in bounds, so the thread has
not stopped. -/
theorem not_faulted {moments : List Moment} (hbounds : InBounds (.initial 0) (acceptances moments)) :
    (run moments).pool.threads .ps2_keyboard_thread ≠ .faulted := by
  intro hfaulted
  obtain ⟨n, t, rest, hcalls, hstage⟩ := (asAlone_run moments).stage
  rw [hfaulted] at hstage
  have hconserved := (conserves_run moments).conserved
  have hall := ProcM.calls_append hcalls (run moments).underway
  rw [readings, hconserved] at hall
  apply hbounds n t _ hall
  rw [run_eq_faulted_iff]
  obtain hfirst | hbroken := (scan_eq_fault_iff rest).mp hstage.1
  · exact Or.inl (hfirst.trans (List.prefix_append _ _))
  · exact Or.inr (hbroken.trans (List.prefix_append _ _))

/-- The thread's own turns clock nothing in. -/
theorem next_turn_quiet (c : Adapter) : (c.step c.next_turn).1.acceptance = none ∧ wire [c.next_turn] = [] := by
  unfold next_turn
  cases c.pool.threads .ps2_keyboard_thread with
  | idle | asleep k | faulted => exact ⟨rfl, rfl⟩
  | waiting k =>
    cases hswap : c.swap_data with
    | none => exact ⟨rfl, rfl⟩
    | some message =>
      refine ⟨?_, rfl⟩
      simp only [reduceCtorEq, if_false, step, hswap]
      rfl

theorem acceptances_next_turn (moments : List Moment) :
    acceptances (moments ++ [(run moments).next_turn]) = acceptances moments := by
  rw [acceptances, history_append, List.filterMap_append]
  change _ ++ List.filterMap _ [_] = _
  rw [List.filterMap_cons_none (next_turn_quiet _).1]
  exact List.append_nil _

theorem Pends.idle {c : Adapter} (hpends : c.Pends)
    (hthread : ∀ k, c.pool.threads .ps2_keyboard_thread ≠ .waiting k) :
    c.swap_data = none ∧ c.connector.rx_msg_que.wait_q = 0 := by
  by_contra hbusy
  obtain ⟨k, hwaiting⟩ := hpends.waits (by
    by_contra hfree
    rw [not_or, not_not, Nat.pos_iff_ne_zero, not_not] at hfree
    exact hbusy ⟨hfree.2, hfree.1⟩)
  exact hthread k hwaiting

theorem work_call {c : Adapter} (hpends : c.Pends) (hthread : c.pool.threads .ps2_keyboard_thread = .idle) :
    (c.turn (.call .parse_next_scancode)).work < c.work := by
  obtain ⟨hswap, hwait⟩ := hpends.idle fun k hwaiting => by rw [hthread] at hwaiting; cases hwaiting
  obtain ⟨k, hcalled⟩ : ∃ k, (c.turn (.call .parse_next_scancode)).pool.threads .ps2_keyboard_thread = .waiting k := by
    have hparser : program.thread .parse_next_scancode = .ps2_keyboard_thread := rfl
    rw [turn, Pool.step, hparser, hthread]
    exact ⟨_, Pool.resume_threads_self _ _⟩
  rw [work, work, hcalled, hthread]
  simp only [turn, hswap, hwait, if_true]
  omega

theorem work_wake {c : Adapter} {k : Translator → Proc uint8_t Translator Unit} {u : Translator}
    (hthread : c.pool.threads .ps2_keyboard_thread = .asleep k) (hwoken : k c.pool.state = .ret u ()) :
    (c.turn (.wake .ps2_keyboard_thread)).work < c.work := by
  have hidle : (c.turn (.wake .ps2_keyboard_thread)).pool.threads .ps2_keyboard_thread = .idle := by
    rw [turn, Pool.step, hthread]
    refine (Pool.resume_threads_self _ _).trans ?_
    rw [hwoken]
    rfl
  rw [work, work, hidle, hthread]
  simp only [turn]
  omega

theorem work_get {c : Adapter} {k : uint8_t → Translator → Proc uint8_t Translator Unit}
    (hthread : c.pool.threads .ps2_keyboard_thread = .waiting k) (hswap : c.swap_data = none)
    (hwait : c.connector.rx_msg_que.wait_q = 0) : c.get.work < c.work := by
  have hget : c.get = { c with
      connector := { c.connector with rx_msg_que := (k_msgq_get c.connector.rx_msg_que).2 },
      swap_data := (k_msgq_get c.connector.rx_msg_que).1 } := by
    rw [Adapter.get, hthread, hswap]
    exact if_pos hwait
  rw [hget, work, work, hthread]
  simp only [hswap, hwait, if_true]
  cases hcontents : c.connector.rx_msg_que.contents with
  | nil =>
    obtain ⟨hnone, hempty, hpending⟩ := k_msgq_get_of_empty hcontents
    simp only [hnone, hempty, hpending, hwait, if_true]
    decide
  | cons data later =>
    obtain ⟨hsome, hlater, -⟩ := k_msgq_get_of_contents hcontents
    simp only [hsome, hlater, reduceCtorEq, if_false, List.length_cons]
    omega

theorem work_resume {c : Adapter} {k : uint8_t → Translator → Proc uint8_t Translator Unit} {message : uint8_t}
    (hthread : c.pool.threads .ps2_keyboard_thread = .waiting k) (hswap : c.swap_data = some message) :
    (c.step .resume).2.work < c.work := by
  rw [work, work, hthread]
  simp only [step, hswap, turn, reduceCtorEq, if_false, if_true]
  apply Nat.add_lt_add_left
  split
  · decide
  · decide
  · split <;> decide
  · decide

/-- A turn of the keyboard thread brings it nearer to where it pends. -/
theorem next_turn_progress {moments : List Moment} (hbounds : InBounds (.initial 0) (acceptances moments)) :
    (run moments).connector.rx_msg_que.wait_q = 1 ∧
        ((run moments).step (run moments).next_turn).2 = run moments ∨
      ((run moments).step (run moments).next_turn).2.work < (run moments).work := by
  have hpends := (conserves_run moments).pends
  have hthread := not_faulted hbounds
  obtain ⟨n, t, rest, -, hstage⟩ := (asAlone_run moments).stage
  generalize run moments = c at *
  cases hc : c.pool.threads .ps2_keyboard_thread with
  | faulted => exact absurd hc hthread
  | idle =>
    right
    rw [next_turn, hc]
    exact work_call hpends hc
  | asleep k =>
    right
    rw [hc] at hstage
    obtain ⟨-, -, u, hwoken⟩ := hstage
    rw [next_turn, hc]
    exact work_wake hc hwoken
  | waiting k =>
    rw [next_turn, hc]
    cases hswap : c.swap_data with
    | some message =>
      right
      exact work_resume hc hswap
    | none =>
      by_cases hwait : c.connector.rx_msg_que.wait_q = 0
      · right
        exact work_get hc hswap hwait
      · left
        refine ⟨Nat.le_antisymm hpends.once (Nat.pos_of_ne_zero hwait), ?_⟩
        change c.get = c
        rw [Adapter.get, hc, hswap]
        exact if_neg hwait

/-- The codes that the queue has taken do not depend on the thread's own turns. -/
theorem acceptances_own_turns (n : Nat) (moments : List Moment) :
    acceptances (moments ++ own_turns n (run moments)) = acceptances moments := by
  induction n generalizing moments with
  | zero => rw [own_turns, List.append_nil]
  | succ n ih =>
    have hnext : run (moments ++ [(run moments).next_turn]) = ((run moments).step (run moments).next_turn).2 :=
      run_append moments _
    have hlater := ih (moments ++ [(run moments).next_turn])
    rw [hnext, List.append_assoc, acceptances_next_turn] at hlater
    exact hlater

/-- A thread that pends has nothing left to do. -/
theorem Pends.done {c : Adapter} (hpends : c.Pends) (hwait : c.connector.rx_msg_que.wait_q = 1) :
    (∃ k, c.pool.threads .ps2_keyboard_thread = .waiting k) ∧ c.underway = [] ∧ c.work = 0 := by
  have hpos : 0 < c.connector.rx_msg_que.wait_q := by omega
  have hempty := k_msgq.contents_of_wait hpos
  have hswap := hpends.handed hpos
  obtain ⟨k, hwaiting⟩ := hpends.waits (Or.inl hpos)
  refine ⟨⟨k, hwaiting⟩, ?_, ?_⟩
  · rw [underway, hswap, hempty]
    rfl
  · rw [work, hwaiting, hempty]
    simp only [hswap, hwait, if_true]
    rfl

theorem pended_own_turns (n : Nat) (moments : List Moment) (hbounds : InBounds (.initial 0) (acceptances moments))
    (hn : (run moments).work ≤ n) :
    (run (moments ++ own_turns n (run moments))).connector.rx_msg_que.wait_q = 1 := by
  induction n generalizing moments with
  | zero =>
    rw [own_turns, List.append_nil]
    obtain ⟨hpended, -⟩ | hless := next_turn_progress hbounds
    · exact hpended
    · omega
  | succ n ih =>
    have hnext : run (moments ++ [(run moments).next_turn]) = ((run moments).step (run moments).next_turn).2 :=
      run_append moments _
    have hlater := ih (moments ++ [(run moments).next_turn]) (by rw [acceptances_next_turn]; exact hbounds)
    rw [hnext, List.append_assoc] at hlater
    apply hlater
    obtain ⟨hpended, hsame⟩ | hless := next_turn_progress hbounds
    · have hdone := ((conserves_run moments).pends.done hpended).2.2
      rw [hsame]
      omega
    · omega

end peripheral_hids.Adapter
