import PeripheralHids.Kernel.Calls

namespace peripheral_hids.kernel

variable {τ α : Type} {max_msgs : Nat}

/-- One thread is served before another: it has the higher priority, or the same and
has waited longer. -/
def k_thread.Before (a b : k_thread τ α) : Prop := a.prio < b.prio ∨ a.prio = b.prio ∧ a.since < b.since

theorem pairwise_z_priq_dumb_add {pq : List (k_thread τ α)} (hpq : pq.Pairwise k_thread.Before)
    {thread : k_thread τ α} (hthread : ∀ t ∈ pq, t.since < thread.since) :
    (z_priq_dumb_add pq thread).Pairwise k_thread.Before := by
  induction pq with
  | nil => exact List.pairwise_singleton _ _
  | cons t pq ih =>
    obtain ⟨hfirst, hrest⟩ := List.pairwise_cons.mp hpq
    rw [z_priq_dumb_add]
    by_cases hprio : thread.prio < t.prio
    · rw [if_pos hprio]
      refine List.pairwise_cons.mpr ⟨List.forall_mem_cons.mpr ⟨Or.inl hprio, fun w hw => Or.inl ?_⟩, hpq⟩
      obtain hlt | ⟨heq, -⟩ := hfirst w hw <;> omega
    · rw [if_neg hprio]
      refine List.pairwise_cons.mpr ⟨fun w hw => ?_, ih hrest fun w hw => hthread w (List.mem_cons_of_mem t hw)⟩
      obtain rfl | hw := mem_z_priq_dumb_add.mp hw
      · have hsince := hthread t List.mem_cons_self
        unfold k_thread.Before
        omega
      · exact hfirst w hw

/-- The list of waiting threads loses some of them, or gets one that begins to wait now. -/
def k_msgq.Queues (msgq : k_msgq τ α max_msgs) (now : Nat) (next : k_msgq τ α max_msgs) : Prop :=
  next.wait_q.Sublist msgq.wait_q ∨ ∃ w, w.since = now ∧ next.wait_q = z_priq_dumb_add msgq.wait_q w

theorem queues_put (msgq : k_msgq τ α max_msgs) (current : k_thread τ α) (timeout : k_timeout_t) :
    msgq.Queues current.since (z_impl_k_msgq_put msgq current timeout).2 := by
  obtain ⟨hroom, ⟨-, heq⟩ | ⟨w, wait_q, hwait, heq⟩⟩ | ⟨-, ⟨-, heq⟩ | ⟨-, heq⟩⟩ :=
    z_impl_k_msgq_put_cases msgq current timeout
  · rw [heq]
    exact Or.inl (.refl _)
  · rw [heq]
    exact Or.inl (hwait ▸ List.sublist_cons_self w wait_q)
  · rw [heq]
    exact Or.inl (.refl _)
  · rw [heq]
    exact Or.inr ⟨{ current with timed := timeout ≠ K_FOREVER }, rfl, rfl⟩

theorem queues_get (msgq : k_msgq τ α max_msgs) (current : k_thread τ α) (timeout : k_timeout_t) :
    msgq.Queues current.since (z_impl_k_msgq_get msgq current timeout).2 := by
  obtain ⟨hused, ⟨-, heq⟩ | ⟨w, wait_q, hwait, heq⟩⟩ | ⟨-, ⟨-, heq⟩ | ⟨-, heq⟩⟩ :=
    z_impl_k_msgq_get_cases msgq current timeout
  · rw [heq]
    exact Or.inl (.refl _)
  · rw [heq]
    exact Or.inl (hwait ▸ List.sublist_cons_self w wait_q)
  · rw [heq]
    exact Or.inl (.refl _)
  · rw [heq]
    exact Or.inr ⟨{ current with timed := timeout ≠ K_FOREVER }, rfl, rfl⟩

/-- The threads wait in the order in which they are served. -/
structure System.Ordered (sys : System τ α max_msgs) : Prop where
  order : sys.msgq.wait_q.Pairwise k_thread.Before
  past : ∀ w ∈ sys.msgq.wait_q, w.since < sys.now

theorem System.Ordered.after {sys : System τ α max_msgs} (hsys : sys.Ordered)
    {result : List (k_thread τ α × Ret) × k_msgq τ α max_msgs} (hqueues : sys.msgq.Queues sys.now result.2)
    (begun : List (τ × Fifo.Call α)) (last : List (Fifo.Entry τ α)) : (sys.after begun result last).Ordered := by
  obtain hsub | ⟨w, hsince, heq⟩ := hqueues
  · exact ⟨hsys.order.sublist hsub, fun w hw => Nat.lt_succ_of_lt (hsys.past w (hsub.subset hw))⟩
  · refine ⟨?_, fun t ht => ?_⟩
    · change result.2.wait_q.Pairwise k_thread.Before
      rw [heq]
      exact pairwise_z_priq_dumb_add hsys.order fun t ht => hsince ▸ hsys.past t ht
    · change t ∈ result.2.wait_q at ht
      rw [heq, mem_z_priq_dumb_add] at ht
      obtain rfl | ht := ht
      · exact hsince ▸ Nat.lt_succ_self _
      · exact Nat.lt_succ_of_lt (hsys.past t ht)

structure System.Valid (sys : System τ α max_msgs) : Prop where
  disciplined : sys.msgq.Disciplined
  fifo : Fifo.Run max_msgs [] sys.history sys.msgq.ring.contents

theorem System.valid_init (buffer : Vector α max_msgs) (hmax : 0 < max_msgs) :
    (System.init buffer hmax : System τ α max_msgs).Valid :=
  ⟨.of_nil rfl, .nil⟩

variable [DecidableEq τ]

theorem System.not_mem_of_not_pending {sys : System τ α max_msgs} {thread : τ}
    (hthread : ¬ sys.pending thread = true) :
    thread ∉ sys.msgq.wait_q.map k_thread.id := by
  intro hmem
  obtain ⟨w, hw, hid⟩ := List.mem_map.mp hmem
  exact hthread (List.any_eq_true.mpr ⟨w, hw, decide_eq_true hid⟩)

/-- All that an event can do: nothing, something sound, or end a thread. -/
theorem System.step_cases {sys : System τ α max_msgs} (hsys : sys.msgq.Disciplined) (event : Event τ α) :
    sys.step event = sys ∨
    (∃ begun returns next, Sound sys.msgq begun returns next ∧
      (.cleared ∈ returns → ∃ thread, event = .purge thread) ∧
      sys.step event = ⟨next, sys.begun ++ begun, sys.history ++ returns, sys.now + 1⟩) ∨
    ∃ thread, event = .abort thread ∧
      sys.step event = ⟨z_thread_single_abort sys.msgq thread, sys.begun, sys.history, sys.now + 1⟩ := by
  have hreturned (returns : List (k_thread τ α × Ret)) : .cleared ∉ returns.map returned ++ [] := by
    rw [List.append_nil, List.mem_map]
    rintro ⟨r, -, hr⟩
    cases hr
  have hafter (begun : List (τ × Fifo.Call α)) (result : List (k_thread τ α × Ret) × k_msgq τ α max_msgs)
      (last : List (Fifo.Entry τ α)) : sys.after begun result last =
        ⟨result.2, sys.begun ++ begun, sys.history ++ (result.1.map returned ++ last), sys.now + 1⟩ := by
    rw [System.after, List.append_assoc]
  cases event with
  | put thread prio data timeout =>
    by_cases hpending : sys.pending thread = true
    · exact Or.inl (if_pos hpending)
    · refine Or.inr (Or.inl ⟨_, _, _, ?_, fun h => absurd h (hreturned _), (if_neg hpending).trans (hafter _ _ _)⟩)
      rw [List.append_nil]
      exact .put hsys ⟨thread, prio, data, false, .put data, sys.now⟩ (not_mem_of_not_pending hpending) rfl timeout
  | get thread prio data timeout =>
    by_cases hpending : sys.pending thread = true
    · exact Or.inl (if_pos hpending)
    · refine Or.inr (Or.inl ⟨_, _, _, ?_, fun h => absurd h (hreturned _), (if_neg hpending).trans (hafter _ _ _)⟩)
      rw [List.append_nil]
      exact .get hsys ⟨thread, prio, data, false, .get, sys.now⟩ (not_mem_of_not_pending hpending) rfl timeout
  | peek thread prio data =>
    by_cases hpending : sys.pending thread = true
    · exact Or.inl (if_pos hpending)
    · refine Or.inr (Or.inl ⟨_, _, _, ?_, fun h => absurd h (hreturned _), (if_neg hpending).trans (hafter _ _ _)⟩)
      rw [List.append_nil]
      exact .peek hsys ⟨thread, prio, data, false, .peek, sys.now⟩ (not_mem_of_not_pending hpending) rfl
  | purge thread =>
    by_cases hpending : sys.pending thread = true
    · exact Or.inl (if_pos hpending)
    · exact Or.inr (Or.inl ⟨_, _, _, .purge hsys, fun _ => ⟨thread, rfl⟩, (if_neg hpending).trans (hafter _ _ _)⟩)
  | timeout thread =>
    refine Or.inr (Or.inl ⟨_, _, _, ?_, fun h => absurd h (hreturned _), hafter _ _ _⟩)
    rw [List.append_nil]
    exact .timeout hsys thread
  | abort thread =>
    refine Or.inr (Or.inr ⟨thread, rfl, ?_⟩)
    rw [System.step, hafter, List.append_nil]
    simp only [List.map_nil, List.append_nil]
  | set_prio thread prio =>
    refine Or.inr (Or.inl ⟨_, _, _, ?_, fun h => absurd h (hreturned _), hafter _ _ _⟩)
    rw [List.append_nil]
    exact .set_prio hsys thread prio

/-- The calls that a thread has begun. -/
def System.calls (sys : System τ α max_msgs) (thread : τ) : List (Fifo.Call α) :=
  (sys.begun.filter fun b => b.1 = thread).map Prod.snd

theorem System.Valid.step {sys : System τ α max_msgs} (hsys : sys.Valid) (event : Event τ α) :
    (sys.step event).Valid := by
  obtain heq | ⟨begun, returns, next, hsound, -, heq⟩ | ⟨thread, -, heq⟩ := sys.step_cases hsys.disciplined event
  · rwa [heq]
  · rw [heq]
    exact ⟨hsound.disciplined, hsys.fifo.append hsound.fifo⟩
  · rw [heq]
    exact ⟨hsys.disciplined.sublist List.filter_sublist, hsys.fifo⟩

theorem System.valid_run (buffer : Vector α max_msgs) (hmax : 0 < max_msgs) (events : List (Event τ α)) :
    (System.run buffer hmax events).Valid :=
  List.foldlRecOn events _ (valid_init buffer hmax) fun _ hsys event _ => hsys.step event

-- An aborted thread is gone from the queue, and the call it was in has not returned.
example : (System.run #v[0] (by decide) [.get 0 0 0 K_FOREVER, .abort 0] : System Nat Nat 1).calls 0 = [.get] ∧
    (System.run #v[0] (by decide) [.get 0 0 0 K_FOREVER, .abort 0] : System Nat Nat 1).history = [] ∧
    (System.run #v[0] (by decide) [.get 0 0 0 K_FOREVER, .abort 0] : System Nat Nat 1).msgq.waiting 0 = [] :=
  ⟨rfl, rfl, rfl⟩

theorem System.Ordered.step {sys : System τ α max_msgs} (hsys : sys.Ordered) {event : Event τ α}
    (hevent : ∀ thread prio, event ≠ .set_prio thread prio) : (sys.step event).Ordered := by
  cases event with
  | put thread prio data timeout =>
    rw [System.step]
    split
    · exact hsys
    · exact hsys.after (queues_put sys.msgq ⟨thread, prio, data, false, .put data, sys.now⟩ timeout) _ _
  | get thread prio data timeout =>
    rw [System.step]
    split
    · exact hsys
    · exact hsys.after (queues_get sys.msgq ⟨thread, prio, data, false, .get, sys.now⟩ timeout) _ _
  | peek thread prio data =>
    rw [System.step]
    split
    · exact hsys
    · exact hsys.after (Or.inl (.refl _)) _ _
  | purge thread =>
    rw [System.step]
    split
    · exact hsys
    · exact hsys.after (Or.inl (List.nil_sublist _)) _ _
  | timeout thread => exact hsys.after (Or.inl List.filter_sublist) _ _
  | abort thread => exact hsys.after (Or.inl List.filter_sublist) _ _
  | set_prio thread prio => exact absurd rfl (hevent thread prio)

/-- Who waits, and in which order. At any time all the waiting threads are in gets,
and then the queue is empty, or all are in puts, each with its message untouched, and
then it is full; so neither a message is copied over one that a thread waits to put
nor the buffer of a get is taken for a message. As long as no priority is changed they
wait in the order of their priorities, and of their calls where these are the same. -/
theorem threads_wait_in_order (buffer : Vector α max_msgs) (hmax : 0 < max_msgs) (events : List (Event τ α)) :
    ((∀ w ∈ (System.run buffer hmax events).msgq.wait_q,
        w.call = .get ∧ (System.run buffer hmax events).msgq.ring.contents = []) ∨
      ∀ w ∈ (System.run buffer hmax events).msgq.wait_q,
        w.call = .put w.swap_data ∧ (System.run buffer hmax events).msgq.ring.contents.length = max_msgs) ∧
    ((System.run buffer hmax events).msgq.wait_q.map k_thread.id).Nodup ∧
    ((∀ thread prio, .set_prio thread prio ∉ events) →
      (System.run buffer hmax events).msgq.wait_q.Pairwise k_thread.Before) := by
  obtain ⟨⟨hwaits, hids⟩, -⟩ := System.valid_run buffer hmax events
  refine ⟨hwaits, hids, fun hprio => ?_⟩
  have hordered : (System.run buffer hmax events).Ordered := by
    refine List.foldlRecOn events _ ⟨List.Pairwise.nil, nofun⟩ fun sys hsys event hevent => hsys.step ?_
    intro thread prio heq
    exact hprio thread prio (heq ▸ hevent)
  exact hordered.order

/-- Three threads wait in gets; the last to call has the highest priority. -/
theorem threads_wait_in_order_gets :
    (System.run #v[0] (by decide) [.get 0 5 0 K_FOREVER, .get 1 5 0 K_FOREVER, .get 2 3 0 K_FOREVER] :
      System Nat Nat 1).msgq.wait_q.Pairwise k_thread.Before :=
  (threads_wait_in_order #v[0] (by decide) [.get 0 5 0 K_FOREVER, .get 1 5 0 K_FOREVER, .get 2 3 0 K_FOREVER]).2.2
    (by simp)

-- A thread whose priority is raised while it waits is still served last.
example : (System.run #v[0] (by decide) [.get 0 5 0 K_FOREVER, .get 1 5 0 K_FOREVER, .set_prio 1 3] :
    System Nat Nat 1).msgq.wait_q.map (fun w => (w.id, w.prio)) = [(0, 5), (1, 3)] := rfl

end peripheral_hids.kernel
