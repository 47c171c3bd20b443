import PeripheralHids.Kernel.Linear
import PeripheralHids.Kernel.MsgQueue

namespace peripheral_hids.kernel

variable {τ α : Type} {max_msgs : Nat}

/-- The calls of a queue that is filled from interrupts and emptied by threads: puts
that do not wait, and gets that wait for ever. -/
def Event.plain : Event τ α → Bool
  | .put _ _ _ limit => limit = K_NO_WAIT
  | .get _ _ _ limit => limit = K_FOREVER
  | _ => false

/-- The model of such a queue, which only counts the waiting threads. -/
structure k_msgq.Represents (msgq : k_msgq τ α max_msgs) (q : msg_q.k_msgq α max_msgs) : Prop where
  ring : q.ring = msgq.ring
  wait_q : q.wait_q = msgq.wait_q.length

/-- What the calls return that a put ends, and with what in their buffers. -/
def put_returns (data : α) : msg_q.PutResult α → List (Ret × α)
  | .handed message => [(.ok, data), (.ok, message)]
  | .stored => [(.ok, data)]
  | .nomsg => [(.ENOMSG, data)]

theorem k_msgq.Represents.put {msgq : k_msgq τ α max_msgs} {q : msg_q.k_msgq α max_msgs} (hq : msgq.Represents q)
    (current : k_thread τ α) :
    (z_impl_k_msgq_put msgq current K_NO_WAIT).2.Represents (msg_q.k_msgq_put q current.swap_data).2 ∧
      (z_impl_k_msgq_put msgq current K_NO_WAIT).1.map (fun r => (r.2, r.1.swap_data)) =
        put_returns current.swap_data (msg_q.k_msgq_put q current.swap_data).1 := by
  obtain ⟨ring, wait_q, hempty⟩ := q
  obtain ⟨rfl, rfl⟩ : ring = msgq.ring ∧ wait_q = msgq.wait_q.length := ⟨hq.ring, hq.wait_q⟩
  unfold msg_q.k_msgq_put
  obtain ⟨hroom, ⟨hwait, heq⟩ | ⟨w, wait_q, hwait, heq⟩⟩ | ⟨hfull, ⟨-, heq⟩ | ⟨hwait, -⟩⟩ :=
    z_impl_k_msgq_put_cases msgq current K_NO_WAIT
  · have hnone : ¬ 0 < msgq.wait_q.length := by rw [hwait]; exact Nat.lt_irrefl 0
    simp only [dif_pos hroom, dif_neg hnone, heq]
    exact ⟨⟨rfl, rfl⟩, rfl⟩
  · have hsome : 0 < msgq.wait_q.length := by rw [hwait]; exact Nat.succ_pos _
    simp only [dif_pos hroom, dif_pos hsome, heq]
    refine ⟨⟨rfl, ?_⟩, rfl⟩
    change msgq.wait_q.length - 1 = wait_q.length
    rw [hwait]
    rfl
  · simp only [dif_neg (Nat.not_lt.mpr (Nat.le_of_eq hfull.symm)), heq]
    exact ⟨⟨rfl, rfl⟩, rfl⟩
  · exact absurd rfl hwait

/-- A message in the queue means that no thread waits, so that a get wakes none. -/
theorem k_msgq.Represents.get {msgq : k_msgq τ α max_msgs} {q : msg_q.k_msgq α max_msgs} (hq : msgq.Represents q)
    (current : k_thread τ α) :
    (z_impl_k_msgq_get msgq current K_FOREVER).2.Represents (msg_q.k_msgq_get q).2 ∧
      (z_impl_k_msgq_get msgq current K_FOREVER).1.map (fun r => (r.2, r.1.swap_data)) =
        (msg_q.k_msgq_get q).1.toList.map fun message => (.ok, message) := by
  obtain ⟨ring, wait_q, hempty⟩ := q
  obtain ⟨rfl, rfl⟩ : ring = msgq.ring ∧ wait_q = msgq.wait_q.length := ⟨hq.ring, hq.wait_q⟩
  unfold msg_q.k_msgq_get
  obtain ⟨hused, ⟨hwait, heq⟩ | ⟨w, wait_q, hwait, heq⟩⟩ | ⟨hnone, ⟨hnow, -⟩ | ⟨-, heq⟩⟩ :=
    z_impl_k_msgq_get_cases msgq current K_FOREVER
  · simp only [dif_pos hused, heq]
    exact ⟨⟨rfl, rfl⟩, rfl⟩
  · have hzero := hempty (by rw [hwait]; exact Nat.succ_pos _)
    omega
  · exact absurd hnow (by decide)
  · simp only [dif_neg (Nat.not_lt.mpr (Nat.le_of_eq hnone)), heq]
    exact ⟨⟨rfl, ((z_priq_dumb_add_perm _ _).length_eq).symm⟩, rfl⟩

variable [DecidableEq τ]

def plain_call (q : msg_q.k_msgq α max_msgs) (b : τ × Fifo.Call α) : msg_q.k_msgq α max_msgs :=
  match b.2 with
  | .put message => (msg_q.k_msgq_put q message).2
  | .get => (msg_q.k_msgq_get q).2
  | .peek => q

theorem System.represents_step {sys : System τ α max_msgs} {buffer : Vector α max_msgs} {hmax : 0 < max_msgs}
    (hsys : sys.msgq.Represents (sys.begun.foldl plain_call (msg_q.k_msgq_init buffer hmax))) {event : Event τ α}
    (hplain : event.plain = true) :
    (sys.step event).msgq.Represents ((sys.step event).begun.foldl plain_call (msg_q.k_msgq_init buffer hmax)) := by
  cases event with
  | put thread prio data timeout =>
    obtain rfl : timeout = K_NO_WAIT := of_decide_eq_true hplain
    rw [System.step]
    split
    · exact hsys
    · rw [System.after, List.foldl_append]
      exact (hsys.put ⟨thread, prio, data, false, .put data, sys.now⟩).1
  | get thread prio data timeout =>
    obtain rfl : timeout = K_FOREVER := of_decide_eq_true hplain
    rw [System.step]
    split
    · exact hsys
    · rw [System.after, List.foldl_append]
      exact (hsys.get ⟨thread, prio, data, false, .get, sys.now⟩).1
  | peek thread prio data => cases hplain
  | purge thread => cases hplain
  | timeout thread => cases hplain
  | abort thread => cases hplain
  | set_prio thread prio => cases hplain

/-- The queue of the adapter is modelled exactly by `msg_q`: while it is only filled by
puts that do not wait and emptied by gets that wait for ever, it holds the messages and
the number of threads that the same calls leave there, and the next call returns what
it returns there, and wakes a thread with the same message. -/
theorem plain_queue_exact (buffer : Vector α max_msgs) (hmax : 0 < max_msgs) (events : List (Event τ α))
    (hplain : ∀ event ∈ events, event.plain = true) :
    ∃ q, q = (System.run buffer hmax events).begun.foldl plain_call (msg_q.k_msgq_init buffer hmax) ∧
      (System.run buffer hmax events).msgq.Represents q ∧
      ∀ current : k_thread τ α,
        (z_impl_k_msgq_put (System.run buffer hmax events).msgq current K_NO_WAIT).1.map
            (fun r => (r.2, r.1.swap_data)) =
          put_returns current.swap_data (msg_q.k_msgq_put q current.swap_data).1 ∧
        (z_impl_k_msgq_get (System.run buffer hmax events).msgq current K_FOREVER).1.map
            (fun r => (r.2, r.1.swap_data)) =
          (msg_q.k_msgq_get q).1.toList.map fun message => (.ok, message) := by
  have hrun : (System.run buffer hmax events).msgq.Represents
      ((System.run buffer hmax events).begun.foldl plain_call (msg_q.k_msgq_init buffer hmax)) := by
    refine List.foldlRecOn (motive := fun sys : System τ α max_msgs => sys.msgq.Represents
      (sys.begun.foldl plain_call (msg_q.k_msgq_init buffer hmax))) events _ ⟨rfl, rfl⟩ ?_
    intro sys hsys event hevent
    exact sys.represents_step hsys (hplain event hevent)
  exact ⟨_, rfl, hrun, fun current => ⟨(hrun.put current).2, (hrun.get current).2⟩⟩

/-- A thread waits and the next put hands it the message. -/
theorem plain_queue_exact_handed :
    (z_impl_k_msgq_put (System.run #v[0, 0] (by decide) [.get 0 5 0 K_FOREVER] : System Nat Nat 2).msgq
      ⟨1, 0, 7, false, .put 7, 1⟩ K_NO_WAIT).1.map (fun r => (r.2, r.1.swap_data)) = [(.ok, 7), (.ok, 7)] := by
  obtain ⟨q, rfl, -, hcalls⟩ := plain_queue_exact #v[0, 0] (by decide) [.get 0 5 0 K_FOREVER] (by decide)
  exact (hcalls ⟨1, 0, 7, false, .put 7, 1⟩).1

end peripheral_hids.kernel
