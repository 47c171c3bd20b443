import PeripheralHids.Lib.RingBuffer

namespace peripheral_hids.msg_q

/-- A kernel message queue. `wait_q` counts the threads pended in
`k_msgq_get`; with `K_NO_WAIT` puts no writer ever pends, and a reader only
pends on an empty queue. -/
structure k_msgq (α : Type) (max_msgs : Nat) where
  ring : RingBuffer α max_msgs
  wait_q : Nat
  wait_empty : 0 < wait_q → ring.used = 0

/-- What a put with `K_NO_WAIT` does: hand the message to the first pending
thread, store it, or fail with `-ENOMSG`. -/
inductive PutResult (α : Type) where
  | handed (message : α)
  | stored
  | nomsg
  deriving DecidableEq, Repr

/-- The message a put gives to a waiting thread. -/
def PutResult.received {α : Type} : PutResult α → List α
  | .handed message => [message]
  | .stored => []
  | .nomsg => []

def k_msgq_init {α : Type} {max_msgs : Nat} (buffer : Vector α max_msgs) (hmax : 0 < max_msgs) :
    k_msgq α max_msgs where
  ring := .empty buffer hmax
  wait_q := 0
  wait_empty := by simp

/-- `z_impl_k_msgq_put` with timeout `K_NO_WAIT`. -/
def k_msgq_put {α : Type} {max_msgs : Nat} (msgq : k_msgq α max_msgs) (data : α) :
    PutResult α × k_msgq α max_msgs :=
  if hroom : msgq.ring.used < max_msgs then
    if hwait : 0 < msgq.wait_q then
      (.handed data,
        { msgq with wait_q := msgq.wait_q - 1, wait_empty := fun _ => msgq.wait_empty hwait })
    else
      (.stored, { msgq with
        ring := msgq.ring.push data hroom
        wait_empty := fun h => absurd h hwait })
  else
    (.nomsg, msgq)

/-- `z_impl_k_msgq_get` with timeout `K_FOREVER`. Without a message the calling
thread pends and nothing is returned yet. A message in the queue means that no
reader pends, so the branch that wakes a pending writer is never taken. -/
def k_msgq_get {α : Type} {max_msgs : Nat} (msgq : k_msgq α max_msgs) :
    Option α × k_msgq α max_msgs :=
  if hused : 0 < msgq.ring.used then
    (some msgq.ring.front, { msgq with
      ring := msgq.ring.pop hused
      wait_empty := fun h => absurd (msgq.wait_empty h) (by omega) })
  else
    (none, { msgq with
      wait_q := msgq.wait_q + 1
      wait_empty := fun _ => by omega })

/-- The messages in the queue, oldest first. -/
def k_msgq.contents {α : Type} {max_msgs : Nat} (msgq : k_msgq α max_msgs) : List α :=
  msgq.ring.contents

theorem k_msgq.contents_length_le {α : Type} {max_msgs : Nat} (msgq : k_msgq α max_msgs) :
    msgq.contents.length ≤ max_msgs := by
  simpa [k_msgq.contents] using msgq.ring.used_le

/-- A put conserves messages: what a waiting thread receives, followed by the
queue, is the old queue followed by the new message, unless the queue was full. -/
theorem k_msgq_put_contents {α : Type} {max_msgs : Nat} (msgq : k_msgq α max_msgs) (data : α) :
    (k_msgq_put msgq data).1.received ++ (k_msgq_put msgq data).2.contents =
      msgq.contents ++ if msgq.contents.length = max_msgs then [] else [data] := by
  have hle := msgq.ring.used_le
  have hlength : msgq.contents.length = msgq.ring.used := by simp [k_msgq.contents]
  unfold k_msgq_put
  split
  · rename_i hroom
    rw [if_neg (by omega)]
    split
    · rename_i hwait
      have hempty : msgq.contents = [] := by
        apply List.eq_nil_of_length_eq_zero
        rw [hlength]
        exact msgq.wait_empty hwait
      change [data] ++ msgq.contents = msgq.contents ++ [data]
      rw [hempty]
      rfl
    · change [] ++ (msgq.ring.push data hroom).contents = msgq.contents ++ [data]
      rw [List.nil_append, RingBuffer.contents_push]
      rfl
  · rw [if_pos (by omega), List.append_nil]
    rfl

/-- A get returns the oldest message, if there is one, and keeps the others. -/
theorem k_msgq_get_contents {α : Type} {max_msgs : Nat} (msgq : k_msgq α max_msgs) :
    (k_msgq_get msgq).1.toList ++ (k_msgq_get msgq).2.contents = msgq.contents := by
  unfold k_msgq_get
  split
  · rename_i hused
    exact (RingBuffer.contents_pop msgq.ring hused).symm
  · rfl

theorem k_msgq.contents_of_wait {α : Type} {max_msgs : Nat} {msgq : k_msgq α max_msgs} (hwait : 0 < msgq.wait_q) :
    msgq.contents = [] := by
  apply List.eq_nil_of_length_eq_zero
  rw [k_msgq.contents, RingBuffer.contents_length]
  exact msgq.wait_empty hwait

/-- All that a put can do, with the messages and the pending threads it leaves. -/
theorem k_msgq_put_cases {α : Type} {max_msgs : Nat} (msgq : k_msgq α max_msgs) (data : α) :
    (k_msgq_put msgq data).1 = .handed data ∧ 0 < msgq.wait_q ∧ msgq.contents = [] ∧
        (k_msgq_put msgq data).2.contents = [] ∧ (k_msgq_put msgq data).2.wait_q = msgq.wait_q - 1 ∨
      (k_msgq_put msgq data).1 = .stored ∧ msgq.wait_q = 0 ∧
        (k_msgq_put msgq data).2.contents = msgq.contents ++ [data] ∧ (k_msgq_put msgq data).2.wait_q = 0 ∨
      (k_msgq_put msgq data).1 = .nomsg ∧ msgq.contents.length = max_msgs ∧ (k_msgq_put msgq data).2 = msgq := by
  have hlength : msgq.contents.length = msgq.ring.used := by simp [k_msgq.contents]
  have hle := msgq.ring.used_le
  unfold k_msgq_put
  by_cases hroom : msgq.ring.used < max_msgs
  · rw [dif_pos hroom]
    by_cases hwait : 0 < msgq.wait_q
    · have hempty := k_msgq.contents_of_wait hwait
      rw [dif_pos hwait]
      exact Or.inl ⟨rfl, hwait, hempty, hempty, rfl⟩
    · rw [dif_neg hwait]
      have hnone : msgq.wait_q = 0 := by omega
      exact Or.inr (Or.inl ⟨rfl, hnone, RingBuffer.contents_push msgq.ring data hroom, hnone⟩)
  · rw [dif_neg hroom]
    exact Or.inr (Or.inr ⟨rfl, by omega, rfl⟩)

theorem k_msgq_get_of_contents {α : Type} {max_msgs : Nat} {msgq : k_msgq α max_msgs} {data : α} {later : List α}
    (hcontents : msgq.contents = data :: later) :
    (k_msgq_get msgq).1 = some data ∧ (k_msgq_get msgq).2.contents = later ∧
      (k_msgq_get msgq).2.wait_q = msgq.wait_q := by
  have hlength : msgq.contents.length = msgq.ring.used := by simp [k_msgq.contents]
  have hget := k_msgq_get_contents msgq
  rw [hcontents] at hlength hget
  unfold k_msgq_get at hget ⊢
  rw [dif_pos (by rw [← hlength]; exact Nat.succ_pos _)] at hget ⊢
  obtain ⟨hfront, hrest⟩ := List.cons_eq_cons.mp hget
  exact ⟨congrArg some hfront, hrest, rfl⟩

/-- Without a message the calling thread pends. -/
theorem k_msgq_get_of_empty {α : Type} {max_msgs : Nat} {msgq : k_msgq α max_msgs} (hcontents : msgq.contents = []) :
    (k_msgq_get msgq).1 = none ∧ (k_msgq_get msgq).2.contents = [] ∧
      (k_msgq_get msgq).2.wait_q = msgq.wait_q + 1 := by
  have hlength : msgq.contents.length = msgq.ring.used := by simp [k_msgq.contents]
  rw [hcontents] at hlength
  unfold k_msgq_get
  rw [dif_neg (by rw [← hlength]; exact Nat.lt_irrefl 0)]
  exact ⟨rfl, hcontents, rfl⟩

end peripheral_hids.msg_q
