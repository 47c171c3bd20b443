import PeripheralHids.Lib.Fifo
import PeripheralHids.Lib.RingBuffer

namespace peripheral_hids.kernel

structure k_timeout_t where
  ticks : Int
  deriving DecidableEq, Repr

def K_NO_WAIT : k_timeout_t := ⟨0⟩

def K_FOREVER : k_timeout_t := ⟨-1⟩

/-- The values that calls on message queues return: 0 or a negative error. -/
inductive Ret where
  | ok
  | ENOMSG
  | EAGAIN
  deriving DecidableEq, Repr

/-- A thread that calls, or waits in a call: its priority (a smaller number is
served first), what the data pointer of the call points to, which is `swap_data`
while it waits, and whether a timeout of it is running. `call` and `since`, the call
that it makes and when, are for the proofs only: no function below looks at them. -/
structure k_thread (τ α : Type) where
  id : τ
  prio : Int
  swap_data : α
  timed : Bool
  call : Fifo.Call α
  since : Nat
  deriving DecidableEq, Repr

/-- A message queue. One `wait_q` holds the threads that wait in a put and those
that wait in a get; nothing in it tells them apart. -/
structure k_msgq (τ α : Type) (max_msgs : Nat) where
  ring : RingBuffer α max_msgs
  wait_q : List (k_thread τ α)

def k_msgq_init {τ α : Type} {max_msgs : Nat} (buffer : Vector α max_msgs) (hmax : 0 < max_msgs) :
    k_msgq τ α max_msgs where
  ring := .empty buffer hmax
  wait_q := []

/-- Into the list of waiting threads: before the first one of lower priority. -/
def z_priq_dumb_add {τ α : Type} : List (k_thread τ α) → k_thread τ α → List (k_thread τ α)
  | [], thread => [thread]
  | t :: pq, thread => if thread.prio < t.prio then thread :: t :: pq else t :: z_priq_dumb_add pq thread

section

variable {τ α : Type} {max_msgs : Nat}

/-- `z_pend_curr`: the calling thread waits, with a timeout unless it waits for ever. -/
def k_msgq.z_pend_curr (msgq : k_msgq τ α max_msgs) (current : k_thread τ α) (timeout : k_timeout_t) :
    k_msgq τ α max_msgs :=
  { msgq with wait_q := z_priq_dumb_add msgq.wait_q { current with timed := timeout ≠ K_FOREVER } }

/-- The calls that return, the thread's own first, and the queue. The message is what
`data` of the calling thread points to. -/
def z_impl_k_msgq_put (msgq : k_msgq τ α max_msgs) (current : k_thread τ α) (timeout : k_timeout_t) :
    List (k_thread τ α × Ret) × k_msgq τ α max_msgs :=
  if hroom : msgq.ring.used < max_msgs then
    match msgq.wait_q with
    | pending_thread :: wait_q =>
      -- give message to waiting thread
      ([(current, .ok), ({ pending_thread with swap_data := current.swap_data }, .ok)], { msgq with wait_q := wait_q })
    | [] => ([(current, .ok)], { msgq with ring := msgq.ring.push current.swap_data hroom })
  else if timeout = K_NO_WAIT then ([(current, .ENOMSG)], msgq)
  else ([], msgq.z_pend_curr current timeout)

theorem pop_used_lt (ring : RingBuffer α max_msgs) (hused : 0 < ring.used) : (ring.pop hused).used < max_msgs := by
  have hle := ring.used_le
  change ring.used - 1 < max_msgs
  omega

/-- As for a put. A returned thread's `swap_data` is what it has received. -/
def z_impl_k_msgq_get (msgq : k_msgq τ α max_msgs) (current : k_thread τ α) (timeout : k_timeout_t) :
    List (k_thread τ α × Ret) × k_msgq τ α max_msgs :=
  if hused : 0 < msgq.ring.used then
    match msgq.wait_q with
    | pending_thread :: wait_q =>
      -- add thread's message to queue
      ([({ current with swap_data := msgq.ring.front }, .ok), (pending_thread, .ok)],
        ⟨(msgq.ring.pop hused).push pending_thread.swap_data (pop_used_lt msgq.ring hused), wait_q⟩)
    | [] => ([({ current with swap_data := msgq.ring.front }, .ok)], { msgq with ring := msgq.ring.pop hused })
  else if timeout = K_NO_WAIT then ([(current, .ENOMSG)], msgq)
  else ([], msgq.z_pend_curr current timeout)

def z_impl_k_msgq_peek (msgq : k_msgq τ α max_msgs) (current : k_thread τ α) : k_thread τ α × Ret :=
  if 0 < msgq.ring.used then ({ current with swap_data := msgq.ring.front }, .ok) else (current, .ENOMSG)

/-- All waiting threads return, whatever they wait for. -/
def z_impl_k_msgq_purge (msgq : k_msgq τ α max_msgs) : List (k_thread τ α × Ret) × k_msgq τ α max_msgs :=
  (msgq.wait_q.map fun pending_thread => (pending_thread, .ENOMSG), ⟨msgq.ring.clear, []⟩)

variable [DecidableEq τ]

/-- The timeout of a thread expires: it no longer waits and its call returns the
value that the swap has left in `swap_retval`. -/
def z_thread_timeout (msgq : k_msgq τ α max_msgs) (thread : τ) :
    List (k_thread τ α × Ret) × k_msgq τ α max_msgs :=
  ((msgq.wait_q.filter fun w => w.id = thread ∧ w.timed).map fun w => (w, .EAGAIN),
    { msgq with wait_q := msgq.wait_q.filter fun w => ¬ (w.id = thread ∧ w.timed) })

def z_thread_single_abort (msgq : k_msgq τ α max_msgs) (thread : τ) : k_msgq τ α max_msgs :=
  { msgq with wait_q := msgq.wait_q.filter fun w => w.id ≠ thread }

/-- A waiting thread keeps its place when its priority changes. -/
def z_set_prio (msgq : k_msgq τ α max_msgs) (thread : τ) (prio : Int) : k_msgq τ α max_msgs :=
  { msgq with wait_q := msgq.wait_q.map fun w => if w.id = thread then { w with prio := prio } else w }

end

/-- What can happen to a message queue. -/
inductive Event (τ α : Type) where
  | put (thread : τ) (prio : Int) (data : α) (timeout : k_timeout_t)
  | get (thread : τ) (prio : Int) (data : α) (timeout : k_timeout_t)
  | peek (thread : τ) (prio : Int) (data : α)
  | purge (thread : τ)
  | timeout (thread : τ)
  | abort (thread : τ)
  | set_prio (thread : τ) (prio : Int)
  deriving DecidableEq, Repr

/-- A message queue with the calls that have been begun and those that have
returned. -/
structure System (τ α : Type) (max_msgs : Nat) where
  msgq : k_msgq τ α max_msgs
  begun : List (τ × Fifo.Call α)
  history : List (Fifo.Entry τ α)
  now : Nat

section

variable {τ α : Type} {max_msgs : Nat}

def returned (r : k_thread τ α × Ret) : Fifo.Entry τ α := .returned r.1.id r.1.call (r.2 = .ok) r.1.swap_data

variable [DecidableEq τ]

def System.pending (sys : System τ α max_msgs) (thread : τ) : Bool := sys.msgq.wait_q.any fun w => w.id = thread

def System.init (buffer : Vector α max_msgs) (hmax : 0 < max_msgs) : System τ α max_msgs where
  msgq := k_msgq_init buffer hmax
  begun := []
  history := []
  now := 0

def System.after (sys : System τ α max_msgs) (begun : List (τ × Fifo.Call α))
    (result : List (k_thread τ α × Ret) × k_msgq τ α max_msgs) (last : List (Fifo.Entry τ α)) :
    System τ α max_msgs where
  msgq := result.2
  begun := sys.begun ++ begun
  history := sys.history ++ result.1.map returned ++ last
  now := sys.now + 1

/-- A thread that waits does not run, so it makes no call. -/
def System.step (sys : System τ α max_msgs) : Event τ α → System τ α max_msgs
  | .put thread prio data timeout =>
    if sys.pending thread then sys
    else sys.after [(thread, .put data)]
      (z_impl_k_msgq_put sys.msgq ⟨thread, prio, data, false, .put data, sys.now⟩ timeout) []
  | .get thread prio data timeout =>
    if sys.pending thread then sys
    else sys.after [(thread, .get)]
      (z_impl_k_msgq_get sys.msgq ⟨thread, prio, data, false, .get, sys.now⟩ timeout) []
  | .peek thread prio data =>
    if sys.pending thread then sys
    else sys.after [(thread, .peek)]
      ([z_impl_k_msgq_peek sys.msgq ⟨thread, prio, data, false, .peek, sys.now⟩], sys.msgq) []
  | .purge thread =>
    if sys.pending thread then sys else sys.after [] (z_impl_k_msgq_purge sys.msgq) [.cleared]
  | .timeout thread => sys.after [] (z_thread_timeout sys.msgq thread) []
  | .abort thread => sys.after [] ([], z_thread_single_abort sys.msgq thread) []
  | .set_prio thread prio => sys.after [] ([], z_set_prio sys.msgq thread prio) []

def System.run (buffer : Vector α max_msgs) (hmax : 0 < max_msgs) (events : List (Event τ α)) : System τ α max_msgs :=
  events.foldl System.step (.init buffer hmax)

end

end peripheral_hids.kernel
