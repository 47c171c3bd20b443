import Mathlib.Data.List.Basic

namespace Fifo

/-- A call on a queue of messages. -/
inductive Call (α : Type) where
  | put (message : α)
  | get
  | peek
  deriving DecidableEq, Repr

/-- What a history records: a call that returns, with or without success, together
with what it then has in its hands, and that the queue is cleared. -/
inductive Entry (τ α : Type) where
  | returned (thread : τ) (call : Call α) (ok : Bool) (data : α)
  | cleared
  deriving DecidableEq, Repr

/-- A queue that holds at most `cap` messages, first in first out: one entry of a
history takes it from one contents to the next. A call fails only where it has to. -/
inductive Step {τ α : Type} (cap : Nat) : List α → Entry τ α → List α → Prop where
  | put (thread : τ) (message data : α) {queue : List α} (hroom : queue.length < cap) :
      Step cap queue (.returned thread (.put message) true data) (queue ++ [message])
  | put_full (thread : τ) (message data : α) {queue : List α} (hfull : queue.length = cap) :
      Step cap queue (.returned thread (.put message) false data) queue
  | get (thread : τ) (message : α) (queue : List α) :
      Step cap (message :: queue) (.returned thread .get true message) queue
  | get_empty (thread : τ) (data : α) : Step cap [] (.returned thread .get false data) []
  | peek (thread : τ) (message : α) (queue : List α) :
      Step cap (message :: queue) (.returned thread .peek true message) (message :: queue)
  | peek_empty (thread : τ) (data : α) : Step cap [] (.returned thread .peek false data) []
  | clear (queue : List α) : Step cap queue .cleared []

/-- A history that leads from one contents to another. -/
inductive Run {τ α : Type} (cap : Nat) (start : List α) : List (Entry τ α) → List α → Prop where
  | nil : Run cap start [] start
  | snoc {history : List (Entry τ α)} {queue next : List α} {entry : Entry τ α} (hrun : Run cap start history queue)
      (hstep : Step cap queue entry next) : Run cap start (history ++ [entry]) next

section

variable {τ α : Type} {cap : Nat} {start middle queue : List α} {history later : List (Entry τ α)}

theorem Run.single {entry : Entry τ α} (hstep : Step cap start entry queue) : Run cap start [entry] queue :=
  .snoc .nil hstep

theorem Run.append (hrun : Run cap start history middle) (hlater : Run cap middle later queue) :
    Run cap start (history ++ later) queue := by
  induction hlater with
  | nil => rwa [List.append_nil]
  | snoc hlater hstep ih =>
    rw [← List.append_assoc]
    exact .snoc ih hstep

/-- The messages that the successful puts of a history brought in. -/
def accepted (history : List (Entry τ α)) : List α :=
  history.filterMap fun
    | .returned _ (.put message) true _ => some message
    | _ => none

/-- The messages that the successful gets of a history took out. -/
def received (history : List (Entry τ α)) : List α :=
  history.filterMap fun
    | .returned _ .get true data => some data
    | _ => none

/-- The calls of a thread that a history has the return of. -/
def calls [DecidableEq τ] (history : List (Entry τ α)) (thread : τ) : List (Call α) :=
  history.filterMap fun
    | .returned t call _ _ => if t = thread then some call else none
    | .cleared => none

theorem calls_returned_cons [DecidableEq τ] (t : τ) (call : Call α) (ok : Bool) (data : α) (later : List (Entry τ α))
    (thread : τ) :
    calls (.returned t call ok data :: later) thread = (if t = thread then [call] else []) ++ calls later thread := by
  by_cases hthread : t = thread
  · simp [calls, hthread]
  · simp [calls, hthread]

theorem calls_append [DecidableEq τ] (history later : List (Entry τ α)) (thread : τ) :
    calls (history ++ later) thread = calls history thread ++ calls later thread := List.filterMap_append

end

end Fifo
