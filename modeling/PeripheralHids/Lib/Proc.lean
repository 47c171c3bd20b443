import Mathlib.Data.List.Basic

/-- A thread on a state that other threads may change whenever it does not run:
it returns, stops on an invalid access, sleeps, or blocks until the next input.
The state before each wait is part of the tree, so that what a thread has done
while it waits can be stated. -/
inductive Proc (ι σ α : Type) where
  | ret (s : σ) (a : α)
  | fault
  | sleep (s : σ) (k : σ → Proc ι σ α)
  | read (s : σ) (k : ι → σ → Proc ι σ α)

namespace Proc

def bind {ι σ α β : Type} : Proc ι σ α → (α → σ → Proc ι σ β) → Proc ι σ β
  | .ret s a, f => f a s
  | .fault, _ => .fault
  | .sleep s k, f => .sleep s fun t => (k t).bind f
  | .read s k, f => .read s fun i t => (k i t).bind f

/-- How a thread that runs alone on a sequence of inputs ends: it returns and
leaves inputs over, waits for more, or faults. -/
inductive Outcome (ι σ α : Type) where
  | returned (s : σ) (a : α) (rest : List ι)
  | blocked (s : σ)
  | faulted
  deriving DecidableEq

/-- Go on after a thread that has returned. -/
def Outcome.andThen {ι σ α β : Type} :
    Outcome ι σ α → (α → σ → List ι → Outcome ι σ β) → Outcome ι σ β
  | .returned s a rest, f => f a s rest
  | .blocked s, _ => .blocked s
  | .faulted, _ => .faulted

/-- Run a thread alone: nobody changes the state while it waits. -/
def run {ι σ α : Type} : Proc ι σ α → List ι → Outcome ι σ α
  | .ret s a, inp => .returned s a inp
  | .fault, _ => .faulted
  | .sleep s k, inp => (k s).run inp
  | .read s _, [] => .blocked s
  | .read s k, i :: inp => (k i s).run inp

theorem run_bind {ι σ α β : Type} (t : Proc ι σ α) (f : α → σ → Proc ι σ β) (inp : List ι) :
    (t.bind f).run inp = (t.run inp).andThen fun a s rest => (f a s).run rest := by
  induction t generalizing inp with
  | ret s a => rfl
  | fault => rfl
  | sleep s k ih => exact ih s inp
  | read s k ih =>
    cases inp with
    | nil => rfl
    | cons i inp => exact ih i s inp

end Proc

/-- A procedure: a thread for every state it may start from. -/
def ProcM (ι σ α : Type) : Type := σ → Proc ι σ α

namespace ProcM

instance {ι σ : Type} : Monad (ProcM ι σ) where
  pure a := fun s => .ret s a
  bind m f := fun s => (m s).bind f

/-- Block until there is an input and take it. -/
def next {ι σ : Type} : ProcM ι σ ι := fun s => .read s fun i t => .ret t i

def modify {ι σ : Type} (f : σ → σ) : ProcM ι σ Unit := fun s => .ret (f s) ()

def sleep {ι σ : Type} : ProcM ι σ Unit := fun s => .sleep s fun t => .ret t ()

/-- Take the value of an access that may be out of bounds. -/
def checked {ι σ α : Type} : Option α → ProcM ι σ α
  | some a => pure a
  | none => fun _ => .fault

def run {ι σ α : Type} (m : ProcM ι σ α) (s : σ) (inp : List ι) : Proc.Outcome ι σ α :=
  (m s).run inp

section
variable {ι σ α β : Type} (s : σ) (inp : List ι)

@[simp] theorem run_pure (a : α) : (pure a : ProcM ι σ α).run s inp = .returned s a inp := rfl

@[simp] theorem run_bind (m : ProcM ι σ α) (f : α → ProcM ι σ β) :
    (m >>= f).run s inp = (m.run s inp).andThen fun a t rest => (f a).run t rest :=
  Proc.run_bind (m s) f inp

@[simp] theorem run_next_nil : (next : ProcM ι σ ι).run s [] = .blocked s := rfl

@[simp] theorem run_next_cons (i : ι) : (next : ProcM ι σ ι).run s (i :: inp) = .returned s i inp := rfl

@[simp] theorem run_modify (f : σ → σ) : (modify f : ProcM ι σ Unit).run s inp = .returned (f s) () inp := rfl

@[simp] theorem run_sleep : (sleep : ProcM ι σ Unit).run s inp = .returned s () inp := rfl

@[simp] theorem run_checked_some (a : α) :
    (checked (some a) : ProcM ι σ α).run s inp = .returned s a inp := rfl

@[simp] theorem run_checked_none : (checked none : ProcM ι σ α).run s inp = .faulted := rfl

@[simp] theorem andThen_returned (a : α) (f : α → σ → List ι → Proc.Outcome ι σ β) :
    (Proc.Outcome.returned s a inp).andThen f = f a s inp := rfl

@[simp] theorem andThen_blocked (f : α → σ → List ι → Proc.Outcome ι σ β) :
    (Proc.Outcome.blocked s : Proc.Outcome ι σ α).andThen f = .blocked s := rfl

@[simp] theorem andThen_faulted (f : α → σ → List ι → Proc.Outcome ι σ β) :
    (Proc.Outcome.faulted : Proc.Outcome ι σ α).andThen f = .faulted := rfl

end

/-- The state and the inputs left over after `n` calls of a procedure have
returned, if they do. -/
def calls {ι σ : Type} (m : ProcM ι σ Unit) : Nat → σ → List ι → Option (σ × List ι)
  | 0, s, inp => some (s, inp)
  | n + 1, s, inp =>
    match m.run s inp with
    | .returned t _ rest => calls m n t rest
    | _ => none

/-- Where each call reads exactly one unit of an encoded input, `n` calls read
`n` units and have their effects, one after another. -/
theorem calls_units {ι σ υ : Type} {m : ProcM ι σ Unit} {encode : υ → List ι} {effect : σ → υ → σ}
    {units : List υ}
    (hunit : ∀ u ∈ units, ∀ s rest, m.run s (encode u ++ rest) = .returned (effect s u) () rest)
    (s : σ) (rest : List ι) :
    calls m units.length s (units.flatMap encode ++ rest) = some (units.foldl effect s, rest) := by
  induction units generalizing s with
  | nil => rfl
  | cons u units ih =>
    have hrest := ih (fun v hv => hunit v (List.mem_cons_of_mem u hv)) (effect s u)
    rw [List.flatMap_cons, List.append_assoc, List.length_cons, calls, hunit u List.mem_cons_self]
    exact hrest

/-- What every returned call preserves holds after any number of calls. -/
theorem calls_invariant {ι σ : Type} {m : ProcM ι σ Unit} {P : σ → List ι → Prop}
    (hstep : ∀ s inp t rest, P s inp → m.run s inp = .returned t () rest → P t rest)
    {n : Nat} {s : σ} {inp : List ι} {t : σ} {rest : List ι}
    (hs : P s inp) (hcalls : calls m n s inp = some (t, rest)) : P t rest := by
  induction n generalizing s inp with
  | zero =>
    simp only [calls, Option.some.injEq, Prod.mk.injEq] at hcalls
    obtain ⟨rfl, rfl⟩ := hcalls
    exact hs
  | succ n ih =>
    rw [calls] at hcalls
    cases hrun : m.run s inp with
    | returned u a left =>
      rw [hrun] at hcalls
      exact ih (hstep s inp u left hs hrun) hcalls
    | blocked u =>
      rw [hrun] at hcalls
      cases hcalls
    | faulted =>
      rw [hrun] at hcalls
      cases hcalls

/-- A procedure that waits with its state unchanged or returns after some input
reads every input to its end: after enough calls the next one waits. -/
theorem exists_calls_blocked {ι σ : Type} {m : ProcM ι σ Unit} {P : List ι → Prop}
    (hstep : ∀ s inp, P inp → m.run s inp = .blocked s ∨
      ∃ t rest, m.run s inp = .returned t () rest ∧ rest.length < inp.length ∧ P rest)
    (s : σ) (inp : List ι) (hinp : P inp) :
    ∃ n t rest, calls m n s inp = some (t, rest) ∧ m.run t rest = .blocked t := by
  induction hlength : inp.length using Nat.strongRecOn generalizing s inp with
  | ind length ih =>
    obtain hblocked | ⟨t, rest, hrun, hshorter, hrest⟩ := hstep s inp hinp
    · exact ⟨0, s, inp, rfl, hblocked⟩
    · obtain ⟨n, u, left, hcalls, hblocked⟩ := ih rest.length (hlength ▸ hshorter) t rest hrest rfl
      exact ⟨n + 1, u, left, by rw [calls, hrun]; exact hcalls, hblocked⟩

end ProcM
