import Mathlib.Logic.Function.Basic
import PeripheralHids.Lib.Guarantee
import PeripheralHids.Lib.Machine

/-- Where a thread is between its turns: between two calls, in a sleep, waiting
for an input, or stopped by an invalid access. -/
inductive Parked (ι σ : Type) where
  | idle
  | asleep (k : σ → Proc ι σ Unit)
  | waiting (k : ι → σ → Proc ι σ Unit)
  | faulted

/-- Run a thread up to its next wait. -/
def Proc.park {ι σ : Type} (s : σ) : Proc ι σ Unit → σ × Parked ι σ
  | .ret t _ => (t, .idle)
  | .fault => (s, .faulted)
  | .sleep t k => (t, .asleep k)
  | .read t k => (t, .waiting k)

/-- One turn of some thread: it makes a call, wakes up, or gets an input. -/
inductive Turn (τ γ ι : Type) where
  | call (g : γ)
  | wake (th : τ)
  | input (th : τ) (i : ι)
  deriving DecidableEq, Repr

/-- The procedures that each of several threads may call, and a count of the
writes to what they share. -/
structure Program (τ γ ι σ : Type) where
  thread : γ → τ
  body : γ → ProcM ι σ Unit
  clock : σ → Nat

/-- Threads on one state, with the last of them that wrote to it. -/
structure Pool (τ ι σ : Type) where
  state : σ
  threads : τ → Parked ι σ
  writer : Option τ

namespace Pool

variable {τ γ ι σ : Type} [DecidableEq τ]

def initial (s : σ) : Pool τ ι σ where
  state := s
  threads := fun _ => .idle
  writer := none

def resume (P : Program τ γ ι σ) (c : Pool τ ι σ) (th : τ) (p : Proc ι σ Unit) : Pool τ ι σ where
  state := (p.park c.state).1
  threads := Function.update c.threads th (p.park c.state).2
  writer := if P.clock (p.park c.state).1 = P.clock c.state then c.writer else some th

/-- A turn for which its thread is not ready does nothing. -/
def step (P : Program τ γ ι σ) (c : Pool τ ι σ) : Turn τ γ ι → Unit × Pool τ ι σ
  | .call g =>
    match c.threads (P.thread g) with
    | .idle => ((), c.resume P (P.thread g) (P.body g c.state))
    | _ => ((), c)
  | .wake th =>
    match c.threads th with
    | .asleep k => ((), c.resume P th (k c.state))
    | _ => ((), c)
  | .input th i =>
    match c.threads th with
    | .waiting k => ((), c.resume P th (k i c.state))
    | _ => ((), c)

/-- The threads' turns in some order. -/
def interleave (P : Program τ γ ι σ) (s : σ) (turns : List (Turn τ γ ι)) : Pool τ ι σ :=
  Machine.final (step P) (initial s) turns

end Pool

/-- A stretch leaves the state as it is, or writes and establishes `J`. -/
def Writes {σ : Type} (clock : σ → Nat) (J : σ → Prop) (s t : σ) : Prop :=
  t = s ∨ clock s < clock t ∧ J t

instance {σ : Type} (clock : σ → Nat) (J : σ → Prop) : IsPreorder σ (Writes clock J) where
  refl _ := Or.inl rfl
  trans s t u hst htu := by
    obtain rfl | ⟨hlt, hJ⟩ := htu
    · exact hst
    · obtain rfl | ⟨hearlier, -⟩ := hst
      · exact Or.inr ⟨hlt, hJ⟩
      · exact Or.inr ⟨Nat.lt_trans hearlier hlt, hJ⟩

def Parked.Guarantees {ι σ : Type} (R : σ → σ → Prop) (post : σ → Prop) : Parked ι σ → Prop
  | .idle | .faulted => True
  | .asleep k => ∀ u, (k u).Guarantees R (fun _ => post) u
  | .waiting k => ∀ i u, (k i u).Guarantees R (fun _ => post) u

theorem Proc.Guarantees.park {ι σ : Type} {R : σ → σ → Prop} [IsPreorder σ R] {post : σ → Prop}
    {p : Proc ι σ Unit} {s : σ} (hp : p.Guarantees R (fun _ => post) s) :
    R s (p.park s).1 ∧ ((p.park s).2 = .idle → post (p.park s).1) ∧ (p.park s).2.Guarantees R post := by
  cases p with
  | ret t a => exact ⟨hp.1, fun _ => hp.2, trivial⟩
  | fault => exact ⟨refl_of R s, nofun, trivial⟩
  | sleep t k => exact ⟨hp.1, nofun, hp.2⟩
  | read t k => exact ⟨hp.1, nofun, hp.2⟩

namespace Pool

variable {τ γ ι σ : Type} [DecidableEq τ] {P : Program τ γ ι σ} {J post : τ → σ → Prop}

/-- What holds of the last writer, where every thread's writes establish its own
`J` and its calls end with its own `post`. -/
structure Attributed (P : Program τ γ ι σ) (J post : τ → σ → Prop) (start : σ) (c : Pool τ ι σ) : Prop where
  parked : ∀ th, (c.threads th).Guarantees (Writes P.clock (J th)) (post th)
  unwritten : c.writer = none → c.state = start
  written : ∀ th, c.writer = some th → J th c.state
  returned : ∀ th, c.writer = some th → c.threads th = .idle → post th c.state

theorem Attributed.resume {start : σ} {c : Pool τ ι σ} (hc : c.Attributed P J post start) {th : τ}
    {p : Proc ι σ Unit} (hp : p.Guarantees (Writes P.clock (J th)) (fun _ => post th) c.state) :
    (c.resume P th p).Attributed P J post start := by
  obtain ⟨hwrites, hpost, hparked⟩ := hp.park
  have hthreads : ∀ other, ((c.resume P th p).threads other).Guarantees (Writes P.clock (J other)) (post other) := by
    intro other
    by_cases hother : other = th
    · subst hother
      simpa only [Pool.resume, Function.update_self] using hparked
    · simpa only [Pool.resume, Function.update_of_ne hother] using hc.parked other
  have hidle (other : τ) (hreturned : (c.resume P th p).threads other = .idle) :
      other = th ∧ post th (p.park c.state).1 ∨ other ≠ th ∧ c.threads other = .idle := by
    by_cases hother : other = th
    · subst hother
      simp only [Pool.resume, Function.update_self] at hreturned
      exact Or.inl ⟨rfl, hpost hreturned⟩
    · simp only [Pool.resume, Function.update_of_ne hother] at hreturned
      exact Or.inr ⟨hother, hreturned⟩
  obtain hsame | ⟨hlt, hJ⟩ := hwrites
  · have hwriter : (c.resume P th p).writer = c.writer := if_pos (congrArg P.clock hsame)
    have hstate : (c.resume P th p).state = c.state := hsame
    refine ⟨hthreads, ?_, ?_, ?_⟩
    · rw [hwriter, hstate]
      exact hc.unwritten
    · rw [hwriter, hstate]
      exact hc.written
    · intro other hother hreturned
      rw [hwriter] at hother
      obtain ⟨rfl, hdone⟩ | ⟨-, hbefore⟩ := hidle other hreturned
      · exact hdone
      · rw [hstate]
        exact hc.returned other hother hbefore
  · have hwriter : (c.resume P th p).writer = some th := if_neg (Nat.ne_of_gt hlt)
    refine ⟨hthreads, ?_, ?_, ?_⟩
    · rw [hwriter]
      nofun
    · intro other hother
      obtain rfl := Option.some.inj (hwriter.symm.trans hother)
      exact hJ
    · intro other hother hreturned
      obtain rfl := Option.some.inj (hwriter.symm.trans hother)
      obtain ⟨-, hdone⟩ | ⟨hne, -⟩ := hidle th hreturned
      · exact hdone
      · exact absurd rfl hne

theorem Attributed.step {start : σ} {c : Pool τ ι σ} (hc : c.Attributed P J post start)
    (hbody : ∀ g, (P.body g).Guarantees (Writes P.clock (J (P.thread g))) fun _ => post (P.thread g))
    (turn : Turn τ γ ι) : (Pool.step P c turn).2.Attributed P J post start := by
  cases turn with
  | call g =>
    rw [Pool.step]
    cases hk : c.threads (P.thread g) with
    | idle => exact hc.resume (hbody g c.state)
    | asleep k | waiting k | faulted => exact hc
  | wake th =>
    have hparked := hc.parked th
    rw [Pool.step]
    cases hk : c.threads th with
    | asleep k =>
      rw [hk] at hparked
      exact hc.resume (hparked c.state)
    | idle | waiting k | faulted => exact hc
  | input th i =>
    have hparked := hc.parked th
    rw [Pool.step]
    cases hk : c.threads th with
    | waiting k =>
      rw [hk] at hparked
      exact hc.resume (hparked i c.state)
    | idle | asleep k | faulted => exact hc

/-- In whatever order the threads take their turns, the state is the one they
started with, or it is as its last writer left it. -/
theorem attributed_interleave
    (hbody : ∀ g, (P.body g).Guarantees (Writes P.clock (J (P.thread g))) fun _ => post (P.thread g))
    (start : σ) (turns : List (Turn τ γ ι)) : (interleave P start turns).Attributed P J post start := by
  refine Machine.final_invariant (P := Attributed P J post start) (fun c turn hc => hc.step hbody turn) ?_ turns
  exact ⟨fun _ => trivial, fun _ => rfl, nofun, nofun⟩

end Pool
