import PeripheralHids.Lib.Threads

/-- Two threads that do the same on related states: they wait at the same points,
take the same inputs and return the same, as long as what others do to their
states while they wait keeps these related. -/
inductive Proc.Follows {ι σ τ α : Type} (R : σ → τ → Prop) : Proc ι σ α → Proc ι τ α → Prop where
  | ret {s : σ} {t : τ} (a : α) (hst : R s t) : Follows R (.ret s a) (.ret t a)
  | fault : Follows R .fault .fault
  | sleep {s : σ} {t : τ} {k : σ → Proc ι σ α} {l : τ → Proc ι τ α} (hst : R s t)
      (hk : ∀ u v, R u v → Follows R (k u) (l v)) : Follows R (.sleep s k) (.sleep t l)
  | read {s : σ} {t : τ} {k : ι → σ → Proc ι σ α} {l : ι → τ → Proc ι τ α} (hst : R s t)
      (hk : ∀ i u v, R u v → Follows R (k i u) (l i v)) : Follows R (.read s k) (.read t l)

theorem Proc.Follows.bind {ι σ τ α β : Type} {R : σ → τ → Prop} {p : Proc ι σ α} {q : Proc ι τ α}
    (hpq : p.Follows R q) {f : α → σ → Proc ι σ β} {g : α → τ → Proc ι τ β}
    (hfg : ∀ a s t, R s t → (f a s).Follows R (g a t)) : (p.bind f).Follows R (q.bind g) := by
  induction hpq with
  | ret a hst => exact hfg a _ _ hst
  | fault => exact .fault
  | sleep hst _ ih => exact .sleep hst ih
  | read hst _ ih => exact .read hst ih

/-- Two procedures that do the same when they are called in related states. -/
def ProcM.Follows {ι σ τ α : Type} (R : σ → τ → Prop) (m : ProcM ι σ α) (n : ProcM ι τ α) : Prop :=
  ∀ s t, R s t → (m s).Follows R (n t)

namespace ProcM

variable {ι σ τ α β : Type} {R : σ → τ → Prop}

theorem Follows.bind {m : ProcM ι σ α} {n : ProcM ι τ α} (hmn : m.Follows R n) {f : α → ProcM ι σ β}
    {g : α → ProcM ι τ β} (hfg : ∀ a, (f a).Follows R (g a)) : (m >>= f).Follows R (n >>= g) :=
  fun s t hst => (hmn s t hst).bind hfg

theorem follows_pure (a : α) : (pure a : ProcM ι σ α).Follows R (pure a : ProcM ι τ α) :=
  fun _ _ hst => .ret a hst

theorem follows_next : (next : ProcM ι σ ι).Follows R (next : ProcM ι τ ι) :=
  fun _ _ hst => .read hst fun i _ _ huv => .ret i huv

theorem follows_sleep : (sleep : ProcM ι σ Unit).Follows R (sleep : ProcM ι τ Unit) :=
  fun _ _ hst => .sleep hst fun _ _ huv => .ret () huv

theorem follows_modify {f : σ → σ} {g : τ → τ} (hfg : ∀ s t, R s t → R (f s) (g t)) :
    (modify f : ProcM ι σ Unit).Follows R (modify g) :=
  fun s t hst => .ret () (hfg s t hst)

theorem follows_checked (access : Option α) : (checked access : ProcM ι σ α).Follows R (checked access) := by
  cases access with
  | none => exact fun _ _ _ => .fault
  | some a => exact follows_pure a

end ProcM

/-- A stretch of one thread that another thread, seen through `R`, does not notice. -/
def Unnoticed {σ τ : Type} (R : σ → τ → Prop) (s t : σ) : Prop := ∀ r, R s r → R t r

instance {σ τ : Type} (R : σ → τ → Prop) : IsPreorder σ (Unnoticed R) where
  refl _ _ hr := hr
  trans _ _ _ hst htu r hr := htu r (hst r hr)

inductive Parked.Follows {ι σ τ : Type} (R : σ → τ → Prop) : Parked ι σ → Parked ι τ → Prop where
  | idle : Follows R .idle .idle
  | faulted : Follows R .faulted .faulted
  | asleep {k : σ → Proc ι σ Unit} {l : τ → Proc ι τ Unit} (hk : ∀ u v, R u v → (k u).Follows R (l v)) :
      Follows R (.asleep k) (.asleep l)
  | waiting {k : ι → σ → Proc ι σ Unit} {l : ι → τ → Proc ι τ Unit}
      (hk : ∀ i u v, R u v → (k i u).Follows R (l i v)) : Follows R (.waiting k) (.waiting l)

theorem Proc.Follows.park {ι σ τ : Type} {R : σ → τ → Prop} {p : Proc ι σ Unit} {q : Proc ι τ Unit}
    (hpq : p.Follows R q) {s : σ} {t : τ} (hst : R s t) :
    R (p.park s).1 (q.park t).1 ∧ (p.park s).2.Follows R (q.park t).2 := by
  cases hpq with
  | ret a huv => exact ⟨huv, .idle⟩
  | fault => exact ⟨hst, .faulted⟩
  | sleep huv hk => exact ⟨huv, .asleep hk⟩
  | read huv hk => exact ⟨huv, .waiting hk⟩

/-- A thread by itself, with the state that nobody else changes. -/
structure Solo (ι σ : Type) where
  state : σ
  parked : Parked ι σ

namespace Solo

/-- What a thread does in a turn of its own. -/
inductive Turn (ι : Type) where
  | call
  | wake
  | input (i : ι)
  deriving DecidableEq, Repr

variable {ι σ : Type}

def resume (d : Solo ι σ) (p : Proc ι σ Unit) : Solo ι σ where
  state := (p.park d.state).1
  parked := (p.park d.state).2

def step (m : ProcM ι σ Unit) (d : Solo ι σ) : Turn ι → Solo ι σ
  | .call =>
    match d.parked with
    | .idle => d.resume (m d.state)
    | _ => d
  | .wake =>
    match d.parked with
    | .asleep k => d.resume (k d.state)
    | _ => d
  | .input i =>
    match d.parked with
    | .waiting k => d.resume (k i d.state)
    | _ => d

end Solo

namespace Pool

variable {τ γ ι σ ρ : Type} [DecidableEq τ] {P : Program τ γ ι σ} {R : σ → ρ → Prop} {th : τ}

theorem resume_threads_self (c : Pool τ ι σ) (p : Proc ι σ Unit) :
    (c.resume P th p).threads th = (p.park c.state).2 :=
  Function.update_self _ _ _

theorem resume_threads_of_ne (c : Pool τ ι σ) (p : Proc ι σ Unit) {other : τ} (hother : other ≠ th) :
    (c.resume P th p).threads other = c.threads other :=
  Function.update_of_ne hother _ _

/-- A thread that waits for an input goes on waiting, whoever makes a call. -/
theorem step_call_of_waiting {c : Pool τ ι σ} {k : ι → σ → Proc ι σ Unit} (hwaiting : c.threads th = .waiting k)
    (g : γ) : (Pool.step P c (.call g)).2.threads th = .waiting k := by
  rw [Pool.step]
  cases hg : c.threads (P.thread g) with
  | idle =>
    have hne : th ≠ P.thread g := by
      rintro rfl
      rw [hg] at hwaiting
      cases hwaiting
    exact (resume_threads_of_ne c _ hne).trans hwaiting
  | asleep l | waiting l | faulted => exact hwaiting

theorem step_wake_of_waiting {c : Pool τ ι σ} {k : ι → σ → Proc ι σ Unit} (hwaiting : c.threads th = .waiting k)
    (other : τ) : (Pool.step P c (.wake other)).2.threads th = .waiting k := by
  rw [Pool.step]
  cases hother : c.threads other with
  | asleep l =>
    have hne : th ≠ other := by
      rintro rfl
      rw [hother] at hwaiting
      cases hwaiting
    exact (resume_threads_of_ne c _ hne).trans hwaiting
  | idle | waiting l | faulted => exact hwaiting

/-- One thread of a pool and the same thread by itself, at the same point, while
the other threads do nothing that it notices. -/
structure Accompanies (P : Program τ γ ι σ) (R : σ → ρ → Prop) (th : τ) (c : Pool τ ι σ) (d : Solo ι ρ) : Prop where
  related : R c.state d.state
  own : (c.threads th).Follows R d.parked
  others : ∀ other, other ≠ th → (c.threads other).Guarantees (Unnoticed R) fun _ => True

theorem Accompanies.resume_own {c : Pool τ ι σ} {d : Solo ι ρ} (hcd : c.Accompanies P R th d) {p : Proc ι σ Unit}
    {q : Proc ι ρ Unit} (hpq : p.Follows R q) : (c.resume P th p).Accompanies P R th (d.resume q) := by
  obtain ⟨hstate, hparked⟩ := hpq.park hcd.related
  refine ⟨hstate, ?_, fun other hother => ?_⟩
  · rw [resume_threads_self]
    exact hparked
  · rw [resume_threads_of_ne c p hother]
    exact hcd.others other hother

theorem Accompanies.resume_other {c : Pool τ ι σ} {d : Solo ι ρ} (hcd : c.Accompanies P R th d) {other : τ}
    (hother : other ≠ th) {p : Proc ι σ Unit} (hp : p.Guarantees (Unnoticed R) (fun _ _ => True) c.state) :
    (c.resume P other p).Accompanies P R th d := by
  obtain ⟨hunnoticed, -, hparked⟩ := hp.park
  refine ⟨hunnoticed _ hcd.related, ?_, fun third hthird => ?_⟩
  · rw [resume_threads_of_ne c p hother.symm]
    exact hcd.own
  · by_cases hsame : third = other
    · subst hsame
      rw [resume_threads_self]
      exact hparked
    · rw [resume_threads_of_ne c p hsame]
      exact hcd.others third hthird

/-- The thread's own turn in a pool, for a turn it takes by itself. -/
theorem Accompanies.call {c : Pool τ ι σ} {d : Solo ι ρ} (hcd : c.Accompanies P R th d) {g : γ}
    (hg : P.thread g = th) {m : ProcM ι ρ Unit} (hbody : (P.body g).Follows R m) :
    (Pool.step P c (.call g)).2.Accompanies P R th (d.step m .call) := by
  have hown := hcd.own
  rw [Pool.step, Solo.step, hg]
  cases hc : c.threads th with
  | idle =>
    cases hd : d.parked with
    | idle => exact hcd.resume_own (hbody _ _ hcd.related)
    | asleep l | waiting l | faulted => rw [hc, hd] at hown; cases hown
  | asleep k | waiting k | faulted =>
    cases hd : d.parked with
    | idle => rw [hc, hd] at hown; cases hown
    | asleep l | waiting l | faulted => exact hcd

theorem Accompanies.wake {c : Pool τ ι σ} {d : Solo ι ρ} (hcd : c.Accompanies P R th d) (m : ProcM ι ρ Unit) :
    (Pool.step P c (.wake th)).2.Accompanies P R th (d.step m .wake) := by
  have hown := hcd.own
  rw [Pool.step, Solo.step]
  cases hc : c.threads th with
  | asleep k =>
    cases hd : d.parked with
    | asleep l =>
      rw [hc, hd] at hown
      cases hown with
      | asleep hk => exact hcd.resume_own (hk _ _ hcd.related)
    | idle | waiting l | faulted => rw [hc, hd] at hown; cases hown
  | idle | waiting k | faulted =>
    cases hd : d.parked with
    | asleep l => rw [hc, hd] at hown; cases hown
    | idle | waiting l | faulted => exact hcd

theorem Accompanies.input {c : Pool τ ι σ} {d : Solo ι ρ} (hcd : c.Accompanies P R th d) (m : ProcM ι ρ Unit)
    (i : ι) : (Pool.step P c (.input th i)).2.Accompanies P R th (d.step m (.input i)) := by
  have hown := hcd.own
  rw [Pool.step, Solo.step]
  cases hc : c.threads th with
  | waiting k =>
    cases hd : d.parked with
    | waiting l =>
      rw [hc, hd] at hown
      cases hown with
      | waiting hk => exact hcd.resume_own (hk i _ _ hcd.related)
    | idle | asleep l | faulted => rw [hc, hd] at hown; cases hown
  | idle | asleep k | faulted =>
    cases hd : d.parked with
    | waiting l => rw [hc, hd] at hown; cases hown
    | idle | asleep l | faulted => exact hcd

/-- Another thread's turn, while this one stays where it is. -/
theorem Accompanies.other_call {c : Pool τ ι σ} {d : Solo ι ρ} (hcd : c.Accompanies P R th d) {g : γ}
    (hg : P.thread g ≠ th) (hbody : (P.body g).Guarantees (Unnoticed R) fun _ _ => True) :
    (Pool.step P c (.call g)).2.Accompanies P R th d := by
  rw [Pool.step]
  cases c.threads (P.thread g) with
  | idle => exact hcd.resume_other hg (hbody c.state)
  | asleep k | waiting k | faulted => exact hcd

theorem Accompanies.other_wake {c : Pool τ ι σ} {d : Solo ι ρ} (hcd : c.Accompanies P R th d) {other : τ}
    (hother : other ≠ th) : (Pool.step P c (.wake other)).2.Accompanies P R th d := by
  have hothers := hcd.others other hother
  rw [Pool.step]
  cases hc : c.threads other with
  | asleep k =>
    rw [hc] at hothers
    exact hcd.resume_other hother (hothers c.state)
  | idle | waiting k | faulted => exact hcd

end Pool
