import PeripheralHids.Lib.Follows

namespace Proc

variable {ι σ α β : Type}

theorem run_append {p : Proc ι σ α} {inp rest : List ι} {t : σ} {a : α} (hrun : p.run inp = .returned t a rest)
    (later : List ι) : p.run (inp ++ later) = .returned t a (rest ++ later) := by
  induction p generalizing inp with
  | ret s b =>
    cases hrun
    rfl
  | fault => cases hrun
  | sleep s k ih => exact ih s hrun
  | read s k ih =>
    cases inp with
    | nil => cases hrun
    | cons i inp => exact ih i s hrun

/-- What is left of a thread, and the state in which it goes on, after it has taken
some inputs and woken up from some sleeps, nobody else changing its state. -/
inductive Reaches (p : Proc ι σ α) (s : σ) : List ι → σ → Proc ι σ α → Prop where
  | start : Reaches p s [] s p
  | wake {inp : List ι} {t u : σ} {k : σ → Proc ι σ α} (hsleep : Reaches p s inp t (.sleep u k)) :
      Reaches p s inp u (k u)
  | input {inp : List ι} {t u : σ} {k : ι → σ → Proc ι σ α} (hread : Reaches p s inp t (.read u k)) (i : ι) :
      Reaches p s (inp ++ [i]) u (k i u)

theorem Reaches.run {p q : Proc ι σ α} {s t : σ} {inp : List ι} (hpq : p.Reaches s inp t q) (rest : List ι) :
    p.run (inp ++ rest) = q.run rest := by
  induction hpq generalizing rest with
  | start => rfl
  | wake hsleep ih => exact ih rest
  | input hread i ih =>
    rw [List.append_assoc]
    exact ih (i :: rest)

theorem Reaches.run_nil {p q : Proc ι σ α} {s t : σ} {inp : List ι} (hpq : p.Reaches s inp t q) :
    p.run inp = q.run [] := by
  have hrun := hpq.run []
  rwa [List.append_nil] at hrun

/-- A thread that leaves its state alone and never sleeps. -/
def ReadsOnly (s : σ) : Proc ι σ α → Prop
  | .ret t _ => t = s
  | .fault => True
  | .sleep _ _ => False
  | .read t k => t = s ∧ ∀ i, (k i s).ReadsOnly s

/-- A thread that reads before it acts: it leaves its state alone up to its end,
or up to its one sleep, which satisfies `nap` and after which it ends. -/
def ReadsFirst (s : σ) (nap : σ → (σ → Proc ι σ α) → Prop) : Proc ι σ α → Prop
  | .ret _ _ => True
  | .fault => True
  | .sleep t k => nap t k ∧ ∀ u, ∃ v a, k u = .ret v a
  | .read t k => t = s ∧ ∀ i, (k i s).ReadsFirst s nap

variable {s : σ} {nap : σ → (σ → Proc ι σ β) → Prop}

theorem ReadsOnly.bind {p : Proc ι σ α} (hp : p.ReadsOnly s) {f : α → σ → Proc ι σ β}
    (hf : ∀ a, (f a s).ReadsOnly s) : (p.bind f).ReadsOnly s := by
  induction p with
  | ret t a =>
    obtain rfl : t = s := hp
    exact hf a
  | fault => trivial
  | sleep t k => exact hp.elim
  | read t k ih => exact ⟨hp.1, fun i => ih i s (hp.2 i)⟩

theorem ReadsOnly.bind_readsFirst {p : Proc ι σ α} (hp : p.ReadsOnly s) {f : α → σ → Proc ι σ β}
    (hf : ∀ a, (f a s).ReadsFirst s nap) : (p.bind f).ReadsFirst s nap := by
  induction p with
  | ret t a =>
    obtain rfl : t = s := hp
    exact hf a
  | fault => trivial
  | sleep t k => exact hp.elim
  | read t k ih => exact ⟨hp.1, fun i => ih i s (hp.2 i)⟩

/-- A thread that reads before it acts is in its first state as long as it has not ended. -/
theorem ReadsFirst.reaches {p q : Proc ι σ β} {t : σ} {inp : List ι} (hp : p.ReadsFirst s nap)
    (hpq : p.Reaches s inp t q) : q.ReadsFirst s nap ∧ (t = s ∨ ∃ u b, q = .ret u b) := by
  induction hpq with
  | start => exact ⟨hp, Or.inl rfl⟩
  | wake hsleep ih =>
    obtain ⟨u, b, hk⟩ := ih.1.2 _
    rw [hk]
    exact ⟨trivial, Or.inr ⟨u, b, rfl⟩⟩
  | input hread i ih =>
    obtain ⟨⟨rfl, hk⟩, -⟩ := ih
    exact ⟨hk i, Or.inl rfl⟩

end Proc

namespace ProcM

variable {ι σ : Type} {m : ProcM ι σ Unit}

theorem calls_append {n : Nat} {s t : σ} {inp rest : List ι} (hcalls : m.calls n s inp = some (t, rest))
    (later : List ι) : m.calls n s (inp ++ later) = some (t, rest ++ later) := by
  induction n generalizing s inp with
  | zero =>
    obtain ⟨rfl, rfl⟩ : s = t ∧ inp = rest := by simpa [calls] using hcalls
    rfl
  | succ n ih =>
    rw [calls] at hcalls ⊢
    cases hrun : m.run s inp with
    | returned u a left =>
      rw [hrun] at hcalls
      rw [run, Proc.run_append hrun later]
      exact ih hcalls
    | blocked u =>
      rw [hrun] at hcalls
      cases hcalls
    | faulted =>
      rw [hrun] at hcalls
      cases hcalls

theorem calls_add {n : Nat} {s t : σ} {inp rest : List ι} (hcalls : m.calls n s inp = some (t, rest)) (k : Nat) :
    m.calls (n + k) s inp = m.calls k t rest := by
  induction n generalizing s inp with
  | zero =>
    obtain ⟨rfl, rfl⟩ : s = t ∧ inp = rest := by simpa [calls] using hcalls
    rw [Nat.zero_add]
  | succ n ih =>
    rw [Nat.add_right_comm]
    rw [calls] at hcalls ⊢
    cases hfirst : m.run s inp with
    | returned v a after =>
      rw [hfirst] at hcalls
      exact ih hcalls
    | blocked v =>
      rw [hfirst] at hcalls
      cases hcalls
    | faulted =>
      rw [hfirst] at hcalls
      cases hcalls

theorem calls_succ {n : Nat} {s t u : σ} {inp rest left : List ι} (hcalls : m.calls n s inp = some (t, rest))
    (hrun : m.run t rest = .returned u () left) : m.calls (n + 1) s inp = some (u, left) := by
  rw [calls_add hcalls, calls, hrun]
  rfl

/-- Calls come to an end at one point only: that where the next one does not return. -/
theorem calls_unique {n k : Nat} {s t u : σ} {inp rest left : List ι} (hn : m.calls n s inp = some (t, rest))
    (hk : m.calls k s inp = some (u, left)) (ht : ∀ v later, m.run t rest ≠ .returned v () later)
    (hu : ∀ v later, m.run u left ≠ .returned v () later) : t = u ∧ rest = left := by
  induction n generalizing k s inp with
  | zero =>
    obtain ⟨rfl, rfl⟩ : s = t ∧ inp = rest := by simpa [calls] using hn
    cases k with
    | zero => simpa [calls] using hk
    | succ k =>
      rw [calls] at hk
      cases hrun : m.run s inp with
      | returned v a after => exact absurd hrun (ht v after)
      | blocked v | faulted => rw [hrun] at hk; cases hk
  | succ n ih =>
    cases k with
    | zero =>
      obtain ⟨rfl, rfl⟩ : s = u ∧ inp = left := by simpa [calls] using hk
      rw [calls] at hn
      cases hrun : m.run s inp with
      | returned v a after => exact absurd hrun (hu v after)
      | blocked v | faulted => rw [hrun] at hn; cases hn
    | succ k =>
      rw [calls] at hn hk
      cases hrun : m.run s inp with
      | returned v a after =>
        rw [hrun] at hn hk
        exact ih hn hk
      | blocked v | faulted => rw [hrun] at hn; cases hn

end ProcM

namespace Solo

variable {ι σ : Type} {m : ProcM ι σ Unit} {s : σ} {inp : List ι} {d : Solo ι σ}

/-- How far a thread that calls `m` again and again has come by itself: some
calls have returned, and it is between two calls or somewhere in the next one. -/
def Progress (m : ProcM ι σ Unit) (s : σ) (inp : List ι) (d : Solo ι σ) : Prop :=
  ∃ n t rest, m.calls n s inp = some (t, rest) ∧
    (rest = [] ∧ d = ⟨t, .idle⟩ ∨
      d.parked ≠ .idle ∧ ∃ u q, (m t).Reaches t rest u q ∧ q.park u = (d.state, d.parked))

theorem progress_initial (m : ProcM ι σ Unit) (s : σ) : Progress m s [] ⟨s, .idle⟩ :=
  ⟨0, s, [], rfl, Or.inl ⟨rfl, rfl⟩⟩

theorem progress_resume {n : Nat} {t : σ} {rest : List ι} {q : Proc ι σ Unit}
    (hcalls : m.calls n s inp = some (t, rest)) (hreaches : (m t).Reaches t rest d.state q) :
    Progress m s inp (d.resume q) := by
  cases q with
  | ret u a => exact ⟨n + 1, u, [], ProcM.calls_succ hcalls hreaches.run_nil, Or.inl ⟨rfl, rfl⟩⟩
  | fault => exact ⟨n, t, rest, hcalls, Or.inr ⟨nofun, d.state, .fault, hreaches, rfl⟩⟩
  | sleep u k => exact ⟨n, t, rest, hcalls, Or.inr ⟨nofun, d.state, .sleep u k, hreaches, rfl⟩⟩
  | read u k => exact ⟨n, t, rest, hcalls, Or.inr ⟨nofun, d.state, .read u k, hreaches, rfl⟩⟩

theorem Progress.call (hd : Progress m s inp d) : Progress m s inp (d.step m .call) := by
  obtain ⟨n, t, rest, hcalls, ⟨rfl, rfl⟩ | ⟨hbusy, hmid⟩⟩ := hd
  · exact progress_resume hcalls .start
  · rw [Solo.step]
    cases hparked : d.parked with
    | idle => exact absurd hparked hbusy
    | asleep k | waiting k | faulted => exact ⟨n, t, rest, hcalls, Or.inr ⟨hbusy, hmid⟩⟩

/-- In the middle of a call the thread is parked at what is left of it. -/
theorem Progress.of_busy (hd : Progress m s inp d) {p : Parked ι σ} (hparked : d.parked = p) (hbusy : p ≠ .idle) :
    ∃ n t rest u q, m.calls n s inp = some (t, rest) ∧ (m t).Reaches t rest u q ∧ q.park u = (d.state, p) := by
  obtain ⟨n, t, rest, hcalls, ⟨-, rfl⟩ | ⟨-, u, q, hreaches, hpark⟩⟩ := hd
  · exact absurd hparked.symm hbusy
  · rw [hparked] at hpark
    exact ⟨n, t, rest, u, q, hcalls, hreaches, hpark⟩

theorem Progress.wake (hd : Progress m s inp d) : Progress m s inp (d.step m .wake) := by
  rw [Solo.step]
  cases hparked : d.parked with
  | idle | waiting k | faulted => exact hd
  | asleep k =>
    obtain ⟨n, t, rest, u, q, hcalls, hreaches, hpark⟩ := hd.of_busy hparked (by simp)
    cases q with
    | sleep v l =>
      cases hpark
      exact progress_resume hcalls hreaches.wake
    | ret v a | fault | read v l => cases hpark

theorem Progress.input (hd : Progress m s inp d) {k : ι → σ → Proc ι σ Unit} (hparked : d.parked = .waiting k)
    (i : ι) : Progress m s (inp ++ [i]) (d.step m (.input i)) := by
  rw [Solo.step, hparked]
  obtain ⟨n, t, rest, u, q, hcalls, hreaches, hpark⟩ := hd.of_busy hparked (by simp)
  cases q with
  | read v l =>
    cases hpark
    exact progress_resume (ProcM.calls_append hcalls [i]) (hreaches.input i)
  | ret v a | fault | sleep v l => cases hpark

/-- Between two calls, all inputs have gone into calls that returned. -/
theorem Progress.of_idle (hd : Progress m s inp d) (hparked : d.parked = .idle) :
    ∃ n, m.calls n s inp = some (d.state, []) := by
  obtain ⟨n, t, rest, hcalls, ⟨rfl, rfl⟩ | ⟨hbusy, -⟩⟩ := hd
  · exact ⟨n, hcalls⟩
  · exact absurd hparked hbusy

/-- A thread that waits for an input is in a call that blocks on those it had. -/
theorem Progress.of_waiting (hd : Progress m s inp d) {k : ι → σ → Proc ι σ Unit} (hparked : d.parked = .waiting k) :
    ∃ n t rest, m.calls n s inp = some (t, rest) ∧ m.run t rest = .blocked d.state := by
  obtain ⟨n, t, rest, u, q, hcalls, hreaches, hpark⟩ := hd.of_busy hparked (by simp)
  cases q with
  | read v l =>
    cases hpark
    exact ⟨n, t, rest, hcalls, hreaches.run_nil⟩
  | ret v a | fault | sleep v l => cases hpark

/-- A thread that has faulted, in a procedure that reads before it acts: the call that
went wrong has not changed the state. -/
theorem Progress.of_faulted (hd : Progress m s inp d) (hparked : d.parked = .faulted)
    {nap : σ → σ → (σ → Proc ι σ Unit) → Prop} (hm : ∀ t, (m t).ReadsFirst t (nap t)) :
    ∃ n rest, m.calls n s inp = some (d.state, rest) ∧ m.run d.state rest = .faulted := by
  obtain ⟨n, t, rest, u, q, hcalls, hreaches, hpark⟩ := hd.of_busy hparked (by simp)
  cases q with
  | fault =>
    obtain rfl | ⟨v, a, hq⟩ := ((hm t).reaches hreaches).2
    · obtain rfl : u = d.state := congrArg Prod.fst hpark
      exact ⟨n, rest, hcalls, hreaches.run_nil⟩
    · cases hq
  | ret v a | sleep v l | read v l => cases hpark

/-- A thread that sleeps, in a procedure that reads before it acts. -/
theorem Progress.of_asleep (hd : Progress m s inp d) {k : σ → Proc ι σ Unit} (hparked : d.parked = .asleep k)
    {nap : σ → σ → (σ → Proc ι σ Unit) → Prop} (hm : ∀ t, (m t).ReadsFirst t (nap t)) :
    ∃ n t rest, m.calls n s inp = some (t, rest) ∧ nap t d.state k ∧ (∀ u, ∃ v a, k u = .ret v a) ∧
      m.run t rest = (k d.state).run [] := by
  obtain ⟨n, t, rest, u, q, hcalls, hreaches, hpark⟩ := hd.of_busy hparked (by simp)
  have hfirst := ((hm t).reaches hreaches).1
  cases q with
  | sleep v l =>
    cases hpark
    exact ⟨n, t, rest, hcalls, hfirst.1, hfirst.2, hreaches.run_nil⟩
  | ret v a | fault | read v l => cases hpark

end Solo
