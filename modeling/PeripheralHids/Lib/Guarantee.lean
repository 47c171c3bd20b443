import Mathlib.Order.Defs.Unbundled
import PeripheralHids.Lib.Proc

/-- Whatever others do to the state while a thread waits, each stretch of it from
one wait to the next takes the state it finds to an `R`-related one, and what it
leaves when it returns satisfies `post`. -/
def Proc.Guarantees {ι σ α : Type} (R : σ → σ → Prop) (post : α → σ → Prop) (s : σ) : Proc ι σ α → Prop
  | .ret t a => R s t ∧ post a t
  | .fault => True
  | .sleep t k => R s t ∧ ∀ u, (k u).Guarantees R post u
  | .read t k => R s t ∧ ∀ i u, (k i u).Guarantees R post u

/-- A procedure guarantees what its threads do, from whatever state it is called in. -/
def ProcM.Guarantees {ι σ α : Type} (R : σ → σ → Prop) (post : α → σ → Prop) (m : ProcM ι σ α) : Prop :=
  ∀ s, (m s).Guarantees R post s

namespace Proc

/-- Run a thread on a part of a larger state. -/
def lift {ι σ τ α : Type} (get : σ → τ) (put : σ → τ → σ) (s : σ) : Proc ι τ α → Proc ι σ α
  | .ret t a => .ret (put s t) a
  | .fault => .fault
  | .sleep t k => .sleep (put s t) fun u => (k (get u)).lift get put u
  | .read t k => .read (put s t) fun i u => (k i (get u)).lift get put u

variable {ι σ τ α β : Type} {R : σ → σ → Prop}

theorem Guarantees.of_earlier [IsTrans σ R] {post : α → σ → Prop} {p : Proc ι σ α} {s t : σ} (hst : R s t)
    (hp : p.Guarantees R post t) : p.Guarantees R post s := by
  cases p with
  | ret u a => exact ⟨trans_of R hst hp.1, hp.2⟩
  | fault => trivial
  | sleep u k => exact ⟨trans_of R hst hp.1, hp.2⟩
  | read u k => exact ⟨trans_of R hst hp.1, hp.2⟩

theorem Guarantees.bind [IsTrans σ R] {mid : α → σ → Prop} {post : β → σ → Prop} {p : Proc ι σ α}
    {f : α → σ → Proc ι σ β} {s : σ} (hp : p.Guarantees R mid s)
    (hf : ∀ a t, mid a t → (f a t).Guarantees R post t) : (p.bind f).Guarantees R post s := by
  induction p generalizing s with
  | ret t a => exact (hf a t hp.2).of_earlier hp.1
  | fault => trivial
  | sleep t k ih => exact ⟨hp.1, fun u => ih u (hp.2 u)⟩
  | read t k ih => exact ⟨hp.1, fun i u => ih i u (hp.2 i u)⟩

theorem Guarantees.lift {Q : τ → τ → Prop} {mid : α → τ → Prop} {post : α → σ → Prop} {get : σ → τ}
    {put : σ → τ → σ} (hR : ∀ s t, Q (get s) t → R s (put s t)) (hpost : ∀ a s t, mid a t → post a (put s t))
    {p : Proc ι τ α} {s : σ} (hp : p.Guarantees Q mid (get s)) : (p.lift get put s).Guarantees R post s := by
  induction p generalizing s with
  | ret t a => exact ⟨hR s t hp.1, hpost a s t hp.2⟩
  | fault => trivial
  | sleep t k ih => exact ⟨hR s t hp.1, fun u => ih (get u) (hp.2 (get u))⟩
  | read t k ih => exact ⟨hR s t hp.1, fun i u => ih i (get u) (hp.2 i (get u))⟩

end Proc

namespace ProcM

def lift {ι σ τ α : Type} (get : σ → τ) (put : σ → τ → σ) (m : ProcM ι τ α) : ProcM ι σ α :=
  fun s => (m (get s)).lift get put s

theorem Guarantees.lift {ι σ τ α : Type} {Q : τ → τ → Prop} {R : σ → σ → Prop} {mid : α → τ → Prop}
    {post : α → σ → Prop} {get : σ → τ} {put : σ → τ → σ} {m : ProcM ι τ α} (hm : m.Guarantees Q mid)
    (hR : ∀ s t, Q (get s) t → R s (put s t)) (hpost : ∀ a s t, mid a t → post a (put s t)) :
    (m.lift get put).Guarantees R post :=
  fun s => Proc.Guarantees.lift hR hpost (hm (get s))

theorem guarantees_modify {ι σ : Type} {R : σ → σ → Prop} {post : Unit → σ → Prop} {f : σ → σ}
    (hR : ∀ s, R s (f s)) (hf : ∀ s, post () (f s)) : (modify f : ProcM ι σ Unit).Guarantees R post :=
  fun s => ⟨hR s, hf s⟩

variable {ι σ α β : Type} {R : σ → σ → Prop} [IsPreorder σ R] {post : α → σ → Prop}

theorem Guarantees.bind {mid : α → σ → Prop} {post : β → σ → Prop} {m : ProcM ι σ α} {f : α → ProcM ι σ β}
    (hm : m.Guarantees R mid) (hf : ∀ a t, mid a t → (f a t).Guarantees R post t) :
    (m >>= f).Guarantees R post :=
  fun s => (hm s).bind hf

/-- The rule of composition where nothing is needed of what comes first. -/
theorem Guarantees.andThen {mid : α → σ → Prop} {post : β → σ → Prop} {m : ProcM ι σ α} {f : α → ProcM ι σ β}
    (hm : m.Guarantees R mid) (hf : ∀ a, (f a).Guarantees R post) : (m >>= f).Guarantees R post :=
  hm.bind fun a t _ => hf a t

theorem guarantees_pure {a : α} (ha : ∀ s, post a s) : (pure a : ProcM ι σ α).Guarantees R post :=
  fun s => ⟨refl_of R s, ha s⟩

theorem guarantees_next : (next : ProcM ι σ ι).Guarantees R fun _ _ => True :=
  fun s => ⟨refl_of R s, fun _ t => ⟨refl_of R t, trivial⟩⟩

theorem guarantees_sleep : (sleep : ProcM ι σ Unit).Guarantees R fun _ _ => True :=
  fun s => ⟨refl_of R s, fun t => ⟨refl_of R t, trivial⟩⟩

theorem guarantees_checked (access : Option α) : (checked access : ProcM ι σ α).Guarantees R fun _ _ => True := by
  cases access with
  | none => exact fun _ => trivial
  | some a => exact guarantees_pure fun _ => trivial

end ProcM
