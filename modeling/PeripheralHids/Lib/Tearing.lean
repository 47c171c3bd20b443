import Mathlib.Logic.Function.Basic

/-- The accesses by which a record is copied: some of its fields at a time, none
left out. -/
structure CopyPlan (ι : Type) where
  chunks : List (List ι)
  covers : ∀ i, i ∈ chunks.flatten

namespace Tearing

section

variable {ι β : Type} [DecidableEq ι]

/-- One access: the fields in `chunk` are copied, the others stay. -/
def copy (chunk : List ι) (src dst : ι → β) : ι → β := fun i => if i ∈ chunk then src i else dst i

theorem copy_of_mem {chunk : List ι} {i : ι} (hi : i ∈ chunk) (src dst : ι → β) : copy chunk src dst i = src i :=
  if_pos hi

theorem copy_of_not_mem {chunk : List ι} {i : ι} (hi : i ∉ chunk) (src dst : ι → β) : copy chunk src dst i = dst i :=
  if_neg hi

theorem foldl_copy_apply (chunks : List (List ι)) (src dst : ι → β) (i : ι) :
    chunks.foldl (fun dst chunk => copy chunk src dst) dst i = if i ∈ chunks.flatten then src i else dst i := by
  induction chunks generalizing dst with
  | nil => rfl
  | cons chunk chunks ih =>
    rw [List.foldl_cons, ih, List.flatten_cons]
    by_cases hrest : i ∈ chunks.flatten
    · rw [if_pos hrest, if_pos (List.mem_append_right chunk hrest)]
    · rw [if_neg hrest]
      by_cases hchunk : i ∈ chunk
      · rw [copy_of_mem hchunk, if_pos (List.mem_append_left _ hchunk)]
      · rw [copy_of_not_mem hchunk, if_neg fun hi => (List.mem_append.mp hi).elim hchunk hrest]

/-- A whole copy leaves nothing of what was there before. -/
theorem foldl_copy (plan : CopyPlan ι) (src dst : ι → β) :
    plan.chunks.foldl (fun dst chunk => copy chunk src dst) dst = src := by
  funext i
  rw [foldl_copy_apply, if_pos (plan.covers i)]

end

/-- How far a call has come that stores a record in the shared one, then looks
whether it may send, and then loads the shared one and sends what it has loaded. -/
inductive Stage (ι β : Type) where
  | store (todo : List (List ι))
  | test
  | load (todo : List (List ι)) (image : ι → β)

/-- A call in progress: its record, how it will load, what the memory of its image
holds before, and the records of which other calls have stored something since it
began. -/
structure Active (τ ι β : Type) where
  record : ι → β
  loads : CopyPlan ι
  blank : ι → β
  stage : Stage ι β
  overlapped : List (τ × (ι → β))

structure Sent (τ ι β : Type) where
  thread : τ
  record : ι → β
  overlapped : List (τ × (ι → β))
  image : ι → β

structure State (τ ι β : Type) where
  shared : ι → β
  enabled : Bool
  calls : τ → Option (Active τ ι β)
  handed : List (τ × (ι → β))
  sent : List (Sent τ ι β)

inductive Event (τ ι β : Type) where
  | call (thread : τ) (record : ι → β) (stores loads : CopyPlan ι) (blank : ι → β)
  | step (thread : τ)
  | enable (enabled : Bool)

section

variable {τ ι β : Type}

/-- What a call hands over, with its thread. -/
def Event.given : Event τ ι β → Option (τ × (ι → β))
  | .call thread record _ _ _ => some (thread, record)
  | .step _ => none
  | .enable _ => none

/-- A value that a field of a call's image may have: the call's own, or that of a
record that another call has stored some of meanwhile. -/
def Origin (record : ι → β) (overlapped : List (τ × (ι → β))) (i : ι) (v : β) : Prop :=
  v = record i ∨ ∃ r ∈ overlapped, v = r.2 i

theorem Origin.append {record : ι → β} {overlapped : List (τ × (ι → β))} {i : ι} {v : β}
    (horigin : Origin record overlapped i v) (later : List (τ × (ι → β))) :
    Origin record (overlapped ++ later) i v := by
  obtain hown | ⟨r, hr, hother⟩ := horigin
  · exact Or.inl hown
  · exact Or.inr ⟨r, List.mem_append_left later hr, hother⟩

theorem Origin.eq {record image : ι → β} {overlapped : List (τ × (ι → β))}
    (horigin : ∀ i, Origin record overlapped i (image i)) (halone : overlapped = []) : image = record := by
  funext i
  obtain hown | ⟨r, hr, -⟩ := horigin i
  · exact hown
  · rw [halone] at hr
    cases hr

/-- What a call has stored or loaded so far is of such an origin. -/
def Stage.Sound (record : ι → β) (overlapped : List (τ × (ι → β))) (shared : ι → β) : Stage ι β → Prop
  | .store todo => ∀ i, i ∉ todo.flatten → Origin record overlapped i (shared i)
  | .test => ∀ i, Origin record overlapped i (shared i)
  | .load todo image => (∀ i, Origin record overlapped i (shared i)) ∧
      ∀ i, i ∉ todo.flatten → Origin record overlapped i (image i)

/-- The records that a call of a thread has to do with were handed over, and it is
overlapped by calls of other threads only. -/
structure Handed (handed : List (τ × (ι → β))) (thread : τ) (record : ι → β) (overlapped : List (τ × (ι → β))) :
    Prop where
  own : (thread, record) ∈ handed
  others : ∀ r ∈ overlapped, r.1 ≠ thread ∧ r ∈ handed

theorem Handed.append {handed : List (τ × (ι → β))} {thread : τ} {record : ι → β} {overlapped : List (τ × (ι → β))}
    (hhanded : Handed handed thread record overlapped) (later : List (τ × (ι → β))) :
    Handed (handed ++ later) thread record overlapped where
  own := List.mem_append_left later hhanded.own
  others r hr := ⟨(hhanded.others r hr).1, List.mem_append_left later (hhanded.others r hr).2⟩

structure Active.Sound (shared : ι → β) (handed : List (τ × (ι → β))) (thread : τ) (a : Active τ ι β) : Prop where
  stage : a.stage.Sound a.record a.overlapped shared
  handed : Handed handed thread a.record a.overlapped

structure State.Sound (s : State τ ι β) : Prop where
  calls : ∀ t a, s.calls t = some a → a.Sound s.shared s.handed t
  sent : ∀ x ∈ s.sent, Handed s.handed x.thread x.record x.overlapped ∧
    ∀ i, Origin x.record x.overlapped i (x.image i)

variable [DecidableEq ι]

/-- Another call stores some of its record. -/
theorem Stage.Sound.overlap {record other : ι → β} {overlapped : List (τ × (ι → β))} {shared : ι → β}
    {stage : Stage ι β} (hstage : stage.Sound record overlapped shared) (thread : τ) (chunk : List ι) :
    stage.Sound record (overlapped ++ [(thread, other)]) (copy chunk other shared) := by
  have hstored {i : ι} (horigin : Origin record overlapped i (shared i)) :
      Origin record (overlapped ++ [(thread, other)]) i (copy chunk other shared i) := by
    by_cases hi : i ∈ chunk
    · rw [copy_of_mem hi]
      exact Or.inr ⟨(thread, other), List.mem_append_right _ List.mem_cons_self, rfl⟩
    · rw [copy_of_not_mem hi]
      exact horigin.append _
  cases stage with
  | store todo => exact fun i hi => hstored (hstage i hi)
  | test => exact fun i => hstored (hstage i)
  | load todo image => exact ⟨fun i => hstored (hstage.1 i), fun i hi => (hstage.2 i hi).append _⟩

/-- One more access of a copy. -/
theorem origin_copy {record src dst : ι → β} {overlapped : List (τ × (ι → β))} {chunk : List ι}
    {todo : List (List ι)} (hsrc : ∀ i, Origin record overlapped i (src i))
    (hdst : ∀ i, i ∉ (chunk :: todo).flatten → Origin record overlapped i (dst i)) :
    ∀ i, i ∉ todo.flatten → Origin record overlapped i (copy chunk src dst i) := by
  intro i hi
  by_cases hchunk : i ∈ chunk
  · rw [copy_of_mem hchunk]
    exact hsrc i
  · rw [copy_of_not_mem hchunk]
    refine hdst i ?_
    rw [List.flatten_cons]
    exact fun hin => (List.mem_append.mp hin).elim hchunk hi

end

section

variable {τ ι β : Type} [DecidableEq τ]

/-- Another call has stored some of its record. -/
def Active.overlap (thread : τ) (record : ι → β) (a : Active τ ι β) : Active τ ι β :=
  { a with overlapped := a.overlapped ++ [(thread, record)] }

def State.set (s : State τ ι β) (thread : τ) (a : Option (Active τ ι β)) : State τ ι β :=
  { s with calls := Function.update s.calls thread a }

theorem forall_calls_update {f : τ → Option (Active τ ι β)} {thread : τ} {a : Option (Active τ ι β)}
    {P : τ → Active τ ι β → Prop} (hthread : ∀ b, a = some b → P thread b)
    (hothers : ∀ t, t ≠ thread → ∀ b, f t = some b → P t b) :
    ∀ t b, Function.update f thread a t = some b → P t b := by
  intro t b hb
  by_cases ht : t = thread
  · subst ht
    rw [Function.update_self] at hb
    exact hthread b hb
  · rw [Function.update_of_ne ht] at hb
    exact hothers t ht b hb

theorem State.Sound.set {s : State τ ι β} (hs : s.Sound) {thread : τ} {a : Option (Active τ ι β)}
    (ha : ∀ b, a = some b → b.Sound s.shared s.handed thread) : (s.set thread a).Sound :=
  ⟨forall_calls_update ha fun t _ b hb => hs.calls t b hb, hs.sent⟩

/-- The state in which one thread is in a call and no other is. -/
def State.alone (s : State τ ι β) (thread : τ) (shared : ι → β) (a : Active τ ι β) : State τ ι β :=
  { s with shared := shared, calls := Function.update (fun _ => none) thread (some a) }

theorem State.alone_calls_self (s : State τ ι β) (thread : τ) (shared : ι → β) (a : Active τ ι β) :
    (s.alone thread shared a).calls thread = some a := by
  simp only [State.alone, Function.update_self]

theorem State.alone_calls_of_ne (s : State τ ι β) {thread t : τ} (ht : t ≠ thread) (shared : ι → β)
    (a : Active τ ι β) : (s.alone thread shared a).calls t = none := by
  simp only [State.alone, Function.update_of_ne ht]

theorem State.set_alone_some (s : State τ ι β) (thread : τ) (shared : ι → β) (a b : Active τ ι β) :
    (s.alone thread shared a).set thread (some b) = s.alone thread shared b := by
  simp only [State.alone, State.set, Function.update_idem]

theorem State.set_alone_none (s : State τ ι β) (thread : τ) (shared : ι → β) (a : Active τ ι β) :
    (s.alone thread shared a).set thread none = { s with shared := shared, calls := fun _ => none } := by
  simp only [State.alone, State.set, Function.update_idem]
  rw [Function.update_eq_self_iff.mpr rfl]

variable [DecidableEq ι]

/-- One access or decision of a call. -/
def State.advance (s : State τ ι β) (thread : τ) (a : Active τ ι β) : State τ ι β :=
  match a.stage with
  | .store (chunk :: todo) =>
    { s with
      shared := copy chunk a.record s.shared
      calls := Function.update (fun t => (s.calls t).map (Active.overlap thread a.record)) thread
        (some { a with stage := .store todo }) }
  | .store [] => s.set thread (some { a with stage := .test })
  | .test => s.set thread (if s.enabled then some { a with stage := .load a.loads.chunks a.blank } else none)
  | .load (chunk :: todo) image => s.set thread (some { a with stage := .load todo (copy chunk s.shared image) })
  | .load [] image => { s.set thread none with sent := s.sent ++ [⟨thread, a.record, a.overlapped, image⟩] }

/-- A thread makes one call at a time. -/
def State.next (s : State τ ι β) : Event τ ι β → State τ ι β
  | .call thread record stores loads blank =>
    match s.calls thread with
    | none =>
      { s.set thread (some ⟨record, loads, blank, .store stores.chunks, []⟩) with
        handed := s.handed ++ [(thread, record)] }
    | some _ => s
  | .step thread =>
    match s.calls thread with
    | none => s
    | some a => s.advance thread a
  | .enable enabled => { s with enabled := enabled }

def State.run (s : State τ ι β) (events : List (Event τ ι β)) : State τ ι β := events.foldl State.next s

theorem State.Sound.advance {s : State τ ι β} (hs : s.Sound) {thread : τ} {a : Active τ ι β}
    (ha : s.calls thread = some a) : (s.advance thread a).Sound := by
  obtain ⟨hsound, hhanded⟩ := hs.calls thread a ha
  obtain ⟨record, loads, blank, stage, overlapped⟩ := a
  cases stage with
  | store todo =>
    cases todo with
    | cons chunk todo =>
      refine ⟨forall_calls_update ?_ fun t ht b hb => ?_, hs.sent⟩
      · rintro b ⟨rfl⟩
        exact ⟨origin_copy (fun i => Or.inl rfl) hsound, hhanded⟩
      · obtain ⟨b, hcall, rfl⟩ := Option.map_eq_some_iff.mp hb
        obtain ⟨hstage, hother⟩ := hs.calls t b hcall
        refine ⟨hstage.overlap thread chunk, hother.own, fun r hr => ?_⟩
        obtain hr | hr := List.mem_append.mp hr
        · exact hother.others r hr
        · obtain rfl := List.mem_singleton.mp hr
          exact ⟨Ne.symm ht, hhanded.own⟩
    | nil =>
      refine hs.set ?_
      rintro b ⟨rfl⟩
      exact ⟨fun i => hsound i List.not_mem_nil, hhanded⟩
  | test =>
    refine hs.set fun b hb => ?_
    cases henabled : s.enabled with
    | false =>
      rw [henabled] at hb
      cases hb
    | true =>
      rw [henabled] at hb
      obtain rfl := Option.some.inj hb
      exact ⟨⟨hsound, fun i hi => absurd (loads.covers i) hi⟩, hhanded⟩
  | load todo image =>
    cases todo with
    | cons chunk todo =>
      refine hs.set ?_
      rintro b ⟨rfl⟩
      exact ⟨⟨hsound.1, origin_copy hsound.1 hsound.2⟩, hhanded⟩
    | nil =>
      have hset : (s.set thread none).Sound := hs.set nofun
      refine ⟨hset.calls, fun x hx => ?_⟩
      obtain hx | hx := List.mem_append.mp hx
      · exact hs.sent x hx
      · obtain rfl := List.mem_singleton.mp hx
        exact ⟨hhanded, fun i => hsound.2 i List.not_mem_nil⟩

theorem State.next_call {s : State τ ι β} {thread : τ} (hthread : s.calls thread = none) (record : ι → β)
    (stores loads : CopyPlan ι) (blank : ι → β) :
    s.next (.call thread record stores loads blank) =
      { s.set thread (some ⟨record, loads, blank, .store stores.chunks, []⟩) with
        handed := s.handed ++ [(thread, record)] } := by
  simp only [State.next, hthread]

theorem State.next_call_busy {s : State τ ι β} {thread : τ} {a : Active τ ι β} (hthread : s.calls thread = some a)
    (record : ι → β) (stores loads : CopyPlan ι) (blank : ι → β) :
    s.next (.call thread record stores loads blank) = s := by
  simp only [State.next, hthread]

theorem State.next_step {s : State τ ι β} {thread : τ} {a : Active τ ι β} (hthread : s.calls thread = some a) :
    s.next (.step thread) = s.advance thread a := by
  simp only [State.next, hthread]

theorem State.next_step_idle {s : State τ ι β} {thread : τ} (hthread : s.calls thread = none) :
    s.next (.step thread) = s := by
  simp only [State.next, hthread]

theorem State.Sound.next {s : State τ ι β} (hs : s.Sound) (event : Event τ ι β) : (s.next event).Sound := by
  cases event with
  | call thread record stores loads blank =>
    cases hthread : s.calls thread with
    | some a => rwa [State.next_call_busy hthread]
    | none =>
      rw [State.next_call hthread]
      refine ⟨forall_calls_update ?_ fun t _ b hb => ?_, fun x hx => ?_⟩
      · rintro b ⟨rfl⟩
        exact ⟨fun i hi => absurd (stores.covers i) hi, List.mem_append_right _ List.mem_cons_self, nofun⟩
      · exact ⟨(hs.calls t b hb).stage, (hs.calls t b hb).handed.append _⟩
      · exact ⟨(hs.sent x hx).1.append _, (hs.sent x hx).2⟩
  | step thread =>
    cases hthread : s.calls thread with
    | none => rwa [State.next_step_idle hthread]
    | some a =>
      rw [State.next_step hthread]
      exact hs.advance hthread
  | enable enabled => exact ⟨hs.calls, hs.sent⟩

/-- However the calls interleave: each field of what is sent is of the call's own
record, or of one that another thread's call has stored some of meanwhile. -/
theorem State.Sound.run {s : State τ ι β} (hs : s.Sound) (events : List (Event τ ι β)) : (s.run events).Sound :=
  List.foldlRecOn events _ hs fun _ hs event _ => hs.next event

theorem State.handed_advance (s : State τ ι β) (thread : τ) (a : Active τ ι β) :
    (s.advance thread a).handed = s.handed := by
  unfold State.advance
  split <;> rfl

theorem State.handed_next (s : State τ ι β) (event : Event τ ι β) :
    (s.next event).handed ⊆ s.handed ++ event.given.toList := by
  cases event with
  | call thread record stores loads blank =>
    cases hthread : s.calls thread with
    | none =>
      rw [next_call hthread]
      exact List.Subset.refl _
    | some a =>
      rw [next_call_busy hthread]
      exact List.subset_append_left _ _
  | step thread =>
    refine List.Subset.trans ?_ (List.subset_append_left _ _)
    cases hthread : s.calls thread with
    | none =>
      rw [next_step_idle hthread]
      exact List.Subset.refl _
    | some a =>
      rw [next_step hthread, handed_advance]
      exact List.Subset.refl _
  | enable enabled => exact List.subset_append_left _ _

/-- Nothing is handed over but by a call. -/
theorem State.handed_run (s : State τ ι β) (events : List (Event τ ι β)) :
    (s.run events).handed ⊆ s.handed ++ events.filterMap Event.given := by
  induction events generalizing s with
  | nil => exact List.subset_append_left _ _
  | cons event events ih =>
    intro r hr
    obtain hnext | hlater := List.mem_append.mp (ih (s.next event) hr)
    · obtain hbefore | hgiven := List.mem_append.mp (s.handed_next event hnext)
      · exact List.mem_append_left _ hbefore
      · refine List.mem_append_right _ (List.mem_filterMap.mpr ⟨event, List.mem_cons_self, ?_⟩)
        exact Option.mem_toList.mp hgiven
    · obtain ⟨later, hmem, hgiven⟩ := List.mem_filterMap.mp hlater
      exact List.mem_append_right _ (List.mem_filterMap.mpr ⟨later, List.mem_cons_of_mem _ hmem, hgiven⟩)

theorem State.run_nil (s : State τ ι β) : s.run [] = s := rfl

theorem State.run_cons (s : State τ ι β) (event : Event τ ι β) (later : List (Event τ ι β)) :
    s.run (event :: later) = (s.next event).run later := rfl

theorem State.run_append (s : State τ ι β) (events later : List (Event τ ι β)) :
    s.run (events ++ later) = (s.run events).run later := List.foldl_append

theorem State.run_steps_idle {s : State τ ι β} {thread : τ} (hthread : s.calls thread = none) (n : Nat) :
    s.run (List.replicate n (.step thread)) = s := by
  induction n with
  | zero => rfl
  | succ n ih =>
    rw [List.replicate_succ, run_cons, State.next_step_idle hthread, ih]

theorem State.next_alone (s : State τ ι β) (thread : τ) (shared : ι → β) (a : Active τ ι β) :
    (s.alone thread shared a).next (.step thread) = (s.alone thread shared a).advance thread a :=
  next_step (s.alone_calls_self thread shared a)

theorem State.run_steps_store (s : State τ ι β) (thread : τ) (shared record blank : ι → β) (loads : CopyPlan ι)
    (todo : List (List ι)) :
    (s.alone thread shared ⟨record, loads, blank, .store todo, []⟩).run (List.replicate todo.length (.step thread)) =
      s.alone thread (todo.foldl (fun dst chunk => copy chunk record dst) shared)
        ⟨record, loads, blank, .store [], []⟩ := by
  induction todo generalizing shared with
  | nil => rfl
  | cons chunk todo ih =>
    have hnext : (s.alone thread shared ⟨record, loads, blank, .store (chunk :: todo), []⟩).next (.step thread) =
        s.alone thread (copy chunk record shared) ⟨record, loads, blank, .store todo, []⟩ := by
      rw [next_alone]
      refine congrArg (fun calls => { s with shared := copy chunk record shared, calls := calls }) ?_
      funext t
      by_cases ht : t = thread
      · subst ht
        rw [Function.update_self, Function.update_self]
      · rw [Function.update_of_ne ht, Function.update_of_ne ht, alone_calls_of_ne s ht]
        rfl
    rw [List.length_cons, List.replicate_succ, run_cons, hnext, ih]
    rfl

theorem State.run_steps_load (s : State τ ι β) (thread : τ) (shared record blank image : ι → β) (loads : CopyPlan ι)
    (todo : List (List ι)) :
    (s.alone thread shared ⟨record, loads, blank, .load todo image, []⟩).run
        (List.replicate todo.length (.step thread)) =
      s.alone thread shared
        ⟨record, loads, blank, .load [] (todo.foldl (fun dst chunk => copy chunk shared dst) image), []⟩ := by
  induction todo generalizing image with
  | nil => rfl
  | cons chunk todo ih =>
    have hnext : (s.alone thread shared ⟨record, loads, blank, .load (chunk :: todo) image, []⟩).next (.step thread) =
        s.alone thread shared ⟨record, loads, blank, .load todo (copy chunk shared image), []⟩ := by
      rw [next_alone]
      exact s.set_alone_some thread shared _ _
    rw [List.length_cons, List.replicate_succ, run_cons, hnext, ih]
    rfl

theorem State.call_alone {s : State τ ι β} (hidle : s.calls = fun _ => none) (thread : τ) (record blank : ι → β)
    (stores loads : CopyPlan ι) :
    s.next (.call thread record stores loads blank) =
      State.alone { s with handed := s.handed ++ [(thread, record)] } thread s.shared
        ⟨record, loads, blank, .store stores.chunks, []⟩ := by
  rw [next_call (congrFun hidle thread), State.set, State.alone, hidle]

/-- A call that no other one overlaps stores its whole record, and sends it if it may. -/
theorem State.run_alone {s : State τ ι β} (hidle : s.calls = fun _ => none) (thread : τ) (record blank : ι → β)
    (stores loads : CopyPlan ι) :
    s.run (.call thread record stores loads blank :: (List.replicate stores.chunks.length (.step thread) ++
        [.step thread, .step thread] ++ List.replicate loads.chunks.length (.step thread) ++ [.step thread])) =
      { s with
        shared := record
        handed := s.handed ++ [(thread, record)]
        sent := s.sent ++ if s.enabled then [⟨thread, record, [], record⟩] else [] } := by
  have htest (s : State τ ι β) : (s.alone thread record ⟨record, loads, blank, .store [], []⟩).run
      [.step thread, .step thread] = (s.alone thread record ⟨record, loads, blank, .test, []⟩).set thread
        (if s.enabled then some ⟨record, loads, blank, .load loads.chunks blank, []⟩ else none) := by
    have hstored : (s.alone thread record ⟨record, loads, blank, .store [], []⟩).next (.step thread) =
        s.alone thread record ⟨record, loads, blank, .test, []⟩ := by
      rw [next_alone]
      exact s.set_alone_some thread record _ _
    rw [run_cons, run_cons, run_nil, hstored, next_alone]
    rfl
  rw [run_cons, call_alone hidle, run_append, run_append, run_append, run_steps_store, foldl_copy, htest]
  cases henabled : s.enabled with
  | false =>
    rw [if_neg Bool.false_ne_true, set_alone_none, run_steps_idle rfl, if_neg Bool.false_ne_true, List.append_nil,
      hidle]
    exact run_steps_idle (n := 1) rfl
  | true =>
    rw [if_pos rfl, set_alone_some, run_steps_load, foldl_copy, if_pos rfl, run_cons, run_nil, next_alone, hidle]
    have hset := set_alone_none ⟨s.shared, true, fun _ => none, s.handed ++ [(thread, record)], s.sent⟩ thread record
      ⟨record, loads, blank, .load [] record, []⟩
    exact congrArg (fun u => { u with sent := s.sent ++ [Sent.mk thread record [] record] }) hset

end

end Tearing
