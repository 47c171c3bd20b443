import PeripheralHids.Kernel.Funs

namespace peripheral_hids.kernel

section

variable {τ α : Type} {max_msgs : Nat}

theorem z_priq_dumb_add_perm (pq : List (k_thread τ α)) (thread : k_thread τ α) :
    (z_priq_dumb_add pq thread).Perm (thread :: pq) := by
  induction pq with
  | nil => exact .refl _
  | cons t pq ih =>
    rw [z_priq_dumb_add]
    split
    · exact .refl _
    · exact (ih.cons t).trans (.swap thread t pq)

theorem mem_z_priq_dumb_add {pq : List (k_thread τ α)} {thread w : k_thread τ α} :
    w ∈ z_priq_dumb_add pq thread ↔ w = thread ∨ w ∈ pq := by
  rw [(z_priq_dumb_add_perm pq thread).mem_iff, List.mem_cons]

theorem filter_z_priq_dumb_add {p : k_thread τ α → Bool} {pq : List (k_thread τ α)} {thread : k_thread τ α}
    (hthread : p thread = false) : (z_priq_dumb_add pq thread).filter p = pq.filter p := by
  induction pq with
  | nil => rw [z_priq_dumb_add, List.filter_cons_of_neg (by rw [hthread]; exact Bool.false_ne_true)]
  | cons t pq ih =>
    rw [z_priq_dumb_add]
    split
    · rw [List.filter_cons_of_neg (by rw [hthread]; exact Bool.false_ne_true)]
    · rw [List.filter_cons, List.filter_cons, ih]

theorem filter_z_priq_dumb_add_self {p : k_thread τ α → Bool} {pq : List (k_thread τ α)} {thread : k_thread τ α}
    (hthread : p thread = true) (hpq : ∀ t ∈ pq, p t = false) : (z_priq_dumb_add pq thread).filter p = [thread] := by
  have hperm := (z_priq_dumb_add_perm pq thread).filter p
  have hnone : pq.filter p = [] := List.filter_eq_nil_iff.mpr fun t ht => by rw [hpq t ht]; exact Bool.false_ne_true
  rw [List.filter_cons_of_pos hthread, hnone] at hperm
  exact List.perm_singleton.mp hperm

/-- How the threads wait: all in gets, and then the queue is empty, or all in puts,
each still with its message in its hands, and then the queue is full. -/
structure k_msgq.Disciplined (msgq : k_msgq τ α max_msgs) : Prop where
  waits : (∀ w ∈ msgq.wait_q, w.call = .get ∧ msgq.ring.contents = []) ∨
    ∀ w ∈ msgq.wait_q, w.call = .put w.swap_data ∧ msgq.ring.contents.length = max_msgs
  ids : (msgq.wait_q.map k_thread.id).Nodup

theorem k_msgq.Disciplined.of_nil {msgq : k_msgq τ α max_msgs} (hnil : msgq.wait_q = []) : msgq.Disciplined where
  waits := Or.inl fun w hw => by rw [hnil] at hw; exact absurd hw List.not_mem_nil
  ids := by rw [hnil]; exact List.nodup_nil

/-- Threads that wait no longer leave the others as they were. -/
theorem k_msgq.Disciplined.sublist {msgq : k_msgq τ α max_msgs} (hmsgq : msgq.Disciplined)
    {wait_q : List (k_thread τ α)} (hsub : wait_q.Sublist msgq.wait_q) :
    k_msgq.Disciplined ⟨msgq.ring, wait_q⟩ where
  waits := hmsgq.waits.imp (fun hgets w hw => hgets w (hsub.subset hw)) fun hputs w hw => hputs w (hsub.subset hw)
  ids := hmsgq.ids.sublist (hsub.map k_thread.id)

/-- A message finds room only where no thread waits to put one. -/
theorem k_msgq.Disciplined.gets_of_room {msgq : k_msgq τ α max_msgs} (hmsgq : msgq.Disciplined)
    (hroom : msgq.ring.used < max_msgs) : ∀ w ∈ msgq.wait_q, w.call = .get ∧ msgq.ring.contents = [] := by
  obtain hgets | hputs := hmsgq.waits
  · exact hgets
  · intro w hw
    have hfull := (hputs w hw).2
    rw [RingBuffer.contents_length] at hfull
    omega

theorem k_msgq.Disciplined.puts_of_used {msgq : k_msgq τ α max_msgs} (hmsgq : msgq.Disciplined)
    (hused : 0 < msgq.ring.used) :
    ∀ w ∈ msgq.wait_q, w.call = .put w.swap_data ∧ msgq.ring.contents.length = max_msgs := by
  obtain hgets | hputs := hmsgq.waits
  · intro w hw
    have hempty := congrArg List.length (hgets w hw).2
    rw [RingBuffer.contents_length, List.length_nil] at hempty
    omega
  · exact hputs

/-- All that a put can do. -/
theorem z_impl_k_msgq_put_cases (msgq : k_msgq τ α max_msgs) (current : k_thread τ α) (timeout : k_timeout_t) :
    (∃ hroom : msgq.ring.used < max_msgs,
      (msgq.wait_q = [] ∧ z_impl_k_msgq_put msgq current timeout =
        ([(current, .ok)], ⟨msgq.ring.push current.swap_data hroom, msgq.wait_q⟩)) ∨
      ∃ w wait_q, msgq.wait_q = w :: wait_q ∧ z_impl_k_msgq_put msgq current timeout =
        ([(current, .ok), ({ w with swap_data := current.swap_data }, .ok)], ⟨msgq.ring, wait_q⟩)) ∨
    msgq.ring.used = max_msgs ∧
      ((timeout = K_NO_WAIT ∧ z_impl_k_msgq_put msgq current timeout = ([(current, .ENOMSG)], msgq)) ∨
        timeout ≠ K_NO_WAIT ∧ z_impl_k_msgq_put msgq current timeout = ([], msgq.z_pend_curr current timeout)) := by
  have hle := msgq.ring.used_le
  obtain ⟨ring, wait_q⟩ := msgq
  unfold z_impl_k_msgq_put
  by_cases hroom : ring.used < max_msgs
  · left
    refine ⟨hroom, ?_⟩
    rw [dif_pos hroom]
    cases wait_q with
    | nil => exact Or.inl ⟨rfl, rfl⟩
    | cons w wait_q => exact Or.inr ⟨w, wait_q, rfl, rfl⟩
  · right
    refine ⟨Nat.le_antisymm hle (Nat.le_of_not_lt hroom), ?_⟩
    rw [dif_neg hroom]
    by_cases htimeout : timeout = K_NO_WAIT
    · exact Or.inl ⟨htimeout, if_pos htimeout⟩
    · exact Or.inr ⟨htimeout, if_neg htimeout⟩

/-- All that a get can do. -/
theorem z_impl_k_msgq_get_cases (msgq : k_msgq τ α max_msgs) (current : k_thread τ α) (timeout : k_timeout_t) :
    (∃ hused : 0 < msgq.ring.used,
      (msgq.wait_q = [] ∧ z_impl_k_msgq_get msgq current timeout =
        ([({ current with swap_data := msgq.ring.front }, .ok)], ⟨msgq.ring.pop hused, msgq.wait_q⟩)) ∨
      ∃ w wait_q, msgq.wait_q = w :: wait_q ∧ z_impl_k_msgq_get msgq current timeout =
        ([({ current with swap_data := msgq.ring.front }, .ok), (w, .ok)],
          ⟨(msgq.ring.pop hused).push w.swap_data (pop_used_lt msgq.ring hused), wait_q⟩)) ∨
    msgq.ring.used = 0 ∧
      ((timeout = K_NO_WAIT ∧ z_impl_k_msgq_get msgq current timeout = ([(current, .ENOMSG)], msgq)) ∨
        timeout ≠ K_NO_WAIT ∧ z_impl_k_msgq_get msgq current timeout = ([], msgq.z_pend_curr current timeout)) := by
  obtain ⟨ring, wait_q⟩ := msgq
  unfold z_impl_k_msgq_get
  by_cases hused : 0 < ring.used
  · left
    refine ⟨hused, ?_⟩
    rw [dif_pos hused]
    cases wait_q with
    | nil => exact Or.inl ⟨rfl, rfl⟩
    | cons w wait_q => exact Or.inr ⟨w, wait_q, rfl, rfl⟩
  · right
    refine ⟨Nat.eq_zero_of_not_pos hused, ?_⟩
    rw [dif_neg hused]
    by_cases htimeout : timeout = K_NO_WAIT
    · exact Or.inl ⟨htimeout, if_pos htimeout⟩
    · exact Or.inr ⟨htimeout, if_neg htimeout⟩

theorem nodup_tail {msgq : k_msgq τ α max_msgs} (hmsgq : msgq.Disciplined) {w : k_thread τ α}
    {wait_q : List (k_thread τ α)} (hwait : msgq.wait_q = w :: wait_q) : (wait_q.map k_thread.id).Nodup := by
  have hids := hmsgq.ids
  rw [hwait, List.map_cons] at hids
  exact (List.nodup_cons.mp hids).2

theorem contents_of_used {ring : RingBuffer α max_msgs} (hused : ring.used = 0) : ring.contents = [] :=
  List.eq_nil_of_length_eq_zero ((RingBuffer.contents_length ring).trans hused)

/-- Where a thread waits, its call would fail. -/
theorem run_failures {msgq : k_msgq τ α max_msgs} (hmsgq : msgq.Disciplined) {failed : List (k_thread τ α)}
    (hfailed : ∀ w ∈ failed, w ∈ msgq.wait_q) {ret : Ret} (hret : ret ≠ .ok) :
    Fifo.Run max_msgs msgq.ring.contents ((failed.map fun w => (w, ret)).map returned) msgq.ring.contents := by
  induction failed with
  | nil => exact .nil
  | cons w failed ih =>
    refine .append (.single ?_) (ih fun w' hw' => hfailed w' (List.mem_cons_of_mem w hw'))
    have hw := hfailed w List.mem_cons_self
    rw [returned, decide_eq_false hret]
    obtain hgets | hputs := hmsgq.waits
    · rw [(hgets w hw).1, (hgets w hw).2]
      exact .get_empty _ _
    · rw [(hputs w hw).1]
      exact .put_full _ _ _ (hputs w hw).2

variable [DecidableEq τ]

/-- The calls in which a thread waits: none, or one. -/
def k_msgq.waiting (msgq : k_msgq τ α max_msgs) (thread : τ) : List (Fifo.Call α) :=
  (msgq.wait_q.filter fun w => w.id = thread).map k_thread.call

theorem waiting_of_not_mem {msgq : k_msgq τ α max_msgs} {thread : τ}
    (hthread : thread ∉ msgq.wait_q.map k_thread.id) : msgq.waiting thread = [] := by
  rw [k_msgq.waiting, List.filter_eq_nil_iff.mpr, List.map_nil]
  intro w hw hid
  exact hthread (List.mem_map.mpr ⟨w, hw, of_decide_eq_true hid⟩)

/-- What holds of everything that happens to a queue, with the calls that are begun
by it and those that return: the threads keep their discipline, the returns are those
of a bounded first-in first-out queue, and no call returns that is not waited for. -/
structure Sound (msgq : k_msgq τ α max_msgs) (begun : List (τ × Fifo.Call α)) (returns : List (Fifo.Entry τ α))
    (next : k_msgq τ α max_msgs) : Prop where
  disciplined : next.Disciplined
  fifo : Fifo.Run max_msgs msgq.ring.contents returns next.ring.contents
  calls : ∀ thread, msgq.waiting thread ++ (begun.filter fun b => b.1 = thread).map Prod.snd =
    Fifo.calls returns thread ++ next.waiting thread

theorem waiting_cons {msgq : k_msgq τ α max_msgs} {w : k_thread τ α} {wait_q : List (k_thread τ α)}
    (hwait : msgq.wait_q = w :: wait_q) (ring : RingBuffer α max_msgs) (thread : τ) :
    msgq.waiting thread = (if w.id = thread then [w.call] else []) ++ k_msgq.waiting ⟨ring, wait_q⟩ thread := by
  rw [k_msgq.waiting, k_msgq.waiting, hwait, List.filter_cons]
  by_cases hid : w.id = thread
  · rw [if_pos (decide_eq_true hid), if_pos hid]
    rfl
  · rw [if_neg (mt of_decide_eq_true hid), if_neg hid]
    rfl

theorem begun_single (current : k_thread τ α) (thread : τ) :
    ([(current.id, current.call)].filter fun b => b.1 = thread).map Prod.snd =
      if current.id = thread then [current.call] else [] := by
  by_cases hid : current.id = thread
  · simp [hid]
  · simp [hid]

/-- A thread that does not wait begins a call. -/
theorem waiting_begun {msgq : k_msgq τ α max_msgs} {current : k_thread τ α}
    (hcurrent : current.id ∉ msgq.wait_q.map k_thread.id) (thread : τ) :
    msgq.waiting thread ++ ([(current.id, current.call)].filter fun b => b.1 = thread).map Prod.snd =
      (if current.id = thread then [current.call] else []) ++ msgq.waiting thread := by
  rw [begun_single]
  by_cases hid : current.id = thread
  · rw [if_pos hid, ← hid, waiting_of_not_mem hcurrent, List.append_nil, List.nil_append]
  · rw [if_neg hid, List.append_nil, List.nil_append]

/-- The call returns at once and no other does. -/
theorem calls_alone {msgq : k_msgq τ α max_msgs} {current : k_thread τ α}
    (hcurrent : current.id ∉ msgq.wait_q.map k_thread.id) {r : k_thread τ α × Ret} (hid : r.1.id = current.id)
    (hcall : r.1.call = current.call) (ring : RingBuffer α max_msgs) (thread : τ) :
    msgq.waiting thread ++ ([(current.id, current.call)].filter fun b => b.1 = thread).map Prod.snd =
      Fifo.calls ([r].map returned) thread ++ k_msgq.waiting ⟨ring, msgq.wait_q⟩ thread := by
  rw [waiting_begun hcurrent, List.map_cons, returned, Fifo.calls_returned_cons, hid, hcall, List.append_assoc]
  rfl

/-- The call returns at once and so does that of the first thread that waits. -/
theorem calls_woken {msgq : k_msgq τ α max_msgs} {current : k_thread τ α}
    (hcurrent : current.id ∉ msgq.wait_q.map k_thread.id) {r p : k_thread τ α × Ret} (hid : r.1.id = current.id)
    (hcall : r.1.call = current.call) {w : k_thread τ α} {wait_q : List (k_thread τ α)}
    (hwait : msgq.wait_q = w :: wait_q) (hp : p.1.id = w.id) (hpcall : p.1.call = w.call)
    (ring : RingBuffer α max_msgs) (thread : τ) :
    msgq.waiting thread ++ ([(current.id, current.call)].filter fun b => b.1 = thread).map Prod.snd =
      Fifo.calls ([r, p].map returned) thread ++ k_msgq.waiting ⟨ring, wait_q⟩ thread := by
  rw [waiting_begun hcurrent, List.map_cons, List.map_cons, returned, returned, Fifo.calls_returned_cons,
    Fifo.calls_returned_cons, hid, hcall, hp, hpcall, waiting_cons hwait ring, List.append_assoc, List.append_assoc]
  rfl

/-- The call waits. -/
theorem Sound.pend {msgq : k_msgq τ α max_msgs} (hmsgq : msgq.Disciplined) {current : k_thread τ α}
    (hcurrent : current.id ∉ msgq.wait_q.map k_thread.id)
    (hcall : (∀ w ∈ current :: msgq.wait_q, w.call = .get ∧ msgq.ring.contents = []) ∨
      ∀ w ∈ current :: msgq.wait_q, w.call = .put w.swap_data ∧ msgq.ring.contents.length = max_msgs)
    (timeout : k_timeout_t) :
    Sound msgq [(current.id, current.call)] ([].map returned) (msgq.z_pend_curr current timeout) := by
  have hadded {w : k_thread τ α} (hw : w ∈ (msgq.z_pend_curr current timeout).wait_q) :
      ∃ w' ∈ current :: msgq.wait_q, w.call = w'.call ∧ w.swap_data = w'.swap_data := by
    obtain rfl | hw := mem_z_priq_dumb_add.mp hw
    · exact ⟨current, List.mem_cons_self, rfl, rfl⟩
    · exact ⟨w, List.mem_cons_of_mem _ hw, rfl, rfl⟩
  refine ⟨⟨?_, ?_⟩, .nil, fun thread => ?_⟩
  · refine hcall.imp (fun hgets w hw => ?_) fun hputs w hw => ?_
    · obtain ⟨w', hw', hsame, -⟩ := hadded hw
      exact ⟨hsame.trans (hgets w' hw').1, (hgets w' hw').2⟩
    · obtain ⟨w', hw', hsame, hdata⟩ := hadded hw
      exact ⟨by rw [hsame, hdata]; exact (hputs w' hw').1, (hputs w' hw').2⟩
  · refine ((z_priq_dumb_add_perm _ _).map k_thread.id).nodup_iff.mpr ?_
    exact List.nodup_cons.mpr ⟨hcurrent, hmsgq.ids⟩
  · rw [begun_single]
    by_cases hid : current.id = thread
    · subst hid
      have hself : (msgq.z_pend_curr current timeout).waiting current.id = [current.call] := by
        refine congrArg (List.map k_thread.call) (filter_z_priq_dumb_add_self (decide_eq_true rfl) ?_)
        intro w hw
        exact decide_eq_false fun hid => hcurrent (List.mem_map.mpr ⟨w, hw, hid⟩)
      rw [waiting_of_not_mem hcurrent, hself, if_pos rfl]
      rfl
    · rw [if_neg hid, List.append_nil]
      refine congrArg (List.map k_thread.call) (filter_z_priq_dumb_add ?_).symm
      exact decide_eq_false hid

theorem Sound.put {msgq : k_msgq τ α max_msgs} (hmsgq : msgq.Disciplined) (current : k_thread τ α)
    (hcurrent : current.id ∉ msgq.wait_q.map k_thread.id) (hcall : current.call = .put current.swap_data)
    (timeout : k_timeout_t) :
    Sound msgq [(current.id, current.call)] ((z_impl_k_msgq_put msgq current timeout).1.map returned)
      (z_impl_k_msgq_put msgq current timeout).2 := by
  have hfits : msgq.ring.contents.length = msgq.ring.used := RingBuffer.contents_length msgq.ring
  obtain ⟨hroom, ⟨hwait, heq⟩ | ⟨w, wait_q, hwait, heq⟩⟩ | ⟨hfull, ⟨-, heq⟩ | ⟨-, heq⟩⟩ :=
    z_impl_k_msgq_put_cases msgq current timeout
  · rw [heq]
    refine ⟨.of_nil hwait, .single ?_, calls_alone hcurrent rfl rfl _⟩
    rw [RingBuffer.contents_push, returned, hcall]
    exact .put _ _ _ (hfits.trans_lt hroom)
  · rw [heq]
    have hgets := hmsgq.gets_of_room hroom
    rw [hwait] at hgets
    obtain ⟨hget, hempty⟩ := hgets w List.mem_cons_self
    refine ⟨⟨Or.inl fun w' hw' => hgets w' (List.mem_cons_of_mem w hw'), nodup_tail hmsgq hwait⟩, ?_,
      calls_woken hcurrent rfl rfl hwait rfl rfl _⟩
    rw [List.map_cons, List.map_cons, returned, returned, hcall, hget, hempty]
    refine .append (.single (.put _ _ _ ?_)) (.single (.get _ _ _))
    rw [← hempty, hfits]
    exact hroom
  · rw [heq]
    refine ⟨hmsgq, .single ?_, calls_alone hcurrent rfl rfl _⟩
    rw [returned, hcall]
    exact .put_full _ _ _ (hfits.trans hfull)
  · rw [heq]
    have hmax : 0 < max_msgs := Nat.zero_lt_of_lt msgq.ring.read_lt
    refine .pend hmsgq hcurrent (Or.inr ?_) timeout
    exact List.forall_mem_cons.mpr ⟨⟨hcall, hfits.trans hfull⟩, hmsgq.puts_of_used (by omega)⟩

theorem Sound.get {msgq : k_msgq τ α max_msgs} (hmsgq : msgq.Disciplined) (current : k_thread τ α)
    (hcurrent : current.id ∉ msgq.wait_q.map k_thread.id) (hcall : current.call = .get)
    (timeout : k_timeout_t) :
    Sound msgq [(current.id, current.call)] ((z_impl_k_msgq_get msgq current timeout).1.map returned)
      (z_impl_k_msgq_get msgq current timeout).2 := by
  obtain ⟨hused, ⟨hwait, heq⟩ | ⟨w, wait_q, hwait, heq⟩⟩ | ⟨hempty, ⟨-, heq⟩ | ⟨-, heq⟩⟩ :=
    z_impl_k_msgq_get_cases msgq current timeout
  · rw [heq]
    refine ⟨.of_nil hwait, .single ?_, calls_alone hcurrent rfl rfl _⟩
    rw [RingBuffer.contents_pop msgq.ring hused, returned, hcall]
    exact .get _ _ _
  · rw [heq]
    have hputs := hmsgq.puts_of_used hused
    rw [hwait] at hputs
    obtain ⟨hput, hfull⟩ := hputs w List.mem_cons_self
    have hpop := RingBuffer.contents_pop msgq.ring hused
    have hnext : ((msgq.ring.pop hused).push w.swap_data (pop_used_lt msgq.ring hused)).contents.length = max_msgs := by
      rw [hpop] at hfull
      rw [RingBuffer.contents_push, List.length_append]
      exact hfull
    refine ⟨⟨Or.inr fun w' hw' => ⟨(hputs w' (List.mem_cons_of_mem w hw')).1, hnext⟩, nodup_tail hmsgq hwait⟩, ?_,
      calls_woken hcurrent rfl rfl hwait rfl rfl _⟩
    rw [List.map_cons, List.map_cons, returned, returned, hcall, hput, hpop, RingBuffer.contents_push]
    refine .append (.single (.get _ _ _)) (.single (.put _ _ _ ?_))
    rw [RingBuffer.contents_length]
    exact pop_used_lt msgq.ring hused
  · rw [heq]
    refine ⟨hmsgq, .single ?_, calls_alone hcurrent rfl rfl _⟩
    rw [returned, hcall, contents_of_used hempty]
    exact .get_empty _ _
  · rw [heq]
    have hmax : 0 < max_msgs := Nat.zero_lt_of_lt msgq.ring.read_lt
    refine .pend hmsgq hcurrent (Or.inl ?_) timeout
    exact List.forall_mem_cons.mpr ⟨⟨hcall, contents_of_used hempty⟩, hmsgq.gets_of_room (by omega)⟩

theorem Sound.peek {msgq : k_msgq τ α max_msgs} (hmsgq : msgq.Disciplined) (current : k_thread τ α)
    (hcurrent : current.id ∉ msgq.wait_q.map k_thread.id) (hcall : current.call = .peek) :
    Sound msgq [(current.id, current.call)] ([z_impl_k_msgq_peek msgq current].map returned) msgq := by
  unfold z_impl_k_msgq_peek
  by_cases hused : 0 < msgq.ring.used
  · rw [if_pos hused]
    refine ⟨hmsgq, .single ?_, calls_alone hcurrent rfl rfl _⟩
    rw [RingBuffer.contents_pop msgq.ring hused, returned, hcall]
    exact .peek _ _ _
  · rw [if_neg hused]
    refine ⟨hmsgq, .single ?_, calls_alone hcurrent rfl rfl _⟩
    rw [returned, hcall, contents_of_used (Nat.eq_zero_of_not_pos hused)]
    exact .peek_empty _ _

theorem calls_failures (failed : List (k_thread τ α)) (ret : Ret) (thread : τ) :
    Fifo.calls ((failed.map fun w => (w, ret)).map returned) thread =
      (failed.filter fun w => w.id = thread).map k_thread.call := by
  induction failed with
  | nil => rfl
  | cons w failed ih =>
    rw [List.map_cons, List.map_cons, returned, Fifo.calls_returned_cons, ih, List.filter_cons]
    by_cases hid : w.id = thread
    · rw [if_pos hid, if_pos (decide_eq_true hid)]
      rfl
    · rw [if_neg hid, if_neg (mt of_decide_eq_true hid)]
      rfl

theorem Sound.purge {msgq : k_msgq τ α max_msgs} (hmsgq : msgq.Disciplined) :
    Sound msgq [] ((z_impl_k_msgq_purge msgq).1.map returned ++ [.cleared]) (z_impl_k_msgq_purge msgq).2 := by
  refine ⟨.of_nil rfl, ?_, fun thread => ?_⟩
  · exact (run_failures hmsgq (fun _ hw => hw) (by decide)).append (.single (.clear _))
  · rw [Fifo.calls_append, z_impl_k_msgq_purge, calls_failures, List.append_assoc]
    rfl

/-- A thread waits once. -/
theorem filter_id_cases {wait_q : List (k_thread τ α)} (hids : (wait_q.map k_thread.id).Nodup) (thread : τ) :
    (wait_q.filter fun w => w.id = thread) = [] ∨ ∃ w, (wait_q.filter fun w => w.id = thread) = [w] := by
  have hall : ∀ w ∈ wait_q.filter fun w => w.id = thread, w.id = thread :=
    fun w hw => of_decide_eq_true (List.mem_filter.mp hw).2
  have hnodup := hids.sublist ((List.filter_sublist (p := fun w => w.id = thread)).map k_thread.id)
  cases hfilter : wait_q.filter fun w => w.id = thread with
  | nil => exact Or.inl rfl
  | cons w rest =>
    cases rest with
    | nil => exact Or.inr ⟨w, rfl⟩
    | cons v rest =>
      rw [hfilter] at hall hnodup
      have hsame : w.id = v.id := (hall w List.mem_cons_self).trans (hall v (by simp)).symm
      exact absurd (hsame ▸ List.mem_cons_self) (List.nodup_cons.mp hnodup).1

theorem filter_append_filter_not {wait_q : List (k_thread τ α)} (hids : (wait_q.map k_thread.id).Nodup)
    (P : k_thread τ α → Prop) [DecidablePred P] (thread : τ) :
    ((wait_q.filter fun w => P w).filter fun w => w.id = thread) ++
        ((wait_q.filter fun w => ¬ P w).filter fun w => w.id = thread) =
      wait_q.filter fun w => w.id = thread := by
  rw [List.filter_comm, List.filter_comm (p := fun w => decide (w.id = thread)) (q := fun w => decide (¬ P w))]
  obtain hnil | ⟨w, hone⟩ := filter_id_cases hids thread
  · rw [hnil]
    rfl
  · rw [hone]
    by_cases hw : P w
    · simp [hw]
    · simp [hw]

theorem Sound.timeout {msgq : k_msgq τ α max_msgs} (hmsgq : msgq.Disciplined) (thread : τ) :
    Sound msgq [] ((z_thread_timeout msgq thread).1.map returned) (z_thread_timeout msgq thread).2 := by
  refine ⟨hmsgq.sublist List.filter_sublist, ?_, fun t => ?_⟩
  · exact run_failures hmsgq (fun w hw => List.mem_of_mem_filter hw) (by decide)
  · rw [z_thread_timeout, calls_failures, k_msgq.waiting, k_msgq.waiting, ← List.map_append,
      filter_append_filter_not hmsgq.ids]
    exact List.append_nil _

theorem Sound.set_prio {msgq : k_msgq τ α max_msgs} (hmsgq : msgq.Disciplined) (thread : τ) (prio : Int) :
    Sound msgq [] ([].map returned) (z_set_prio msgq thread prio) := by
  obtain ⟨f, hf⟩ : ∃ f : k_thread τ α → k_thread τ α,
      f = fun w => if w.id = thread then { w with prio := prio } else w := ⟨_, rfl⟩
  have hprio (w : k_thread τ α) : ∃ prio', f w = { w with prio := prio' } := by
    rw [hf]
    by_cases hid : w.id = thread
    · exact ⟨prio, if_pos hid⟩
    · exact ⟨w.prio, if_neg hid⟩
  have hid (w : k_thread τ α) : (f w).id = w.id := by
    obtain ⟨prio', heq⟩ := hprio w
    rw [heq]
  have hcall (w : k_thread τ α) : (f w).call = w.call := by
    obtain ⟨prio', heq⟩ := hprio w
    rw [heq]
  have hdata (w : k_thread τ α) : (f w).swap_data = w.swap_data := by
    obtain ⟨prio', heq⟩ := hprio w
    rw [heq]
  have hnext : z_set_prio msgq thread prio = ⟨msgq.ring, msgq.wait_q.map f⟩ := by
    rw [hf]
    rfl
  rw [hnext]
  refine ⟨⟨?_, ?_⟩, .nil, fun t => ?_⟩
  · refine hmsgq.waits.imp (fun hgets => ?_) fun hputs => ?_
    · exact List.forall_mem_map.mpr fun w hw => ⟨(hcall w).trans (hgets w hw).1, (hgets w hw).2⟩
    · exact List.forall_mem_map.mpr fun w hw => ⟨by rw [hcall, hdata]; exact (hputs w hw).1, (hputs w hw).2⟩
  · rw [List.map_map, show k_thread.id ∘ f = k_thread.id from funext hid]
    exact hmsgq.ids
  · have hsame : ((fun w => decide (w.id = t)) ∘ f) = fun w => decide (w.id = t) :=
      funext fun w => by rw [Function.comp_apply, hid]
    change _ = (List.filter (fun w => decide (w.id = t)) (msgq.wait_q.map f)).map k_thread.call
    rw [List.filter_map, List.map_map, show k_thread.call ∘ f = k_thread.call from funext hcall, hsame]
    exact List.append_nil _

end

end peripheral_hids.kernel
