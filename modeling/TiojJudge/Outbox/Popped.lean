import TiojJudge.Outbox.Delivery

/-!
# What a final request discards

A `force_pop` request takes the pending unique request of its key out of
`unique_requests`, if `unique_timestamp_map` knows the key. `RequestLoop` erases
that entry when it sends an earlier `force_pop` request, also when a unique
request was queued in between.

* `State.line`: the requests in the order of their `Send`;
* `Later`: a unique request behind a `force_pop` request of its key was pushed
  after it;
* `popped_never_sent`: so it is in the line of every run without reconnects, in
  which `force_pop` requests find the key of what is pending.
-/

namespace TiojJudge.Outbox
open Machine

/-- The request takes the branch of `force_pop`. -/
def Request.pops (req : Request) : Bool := !req.isUnique && req.forcePop

/-- The request between `pop_front` and `Send`. -/
def State.taken (s : State) : List Request :=
  match s.loop with
  | .sending req => [req]
  | _ => []

/-- What was handed to `Send`, and what is next. -/
def State.line (s : State) : List Request := s.sends.map Prod.fst ++ s.taken ++ s.requestQueue

/-- `u` behind `p` was pushed after `p`, when `p` pops the key of `u`. -/
def Later (p u : Request) : Prop :=
  p.pops = true → u.isUnique = true → u.key = p.key → p.serial < u.serial

def noReconnect (_ : State) : Label → Prop
  | .fail | .close => False
  | _ => True

instance (s : State) : DecidablePred (noReconnect s)
  | .push _ | .poll .. | .pingTimeout | .enterInner | .head _ | .innerDone | .send _ | .backup
  | .relock | .open | .fail | .close | .message _ | .handler => by
    unfold noReconnect
    infer_instance

/-- No reconnect, and no `force_pop` for a key that is pending without an entry in
`unique_timestamp_map`. -/
def popsKnown (s : State) (l : Label) : Prop :=
  noReconnect s l ∧
  match l with
  | .push req => req.pops = true → req.key ∈ s.uniqueRequests → req.key ∈ s.uniqueTimestampMap
  | _ => True

instance (s : State) : DecidablePred (popsKnown s)
  | .push _ | .poll .. | .pingTimeout | .enterInner | .head _ | .innerDone | .send _ | .backup
  | .relock | .open | .fail | .close | .message _ | .handler => by
    unfold popsKnown
    infer_instance

/-- A unique request is handed to `Send` before each later `force_pop` request of its key, or
was discarded by it. -/
structure NeverAfterPop (s : State) : Prop where
  sent : ∀ before p ok after, s.sends = before ++ (p, ok) :: after → p.pops = true →
    ∀ u ok', (u, ok') ∈ after → u.isUnique = true → u.key = p.key → p.serial < u.serial
  discarded : ∀ p ∈ s.pushed, p.pops = true →
    ∀ u, s.uniqueRequests.lookup p.key = some u → p.serial < u.serial

/-! ## The line under each step -/

section Push

variable {s : State} {req : Request}

/-- A unique request waits under its key, merged with what waited there. -/
theorem pushRequest_unique (unique : req.isUnique = true) :
    (pushRequest s req).requestQueue = s.requestQueue ∧
    ∃ new : Request, new.isUnique = true ∧ new.key = req.key ∧ new.serial = req.serial ∧
      new.results = req.results.map (· ++
        (((s.uniqueRequests.lookup req.key).bind Request.results).getD [])) ∧
      ∀ k, (pushRequest s req).uniqueRequests.lookup k =
        if k = req.key then some new else s.uniqueRequests.lookup k := by
  unfold pushRequest
  rw [if_pos unique]
  split
  · rename_i old found
    refine ⟨rfl, mergeResults req old, unique, rfl, rfl, ?_, fun k => UMap.lookup_insert_eq _ _ _ _⟩
    rw [found]
    rfl
  · rename_i absent
    have same : req.results = req.results.map (· ++
        (((s.uniqueRequests.lookup req.key).bind Request.results).getD [])) := by
      simp [absent]
    split
    · exact ⟨rfl, req, unique, rfl, rfl, same, fun k => UMap.lookup_insert_eq _ _ _ _⟩
    · exact ⟨rfl, req, unique, rfl, rfl, same, fun k => UMap.lookup_insert_eq _ _ _ _⟩

/-- Another one takes what waits under its key away, if it pops it. -/
theorem pushRequest_other (unique : req.isUnique = false) :
    (pushRequest s req).uniqueRequests = s.uniqueRequests ∨
    req.pops = true ∧ (pushRequest s req).uniqueRequests = s.uniqueRequests.erase req.key := by
  unfold pushRequest
  rw [if_neg (by simp [unique])]
  split
  · rename_i pops
    split
    · exact .inr ⟨by simp [Request.pops, unique, pops], rfl⟩
    · exact .inl rfl
  · split
    · exact .inl rfl
    · exact .inl rfl

theorem pushRequest_pops (pops : req.pops = true)
    (known : req.key ∈ s.uniqueRequests → req.key ∈ s.uniqueTimestampMap) :
    (pushRequest s req).requestQueue = s.requestQueue ++ [req] ∧
    ∀ k, (pushRequest s req).uniqueRequests.lookup k =
      if k = req.key then none else s.uniqueRequests.lookup k := by
  simp only [Request.pops, Bool.and_eq_true, Bool.not_eq_true'] at pops
  unfold pushRequest
  rw [if_neg (by simp [pops.1]), if_pos pops.2]
  split
  · exact ⟨rfl, fun k => UMap.lookup_erase_eq _ _ _⟩
  · rename_i absent
    refine ⟨rfl, fun k => ?_⟩
    by_cases same : k = req.key
    · subst same
      rw [if_pos rfl]
      apply AList.lookup_eq_none.mpr
      intro pending
      exact AList.lookup_eq_none.mp absent (known pending)
    · rw [if_neg same]

theorem pushRequest_plain (unique : req.isUnique = false) (pops : req.pops = false) :
    ((pushRequest s req).requestQueue = s.requestQueue ++ [req] ∨
      (pushRequest s req).requestQueue = req :: s.requestQueue) ∧
    (pushRequest s req).uniqueRequests = s.uniqueRequests := by
  have stays : req.forcePop = false := by simpa [Request.pops, unique] using pops
  unfold pushRequest
  rw [if_neg (by simp [unique]), if_neg (by simp [stays])]
  split
  · exact ⟨.inr rfl, rfl⟩
  · exact ⟨.inl rfl, rfl⟩

theorem push_frame : (s.push req).sends = s.sends ∧ (s.push req).taken = s.taken ∧
    (s.push req).pushed = s.pushed ++ [{ req with serial := s.pushed.length }] := by
  obtain ⟨_, loop, sends, _⟩ := pushRequest_frame s { req with serial := s.pushed.length }
  exact ⟨sends, by simp only [State.taken, State.push, loop], rfl⟩

theorem pushRequest_handler : (pushRequest s req).handler = s.handler := by
  unfold pushRequest
  repeat' split
  all_goals rfl

theorem pushRequest_connected : (pushRequest s req).connected = s.connected := by
  unfold pushRequest
  repeat' split
  all_goals rfl

theorem push_connected : (s.push req).connected = s.connected := pushRequest_connected

theorem push_handler : (s.push req).handler = s.handler := pushRequest_handler

end Push

/-- Draining moves pending requests to the end of the queue. -/
theorem drain_moves {ps : List (ℚ ×ₗ ℤ)} {pending pending' : UMap ℤ Request}
    {queue queue' : List Request} (h : drain ps pending queue = some (pending', queue')) :
    ∃ moved, queue' = queue ++ moved ∧
      (∀ u ∈ moved, ∃ k, pending.lookup k = some u) ∧
      ∀ k u, pending'.lookup k = some u → pending.lookup k = some u := by
  induction ps generalizing pending queue with
  | nil =>
    obtain ⟨rfl, rfl⟩ : pending = pending' ∧ queue = queue' := by simpa [drain] using h
    exact ⟨[], (List.append_nil _).symm, fun _ hu => absurd hu List.not_mem_nil, fun _ _ => id⟩
  | cons p ps ih =>
    simp only [drain] at h
    split at h
    · cases h
    · rename_i req found
      obtain ⟨moved, rfl, known, rest⟩ := ih h
      have erased {k : ℤ} {u : Request} (hu : (pending.erase (ofLex p).2).lookup k = some u) :
          pending.lookup k = some u := by
        rw [UMap.lookup_erase_eq] at hu
        split at hu
        · cases hu
        · exact hu
      refine ⟨req :: moved, by simp, ?_, fun k u hu => erased (rest k u hu)⟩
      intro u hu
      rcases List.mem_cons.mp hu with rfl | hu
      · exact ⟨_, found⟩
      · obtain ⟨k, hk⟩ := known u hu
        exact ⟨k, erased hk⟩

/-- The loop takes nothing off the queue while it waits. -/
theorem afterPoll_taken {s : State} {now : ℚ} {ready timeout : Bool} :
    (afterPoll s now ready timeout).taken = [] := by
  simp only [State.taken, afterPoll]
  cases ready || timeout <;> rfl

/-- A step pushes, drains or resends, or leaves the requests alone. -/
theorem step_line {s t : State} {l : Label} (h : step s l = some t) :
    (t.line = s.line ∧ t.uniqueRequests = s.uniqueRequests ∧ t.pushed = s.pushed) ∨
    (∃ req, (l = .push req ∨ req = subscribeRequest ∨
        req = fetchRequest ∧ l = .handler ∧ s.handler.head? = some .fetch) ∧
      t.line = (s.push req).line ∧ t.uniqueRequests = (s.push req).uniqueRequests ∧
      t.pushed = (s.push req).pushed) ∨
    (∃ now timeout u, l = .poll now timeout ∧ s.canSend = true ∧
      checkUniqueRequests s now = some u ∧
      t.line = u.line ∧ t.uniqueRequests = u.uniqueRequests ∧ t.pushed = s.pushed) ∨
    (l = .handler ∧ s.handler.head? = some .resend ∧
      t.uniqueRequests = s.uniqueRequests ∧ t.pushed = s.pushed) := by
  cases step_cases h with
  | push => exact .inr (.inl ⟨_, .inl rfl, rfl, rfl, rfl⟩)
  | subscribe => exact .inr (.inl ⟨_, .inr (.inl rfl), rfl, rfl, rfl⟩)
  | fetch here => exact .inr (.inl ⟨_, .inr (.inr ⟨rfl, rfl, by simp [here]⟩), rfl, rfl, rfl⟩)
  | resend here => exact .inr (.inr (.inr ⟨rfl, by simp [here], rfl, rfl⟩))
  | @drain now timeout u waits _ can drained =>
    obtain ⟨_, _, loop, _, pushed⟩ := checkUniqueRequests_frame drained
    have idle : u.taken = [] := by simp [State.taken, loop, waits]
    refine .inr (.inr (.inl ⟨now, timeout, u, rfl, can, drained, ?_, rfl, pushed⟩))
    simp only [State.line, idle, afterPoll_taken]
    rfl
  | wait waits =>
    have idle : s.taken = [] := by simp [State.taken, waits]
    refine .inl ⟨?_, rfl, rfl⟩
    simp only [State.line, idle, afterPoll_taken]
    rfl
  | head at_head _ front =>
    refine .inl ⟨?_, rfl, rfl⟩
    simp [State.line, State.taken, popFront, at_head, front]
  | send here | backup here | pingTimeout here | enterInner here | innerDone here | relock here =>
    refine .inl ⟨?_, rfl, rfl⟩
    simp [State.line, State.taken, here]
  | «open» | fail | close | message => exact .inl ⟨rfl, rfl, rfl⟩

/-! ## The order of the line -/

structure Ordered (s : State) : Prop where
  line : s.line.Pairwise Later
  past : ∀ req ∈ s.line, req.serial < s.pushed.length
  pushed : ∀ req ∈ s.line, req.pops = true → req ∈ s.pushed
  pending : ∀ k u, s.uniqueRequests.lookup k = some u →
    u.isUnique = true ∧ u.key = k ∧ u.serial < s.pushed.length
  serials : ∀ req ∈ s.pushed, req.serial < s.pushed.length
  retired : ∀ p ∈ s.pushed, p.pops = true →
    ∀ u, s.uniqueRequests.lookup p.key = some u → p.serial < u.serial

theorem Ordered.initial : Ordered initial where
  line := .nil
  past := fun _ h => by cases h
  pushed := fun _ h => by cases h
  pending := fun _ _ h => by cases h
  serials := fun _ h => by cases h
  retired := fun _ h => by cases h

theorem Ordered.same {s t : State} (o : Ordered s) (line : t.line = s.line)
    (pending : t.uniqueRequests = s.uniqueRequests) (pushed : t.pushed = s.pushed) : Ordered t where
  line := line ▸ o.line
  past := line ▸ pushed ▸ o.past
  pushed := line ▸ pushed ▸ o.pushed
  pending := pending ▸ pushed ▸ o.pending
  serials := pushed ▸ o.serials
  retired := pending ▸ pushed ▸ o.retired

theorem Request.pops_not_unique {req : Request} (h : req.pops = true) : req.isUnique = false := by
  simp only [pops, Bool.and_eq_true, Bool.not_eq_true'] at h
  exact h.1

theorem Ordered.drain {s t : State} {now : ℚ} (o : Ordered s)
    (h : checkUniqueRequests s now = some t) : Ordered t := by
  obtain ⟨⟨pending, queue⟩, hd, rfl⟩ := Option.map_eq_some_iff.mp h
  obtain ⟨moved, rfl, known, rest⟩ := drain_moves hd
  have unique {u : Request} (hu : u ∈ moved) : u.isUnique = true ∧
      s.uniqueRequests.lookup u.key = some u ∧ u.serial < s.pushed.length := by
    obtain ⟨k, hk⟩ := known u hu
    obtain ⟨unique, rfl, old⟩ := o.pending k u hk
    exact ⟨unique, hk, old⟩
  have not_pops {u : Request} (hu : u ∈ moved) (pops : u.pops = true) : False := by
    have := Request.pops_not_unique pops
    rw [(unique hu).1] at this
    cases this
  have line : State.line { s with
      unsentTimestamps := s.unsentTimestamps.dropWhile (due now)
      uniqueRequests := pending
      requestQueue := s.requestQueue ++ moved } = s.line ++ moved := by
    simp [State.line, State.taken]
  refine ⟨?_, ?_, ?_, fun k u hu => o.pending k u (rest k u hu), o.serials,
    fun p hp pops u hu => o.retired p hp pops u (rest _ u hu)⟩
  · rw [line]
    apply List.pairwise_append.mpr
    refine ⟨o.line, ?_, ?_⟩
    · apply List.pairwise_of_forall_mem_list
      intro u hu _ _ pops
      exact (not_pops hu pops).elim
    · intro p hp u hu pops _ key
      have retired := o.retired p (o.pushed p hp pops) pops u
      rw [← key] at retired
      exact retired (unique hu).2.1
  · intro req hreq
    rw [line] at hreq
    rcases List.mem_append.mp hreq with old | new
    · exact o.past req old
    · exact (unique new).2.2
  · intro req hreq pops
    rw [line] at hreq
    rcases List.mem_append.mp hreq with old | new
    · exact o.pushed req old pops
    · exact (not_pops new pops).elim

/-- A request of the present goes anywhere into a line of the past. -/
theorem Later.insert {before after : List Request} {req : Request}
    (line : (before ++ after).Pairwise Later) (front : ∀ p ∈ before, p.pops = true →
      p.serial < req.serial) (back : after = [] ∨ req.pops = false) :
    (before ++ req :: after).Pairwise Later := by
  obtain ⟨first, last, across⟩ := List.pairwise_append.mp line
  apply List.pairwise_append.mpr
  refine ⟨first, List.pairwise_cons.mpr ⟨?_, last⟩, ?_⟩
  · intro u hu pops
    rcases back with rfl | plain
    · cases hu
    · rw [plain] at pops
      cases pops
  · intro p hp u hu pops
    rcases List.mem_cons.mp hu with rfl | hu
    · intro _ _
      exact front p hp pops
    · exact across p hp u hu pops

/-- A request is pushed under a new serial. -/
theorem Ordered.extend {s t : State} {req : Request} (o : Ordered s)
    (pushed : t.pushed = s.pushed ++ [req]) (serial : req.serial = s.pushed.length)
    (line : t.line = s.line ∨ ∃ before after, s.line = before ++ after ∧
      t.line = before ++ req :: after ∧ (after = [] ∨ req.pops = false))
    (pending : ∀ k u, t.uniqueRequests.lookup k = some u → s.uniqueRequests.lookup k = some u ∨
      u.isUnique = true ∧ u.key = k ∧ u.serial = s.pushed.length)
    (retires : req.pops = true → t.uniqueRequests.lookup req.key = none) : Ordered t := by
  have count : t.pushed.length = s.pushed.length + 1 := by simp [pushed]
  have member {u : Request} (hu : u ∈ t.line) : u ∈ s.line ∨ u = req := by
    rcases line with same | ⟨before, after, split, grown, _⟩
    · exact .inl (same ▸ hu)
    · rw [grown, List.mem_append, List.mem_cons] at hu
      rw [split, List.mem_append]
      tauto
  constructor
  · rcases line with same | ⟨before, after, split, grown, back⟩
    · exact same ▸ o.line
    · rw [grown]
      apply Later.insert (split ▸ o.line) _ back
      intro p hp _
      rw [serial]
      exact o.past p (split ▸ List.mem_append_left _ hp)
  · intro u hu
    rcases member hu with old | rfl
    · have := o.past u old
      omega
    · omega
  · intro u hu pops
    rw [pushed, List.mem_append, List.mem_singleton]
    exact (member hu).imp_left fun old => o.pushed u old pops
  · intro k u hu
    rcases pending k u hu with old | ⟨unique, key, new⟩
    · obtain ⟨unique, key, past⟩ := o.pending k u old
      exact ⟨unique, key, by omega⟩
    · exact ⟨unique, key, by omega⟩
  · intro u hu
    rw [pushed, List.mem_append, List.mem_singleton] at hu
    rcases hu with old | rfl
    · have := o.serials u old
      omega
    · omega
  · intro p hp pops u hu
    rw [pushed, List.mem_append, List.mem_singleton] at hp
    rcases hp with old | rfl
    · rcases pending _ u hu with was | ⟨_, _, new⟩
      · exact o.retired p old pops u was
      · have := o.serials p old
        omega
    · rw [retires pops] at hu
      cases hu

theorem Ordered.pushRequest {s : State} {req : Request} (o : Ordered s)
    (serial : req.serial = s.pushed.length)
    (known : req.pops = true → req.key ∈ s.uniqueRequests → req.key ∈ s.uniqueTimestampMap) :
    Ordered { Outbox.pushRequest s req with pushed := s.pushed ++ [req] } := by
  obtain ⟨_, loop, sends, _⟩ := pushRequest_frame s req
  have line : State.line { Outbox.pushRequest s req with pushed := s.pushed ++ [req] } =
      s.sends.map Prod.fst ++ s.taken ++ (Outbox.pushRequest s req).requestQueue := by
    simp only [State.line, State.taken, loop, sends]
  by_cases unique : req.isUnique = true
  · obtain ⟨queue, new, isUnique, key, number, _, pending⟩ := pushRequest_unique (s := s) unique
    refine o.extend rfl serial (.inl (by rw [line, queue, State.line])) ?_ ?_
    · intro k u hu
      rw [show _ = _ from pending k] at hu
      split at hu
      · rename_i same
        cases hu
        exact .inr ⟨isUnique, key.trans same.symm, number.trans serial⟩
      · exact .inl hu
    · intro pops
      have := Request.pops_not_unique pops
      rw [unique] at this
      cases this
  · by_cases pops : req.pops = true
    · obtain ⟨queue, pending⟩ := pushRequest_pops pops (known pops)
      refine o.extend rfl serial (.inr ⟨s.line, [], by simp, ?_, .inl rfl⟩) ?_ ?_
      · rw [line, queue, ← List.append_assoc]
        rfl
      · intro k u hu
        rw [show _ = _ from pending k] at hu
        split at hu
        · cases hu
        · exact .inl hu
      · intro _
        rw [show _ = _ from pending req.key, if_pos rfl]
    · rw [Bool.not_eq_true] at unique pops
      obtain ⟨queue, pending⟩ := pushRequest_plain (s := s) unique pops
      refine o.extend rfl serial (.inr ?_) ?_ ?_
      · rcases queue with last | first
        · exact ⟨s.line, [], by simp, by rw [line, last, ← List.append_assoc]; rfl, .inl rfl⟩
        · exact ⟨s.sends.map Prod.fst ++ s.taken, s.requestQueue, rfl, by rw [line, first], .inr pops⟩
      · intro k u hu
        rw [show _ = _ from pending] at hu
        exact .inl hu
      · intro popped
        rw [pops] at popped
        cases popped

theorem Ordered.push {s : State} {req : Request} (o : Ordered s)
    (known : req.pops = true → req.key ∈ s.uniqueRequests → req.key ∈ s.uniqueTimestampMap) :
    Ordered (s.push req) :=
  o.pushRequest rfl known

/-- Without a reconnect nothing is resent. -/
theorem step_calm {s t : State} {l : Label} (h : step s l = some t) (steady : noReconnect s l)
    (calm : .resend ∉ s.handler) : .resend ∉ t.handler := by
  cases step_cases h with
  | push =>
    rw [push_handler]
    exact calm
  | drain _ _ _ drained =>
    obtain ⟨_, _, rfl⟩ := Option.map_eq_some_iff.mp drained
    exact calm
  | subscribe here | fetch here => exact fun later => calm (here ▸ List.mem_cons_of_mem _ later)
  | resend here => exact (calm (here ▸ List.mem_cons_self)).elim
  | message =>
    dsimp only
    split <;> simp
  | «open» => simp
  | fail | close => cases steady
  | _ => exact calm

theorem Ordered.step {s t : State} {l : Label} (o : Ordered s) (h : step s l = some t)
    (cond : popsKnown s l) (calm : .resend ∉ s.handler) : Ordered t := by
  rcases step_line h with ⟨line, pending, pushed⟩ | ⟨req, source, line, pending, pushed⟩ |
    ⟨now, _, u, _, _, drained, line, pending, pushed⟩ | ⟨_, resends, _, _⟩
  · exact o.same line pending pushed
  · refine Ordered.same (o.push ?_) line pending pushed
    intro pops
    rcases source with rfl | rfl | ⟨rfl, _, _⟩
    · exact cond.2 pops
    · cases pops
    · cases pops
  · obtain ⟨_, _, _, _, same⟩ := checkUniqueRequests_frame drained
    exact (o.drain drained).same line pending (pushed.trans same.symm)
  · exact (calm (List.mem_of_mem_head? resends)).elim

theorem ordered {s : State} (h : outbox.Reach popsKnown s) : .resend ∉ s.handler ∧ Ordered s := by
  apply h.invariant (I := fun s => .resend ∉ s.handler ∧ Ordered s)
  · exact ⟨List.not_mem_nil, .initial⟩
  · intro a l b _ ⟨calm, o⟩ cond hs
    exact ⟨step_calm hs cond.1 calm, o.step hs cond calm⟩

/-- A unique request is never handed to `Send` after a later `force_pop` request of its key. -/
theorem popped_never_sent {s : State} (h : outbox.Reach popsKnown s) : NeverAfterPop s := by
  obtain ⟨_, o⟩ := ordered h
  refine ⟨?_, o.retired⟩
  intro before p ok after sends pops u ok' hu unique key
  have sent : (s.sends.map Prod.fst).Pairwise Later := by
    have line := o.line
    unfold State.line at line
    rw [List.append_assoc] at line
    exact (List.pairwise_append.mp line).1
  rw [sends, List.map_append, List.map_cons] at sent
  have later := (List.pairwise_cons.mp (List.pairwise_append.mp sent).2.1).1
  exact later u (List.mem_map_of_mem (f := Prod.fst) hu) pops unique key

/-- One request of the inner loop, up to the point where it locks again. -/
def sendNext (now : ℚ) : List Label := [.head now, .send true, .backup]

def connect : List Label := [.open, .handler, .handler]

/-- The final result finds what is pending and discards it. -/
def resultDiscarded : List Label :=
  connect ++ [.push (tdResultRequest 7 []), .push (submissionResultRequest 7), .poll 10 false,
    .enterInner] ++ sendNext 10 ++ [.relock] ++ sendNext 10 ++ [.relock] ++ sendNext 10

theorem popped_never_sent_after_final :
    ∃ s, outbox.exec popsKnown initial resultDiscarded = some s ∧
      s.sends.map (fun send => send.1.action) = ["", "submission_result", "fetch_submission"] ∧
      NeverAfterPop s := by
  have run : ((outbox.exec popsKnown initial resultDiscarded).map fun s =>
      s.sends.map fun send => send.1.action) =
      some ["", "submission_result", "fetch_submission"] := by decide +kernel
  obtain ⟨s, hs, seen⟩ := Option.map_eq_some_iff.mp run
  exact ⟨s, hs, seen, popped_never_sent (reach_exec hs)⟩

/-- Between a status and its `Send`, a result is pushed; the loop then erases the entry of the
key, and the final result does not find the result, which is sent after it. -/
def resultAfterFinal : List Label :=
  connect ++ [.push (submissionResultRequest 7), .poll 10 false, .enterInner, .head 10,
      .push (tdResultRequest 7 []), .send true, .backup, .relock] ++
    sendNext 10 ++ [.relock] ++ sendNext 10 ++ [.push (submissionResultRequest 7), .relock] ++
    sendNext 10 ++ [.relock, .innerDone, .poll 11 false, .enterInner, .head 11, .send true]

theorem popped_sent_last :
    ∃ s, outbox.exec noReconnect initial resultAfterFinal = some s ∧ ¬ NeverAfterPop s := by
  have run : ((outbox.exec noReconnect initial resultAfterFinal).map fun s =>
      s.sends.drop 3) = some [({ submissionResultRequest 7 with serial := 4 }, true),
        ({ tdResultRequest 7 [] with serial := 3 }, true)] := by decide +kernel
  obtain ⟨s, hs, seen⟩ := Option.map_eq_some_iff.mp run
  refine ⟨s, hs, ?_⟩
  intro never
  have split : s.sends = s.sends.take 3 ++ _ := (List.take_append_drop 3 s.sends).symm
  rw [show s.sends.drop 3 = _ from seen] at split
  have later := never.sent _ _ _ _ split rfl _ _ (.head _) rfl rfl
  exact absurd later (by decide)

end TiojJudge.Outbox
