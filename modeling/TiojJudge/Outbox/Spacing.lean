import Mathlib.Data.List.Chain
import Mathlib.Data.List.TakeWhile
import TiojJudge.Outbox.Merging

/-!
# How far apart unique requests are sent

`RequestLoop` stores the time of a send in a `long`, `PushRequest` copies what is
stored, and `CheckUniqueRequests` compares the copy with the clock. The copy may be
below the time of the last send: by a fraction, for a fetch by more, and by any
amount when the request before it was still in the queue.

* `timed`: the outbox with the clock readings at which `RequestLoop` took the
  unique requests of one key;
* `punctual`: no poll falls between the time that the copy allows and the end of
  the interval;
* `Spaced`: what every step keeps;
* `sends_spaced`: the intervals of all runs whose polls are punctual, and what
  follows on one that is not.
-/

namespace TiojJudge.Outbox
open Machine

def minInterval (k : ℤ) : ℚ := if k = kFetchKey then kFetchMinInterval else kUniqueReqMinInterval

/-- The unique requests of key `k`. -/
def uniqueOf (k : ℤ) (reqs : List Request) : List Request :=
  reqs.filter fun req => req.isUnique && req.key == k

/-- The clock readings at the head of the inner loop, for unique requests of key `k`. -/
def sentAt (k : ℤ) (times : List ℚ) (s : State) : Label → List ℚ
  | .head now => if uniqueOf k s.requestQueue.head?.toList = [] then times else times ++ [now]
  | _ => times

def timed (k : ℤ) : Machine (State × List ℚ) Label :=
  outbox.noted [] fun times s l _ => sentAt k times s l

/-- Two consecutive sends are an interval apart. -/
def Apart (k : ℤ) (times : List ℚ) : Prop := times.IsChain fun a b => a + minInterval k ≤ b

/-- No reconnect, and no `force_pop` of key `k`. -/
def steady (k : ℤ) (s : State) (l : Label) : Prop :=
  noReconnect s l ∧
  match l with
  | .push req => req.key = k → req.pops = false
  | _ => True

/-- The pair of key `k` is due. -/
def dueKey (k : ℤ) (now : ℚ) (s : State) : Prop :=
  ∃ p ∈ s.unsentTimestamps.elems.takeWhile (due now), (ofLex p).2 = k

/-- A poll that finds the pair of key `k` due comes an interval after the last send. -/
def punctual (k : ℤ) (p : State × List ℚ) : Label → Prop
  | .poll now _ => p.1.canSend = true → dueKey k now p.1 →
    ∀ last ∈ p.2.getLast?, last + minInterval k ≤ now
  | _ => True

instance (k : ℤ) (s : State) : DecidablePred (steady k s)
  | .push _ | .poll .. | .pingTimeout | .enterInner | .head _ | .innerDone | .send _ | .backup
  | .relock | .open | .fail | .close | .message _ | .handler => by
    unfold steady
    infer_instance

instance (k : ℤ) (now : ℚ) (s : State) : Decidable (dueKey k now s) :=
  inferInstanceAs (Decidable (∃ p ∈ _, _))

instance (k : ℤ) (p : State × List ℚ) : DecidablePred (punctual k p)
  | .push _ | .poll .. | .pingTimeout | .enterInner | .head _ | .innerDone | .send _ | .backup
  | .relock | .open | .fail | .close | .message _ | .handler => by
    unfold punctual
    infer_instance

variable {k : ℤ} {s t : State} {req : Request} {times : List ℚ}

@[simp] theorem uniqueOf_append (reqs more : List Request) :
    uniqueOf k (reqs ++ more) = uniqueOf k reqs ++ uniqueOf k more :=
  List.filter_append reqs more

@[simp] theorem uniqueOf_nil : uniqueOf k [] = [] := rfl

theorem uniqueOf_single (req : Request) :
    uniqueOf k [req] = if req.isUnique = true ∧ req.key = k then [req] else [] := by
  by_cases here : req.isUnique = true ∧ req.key = k <;> simp [uniqueOf, here]

theorem uniqueOf_cons (req : Request) (reqs : List Request) :
    uniqueOf k (req :: reqs) = uniqueOf k [req] ++ uniqueOf k reqs :=
  uniqueOf_append [req] reqs

/-! ## What enters the queue -/

/-- A push puts no unique request there. -/
theorem pushRequest_uniqueOf :
    uniqueOf k (pushRequest s req).requestQueue = uniqueOf k s.requestQueue := by
  by_cases unique : req.isUnique = true
  · rw [(pushRequest_unique unique).1]
  · have other : uniqueOf k [req] = [] := by simp [uniqueOf_single, unique]
    unfold pushRequest
    rw [if_neg unique]
    repeat' split
    all_goals simp [uniqueOf_cons, other]

theorem push_uniqueOf : uniqueOf k (s.push req).requestQueue = uniqueOf k s.requestQueue :=
  pushRequest_uniqueOf

/-- Draining takes at most one request of each key, and takes one if a pair of the key is there. -/
theorem drain_uniqueOf {ps : List (ℚ ×ₗ ℤ)} {pending pending' : UMap ℤ Request}
    {queue queue' : List Request} (keyed : Keyed pending)
    (h : drain ps pending queue = some (pending', queue')) :
    Keyed pending' ∧ ∃ moved, queue' = queue ++ moved ∧ (uniqueOf k moved).length ≤ 1 ∧
      (uniqueOf k moved ≠ [] ↔ ∃ p ∈ ps, (ofLex p).2 = k) ∧
      (uniqueOf k moved ≠ [] → k ∈ pending) := by
  induction ps generalizing pending queue with
  | nil =>
    obtain ⟨rfl, rfl⟩ : pending = pending' ∧ queue = queue' := by simpa [drain] using h
    exact ⟨keyed, [], (List.append_nil _).symm, by simp, by simp, by simp⟩
  | cons p ps ih =>
    simp only [drain] at h
    split at h
    · cases h
    · rename_i req found
      obtain ⟨keyed', moved, rfl, few, taken, known⟩ := ih (keyed.erase _) h
      obtain ⟨unique, key⟩ := keyed _ req found
      refine ⟨keyed', req :: moved, by simp, ?_⟩
      rw [uniqueOf_cons, uniqueOf_single]
      by_cases here : (ofLex p).2 = k
      · -- the key has no second pair: its request is taken out with the first
        have none : uniqueOf k moved = [] := by
          by_contra some
          have later := known some
          rw [← here] at later
          exact (AList.mem_erase.mp later).1 rfl
        have inside : k ∈ pending := here ▸ AList.lookup_isSome.mp (by simp [found])
        simp [unique, key, here, none, inside]
      · have known' : uniqueOf k moved ≠ [] → k ∈ pending :=
          fun some => (AList.mem_erase.mp (known some)).2
        simpa [key, here, taken, few] using fun some => known' (taken.mpr some)

/-! ## Runs -/

/-- The sends so far are apart, and one that is queued is due. -/
structure Spaced (k : ℤ) (s : State) (times : List ℚ) : Prop where
  keyed : Keyed s.uniqueRequests
  calm : .resend ∉ s.handler
  apart : Apart k times
  past : ∀ last ∈ times.getLast?, last ≤ s.clock
  /-- The inner loop empties the queue before the next poll that can fill it. -/
  idle : s.loop = .waiting → s.closeIssued = false → uniqueOf k s.requestQueue = []
  one : (uniqueOf k s.requestQueue).length ≤ 1
  ready : uniqueOf k s.requestQueue ≠ [] → ∀ last ∈ times.getLast?, last + minInterval k ≤ s.clock

theorem Spaced.initial : Spaced k initial [] where
  keyed := fun _ _ h => by cases h
  calm := List.not_mem_nil
  apart := .nil
  past := fun _ h => by cases h
  idle := fun _ _ => rfl
  one := Nat.zero_le _
  ready := fun some => absurd rfl some

/-- A step that does not touch the queue for the key, nor goes back in time. -/
theorem Spaced.same (h : Spaced k s times) (keyed : Keyed t.uniqueRequests)
    (calm : .resend ∉ t.handler) (clock : s.clock ≤ t.clock)
    (queue : uniqueOf k t.requestQueue = uniqueOf k s.requestQueue)
    (idle : t.loop = .waiting → t.closeIssued = false → uniqueOf k s.requestQueue = []) :
    Spaced k t times where
  keyed := keyed
  calm := calm
  apart := h.apart
  past := fun last hl => (h.past last hl).trans clock
  idle := fun waits keeps => queue.trans (idle waits keeps)
  one := queue ▸ h.one
  ready := fun some last hl => (h.ready (queue ▸ some) last hl).trans clock

theorem pushRequest_clock : (pushRequest s req).clock = s.clock ∧
    (pushRequest s req).closeIssued = s.closeIssued := by
  unfold pushRequest
  repeat' split
  all_goals exact ⟨rfl, rfl⟩

theorem Spaced.push (h : Spaced k s times) (req : Request) : Spaced k (s.push req) times := by
  obtain ⟨clock, closing⟩ := @pushRequest_clock s { req with serial := s.pushed.length }
  have loop : (s.push req).loop = s.loop := (pushRequest_frame s _).2.1
  have keyed : Keyed (s.push req).uniqueRequests := pushRequest_keyed h.keyed
  refine h.same keyed ?_ clock.symm.le push_uniqueOf ?_
  · rw [push_handler]
    exact h.calm
  · intro waits keeps
    exact h.idle (loop ▸ waits) (closing ▸ keeps)

/-- A handler that is done with its first act. -/
theorem Spaced.handled (h : Spaced k s times) {acts : List HandlerAct} (calm : .resend ∉ acts) :
    Spaced k { s with handler := acts } times :=
  h.same h.keyed calm le_rfl rfl h.idle

theorem Spaced.drain {now : ℚ} {timeout : Bool} {u : State} (h : Spaced k s times)
    (waits : s.loop = .waiting) (later : s.clock ≤ now) (can : s.canSend = true)
    (drained : checkUniqueRequests s now = some u)
    (on_time : punctual k (s, times) (.poll now timeout)) :
    Spaced k (afterPoll u now (!u.requestQueue.isEmpty) timeout) times := by
  have keeps : s.closeIssued = false := by
    simp only [State.canSend, Bool.and_eq_true, Bool.not_eq_true'] at can
    exact can.2
  obtain ⟨⟨pending, queue⟩, hd, rfl⟩ := Option.map_eq_some_iff.mp drained
  obtain ⟨keyed, moved, rfl, few, taken, -⟩ := drain_uniqueOf (k := k) h.keyed hd
  have queued : uniqueOf k (s.requestQueue ++ moved) = uniqueOf k moved := by
    rw [uniqueOf_append, h.idle waits keeps, List.nil_append]
  refine ⟨keyed, h.calm, h.apart, fun last hl => (h.past last hl).trans later, ?_, ?_, ?_⟩
  · -- a request in the queue ends the wait
    intro still _
    change uniqueOf k (s.requestQueue ++ moved) = []
    cases empty : s.requestQueue ++ moved with
    | nil => rfl
    | cons => simp [afterPoll, empty] at still
  · exact queued ▸ few
  · intro some
    have some : uniqueOf k moved ≠ [] := queued ▸ some
    exact on_time can (taken.mp some)

theorem Spaced.head {now : ℚ} {front : Request} {rest : List Request} (h : Spaced k s times)
    (later : s.clock ≤ now) (queue : s.requestQueue = front :: rest) :
    Spaced k { popFront s front rest now with clock := now } (sentAt k times s (.head now)) := by
  have split : uniqueOf k s.requestQueue = uniqueOf k [front] ++ uniqueOf k rest := by
    rw [queue, uniqueOf_cons]
  simp only [sentAt, queue, List.head?_cons, Option.toList_some]
  by_cases other : uniqueOf k [front] = []
  · rw [if_pos other]
    rw [other, List.nil_append] at split
    exact h.same h.keyed h.calm later split.symm fun sending => by cases sending
  · rw [if_neg other]
    have rest_empty : uniqueOf k rest = [] := by
      have one := h.one
      have first := List.length_pos_of_ne_nil other
      rw [split, List.length_append] at one
      exact List.eq_nil_of_length_eq_zero (by omega)
    have queued : uniqueOf k s.requestQueue ≠ [] := by
      rw [split]
      exact List.append_ne_nil_of_left_ne_nil other _
    refine ⟨h.keyed, h.calm, ?_, ?_, (fun sending => by cases sending), ?_, ?_⟩
    · refine List.isChain_append.mpr ⟨h.apart, .singleton _, fun last hl next hn => ?_⟩
      obtain rfl : now = next := by simpa using hn
      exact (h.ready queued last hl).trans later
    · intro last hl
      obtain rfl : now = last := by simpa using hl
      exact le_rfl
    · change (uniqueOf k rest).length ≤ 1
      rw [rest_empty]
      exact Nat.zero_le _
    · exact fun some => absurd rest_empty some

theorem Spaced.step {l : Label} (h : Spaced k s times) (step : Outbox.step s l = some t)
    (calm : noReconnect s l) (on_time : punctual k (s, times) l) :
    Spaced k t (sentAt k times s l) := by
  cases step_cases step with
  | push => exact h.push _
  | drain waits later can drained => exact h.drain waits later can drained on_time
  | wait waits later =>
    exact h.same h.keyed h.calm later rfl fun _ keeps => h.idle waits keeps
  | head _ later front => exact h.head later front
  | subscribe acts | fetch acts =>
    exact (h.push _).handled fun later => h.calm (acts ▸ .tail _ later)
  | resend acts => exact absurd (acts ▸ .head _) h.calm
  | message =>
    refine h.same h.keyed ?_ le_rfl rfl fun waits keeps => h.idle waits ?_
    · dsimp only
      split <;> simp
    · simp only [Bool.or_eq_false_iff] at keeps
      exact keeps.1
  | «open» => exact h.same h.keyed (by simp) le_rfl rfl h.idle
  | fail | close => cases calm
  | pingTimeout => exact h.same h.keyed h.calm le_rfl rfl fun _ keeps => by cases keeps
  | innerDone _ empty =>
    refine h.same h.keyed h.calm le_rfl rfl fun _ _ => ?_
    rw [empty]
    rfl
  | send | backup | enterInner | relock =>
    exact h.same h.keyed h.calm le_rfl rfl fun waits => by cases waits

theorem spaced (h : (timed k).Reach (fun p l => noReconnect p.1 l ∧ punctual k p l) (s, times)) :
    Spaced k s times := by
  apply h.noted_invariant
  · exact .initial
  · intro a times l b spaced cond step
    exact spaced.step step cond.1 cond.2

/-- The timed outbox goes on, without a reconnect and without a `force_pop` of key `k`. -/
abbrev Goes (k : ℤ) : State × List ℚ → List Label → State × List ℚ → Prop :=
  Run (timed k) fun p l => steady k p.1 l

theorem goes_step {l : Label} (plain : steady k s l) (step : outbox.step s l = some t) :
    Goes k (s, times) [l] (t, sentAt k times s l) :=
  .snoc .nil plain (noted_step.mpr ⟨step, rfl⟩)

/-- The state when the loop has handed `req` to `Send` and locks again. -/
def passed (s : State) (req : Request) (rest : List Request) (now : ℚ) : State :=
  { popFront s req rest now with
    clock := now
    sends := s.sends ++ [(req, false)]
    backupQueue := s.backupQueue ++ [req]
    loop := .head }

theorem goes_past {rest : List Request} {now : ℚ} (at_head : s.loop = .head)
    (front : s.requestQueue = req :: rest) (later : s.clock ≤ now) (other : uniqueOf k [req] = []) :
    ∃ ls, Goes k (s, times) ls (passed s req rest now, times) := by
  have taken : outbox.step s (.head now) = some { popFront s req rest now with clock := now } := by
    simp [outbox, step, at_head, later, front]
  have note : sentAt k times s (.head now) = times := by simp [sentAt, front, other]
  have plain : steady k s (.head now) := ⟨trivial, trivial⟩
  have first : Goes k (s, times) [.head now]
      ({ popFront s req rest now with clock := now }, sentAt k times s (.head now)) :=
    goes_step plain taken
  rw [note] at first
  have sent : Goes k ({ popFront s req rest now with clock := now }, times) [.send false]
      ({ popFront s req rest now with
        clock := now
        loop := .sent req
        sends := s.sends ++ [(req, false)] }, times) :=
    goes_step ⟨trivial, trivial⟩ (by simp [outbox, step, popFront])
  have kept : Goes k ({ popFront s req rest now with
        clock := now
        loop := .sent req
        sends := s.sends ++ [(req, false)] }, times) [.backup]
      ({ passed s req rest now with loop := .relocking }, times) :=
    goes_step ⟨trivial, trivial⟩ rfl
  have back : Goes k ({ passed s req rest now with loop := .relocking }, times) [.relock]
      (passed s req rest now, times) :=
    goes_step ⟨trivial, trivial⟩ rfl
  exact ⟨_, ((first.trans sent).trans kept).trans back⟩

/-- When the loop goes on without a delay, it takes the first unique request of the key at `now`. -/
theorem goes_at_once {queue : List Request} {now : ℚ} (at_head : s.loop = .head)
    (front : s.requestQueue = queue) (some : uniqueOf k queue ≠ []) (later : s.clock ≤ now) :
    ∃ ls u, Goes k (s, times) ls (u, times ++ [now]) := by
  induction queue generalizing s with
  | nil => exact absurd rfl some
  | cons req rest ih =>
    by_cases other : uniqueOf k [req] = []
    · obtain ⟨ls, past⟩ : ∃ ls, Goes k (s, times) ls (passed s req rest now, times) :=
        goes_past at_head front later other
      rw [uniqueOf_cons, other, List.nil_append] at some
      obtain ⟨ls', u, run⟩ := ih (s := passed s req rest now) rfl rfl some le_rfl
      exact ⟨_, u, past.trans run⟩
    · have taken : outbox.step s (.head now) =
          .some { popFront s req rest now with clock := now } := by
        simp [outbox, step, at_head, later, front]
      have note : sentAt k times s (.head now) = times ++ [now] := by simp [sentAt, front, other]
      have plain : steady k s (.head now) := ⟨trivial, trivial⟩
      have last : Goes k (s, times) [.head now] (_, sentAt k times s (.head now)) :=
        goes_step plain taken
      rw [note] at last
      exact ⟨_, _, last⟩

theorem goes_when_woken (woken : s.loop = .woken) (some : uniqueOf k s.requestQueue ≠ []) :
    ∃ ls u, Goes k (s, times) ls (u, times ++ [s.clock]) := by
  have entered : outbox.step s .enterInner = .some { s with loop := .head } := by
    simp [outbox, step, woken]
  have plain : steady k s .enterInner := ⟨trivial, trivial⟩
  have enter : Goes k (s, times) [.enterInner] ({ s with loop := .head }, times) :=
    goes_step plain entered
  obtain ⟨ls, u, run⟩ := @goes_at_once k { s with loop := .head } times _ s.clock rfl rfl some le_rfl
  exact ⟨_, u, enter.trans run⟩

/-- After a poll that comes too early two sends can be too close. -/
theorem Spaced.early {l : Label} (h : Spaced k s times) (step : Outbox.step s l = .some t)
    (early : ¬ punctual k (s, times) l) :
    ∃ ls u times', Goes k (t, times) ls (u, times') ∧ ¬ Apart k times' := by
  cases step_cases step with
  | @drain now timeout u waits later can drained =>
    simp only [punctual, not_forall, not_le] at early
    obtain ⟨_, taken, last, hl, soon⟩ := early
    obtain ⟨⟨pending, queue⟩, hd, rfl⟩ := Option.map_eq_some_iff.mp drained
    obtain ⟨-, moved, rfl, -, moves, -⟩ := drain_uniqueOf (k := k) h.keyed hd
    have some : uniqueOf k (s.requestQueue ++ moved) ≠ [] := by
      rw [uniqueOf_append]
      exact List.append_ne_nil_of_right_ne_nil _ (moves.mpr taken)
    have woken : (!(s.requestQueue ++ moved).isEmpty || timeout) = true := by
      cases empty : s.requestQueue ++ moved with
      | nil =>
        rw [empty] at some
        exact absurd rfl some
      | cons => rfl
    obtain ⟨ls, u, run⟩ := @goes_when_woken k (afterPoll { s with
      unsentTimestamps := s.unsentTimestamps.dropWhile (due now)
      uniqueRequests := pending
      requestQueue := s.requestQueue ++ moved } now (!(s.requestQueue ++ moved).isEmpty) timeout)
      times (by simp [afterPoll, woken]) some
    refine ⟨ls, u, _, run, fun apart => ?_⟩
    have gap := (List.isChain_append.mp apart).2.2 last hl now rfl
    exact absurd gap (not_le.mpr soon)
  | wait waits later cannot =>
    simp only [punctual, not_forall] at early
    obtain ⟨can, _⟩ := early
    rw [cannot] at can
    cases can
  | _ => exact absurd trivial early

/-- In every run in which each poll is punctual the sends are apart, and a poll that is not can
be followed by sends that are not. -/
theorem sends_spaced (k : ℤ) :
    (∀ s times, (timed k).Reach (fun p l => noReconnect p.1 l ∧ punctual k p l) (s, times) →
      Apart k times) ∧
    ∀ s times l t, (timed k).Reach (fun p l => noReconnect p.1 l ∧ punctual k p l) (s, times) →
      outbox.step s l = some t → ¬ punctual k (s, times) l →
      ∃ ls u times', Goes k (t, times) ls (u, times') ∧ ¬ Apart k times' :=
  ⟨fun _ _ h => (spaced h).apart, fun _ _ _ _ h step early => (spaced h).early step early⟩

/-- A result of submission 7 is sent at `a`, and the next one at `b`. -/
def twoResults (a b : ℚ) : List Label :=
  connect ++ [.push (tdResultRequest 7 []), .poll a false, .enterInner] ++ sendNext a ++ [.relock] ++
    sendNext a ++ [.relock] ++ sendNext a ++
    [.relock, .innerDone, .push (tdResultRequest 7 []), .poll b false, .enterInner, .head b]

theorem sends_spaced_from_10 :
    ∃ s times, (timed 7).exec (fun p l => noReconnect p.1 l ∧ punctual 7 p l) (initial, [])
      (twoResults 10 (106 / 10)) = some (s, times) ∧ times = [10, 106 / 10] ∧ Apart 7 times := by
  have run : ((timed 7).exec (fun p l => noReconnect p.1 l ∧ punctual 7 p l) (initial, [])
      (twoResults 10 (106 / 10))).map Prod.snd = some [10, 106 / 10] := by decide +kernel
  obtain ⟨⟨s, times⟩, hs, seen⟩ := Option.map_eq_some_iff.mp run
  exact ⟨s, times, hs, seen, (sends_spaced 7).1 s times (reach_exec hs)⟩

/-- The time 10.9 is stored as 10. -/
theorem sends_too_close :
    ∃ s times, (timed 7).exec (fun p l => steady 7 p.1 l) (initial, [])
      (twoResults (109 / 10) (1095 / 100)) = some (s, times) ∧ times = [109 / 10, 1095 / 100] ∧
      ¬ Apart 7 times := by
  have run : ((timed 7).exec (fun p l => steady 7 p.1 l) (initial, [])
      (twoResults (109 / 10) (1095 / 100))).map Prod.snd = some [109 / 10, 1095 / 100] := by
    decide +kernel
  obtain ⟨⟨s, times⟩, hs, seen⟩ := Option.map_eq_some_iff.mp run
  refine ⟨s, times, hs, seen, fun apart => ?_⟩
  have seen : times = [109 / 10, 1095 / 100] := seen
  rw [seen] at apart
  have gap := (List.isChain_cons_cons.mp apart).1
  exact absurd gap (by decide +kernel)

end TiojJudge.Outbox
