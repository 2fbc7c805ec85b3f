import TiojJudge.Outbox.Model

/-!
# Requests that were not sent

`RequestLoop` puts every request it took off the queue into `backup_queue`,
whether `Send` succeeded or not, and any message of the server clears that
list. A request whose `Send` failed is kept only until the next message.
-/

namespace TiojJudge.Outbox
open Machine

/-- The request `RequestLoop` holds between `pop_front` and the backup push. -/
def State.hand (s : State) : Option Request :=
  match s.loop with
  | .sending req | .sent req => some req
  | _ => none

/-- The request is in `request_queue`, in `backup_queue` or in the loop's hand. -/
def Held (s : State) (req : Request) : Prop :=
  req ∈ s.requestQueue ∨ req ∈ s.backupQueue ∨ s.hand = some req

/-- Every `Send` of the request so far returned false. -/
def AllSendsFailed (s : State) (req : Request) : Prop := (req, true) ∉ s.sends

instance (s : State) (req : Request) : Decidable (AllSendsFailed s req) :=
  inferInstanceAs (Decidable ((req, true) ∉ s.sends))

def NoneDropped (s : State) : Prop :=
  ∀ req ∈ s.pushed, req.isUnique = false → AllSendsFailed s req → Held s req

/-- A message arrives only when every non-unique request in `backup_queue` was
sent with success. -/
def clearsDelivered (s : State) : Label → Prop
  | .message _ => ∀ req ∈ s.backupQueue, req.isUnique = false → ¬ AllSendsFailed s req
  | _ => True

instance (s : State) : DecidablePred (clearsDelivered s)
  | .push _ | .poll .. | .pingTimeout | .enterInner | .head _ | .innerDone | .send _ | .backup
  | .relock | .open | .fail | .close | .message _ | .handler => by
    unfold clearsDelivered
    infer_instance

/-! ## The queue only grows outside the loop -/

theorem pushRequest_queue (s : State) (req : Request) :
    (∀ r ∈ s.requestQueue, r ∈ (pushRequest s req).requestQueue) ∧
    (req.isUnique = false → req ∈ (pushRequest s req).requestQueue) := by
  unfold pushRequest
  split
  · rename_i unique
    refine ⟨fun r hr => ?_, fun notUnique => by simp [unique] at notUnique⟩
    split
    · exact hr
    · split <;> exact hr
  · split
    · split <;> simp +contextual
    · split <;> simp +contextual

theorem pushRequest_frame (s : State) (req : Request) :
    (pushRequest s req).backupQueue = s.backupQueue ∧ (pushRequest s req).loop = s.loop ∧
    (pushRequest s req).sends = s.sends ∧ (pushRequest s req).pushed = s.pushed := by
  unfold pushRequest
  repeat' split
  all_goals exact ⟨rfl, rfl, rfl, rfl⟩

theorem drain_queue {ps : List (ℚ ×ₗ ℤ)} {pending pending' : UMap ℤ Request}
    {queue queue' : List Request} (h : drain ps pending queue = some (pending', queue')) :
    ∀ r ∈ queue, r ∈ queue' := by
  induction ps generalizing pending queue with
  | nil =>
    obtain ⟨-, rfl⟩ : pending = pending' ∧ queue = queue' := by simpa [drain] using h
    exact fun _ hr => hr
  | cons p ps ih =>
    simp only [drain] at h
    split at h
    · cases h
    · exact fun r hr => ih h r (List.mem_append_left _ hr)

theorem checkUniqueRequests_frame {s t : State} {ts : ℚ} (h : checkUniqueRequests s ts = some t) :
    (∀ r ∈ s.requestQueue, r ∈ t.requestQueue) ∧ t.backupQueue = s.backupQueue ∧
    t.loop = s.loop ∧ t.sends = s.sends ∧ t.pushed = s.pushed := by
  obtain ⟨⟨pending, queue⟩, hd, rfl⟩ := Option.map_eq_some_iff.mp h
  exact ⟨drain_queue hd, rfl, rfl, rfl, rfl⟩

/-! ## Steps -/

theorem held_push {s : State} {r req : Request} (held : Held s r) : Held (s.push req) r := by
  obtain ⟨hb, hl, _, _⟩ := pushRequest_frame s { req with serial := s.pushed.length }
  rcases held with hq | hq | hh
  · exact .inl ((pushRequest_queue s _).1 r hq)
  · exact .inr (.inl (by simpa only [State.push, hb] using hq))
  · exact .inr (.inr (by simpa only [State.push, State.hand, hl] using hh))

theorem noneDropped_push {s : State} (h : NoneDropped s) (req : Request) :
    NoneDropped (s.push req) := by
  obtain ⟨_, _, hs, hp⟩ := pushRequest_frame s { req with serial := s.pushed.length }
  intro r hr notUnique failed
  simp only [AllSendsFailed, State.push, hs] at failed
  rcases List.mem_append.mp hr with old | new
  · exact held_push (h r old notUnique failed)
  · obtain rfl := List.mem_singleton.mp new
    exact .inl ((pushRequest_queue s _).2 notUnique)

/-- A step that pushes nothing drops nothing when what was held stays held. -/
theorem noneDropped_frame {s t : State} (h : NoneDropped s) (hp : t.pushed = s.pushed)
    (hs : ∀ x ∈ s.sends, x ∈ t.sends)
    (held : ∀ r, r.isUnique = false → AllSendsFailed t r → Held s r → Held t r) :
    NoneDropped t := by
  intro r hr notUnique failed
  exact held r notUnique failed (h r (hp ▸ hr) notUnique fun sent => failed (hs _ sent))

theorem step_noneDropped {s t : State} {l : Label} (h : step s l = some t)
    (cleared : clearsDelivered s l) (kept : NoneDropped s) : NoneDropped t := by
  cases step_cases h with
  | push => exact noneDropped_push kept _
  | subscribe => exact noneDropped_push kept subscribeRequest
  | fetch => exact noneDropped_push kept fetchRequest
  | drain waits _ _ drained =>
    obtain ⟨queue, backup, _, sends, pushed⟩ := checkUniqueRequests_frame drained
    refine noneDropped_frame kept pushed (fun x hx => by simpa [afterPoll, sends] using hx) ?_
    rintro r - - (hr | hr | hr)
    · exact .inl (queue r hr)
    · exact .inr (.inl (by simpa [afterPoll, backup] using hr))
    · simp [State.hand, waits] at hr
  | head at_head _ front =>
    refine noneDropped_frame kept rfl (fun _ hx => hx) ?_
    rintro r - - (hr | hr | hr)
    · rcases List.mem_cons.mp (front ▸ hr) with rfl | hr
      · exact .inr (.inr rfl)
      · exact .inl hr
    · exact .inr (.inl hr)
    · simp [State.hand, at_head] at hr
  | send sending =>
    refine noneDropped_frame kept rfl (fun _ hx => List.mem_append_left _ hx) ?_
    rintro r - - (hr | hr | hr)
    · exact .inl hr
    · exact .inr (.inl hr)
    · exact .inr (.inr (by simpa [State.hand, sending] using hr))
  | @backup req sent =>
    refine noneDropped_frame kept rfl (fun _ hx => hx) ?_
    rintro r - - (hr | hr | hr)
    · exact .inl hr
    · exact .inr (.inl (List.mem_append_left _ hr))
    · obtain rfl : req = r := by simpa [State.hand, sent] using hr
      exact .inr (.inl (List.mem_append_right _ (.head _)))
  | message =>
    refine noneDropped_frame kept rfl (fun _ hx => hx) ?_
    rintro r notUnique failed (hr | hr | hr)
    · exact .inl hr
    · exact absurd failed (cleared r hr notUnique)
    · exact .inr (.inr hr)
  | resend =>
    refine noneDropped_frame kept rfl (fun _ hx => hx) ?_
    rintro r - - (hr | hr | hr)
    · exact .inl (List.mem_append_right _ hr)
    · exact .inl (List.mem_append_left _ hr)
    · exact .inr (.inr hr)
  | wait here | pingTimeout here | enterInner here | innerDone here | relock here =>
    refine noneDropped_frame kept rfl (fun _ hx => hx) ?_
    rintro r - - (hr | hr | hr)
    · exact .inl hr
    · exact .inr (.inl hr)
    · simp [State.hand, here] at hr
  | «open» | fail | close =>
    exact noneDropped_frame kept rfl (fun _ hx => hx) fun _ _ _ hr => hr

/-- While no message finds an unsent request in the backup list, no non-unique
request is dropped before a `Send` of it succeeded, over any number of
disconnects and reconnects. -/
theorem unsent_requests_held {s : State} (h : outbox.Reach clearsDelivered s) :
    ∀ req ∈ s.pushed, req.isUnique = false → AllSendsFailed s req → Held s req :=
  h.invariant (fun _ hr => by cases hr) fun _ _ _ _ ih cleared hs => step_noneDropped hs cleared ih

/-- A final result is taken off the queue while the connection is down, its
`Send` fails, and the first message after the reconnect clears it away. -/
def lostResultRun : List Label :=
  [.push (submissionResultRequest 7), .poll 1 true, .enterInner, .head 1, .send false, .backup,
   .relock, .innerDone, .open, .handler, .handler, .message .other]

/-- The final result is still held when the connection comes back. -/
theorem result_held_at_open :
    ∃ s, outbox.exec clearsDelivered initial (lostResultRun.take 9) = some s ∧
      Held s (submissionResultRequest 7) := by
  have run : ((outbox.exec clearsDelivered initial (lostResultRun.take 9)).map fun s =>
      (s.pushed, s.sends)) = some ([submissionResultRequest 7],
        [(submissionResultRequest 7, false)]) := by decide +kernel
  obtain ⟨s, hs, seen⟩ := Option.map_eq_some_iff.mp run
  obtain ⟨pushed, sends⟩ : s.pushed = [submissionResultRequest 7] ∧
      s.sends = [(submissionResultRequest 7, false)] := by simpa using seen
  refine ⟨s, hs, unsent_requests_held (reach_exec hs) _ (by simp [pushed]) rfl ?_⟩
  simp [AllSendsFailed, sends]

theorem result_lost_at_message :
    ∃ s, outbox.exec anyStep initial lostResultRun = some s ∧
      submissionResultRequest 7 ∈ s.pushed ∧ AllSendsFailed s (submissionResultRequest 7) ∧
      ¬ Held s (submissionResultRequest 7) := by
  have run : ((outbox.exec anyStep initial lostResultRun).map fun s =>
      (s.pushed.head?, s.sends, s.requestQueue.map (·.isSubscribe), s.backupQueue, s.loop)) =
      some (some (submissionResultRequest 7), [(submissionResultRequest 7, false)], [true], [],
        .waiting) := by decide +kernel
  obtain ⟨s, hs, seen⟩ := Option.map_eq_some_iff.mp run
  simp only [Prod.mk.injEq] at seen
  obtain ⟨pushed, sends, queue, backup, loop⟩ := seen
  refine ⟨s, hs, List.mem_of_mem_head? pushed, by simp [AllSendsFailed, sends], ?_⟩
  rintro (hq | hq | hh)
  · have subscribes := List.mem_map_of_mem (f := (·.isSubscribe)) hq
    simp [queue, submissionResultRequest] at subscribes
  · simp [backup] at hq
  · simp [State.hand, loop] at hh

end TiojJudge.Outbox
