import TiojJudge.History
import TiojJudge.Outbox.Popped

/-!
# The first frame of a connection

`OnOpen_` sets `connected_` and then puts the subscribe request in front of the
queue. `RequestLoop` may hold another request already, or take one in between.

* `shown`: connections and frames, as the server sees them, and failed frames;
* `SubscribesFirst`: the first frame of each connection is the subscribe command;
* `subscribes_first`: it is, when the loop holds no other request while a
  connection opens, and takes none before the subscribe request is in the queue.
-/

namespace TiojJudge.Outbox
open Machine

inductive Seen where
  | opened
  | frame (req : Request)
  /-- `Send` failed on an open connection. -/
  | refused (req : Request)
  deriving DecidableEq

def shown (s : State) : Label → List Seen
  | .open => [.opened]
  | .send ok =>
    match s.loop with
    | .sending req => if ok then [.frame req] else if s.connected then [.refused req] else []
    | _ => []
  | _ => []

/-- What was seen on the last connection, latest first. -/
def sinceOpened (seen : List Seen) : List Seen := seen.reverse.takeWhile (· ≠ .opened)

def Seen.isFrame : Seen → Bool
  | .frame _ => true
  | _ => false

/-- A frame without another one before it on its connection is the subscribe command. -/
def FirstSubscribes (past : List Seen) (e : Seen) : Prop :=
  ∀ req, e = .frame req → (∀ e ∈ sinceOpened past, e.isFrame = false) → req.isSubscribe = true

def SubscribesFirst (seen : List Seen) : Prop := Timely FirstSubscribes seen

/-- What the loop has taken off the queue when a connection opens, and what it takes before
`OnOpen` has pushed the subscribe request, is a subscribe request; no `Send` succeeds on a
connection after one on it failed. -/
def announced (p : State × List Seen) : Label → Prop
  | .open => ∀ req ∈ p.1.taken, req.isSubscribe = true
  | .head _ =>
    .subscribe ∈ p.1.handler → ∀ req ∈ p.1.requestQueue.head?, req.isSubscribe = true
  | .send ok => ok = true → ∀ e ∈ sinceOpened p.2, e.isFrame = true
  | _ => True

instance (p : State × List Seen) : DecidablePred (announced p)
  | .push _ | .poll .. | .pingTimeout | .enterInner | .head _ | .innerDone | .send _ | .backup
  | .relock | .open | .fail | .close | .message _ | .handler => by
    unfold announced
    infer_instance

variable {s t : State} {seen : List Seen} {req : Request}

theorem sinceOpened_snoc {e : Seen} (h : e ≠ .opened) :
    sinceOpened (seen ++ [e]) = e :: sinceOpened seen := by
  simp [sinceOpened, h]

/-- A push leaves the queue alone, or the request goes to an end of it. -/
theorem pushRequest_ends : (pushRequest s req).requestQueue = s.requestQueue ∨
    (pushRequest s req).requestQueue = s.requestQueue ++ [req] ∨
    req.isSubscribe = true ∧ (pushRequest s req).requestQueue = req :: s.requestQueue := by
  unfold pushRequest
  repeat' split
  all_goals simp_all

/-- A subscribe request is in front of the queue. -/
def SubscribeNext (queue : List Request) : Prop :=
  ∃ req, queue.head? = some req ∧ req.isSubscribe = true

theorem SubscribeNext.append {queue : List Request} (next : SubscribeNext queue)
    (more : List Request) : SubscribeNext (queue ++ more) := by
  obtain ⟨req, front, sub⟩ := next
  cases queue with
  | nil => cases front
  | cons first rest => exact ⟨req, front, sub⟩

theorem SubscribeNext.push (next : SubscribeNext s.requestQueue) :
    SubscribeNext (s.push req).requestQueue := by
  rcases @pushRequest_ends s { req with serial := s.pushed.length } with same | last | ⟨sub, first⟩
  · exact (show (s.push req).requestQueue = _ from same) ▸ next
  · exact (show (s.push req).requestQueue = _ from last) ▸ next.append _
  · exact (show (s.push req).requestQueue = _ from first) ▸ ⟨_, rfl, sub⟩

/-- The lists of acts that handlers start with, and what is left of them. -/
def handlerActs : List (List HandlerAct) := [[.subscribe, .fetch], [.fetch], [.resend], []]

/-- Before the first frame of a connection, the loop comes to a subscribe request first. -/
structure Announced (s : State) (seen : List Seen) : Prop where
  first : SubscribesFirst seen
  acts : s.handler ∈ handlerActs
  resends : s.connected = true → .resend ∉ s.handler
  hand : s.connected = true → sinceOpened seen = [] → ∀ req ∈ s.taken, req.isSubscribe = true
  next : s.connected = true → sinceOpened seen = [] →
    .subscribe ∈ s.handler ∨ s.taken ≠ [] ∨ SubscribeNext s.requestQueue

theorem Announced.initial : Announced initial [] where
  first := .nil
  acts := by decide
  resends := fun h => by cases h
  hand := fun h => by cases h
  next := fun h => by cases h

/-- A step of the others: the connection, the handler and the loop's hand are as before. -/
theorem Announced.same (a : Announced s seen) (acts : t.handler = s.handler)
    (connected : t.connected = s.connected) (hand : t.taken = s.taken)
    (next : SubscribeNext s.requestQueue → SubscribeNext t.requestQueue) : Announced t seen where
  first := a.first
  acts := acts ▸ a.acts
  resends := connected ▸ acts ▸ a.resends
  hand := connected ▸ hand ▸ a.hand
  next := by
    rw [connected, acts, hand]
    intro on none
    exact (a.next on none).imp_right (Or.imp_right next)

theorem Announced.head {rest : List Request} {now : ℚ} (a : Announced s seen)
    (queue : s.requestQueue = req :: rest) (at_head : s.loop = .head)
    (cond : announced (s, seen) (.head now)) :
    Announced { popFront s req rest now with clock := now } seen where
  first := a.first
  acts := a.acts
  resends := a.resends
  hand := by
    intro on none r taken
    obtain rfl : r = req := by simpa [State.taken, popFront] using taken
    have free : s.taken = [] := by simp [State.taken, at_head]
    rcases a.next on none with waiting | busy | ⟨front, here, sub⟩
    · exact cond waiting r (by simp [queue])
    · exact absurd free busy
    · rw [queue] at here
      cases here
      exact sub
  next := fun _ _ => .inr (.inl (List.cons_ne_nil _ _))

theorem Announced.send {ok : Bool} (a : Announced s seen) (sending : s.loop = .sending req)
    (on : ok = true → s.connected = true) (cond : announced (s, seen) (.send ok)) :
    Announced { s with loop := .sent req, sends := s.sends ++ [(req, ok)] }
      (seen ++ shown s (.send ok)) := by
  cases ok with
  | true =>
    simp only [shown, sending, if_true]
    have later : sinceOpened (seen ++ [.frame req]) ≠ [] := by
      simp [sinceOpened_snoc]
    refine ⟨?_, a.acts, a.resends, fun _ none => absurd none later, fun _ none => absurd none later⟩
    apply a.first.snoc
    intro r same none
    cases same
    apply a.hand (on rfl) _ req (by simp [State.taken, sending])
    apply List.eq_nil_iff_forall_not_mem.mpr
    intro e he
    have frame := cond rfl e he
    rw [none e he] at frame
    cases frame
  | false =>
    by_cases connected : s.connected = true
    · have shows : shown s (.send false) = [.refused req] := by simp [shown, sending, connected]
      rw [shows]
      have later : sinceOpened (seen ++ [.refused req]) ≠ [] := by
        simp [sinceOpened_snoc]
      refine ⟨a.first.snoc ?_, a.acts, a.resends, fun _ none => absurd none later,
        fun _ none => absurd none later⟩
      intro r same
      cases same
    · have shows : shown s (.send false) = [] := by simp [shown, sending, connected]
      rw [shows, List.append_nil]
      exact ⟨a.first, a.acts, fun on => absurd on connected, fun on => absurd on connected,
        fun on => absurd on connected⟩

theorem Announced.open (a : Announced s seen) (cond : announced (s, seen) .open) :
    Announced { s with connected := true, handler := [.subscribe, .fetch] }
      (seen ++ shown s .open) where
  first := a.first.snoc fun _ same => by cases same
  acts := List.mem_cons_self
  resends := fun _ => by simp
  hand := fun _ _ => cond
  next := fun _ _ => .inl List.mem_cons_self

/-- The subscribe request comes in front of the queue. -/
theorem Announced.subscribe {rest : List HandlerAct} (a : Announced s seen)
    (here : s.handler = .subscribe :: rest) :
    Announced { s.push subscribeRequest with handler := rest } seen := by
  obtain rfl : rest = [.fetch] := by simpa [handlerActs, here] using a.acts
  have front : SubscribeNext (s.push subscribeRequest).requestQueue := ⟨_, rfl, rfl⟩
  have hand : (s.push subscribeRequest).taken = s.taken := push_frame.2.1
  have on : (s.push subscribeRequest).connected = s.connected := rfl
  refine ⟨a.first, by simp [handlerActs], fun _ => by simp, ?_, fun _ _ => .inr (.inr front)⟩
  intro connected none
  exact (show State.taken _ = _ from hand) ▸ a.hand (on ▸ connected) none

theorem Announced.fetch {rest : List HandlerAct} (a : Announced s seen)
    (here : s.handler = .fetch :: rest) :
    Announced { s.push fetchRequest with handler := rest } seen := by
  obtain rfl : rest = [] := by simpa [handlerActs, here] using a.acts
  have hand : (s.push fetchRequest).taken = s.taken := push_frame.2.1
  have on : (s.push fetchRequest).connected = s.connected := push_connected
  refine ⟨a.first, by simp [handlerActs], fun _ => by simp, ?_, ?_⟩
  · intro connected none
    exact (show State.taken _ = _ from hand) ▸ a.hand (on ▸ connected) none
  · intro connected none
    rcases a.next (on ▸ connected) none with waiting | busy | front
    · simp [here] at waiting
    · exact .inr (.inl ((show State.taken _ = _ from hand) ▸ busy))
    · exact .inr (.inr front.push)

/-- Nothing is claimed of a connection that is down. -/
theorem Announced.off (a : Announced s seen) (acts : t.handler ∈ handlerActs)
    (down : t.connected = false) : Announced t seen where
  first := a.first
  acts := acts
  resends := fun on => absurd on (Bool.eq_false_iff.mp down)
  hand := fun on => absurd on (Bool.eq_false_iff.mp down)
  next := fun on => absurd on (Bool.eq_false_iff.mp down)

theorem Announced.step {l : Label} (a : Announced s seen) (h : step s l = some t)
    (cond : announced (s, seen) l) : Announced t (seen ++ shown s l) := by
  have silent (shows : shown s l = []) (kept : Announced t seen) :
      Announced t (seen ++ shown s l) := by
    rw [shows, List.append_nil]
    exact kept
  cases step_cases h with
  | push => exact silent rfl (a.same push_handler push_connected push_frame.2.1 SubscribeNext.push)
  | drain waits _ _ drained =>
    apply silent rfl
    have free : s.taken = [] := by simp [State.taken, waits]
    obtain ⟨⟨pending, queue⟩, hd, rfl⟩ := Option.map_eq_some_iff.mp drained
    obtain ⟨moved, rfl, _⟩ := drain_moves hd
    exact a.same rfl rfl (afterPoll_taken.trans free.symm) fun next => next.append moved
  | wait waits =>
    apply silent rfl
    have free : s.taken = [] := by simp [State.taken, waits]
    exact a.same rfl rfl (afterPoll_taken.trans free.symm) id
  | head at_head _ front => exact silent rfl (a.head front at_head cond)
  | send sending on => exact a.send sending on cond
  | «open» => exact a.open cond
  | subscribe here => exact silent rfl (a.subscribe here)
  | fetch here => exact silent rfl (a.fetch here)
  | resend here =>
    apply silent rfl
    obtain rfl : _ = [] := by simpa [handlerActs, here] using a.acts
    apply a.off (by simp [handlerActs])
    exact Bool.eq_false_iff.mpr fun on => a.resends on (here ▸ List.mem_cons_self)
  | backup here | pingTimeout here | enterInner here | innerDone here | relock here =>
    apply silent rfl
    exact a.same rfl rfl (by simp [State.taken, here]) id
  | fail down => exact silent rfl (a.off (by simp [handlerActs]) down)
  | close => exact silent rfl (a.off (by simp [handlerActs]) rfl)
  | message idle =>
    apply silent rfl
    refine ⟨a.first, ?_, ?_, a.hand, ?_⟩
    · dsimp only
      split <;> simp [handlerActs]
    · intro _
      dsimp only
      split <;> simp
    · intro on none
      rcases a.next on none with waiting | rest
      · simp [idle] at waiting
      · exact .inr rest

/-- The first frame of each connection subscribes. -/
theorem subscribes_first (h : (outbox.observed shown).Reach announced (s, seen)) :
    SubscribesFirst seen := by
  have all : Announced s seen := by
    apply h.observed_invariant .initial
    intro a os l b announced cond step
    exact announced.step step cond
  exact all.first

/-- Connected, disconnected and connected again, with a final result that waits. -/
def resultResent : List Label :=
  connect ++ [.poll 10 false, .enterInner] ++ sendNext 10 ++ [.relock] ++ sendNext 10 ++
    [.relock, .innerDone, .push (submissionResultRequest 7), .close, .handler, .open, .handler,
      .handler, .poll 11 false, .enterInner] ++ sendNext 11 ++ [.relock] ++ sendNext 11

theorem subscribes_first_on_reconnect :
    ∃ s seen, (outbox.observed shown).exec announced (initial, []) resultResent = some (s, seen) ∧
      seen.count .opened = 2 ∧ SubscribesFirst seen := by
  have run : ((outbox.observed shown).exec announced (initial, []) resultResent).map
      (fun p => p.2.count .opened) = some 2 := by decide +kernel
  obtain ⟨⟨s, seen⟩, hs, count⟩ := Option.map_eq_some_iff.mp run
  exact ⟨s, seen, hs, count, subscribes_first (reach_exec hs)⟩

/-- The loop holds a final result when the connection opens. -/
def resultInHand : List Label :=
  [.push (submissionResultRequest 7), .poll 10 true, .enterInner, .head 10, .open, .send true]

theorem result_sent_first :
    ∃ s seen, (outbox.observed shown).exec anyStep (initial, []) resultInHand = some (s, seen) ∧
      ¬ SubscribesFirst seen := by
  have run : ((outbox.observed shown).exec anyStep (initial, []) resultInHand).map Prod.snd =
      some [.opened, .frame (submissionResultRequest 7)] := by decide +kernel
  obtain ⟨⟨s, seen⟩, hs, same⟩ := Option.map_eq_some_iff.mp run
  obtain rfl : seen = _ := same
  refine ⟨s, _, hs, ?_⟩
  intro first
  have subscribe := first [.opened] _ [] rfl _ rfl (by simp [sinceOpened])
  cases subscribe

end TiojJudge.Outbox
