import Mathlib.Data.Prod.Lex
import Mathlib.Data.Rat.Defs
import Mathlib.Algebra.Order.Ring.Rat
import TiojJudge.Containers
import TiojJudge.Machine
import TiojJudge.Numerals

/-!
# Outgoing requests

The request queue of `server_io.cpp`: `PushRequest`, `CheckUniqueRequests`,
`ResendBackupRequests`, the loop of `RequestLoop` and the handlers of the
websocket. Each step runs with the locks it takes in the source; between two
steps every other thread may run. Clock readings are exact rationals.
-/

namespace TiojJudge.Outbox
open Numerals (toLong)

def kUniqueReqMinInterval : ℚ := 1 / 2
def kFetchMinInterval : ℚ := 1 / 5

/-- One element of `results`, as `OneTdJSON` writes it. -/
structure TdData where
  position : Int
  verdict : String
  time : Int
  rss : Int
  score : Int
  vss : Option Int
  message : Option (String × String)
  deriving DecidableEq, Repr

/-- Of the body only `results` is looked at before it is sent. `serial` is not
in the source: it tells apart the calls of `PushRequest`. -/
structure Request where
  isSubscribe : Bool
  isUnique : Bool
  forcePop : Bool
  key : Int
  action : String
  results : Option (List TdData)
  serial : Nat
  deriving DecidableEq, Repr

def kFetchKey : Int := -1

/-- `Request req{}` with `is_subscribe` set (`OnOpen`). -/
def subscribeRequest : Request := ⟨true, false, false, 0, "", none, 0⟩

/-- The request of `TryFetchSubmission`. -/
def fetchRequest : Request := ⟨false, true, false, kFetchKey, "fetch_submission", none, 0⟩

/-- The request of `SendResult`. -/
def tdResultRequest (submissionId : Int) (results : List TdData) : Request :=
  ⟨false, true, false, submissionId, "td_result", some results, 0⟩

/-- The request of `SendFinalResult` and `SendStatus`. -/
def submissionResultRequest (submissionId : Int) : Request :=
  ⟨false, false, true, submissionId, "submission_result", none, 0⟩

/-- Where `RequestLoop` stands. It holds `request_queue_mtx` when `woken` and
at the head of the inner loop. -/
inductive LoopAt where
  | waiting
  | woken
  | head
  | sending (req : Request)
  | sent (req : Request)
  | relocking
  deriving DecidableEq, Repr

/-- What the handler the websocket thread runs has still to do. -/
inductive HandlerAct where
  | subscribe
  | fetch
  | resend
  deriving DecidableEq, Repr

structure State where
  unsentTimestamps : OrdSet (ℚ ×ₗ ℤ)
  uniqueTimestampMap : UMap ℤ ℚ
  uniqueRequests : UMap ℤ Request
  requestQueue : List Request
  backupQueue : List Request
  loop : LoopAt
  connected : Bool
  closeIssued : Bool
  handler : List HandlerAct
  clock : ℚ
  /-- Every request pushed, and every call of `Send` with its result. -/
  pushed : List Request
  sends : List (Request × Bool)

def initial : State where
  unsentTimestamps := ∅
  uniqueTimestampMap := ∅
  uniqueRequests := ∅
  requestQueue := []
  backupQueue := []
  loop := .waiting
  connected := false
  closeIssued := false
  handler := []
  clock := 0
  pushed := []
  sends := []

/-- A waiting request of the same key is replaced; its results are kept. -/
def mergeResults (req old : Request) : Request :=
  { req with results := req.results.map (· ++ old.results.getD []) }

def pushRequest (s : State) (req : Request) : State :=
  if req.isUnique then
    match s.uniqueRequests.lookup req.key with
    | some old =>
      { s with uniqueRequests := s.uniqueRequests.insert req.key (mergeResults req old) }
    | none =>
      match s.uniqueTimestampMap.lookup req.key with
      | some t =>
        { s with
          unsentTimestamps := s.unsentTimestamps.insert (toLex (t, req.key))
          uniqueRequests := s.uniqueRequests.insert req.key req }
      | none =>
        { s with
          unsentTimestamps := s.unsentTimestamps.insert (toLex (0, req.key))
          uniqueTimestampMap := s.uniqueTimestampMap.insert req.key 0
          uniqueRequests := s.uniqueRequests.insert req.key req }
  else if req.forcePop then
    match s.uniqueTimestampMap.lookup req.key with
    | some t =>
      { s with
        unsentTimestamps := s.unsentTimestamps.erase (toLex (t, req.key))
        uniqueRequests := s.uniqueRequests.erase req.key
        requestQueue := s.requestQueue ++ [req] }
    | none => { s with requestQueue := s.requestQueue ++ [req] }
  else if req.isSubscribe then
    { s with requestQueue := req :: s.requestQueue }
  else
    { s with requestQueue := s.requestQueue ++ [req] }

/-- One call of `PushRequest`, recorded under its own serial. -/
def State.push (s : State) (req : Request) : State :=
  let req := { req with serial := s.pushed.length }
  { pushRequest s req with pushed := s.pushed ++ [req] }

/-- The loop of `CheckUniqueRequests` over the pairs that are due: `none` when
`unique_requests.find` gives `end()`. -/
def drain : List (ℚ ×ₗ ℤ) → UMap ℤ Request → List Request →
    Option (UMap ℤ Request × List Request)
  | [], pending, queue => some (pending, queue)
  | p :: ps, pending, queue =>
    match pending.lookup (ofLex p).2 with
    | none => none
    | some req => drain ps (pending.erase (ofLex p).2) (queue ++ [req])

/-- A pair is due unless `it->first >= ts - kUniqueReqMinInterval`. -/
def due (ts : ℚ) (p : ℚ ×ₗ ℤ) : Bool := decide ((ofLex p).1 < ts - kUniqueReqMinInterval)

def checkUniqueRequests (s : State) (ts : ℚ) : Option State :=
  (drain (s.unsentTimestamps.elems.takeWhile (due ts)) s.uniqueRequests s.requestQueue).map
    fun (pending, queue) =>
      { s with
        unsentTimestamps := s.unsentTimestamps.dropWhile (due ts)
        uniqueRequests := pending
        requestQueue := queue }

def resendBackupRequests (s : State) : State :=
  { s with requestQueue := s.backupQueue ++ s.requestQueue, backupQueue := [] }

/-- The time stored for a unique request: `long ts`, and for a fetch
`ts -= kUniqueReqMinInterval - kFetchMinInterval` on that `long`. -/
def sendTimestamp (key : Int) (now : ℚ) : ℚ :=
  let ts := toLong now
  if key = kFetchKey then toLong (ts - (kUniqueReqMinInterval - kFetchMinInterval)) else ts

/-- The head of the inner loop, up to `request_queue.pop_front()`. -/
def popFront (s : State) (req : Request) (rest : List Request) (now : ℚ) : State :=
  { s with
    uniqueTimestampMap :=
      if req.isUnique then s.uniqueTimestampMap.insert req.key (sendTimestamp req.key now)
      else if req.forcePop then s.uniqueTimestampMap.erase req.key
      else s.uniqueTimestampMap
    requestQueue := rest
    loop := .sending req }

def State.canSend (s : State) : Bool := s.connected && !s.closeIssued

/-- `request_queue_mtx` is free. -/
def State.lockFree (s : State) : Bool :=
  match s.loop with
  | .woken | .head => false
  | _ => true

/-- What a frame makes `OnMessage` do after it cleared the backup queue. -/
inductive Frame where
  | notify
  | invalidVersion
  | other
  deriving DecidableEq, Repr

inductive Label where
  | push (req : Request)
  | poll (now : ℚ) (timeout : Bool)
  | pingTimeout
  | enterInner
  | head (now : ℚ)
  | innerDone
  | send (ok : Bool)
  | backup
  | relock
  | open
  | fail
  | close
  | message (frame : Frame)
  | handler

/-- `wait_for` leaves its wait when the predicate holds or the time is over. -/
def afterPoll (s : State) (now : ℚ) (ready timeout : Bool) : State :=
  { s with clock := now, loop := if ready || timeout then .woken else .waiting }

def step (s : State) : Label → Option State
  | .push req => if s.lockFree then some (s.push req) else none
  | .poll now timeout =>
    if s.loop = .waiting ∧ s.clock ≤ now then
      if s.canSend then
        (checkUniqueRequests s now).map fun t => afterPoll t now (!t.requestQueue.isEmpty) timeout
      else some (afterPoll s now false timeout)
    else none
  -- `cli.Close(); continue;`
  | .pingTimeout =>
    if s.loop = .woken ∧ s.canSend then
      some { s with closeIssued := true, loop := .waiting }
    else none
  | .enterInner => if s.loop = .woken then some { s with loop := .head } else none
  | .head now =>
    if s.loop = .head ∧ s.clock ≤ now then
      match s.requestQueue with
      | [] => none
      | req :: rest => some { popFront s req rest now with clock := now }
    else none
  | .innerDone =>
    if s.loop = .head ∧ s.requestQueue = [] then some { s with loop := .waiting } else none
  | .send ok =>
    match s.loop with
    | .sending req =>
      if ok = true → s.connected = true then
        some { s with loop := .sent req, sends := s.sends ++ [(req, ok)] }
      else none
    | _ => none
  | .backup =>
    match s.loop with
    | .sent req => some { s with backupQueue := s.backupQueue ++ [req], loop := .relocking }
    | _ => none
  | .relock => if s.loop = .relocking then some { s with loop := .head } else none
  | .open =>
    if s.handler = [] ∧ s.connected = false then
      some { s with connected := true, handler := [.subscribe, .fetch] }
    else none
  | .fail =>
    if s.handler = [] ∧ s.connected = false then some { s with handler := [.resend] } else none
  | .close =>
    if s.handler = [] ∧ s.connected = true then
      some { s with connected := false, closeIssued := false, handler := [.resend] }
    else none
  | .message frame =>
    if s.handler = [] ∧ s.connected = true then
      some { s with
        backupQueue := []
        handler := if frame = .notify then [.fetch] else []
        closeIssued := s.closeIssued || decide (frame = .invalidVersion) }
    else none
  | .handler =>
    if s.lockFree then
      match s.handler with
      | .subscribe :: rest => some { s.push subscribeRequest with handler := rest }
      | .fetch :: rest => some { s.push fetchRequest with handler := rest }
      | .resend :: rest => some { resendBackupRequests s with handler := rest }
      | [] => none
    else none

def outbox : Machine State Label := ⟨initial, step⟩

/-! ## What a step can do -/

inductive Step (s : State) : Label → State → Prop where
  | push {req} : Step s (.push req) (s.push req)
  | drain {now timeout u} : s.loop = .waiting → s.clock ≤ now → s.canSend = true →
      checkUniqueRequests s now = some u →
      Step s (.poll now timeout) (afterPoll u now (!u.requestQueue.isEmpty) timeout)
  | wait {now timeout} : s.loop = .waiting → s.clock ≤ now → s.canSend = false →
      Step s (.poll now timeout) (afterPoll s now false timeout)
  | pingTimeout : s.loop = .woken →
      Step s .pingTimeout { s with closeIssued := true, loop := .waiting }
  | enterInner : s.loop = .woken → Step s .enterInner { s with loop := .head }
  | head {now req rest} : s.loop = .head → s.clock ≤ now → s.requestQueue = req :: rest →
      Step s (.head now) { popFront s req rest now with clock := now }
  | innerDone : s.loop = .head → s.requestQueue = [] →
      Step s .innerDone { s with loop := .waiting }
  | send {ok req} : s.loop = .sending req → (ok = true → s.connected = true) →
      Step s (.send ok) { s with loop := .sent req, sends := s.sends ++ [(req, ok)] }
  | backup {req} : s.loop = .sent req →
      Step s .backup { s with backupQueue := s.backupQueue ++ [req], loop := .relocking }
  | relock : s.loop = .relocking → Step s .relock { s with loop := .head }
  | open : Step s .open { s with connected := true, handler := [.subscribe, .fetch] }
  | fail : s.connected = false → Step s .fail { s with handler := [.resend] }
  | close : Step s .close
      { s with connected := false, closeIssued := false, handler := [.resend] }
  | message {frame} : s.handler = [] → Step s (.message frame) { s with
      backupQueue := []
      handler := if frame = .notify then [.fetch] else []
      closeIssued := s.closeIssued || decide (frame = .invalidVersion) }
  | subscribe {rest} : s.handler = .subscribe :: rest →
      Step s .handler { s.push subscribeRequest with handler := rest }
  | fetch {rest} : s.handler = .fetch :: rest →
      Step s .handler { s.push fetchRequest with handler := rest }
  | resend {rest} : s.handler = .resend :: rest →
      Step s .handler { resendBackupRequests s with handler := rest }

theorem step_cases {s t : State} {l : Label} (h : step s l = some t) : Step s l t := by
  cases l with
  | push req =>
    obtain ⟨_, rfl⟩ := by simpa [step] using h
    exact .push
  | poll now timeout =>
    simp only [step, Option.ite_none_right_eq_some] at h
    obtain ⟨⟨waits, later⟩, h⟩ := h
    split at h
    · rename_i can
      obtain ⟨u, drained, rfl⟩ := Option.map_eq_some_iff.mp h
      exact .drain waits later can drained
    · rename_i cannot
      cases h
      exact .wait waits later (Bool.eq_false_iff.mpr cannot)
  | head now =>
    simp only [step, Option.ite_none_right_eq_some] at h
    obtain ⟨⟨at_head, later⟩, h⟩ := h
    split at h
    · cases h
    · rename_i req rest queue
      cases h
      exact .head at_head later queue
  | send ok =>
    simp only [step] at h
    split at h
    · rename_i req sending
      obtain ⟨on, h⟩ := Option.ite_none_right_eq_some.mp h
      cases h
      exact .send sending on
    · cases h
  | backup =>
    simp only [step] at h
    split at h
    · rename_i req sent
      cases h
      exact .backup sent
    · cases h
  | handler =>
    simp only [step, Option.ite_none_right_eq_some] at h
    obtain ⟨_, h⟩ := h
    split at h
    · rename_i rest here
      cases h
      exact .subscribe here
    · rename_i rest here
      cases h
      exact .fetch here
    · rename_i rest here
      cases h
      exact .resend here
    · cases h
  | pingTimeout =>
    obtain ⟨⟨woken, _⟩, h⟩ := Option.ite_none_right_eq_some.mp h
    cases h
    exact .pingTimeout woken
  | enterInner =>
    obtain ⟨woken, h⟩ := Option.ite_none_right_eq_some.mp h
    cases h
    exact .enterInner woken
  | innerDone =>
    obtain ⟨⟨at_head, empty⟩, h⟩ := Option.ite_none_right_eq_some.mp h
    cases h
    exact .innerDone at_head empty
  | relock =>
    obtain ⟨backed, h⟩ := Option.ite_none_right_eq_some.mp h
    cases h
    exact .relock backed
  | «open» =>
    obtain ⟨_, h⟩ := Option.ite_none_right_eq_some.mp h
    cases h
    exact .open
  | fail =>
    obtain ⟨⟨_, off⟩, h⟩ := Option.ite_none_right_eq_some.mp h
    cases h
    exact .fail off
  | close =>
    obtain ⟨_, h⟩ := Option.ite_none_right_eq_some.mp h
    cases h
    exact .close
  | message =>
    obtain ⟨⟨idle, _⟩, h⟩ := Option.ite_none_right_eq_some.mp h
    cases h
    exact .message idle

end TiojJudge.Outbox
