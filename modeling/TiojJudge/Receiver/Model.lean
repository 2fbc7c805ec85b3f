import TiojJudge.Judge.Queue

/-!
# Receiving submissions

`OneSubmissionThread`, the reporter of its submissions and
`GetReceivedSubmissionID`, beside the scheduler they share the queue with. A
label is one access to what the threads share; the threads that wait for
`judge_mtx` have no state, and the one that has it is `receiver`.

A queue is read or pushed to when `task_mtx` is free: not while `WorkLoop` works.
-/

namespace TiojJudge.Receiver
open Judge (Submission Reporter Event finalSizes)

/-- `kMaxQueue` is the setting `max_submission_queue_size`. -/
structure Config where
  judge : Judge.Config
  kMaxQueue : Nat

inductive Phase where
  /-- No thread has `judge_mtx`. -/
  | idle
  /-- The queue was not full. -/
  | accepted (id : Int)
  | announced (id : Int)
  | fetching (id : Int)
  /-- In `DealOneSubmission`, before its end. -/
  | dealing (id : Int)
  | dealt (id : Int) (result : Bool)
  /-- Before the `TryFetchSubmission` of a failure. -/
  | failed (id : Int)
  deriving DecidableEq, Repr

/-- `PushSubmission` was called. -/
def Phase.pushed : Phase → Bool
  | .dealt _ true => true
  | _ => false

structure State where
  judge : Judge.State
  receivingSubmissionId : Int
  submissionInternalIdSeq : Nat
  /-- How often `TryFetchSubmission` was called. -/
  fetches : Nat
  receiver : Phase
  /-- `ret` of `GetReceivedSubmissionID`, between its two reads. -/
  ret : Option (List Int)

/-- `std::atomic_int receiving_submission_id;` starts at zero. -/
def State.init : State := ⟨.init, 0, 0, 0, .idle, none⟩

/-- `server_reporter`, which does not report compiler messages on their own. -/
def serverReporter : Reporter where
  reportStartCompiling := true
  reportOverallResult := true
  reportScoringResult := true
  reportCEMessage := false
  reportJCEMessage := false
  reportFinalized := true

def State.tryFetchSubmission (s : State) : State := { s with fetches := s.fetches + 1 }

/-- Its `ReportFinalized`, for the events of a step: `queue_size_before_pop == kMaxQueue`. -/
def fetchesOf (kMaxQueue : Nat) (events : List Event) : Nat := (finalSizes events).count kMaxQueue

/-- A step of the scheduler, with what the reporter does. -/
def State.work (cfg : Config) (s : State) (l : Judge.Label) : Option State :=
  ((Judge.judge cfg.judge).step s.judge l).map fun t =>
    { s with
      judge := t
      fetches := s.fetches + fetchesOf cfg.kMaxQueue (t.log.drop s.judge.log.length) }

/-- What `DealOneSubmission` pushes under the id of its data. -/
def State.received (s : State) (id : Int) (sub : Submission) : Submission :=
  { sub with
    submissionId := id
    submissionInternalId := s.submissionInternalIdSeq + 1
    reporter := serverReporter }

/-- The end of a `DealOneSubmission` that has downloaded and parsed everything. -/
def State.deal (cfg : Config) (s : State) (id : Int) (sub : Submission) : Option State :=
  ((Judge.judge cfg.judge).step s.judge (.push (s.received id sub) 0)).map fun t =>
    { s with
      judge := t
      submissionInternalIdSeq := s.submissionInternalIdSeq + 1
      receiver := .dealt id true }

/-- `GetReceivedSubmissionID` returns this after its second read. -/
def State.receivedSubmissionId (s : State) (ret : List Int) : List Int :=
  if s.receivingSubmissionId = -1 then ret else ret ++ [s.receivingSubmissionId]

inductive Label where
  /-- A step of the scheduler that pushes nothing. -/
  | work (l : Judge.Label)
  /-- `TryFetchSubmission` on a new connection, a notification or a frame that is no submission. -/
  | fetch
  /-- A thread gets `judge_mtx`, and the queue has its first test. -/
  | lock (id : Int)
  | announce
  /-- The second test. -/
  | test
  | tryFetch
  | push (sub : Submission)
  | fail
  | reset
  | readQueue
  | readVariable

def step (cfg : Config) (s : State) : Label → Option State
  | .work l => if l.isPush then none else s.work cfg l
  | .fetch => some s.tryFetchSubmission
  | .lock id =>
    if s.receiver = .idle ∧ s.judge.phase ≠ .working then
      if cfg.kMaxQueue ≤ s.judge.queueSize then some s else some { s with receiver := .accepted id }
    else none
  | .announce =>
    match s.receiver with
    | .accepted id => some { s with receivingSubmissionId := id, receiver := .announced id }
    | _ => none
  | .test =>
    match s.receiver with
    | .announced id =>
      if s.judge.phase = .working then none
      else if s.judge.queueSize + 1 < cfg.kMaxQueue then some { s with receiver := .fetching id }
      else some { s with receiver := .dealing id }
    | _ => none
  | .tryFetch =>
    match s.receiver with
    | .fetching id => some { s.tryFetchSubmission with receiver := .dealing id }
    | .failed _ => some { s.tryFetchSubmission with receiver := .idle }
    | _ => none
  | .push sub =>
    match s.receiver with
    | .dealing id => s.deal cfg id sub
    | _ => none
  | .fail =>
    match s.receiver with
    | .dealing id => some { s with receiver := .dealt id false }
    | _ => none
  | .reset =>
    match s.receiver with
    | .dealt id result =>
      some { s with receivingSubmissionId := -1, receiver := if result then .idle else .failed id }
    | _ => none
  | .readQueue =>
    if s.ret = none ∧ s.judge.phase ≠ .working then
      some { s with ret := some s.judge.queuedSubmissionId }
    else none
  | .readVariable => if s.ret = none then none else some { s with ret := none }

def receiver (cfg : Config) : Machine State Label := ⟨.init, step cfg⟩

/-! ## What a step can do -/

inductive Step (cfg : Config) (s : State) : Label → State → Prop where
  | work {l t} : l.isPush = false → (Judge.judge cfg.judge).step s.judge l = some t →
      Step cfg s (.work l) { s with
        judge := t
        fetches := s.fetches + fetchesOf cfg.kMaxQueue (t.log.drop s.judge.log.length) }
  | fetch : Step cfg s .fetch s.tryFetchSubmission
  | rejected {id} : s.receiver = .idle → cfg.kMaxQueue ≤ s.judge.queueSize → Step cfg s (.lock id) s
  | accepted {id} : s.receiver = .idle → s.judge.queueSize < cfg.kMaxQueue →
      Step cfg s (.lock id) { s with receiver := .accepted id }
  | announce {id} : s.receiver = .accepted id →
      Step cfg s .announce { s with receivingSubmissionId := id, receiver := .announced id }
  | asks {id} : s.receiver = .announced id → s.judge.queueSize + 1 < cfg.kMaxQueue →
      Step cfg s .test { s with receiver := .fetching id }
  | full {id} : s.receiver = .announced id → cfg.kMaxQueue ≤ s.judge.queueSize + 1 →
      Step cfg s .test { s with receiver := .dealing id }
  | asked {id} : s.receiver = .fetching id →
      Step cfg s .tryFetch { s.tryFetchSubmission with receiver := .dealing id }
  | gaveUp {id} : s.receiver = .failed id →
      Step cfg s .tryFetch { s.tryFetchSubmission with receiver := .idle }
  | push {id sub t} : s.receiver = .dealing id →
      (Judge.judge cfg.judge).step s.judge (.push (s.received id sub) 0) = some t →
      Step cfg s (.push sub) { s with
        judge := t
        submissionInternalIdSeq := s.submissionInternalIdSeq + 1
        receiver := .dealt id true }
  | fail {id} : s.receiver = .dealing id → Step cfg s .fail { s with receiver := .dealt id false }
  | done {id} : s.receiver = .dealt id true →
      Step cfg s .reset { s with receivingSubmissionId := -1, receiver := .idle }
  | failed {id} : s.receiver = .dealt id false →
      Step cfg s .reset { s with receivingSubmissionId := -1, receiver := .failed id }
  | readQueue : s.ret = none →
      Step cfg s .readQueue { s with ret := some s.judge.queuedSubmissionId }
  | readVariable {ret} : s.ret = some ret → Step cfg s .readVariable { s with ret := none }

variable {cfg : Config} {s t : State}

theorem step_cases {l : Label} (h : (receiver cfg).step s l = some t) : Step cfg s l t := by
  simp only [receiver] at h
  cases l with
  | work l =>
    simp only [step, State.work, Option.ite_none_left_eq_some, Bool.not_eq_true,
      Option.map_eq_some_iff] at h
    obtain ⟨quiet, u, worked, rfl⟩ := h
    exact .work quiet worked
  | fetch =>
    cases h
    exact .fetch
  | lock id =>
    simp only [step, Option.ite_none_right_eq_some] at h
    obtain ⟨⟨idle, _⟩, h⟩ := h
    split at h
    · rename_i full
      cases h
      exact .rejected idle full
    · rename_i room
      cases h
      exact .accepted idle (Nat.lt_of_not_le room)
  | announce =>
    simp only [step] at h
    split at h
    · rename_i id here
      cases h
      exact .announce here
    · cases h
  | test =>
    simp only [step] at h
    split at h
    · rename_i id here
      rw [Option.ite_none_left_eq_some] at h
      obtain ⟨_, h⟩ := h
      split at h
      · rename_i room
        cases h
        exact .asks here room
      · rename_i full
        cases h
        exact .full here (Nat.le_of_not_lt full)
    · cases h
  | tryFetch =>
    simp only [step] at h
    split at h
    · rename_i id here
      cases h
      exact .asked here
    · rename_i id here
      cases h
      exact .gaveUp here
    · cases h
  | push sub =>
    simp only [step] at h
    split at h
    · rename_i id here
      obtain ⟨u, pushed, rfl⟩ := Option.map_eq_some_iff.mp h
      exact .push here pushed
    · cases h
  | fail =>
    simp only [step] at h
    split at h
    · rename_i id here
      cases h
      exact .fail here
    · cases h
  | reset =>
    simp only [step] at h
    split at h
    · rename_i id result here
      cases h
      cases result with
      | true => exact .done here
      | false => exact .failed here
    · cases h
  | readQueue =>
    simp only [step, Option.ite_none_right_eq_some] at h
    obtain ⟨⟨free, _⟩, h⟩ := h
    cases h
    exact .readQueue free
  | readVariable =>
    simp only [step, Option.ite_none_left_eq_some] at h
    obtain ⟨reading, h⟩ := h
    cases h
    obtain ⟨ret, hret⟩ := Option.ne_none_iff_exists'.mp reading
    exact .readVariable hret

/-! ## A small run

What the runs on fixed inputs are made of: submissions without testdata. -/

def sampleConfig (kMaxQueue : Nat) : Config := ⟨{ Judge.sampleConfig 1 with loop := true }, kMaxQueue⟩

def samplePush : Label := .push (Judge.sampleSubmission 0 0 [])

/-- A receive that does not ask for the next submission. -/
def receive (id : Int) : List Label := [.lock id, .announce, .test, samplePush, .reset]

end TiojJudge.Receiver
