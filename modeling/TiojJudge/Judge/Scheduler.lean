import TiojJudge.Machine
import TiojJudge.Judge.Plan

/-!
# The scheduler

`WorkLoop`, `PushSubmission`, `DispatchTask`, `WaitTask` and `FinalizeTask` as a
machine. A label is one critical section of `task_mtx`, or the return of
`WaitAnyResult`; it carries what the outside decides: the submission that is
pushed, the handle `RunTask` returns, the result of a task.

`running` are the handles that `RunTask` gave out and `WaitAnyResult` has not
returned; `log` are the log lines and the calls of reporters so far.
-/

namespace TiojJudge.Judge
open TaskGraph

inductive Phase where
  /-- In `task_cv.wait`, or not started yet. -/
  | waiting
  | working
  /-- In `WaitTask`, with `task_mtx` released. -/
  | blocked
  | returned
  deriving DecidableEq

structure State where
  taskCount : Nat
  graph : Graph TaskInfo
  handleMap : UMap Int Nat
  submissionList : UMap Int SubmissionAndResult
  submissionIdMap : UMap Int Int
  cancelledList : Finset Int
  cancelledGroup : UMap Int (Finset Int)
  running : List Int
  taskRunning : Int
  phase : Phase
  log : List Event

def State.init : State := ⟨0, .empty, ∅, ∅, ∅, ∅, ∅, [], 0, .waiting, []⟩

/-! ## Enqueueing -/

/-- The submission that was being judged under `submission_id` is cancelled. -/
def State.supersede (s : State) (submissionId id : Int) : State :=
  let older := s.submissionIdMap.lookup submissionId
  { s with
    cancelledList := match older with
      | none => s.cancelledList
      | some old => insert old s.cancelledList
    submissionIdMap := s.submissionIdMap.insert submissionId id
    log := s.log ++ older.toList.map .superseded }

/-- The entry is kept when the key is taken, as `insert` does. -/
def State.enqueue (s : State) (id : Int) (sub : Submission) : State :=
  { s with
    taskCount := s.taskCount + sub.planTasks.length
    graph := (sub.planNodes id s.taskCount).foldl Graph.insert s.graph
    submissionList :=
      if id ∈ s.submissionList then s.submissionList else s.submissionList.insert id ⟨sub, .new⟩
    log := s.log ++ [.enqueued id sub s.taskCount] }

def State.queueSize (s : State) : Nat := s.submissionList.entries.length

def State.pushSubmission (s : State) (sub : Submission) (maxQueue : Nat) : Except Fault State :=
  if 0 < maxQueue ∧ maxQueue ≤ s.queueSize then .ok s
  else
    -- int id = sub.submission_internal_id
    let id := Numerals.toInt32 sub.submissionInternalId
    if sub.clamp.probStageExists then .ok ((s.enqueue id sub.clamp).supersede sub.submissionId id)
    else .error .noStage

/-! ## One task -/

/-- What the functions of the submission `entry` are called on. -/
def State.ctx (s : State) (entry : SubmissionAndResult) : Ctx where
  sub := entry.sub
  result := entry.result
  cancelled := entry.sub.submissionInternalId ∈ s.cancelledList
  cancelledGroup := s.cancelledGroup.lookup entry.sub.submissionInternalId
  log := []

/-- What they wrote, back in the global containers. -/
def State.putCtx (s : State) (key : Int) (c : Ctx) : State :=
  let id := c.sub.submissionInternalId
  { s with
    submissionList := s.submissionList.insert key ⟨c.sub, c.result⟩
    cancelledList := if c.cancelled then insert id s.cancelledList else s.cancelledList.erase id
    cancelledGroup := match c.cancelledGroup with
      | none => s.cancelledGroup.erase id
      | some groups => s.cancelledGroup.insert id groups
    log := s.log ++ c.log }

def State.emit (s : State) (e : Event) : State := { s with log := s.log ++ [e] }

def setup (cfg : Config) (c : Ctx) (files : BoxFiles) : Task → Except Fault (Bool × Ctx)
  | .compile subtask => .ok (setupCompile c subtask)
  | .execute subtask stage => (setupExecute c subtask stage files).map fun launch => (launch, c)
  | .scoring subtask stage => setupScoring cfg c subtask stage files
  | .summary => setupSummary c

/-- `outcome` is `none` for a task that was skipped. -/
def finalize (cfg : Config) (c : Ctx) (listSize : Nat) : Task → Option TaskOutcome → Except Fault Ctx
  | .compile subtask, some o => .ok (finalizeCompile cfg c subtask o)
  | .execute subtask stage, some o => finalizeExecute cfg c subtask stage o
  | .scoring subtask stage, some o => finalizeScoring cfg c subtask stage o false
  | .summary, some o => finalizeSummary cfg c o false listSize
  | .summary, none => finalizeSummary cfg c ⟨.zero, .empty⟩ true listSize
  | _, none => .ok c

/-- The end of `FinalizeSummary`; both maps are keyed by the internal id there. -/
def State.removeSubmission (s : State) (id : Int) : State :=
  { s with
    submissionIdMap := s.submissionIdMap.erase id
    submissionList := s.submissionList.erase id }

/-- The finalizer wrote `c`, and the task leaves the graph. -/
def State.settle (s : State) (n : Node TaskInfo) (outcome : Option TaskOutcome) (c : Ctx) : State :=
  let id := n.data.submissionInternalId
  let s := (s.emit (.finalizing n.id id n.data.task outcome)).putCtx id c
  let s := if n.data.task = .summary then s.removeSubmission c.sub.submissionInternalId else s
  { s with graph := s.graph.remove n }

def State.finalizeTask (cfg : Config) (s : State) (tid : Nat) (outcome : Option TaskOutcome) :
    Except Fault State :=
  match s.graph.find tid with
  | none => .error .noTask
  | some n =>
    match s.submissionList.lookup n.data.submissionInternalId with
    | none => .error .noSubmission
    | some entry =>
      (finalize cfg (s.ctx entry) s.queueSize n.data.task outcome).map fun c =>
        s.settle n outcome c

/-- `handle_map[handle] = id`, whatever `RunTask` returned. -/
def State.launch (s : State) (tid : Nat) (info : TaskInfo) (handle : Int) : State :=
  { s with
    handleMap := s.handleMap.insert handle tid
    running := if handle = -1 then s.running else handle :: s.running
    taskRunning := s.taskRunning + 1 }.emit
      (.launched tid info.submissionInternalId info.task handle)

/-- The task was taken off the queue, and its setup wrote `c`. -/
def State.start (s : State) (n : Node TaskInfo) (c : Ctx) : State :=
  let id := n.data.submissionInternalId
  ({ s with graph := s.graph.pop n.id }.emit (.dispatching n.id id n.data.task)).putCtx id c

def State.dispatchTask (cfg : Config) (s : State) (tid : Nat) (handle : Int) (files : BoxFiles) :
    Except Fault State :=
  match s.graph.find tid with
  | none => .error .noTask
  | some n =>
    match s.submissionList.lookup n.data.submissionInternalId with
    | none => .error .noSubmission
    | some entry =>
      match setup cfg (s.ctx entry) files n.data.task with
      | .error fault => .error fault
      | .ok (true, c) => .ok ((s.start n c).launch tid n.data handle)
      | .ok (false, c) => (s.start n c).finalizeTask cfg tid none

def State.returned (s : State) (handle : Int) : State :=
  { s with handleMap := s.handleMap.erase handle, running := s.running.erase handle }

def State.resume (s : State) : State :=
  { s with taskRunning := s.taskRunning - 1, phase := .working }

/-- `WaitTask` returned, and its task is finalized. -/
def State.resultTask (cfg : Config) (s : State) (handle : Int) (o : TaskOutcome) :
    Except Fault State :=
  match s.handleMap.lookup handle with
  | none => .error .noHandle
  | some tid =>
    ((s.returned handle).finalizeTask cfg tid (some o)).map State.resume

/-! ## The machine -/

inductive Label where
  | push (sub : Submission) (maxQueue : Nat)
  | wake
  /-- `files` are what a setup finds: those that it needs, or reads when it finalizes its task. -/
  | dispatch (tid : Nat) (handle : Int) (files : BoxFiles)
  | block
  | result (handle : Int) (o : TaskOutcome)
  | exit

/-- `PriorityCompare`. -/
def State.less (s : State) (x y : Nat) : Bool :=
  match s.graph.find x, s.graph.find y with
  | some m, some n => m.data.less n.data
  | _, _ => false

/-- The task is one that `task_queue.top()` can be. -/
def State.IsTop (s : State) (tid : Nat) : Prop :=
  tid ∈ s.graph.queue ∧ ∀ k ∈ s.graph.queue, s.less tid k = false

/-- `WaitAnyResult` can return this: the result of a running task, or `{-1, {}}` when
there is none. -/
def State.CanReturn (s : State) (handle : Int) (o : TaskOutcome) : Prop :=
  handle ∈ s.running ∨ s.running = [] ∧ handle = -1 ∧ o.res = .zero

/-- Where `WorkLoop` is for the label, and what `RunTask` can return: `-1`, or a
handle that is not in use. -/
def Enabled (cfg : Config) (s : State) : Label → Prop
  | .push .. => s.phase ≠ .working
  | .wake => s.phase = .waiting ∧ s.graph.queue ≠ []
  | .dispatch tid handle _ =>
    s.phase = .working ∧ s.taskRunning < cfg.kMaxParallel ∧ s.IsTop tid ∧
      (handle = -1 ∨ 0 ≤ handle ∧ handle ∉ s.running)
  | .block =>
    s.phase = .working ∧ (s.taskRunning ≠ 0 ∨ s.graph.queue ≠ []) ∧
      ¬ (s.taskRunning < cfg.kMaxParallel ∧ s.graph.queue ≠ [])
  | .result handle o => s.phase = .blocked ∧ s.CanReturn handle o
  | .exit => s.phase = .working ∧ s.taskRunning = 0 ∧ s.graph.queue = []

instance (s : State) (tid : Nat) : Decidable (s.IsTop tid) :=
  inferInstanceAs (Decidable (_ ∧ _))

instance (s : State) (handle : Int) (o : TaskOutcome) : Decidable (s.CanReturn handle o) :=
  inferInstanceAs (Decidable (_ ∨ _))

instance (cfg : Config) (s : State) : DecidablePred (Enabled cfg s)
  | .push .. | .wake | .dispatch .. | .block | .result .. | .exit => by
    unfold Enabled
    infer_instance

def perform (cfg : Config) (s : State) : Label → Except Fault State
  | .push sub maxQueue => s.pushSubmission sub maxQueue
  | .wake => .ok { s with phase := .working, taskRunning := 0 }
  | .dispatch tid handle files => s.dispatchTask cfg tid handle files
  | .block => .ok { s with phase := .blocked }
  | .result handle o => s.resultTask cfg handle o
  | .exit => .ok { s with phase := if cfg.loop then .waiting else .returned }

/-- `WorkLoop(cfg.loop)` with any pushes; a step that faults is not one. -/
def judge (cfg : Config) : Machine State Label where
  init := .init
  step s l := if Enabled cfg s l then (perform cfg s l).toOption else none

/-! ## A small submission

What the runs on fixed inputs are made of. -/

/-- The output of a checker, and the only JSON text that occurs. -/
def acceptText : List Char := "\x7b\"verdict\":\"AC\"\x7d".toList

def sampleConfig (kMaxParallel : Int) : Config where
  kMaxParallel := kMaxParallel
  loop := false
  kTimeMultiplier := 1
  parseJson text := if text = acceptText then some [("verdict", .str "AC")] else none
  lroundNaN := 0
  filterMessage := id

/-- A testdata without limits on memory. -/
def sampleItem (ignoreVerdict : Bool) (tdGroups : List Int) : TestdataItem :=
  ⟨0, 0, 65536, 1000000, ignoreVerdict, tdGroups⟩

/-- One stage, the default checker, no summary program. -/
def sampleSubmission (id submissionId : Int) (testdata : List TestdataItem) : Submission where
  submissionInternalId := id
  submissionId := submissionId
  priority := 0
  specjudgeType := .normal
  summaryType := .none
  stages := 1
  problemProgStages := ∅
  judgeBetweenStages := false
  judgeAbnormallyTerminated := false
  specjudgeReAsWa := false
  sandboxStrict := true
  testdata := testdata
  groupScore := [100000000]
  skipGroup := false
  reporter := ⟨true, true, true, true, true, true⟩
  reportIntermediateStage := false

def exited (status : Int) : CjailResult := { CjailResult.zero with siCode := CLD_EXITED, siStatus := status }

/-- Compiled, ran, or accepted. -/
def goodOutcome : TaskOutcome :=
  ⟨exited 0, { BoxFiles.empty with compileOutput := true, output := some acceptText }⟩

/-- A task that ran alone: its launch and its return. -/
def runAlone (tid : Nat) (o : TaskOutcome) : List Label :=
  [.dispatch tid 5 .empty, .block, .result 5 o]

end TiojJudge.Judge
