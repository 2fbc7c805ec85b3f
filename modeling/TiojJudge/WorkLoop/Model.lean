import Mathlib.Algebra.Order.BigOperators.Group.List
import Mathlib.Algebra.Order.Group.Nat
import TiojJudge.Judge.Completion
import TiojJudge.Runner.Results

/-!
# The loop and the tasks it runs

`DispatchTask` with the `RunTask` it calls, and `WaitTask` with its
`WaitAnyResult`: the scheduler and the runner as one machine. What the scheduler
alone leaves open, the handle that `RunTask` returns and the result that
`WaitAnyResult` has, comes from the runner here; open are only what `pipe` and
`fork` return, what the child processes write, and which entry `finished.begin()`
points to.

`judgeLabel` and `runnerLabel` say what a step is for each of the two.
-/

namespace TiojJudge.WorkLoop
open Machine
open Judge (CjailResult TaskOutcome BoxFiles Submission Fault)

structure Config where
  judge : Judge.Config
  runner : Runner.Config

structure State where
  judge : Judge.State
  runner : Runner.State
  /-- The tasks that `RunTask` made a child process for, in this order. -/
  children : List Nat

/-- Whether the setup of the task asks for `RunTask`. -/
def launches (cfg : Judge.Config) (s : Judge.State) (tid : Nat) (files : BoxFiles) : Bool :=
  match s.graph.find tid with
  | none => false
  | some n =>
    match s.submissionList.lookup n.data.submissionInternalId with
    | none => false
    | some entry =>
      match Judge.setup cfg (s.ctx entry) files n.data.task with
      | .ok (launch, _) => launch
      | .error _ => false

/-- What `RunTask` returns. -/
def handleOf : Runner.Spawn → Int
  | .noPipe | .noFork _ => -1
  | .child fd _ => fd

def childOf (tid : Nat) : Runner.Spawn → List Nat
  | .noPipe | .noFork _ => []
  | .child .. => [tid]

/-- A handle that no task has; for a task that is skipped, and has none. -/
def unusedHandle (running : List Int) : Int := (running.map Int.toNat).sum + 1

def State.dispatchTask (cfg : Config) (s : State) (tid : Nat) (spawn : Runner.Spawn)
    (files : BoxFiles) : Option State :=
  if launches cfg.judge s.judge tid files then
    (s.runner.runTask cfg.runner spawn).bind fun runner =>
      (s.judge.dispatchTask cfg.judge tid (handleOf spawn) files).toOption.map fun judge =>
        { judge, runner, children := s.children ++ childOf tid spawn }
  else
    (s.judge.dispatchTask cfg.judge tid (unusedHandle s.judge.running) files).toOption.map
      fun judge => { s with judge }

/-- What the call that has just returned gave. -/
def returned (s : Runner.State) : CjailResult :=
  match s.log.getLast? with
  | some (.returned _ res) => res
  | _ => .zero

/-- `WaitTask` and `FinalizeTask`. -/
def State.waitTask (cfg : Config) (s : State) (handle : Int) (files : BoxFiles) : Option State :=
  (s.runner.waitAny handle).bind fun runner =>
    (s.judge.resultTask cfg.judge handle ⟨returned runner, files⟩).toOption.map fun judge =>
      { s with judge, runner }

inductive Label where
  | push (sub : Submission) (maxQueue : Nat)
  | wake
  | dispatch (tid : Nat) (spawn : Runner.Spawn) (files : BoxFiles)
  | block
  /-- The child wrote its result and exits, or is killed before that. -/
  | child (fd : Int) (written : Option CjailResult)
  | result (handle : Int) (files : BoxFiles)
  | exit

def Enabled (cfg : Config) (s : State) : Label → Prop
  | .push .. => s.judge.phase ≠ .working
  | .wake => s.judge.phase = .waiting ∧ s.judge.graph.queue ≠ []
  | .dispatch tid spawn _ =>
    s.judge.phase = .working ∧ s.judge.taskRunning < cfg.judge.kMaxParallel ∧ s.judge.IsTop tid ∧
      spawn.Fresh s.runner
  | .block =>
    s.judge.phase = .working ∧ (s.judge.taskRunning ≠ 0 ∨ s.judge.graph.queue ≠ []) ∧
      ¬ (s.judge.taskRunning < cfg.judge.kMaxParallel ∧ s.judge.graph.queue ≠ [])
  | .child .. => True
  | .result .. => s.judge.phase = .blocked
  | .exit => s.judge.phase = .working ∧ s.judge.taskRunning = 0 ∧ s.judge.graph.queue = []

instance (cfg : Config) (s : State) : DecidablePred (Enabled cfg s)
  | .push .. | .wake | .dispatch .. | .block | .child .. | .result .. | .exit => by
    unfold Enabled
    infer_instance

/-- The step is one of the scheduler alone. -/
def State.alone (cfg : Config) (s : State) (l : Judge.Label) : Option State :=
  (Judge.perform cfg.judge s.judge l).toOption.map fun judge => { s with judge }

def perform (cfg : Config) (s : State) : Label → Option State
  | .push sub maxQueue => s.alone cfg (.push sub maxQueue)
  | .wake => s.alone cfg .wake
  | .dispatch tid spawn files => s.dispatchTask cfg tid spawn files
  | .block => s.alone cfg .block
  | .child fd written => (s.runner.exit fd written).map fun runner => { s with runner }
  | .result handle files => s.waitTask cfg handle files
  | .exit => s.alone cfg .exit

/-- `WorkLoop` with any pushes and any children. -/
def workLoop (cfg : Config) : Machine State Label where
  init := ⟨.init, .init, []⟩
  step s l := if Enabled cfg s l then perform cfg s l else none

/-! ## Its two parts -/

def State.judgeLabel (cfg : Config) (s : State) : Label → Option Judge.Label
  | .push sub maxQueue => some (.push sub maxQueue)
  | .wake => some .wake
  | .dispatch tid spawn files => some <| .dispatch tid
      (if launches cfg.judge s.judge tid files then handleOf spawn else unusedHandle s.judge.running)
      files
  | .block => some .block
  | .child .. => none
  | .result handle files =>
    some (.result handle ⟨((s.runner.waitAny handle).map returned).getD .zero, files⟩)
  | .exit => some .exit

def State.runnerLabel (cfg : Config) (s : State) : Label → Option Runner.Label
  | .dispatch tid spawn files =>
    if launches cfg.judge s.judge tid files then some (.run spawn) else none
  | .child fd written => some (.exit fd written)
  | .result handle _ => some (.waitAny handle)
  | .push .. | .wake | .block | .exit => none

/-- What the step is for the scheduler meets `P`. -/
def meets (cfg : Config) (P : Judge.State → Judge.Label → Prop) (s : State) (l : Label) : Prop :=
  ∀ l' ∈ s.judgeLabel cfg l, P s.judge l'

instance (cfg : Config) (P : Judge.State → Judge.Label → Prop) [∀ s l, Decidable (P s l)]
    (s : State) (l : Label) : Decidable (meets cfg P s l) :=
  match h : s.judgeLabel cfg l with
  | none => isTrue (by simp [meets, h])
  | some l' => decidable_of_iff (P s.judge l') (by simp [meets, h])

variable {cfg : Config} {s t : State} {l : Label}

theorem step_iff : (workLoop cfg).step s l = some t ↔ Enabled cfg s l ∧ perform cfg s l = some t := by
  simp [workLoop]

theorem toOption_eq_some {x : Except Fault Judge.State} {j : Judge.State} :
    x.toOption = some j ↔ x = .ok j := by
  cases x <;> simp [Except.toOption]

theorem alone_iff {l : Judge.Label} : s.alone cfg l = some t ↔
    Judge.perform cfg.judge s.judge l = .ok t.judge ∧ t.runner = s.runner ∧
      t.children = s.children := by
  simp only [State.alone, Option.map_eq_some_iff, toOption_eq_some]
  constructor
  · rintro ⟨j, done, rfl⟩
    exact ⟨done, rfl, rfl⟩
  · rintro ⟨done, runner, children⟩
    exact ⟨_, done, by rw [← runner, ← children]⟩

theorem dispatchTask_iff {tid : Nat} {spawn : Runner.Spawn} {files : BoxFiles} :
    s.dispatchTask cfg tid spawn files = some t ↔
      if launches cfg.judge s.judge tid files = true then
        s.runner.runTask cfg.runner spawn = some t.runner ∧
        s.judge.dispatchTask cfg.judge tid (handleOf spawn) files = .ok t.judge ∧
        t.children = s.children ++ childOf tid spawn
      else
        s.judge.dispatchTask cfg.judge tid (unusedHandle s.judge.running) files = .ok t.judge ∧
        t.runner = s.runner ∧ t.children = s.children := by
  unfold State.dispatchTask
  split_ifs with launch
  · simp only [Option.bind_eq_some_iff, Option.map_eq_some_iff, toOption_eq_some]
    constructor
    · rintro ⟨r, ran, j, done, rfl⟩
      exact ⟨ran, done, rfl⟩
    · rintro ⟨ran, done, same⟩
      exact ⟨_, ran, _, done, by rw [← same]⟩
  · simp only [Option.map_eq_some_iff, toOption_eq_some]
    constructor
    · rintro ⟨j, done, rfl⟩
      exact ⟨done, rfl, rfl⟩
    · rintro ⟨done, runner, children⟩
      exact ⟨_, done, by rw [← runner, ← children]⟩

theorem waitTask_iff {handle : Int} {files : BoxFiles} :
    s.waitTask cfg handle files = some t ↔
      s.runner.waitAny handle = some t.runner ∧
      s.judge.resultTask cfg.judge handle ⟨returned t.runner, files⟩ = .ok t.judge ∧
      t.children = s.children := by
  unfold State.waitTask
  simp only [Option.bind_eq_some_iff, Option.map_eq_some_iff, toOption_eq_some]
  constructor
  · rintro ⟨r, waited, j, done, rfl⟩
    exact ⟨waited, done, rfl⟩
  · rintro ⟨waited, done, same⟩
    exact ⟨_, waited, _, done, by rw [← same]⟩

theorem unusedHandle_fresh (running : List Int) :
    0 ≤ unusedHandle running ∧ unusedHandle running ∉ running := by
  refine ⟨by unfold unusedHandle; omega, fun here => ?_⟩
  have most := List.single_le_sum (fun _ _ => Nat.zero_le _) _ (List.mem_map_of_mem (f := Int.toNat) here)
  unfold unusedHandle at most
  omega

/-! ## A small machine -/

/-- With a pinned CPU for each task. -/
def sampleConfig (kMaxParallel : Nat) : Config :=
  ⟨Judge.sampleConfig kMaxParallel, ⟨kMaxParallel, fun _ => true⟩⟩

end TiojJudge.WorkLoop
