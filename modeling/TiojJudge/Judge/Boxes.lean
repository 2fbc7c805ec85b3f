import TiojJudge.FileTree
import TiojJudge.Judge.Scheduler

/-!
# The boxes

The files under `kBoxRoot`, as far as the judge moves them or reads them: what the
setups and finalizers do with them, beside what they do in the scheduler. A running
task writes to its own box only.

The programs, codes, testdata and meta files that a setup copies into the box of its
task are left out, since only the task reads them; they are among its writes. So is
what a compilation leaves for the other tasks. A `tmpfs` that is mounted hides what
was in its directory.
-/

namespace TiojJudge.Judge

inductive Box where
  | compile (subtask : CompileSubtask)
  | execute (td stage : Nat)
  | scoring (td stage : Nat)
  | summary
  deriving DecidableEq

def Task.box : Task → Box
  | .compile subtask => .compile subtask
  | .execute subtask stage => .execute subtask stage
  | .scoring subtask stage => .scoring subtask stage
  | .summary => .summary

/-- A component of a path below `kBoxRoot`. -/
inductive Part where
  | run (id : Int)
  | box (b : Box)
  | name (name : String)
  deriving DecidableEq

abbrev Path := List Part

inductive File where
  | regular (content : List Char)
  /-- A symbolic link, a FIFO, a directory. -/
  | irregular
  deriving DecidableEq

abbrev Files := FileTree Part File

/-- `IsRegularFileNoFollow`, of what is found at a path. -/
def isRegularFile : Option File → Bool
  | some (.regular _) => true
  | _ => false

/-- What an `ifstream` of it reads. -/
def fileText : Option File → Option (List Char)
  | some (.regular content) => some content
  | _ => none

/-! ## Paths -/

def submissionRunPath (id : Int) : Path := [.run id]

def boxPath (id : Int) (b : Box) : Path := [.run id, .box b]

def workdir (path : Path) : Path := path ++ [.name "workdir"]

def compileBoxMessage (id : Int) (subtask : CompileSubtask) : Path :=
  workdir (boxPath id (.compile subtask)) ++ [.name "message"]

def executeBoxPath (id : Int) (td stage : Nat) : Path := boxPath id (.execute td stage)

def executeBoxTdStrictPath (id : Int) (td stage : Nat) : Path :=
  executeBoxPath id td stage ++ [.name "td"]

def executeBoxInput (id : Int) (td stage : Nat) (strict : Bool) : Path :=
  (if strict then executeBoxTdStrictPath id td stage else workdir (executeBoxPath id td stage)) ++
    [.name "input"]

def executeBoxOutput (id : Int) (td stage : Nat) (strict : Bool) : Path :=
  (if strict then executeBoxTdStrictPath id td stage else workdir (executeBoxPath id td stage)) ++
    [.name "output"]

def executeBoxFinalOutput (id : Int) (td stage : Nat) : Path :=
  executeBoxPath id td stage ++ [.name "output"]

def scoringBoxPath (id : Int) (td stage : Nat) : Path := boxPath id (.scoring td stage)

def scoringBoxUserOutput (id : Int) (td stage : Nat) : Path :=
  workdir (scoringBoxPath id td stage) ++ [.name "user_output"]

def scoringBoxOutput (id : Int) (td stage : Nat) : Path :=
  workdir (scoringBoxPath id td stage) ++ [.name "output"]

def scoringBoxTempdir (id : Int) (td stage : Nat) : Path :=
  scoringBoxPath id td stage ++ [.name "tmp"]

/-- A file in the `judge_dir` of a checker of type `SPECJUDGE_KATTIS`. -/
def judgeDirFile (id : Int) (td stage : Nat) (name : String) : Path :=
  scoringBoxTempdir id td stage ++ [.name name]

def summaryBoxOutput (id : Int) : Path := workdir (boxPath id .summary) ++ [.name "output"]

def summaryBoxCEMessage (id : Int) : Path := workdir (boxPath id .summary) ++ [.name "ce_message"]

/-! ## Setups and finalizers -/

section Files

variable (cfg : Config) (c : Ctx)

/-- `SetupExecute`, when it returns `true`. -/
def launchExecuteFiles (i j : Nat) (files : Files) : Files :=
  let id := c.sub.submissionInternalId
  let files := if c.sub.sandboxStrict then files else files.removeAll (workdir (executeBoxPath id i j))
  if j = 0 then files
  else files.move (executeBoxFinalOutput id i (j - 1)) (executeBoxInput id i j c.sub.sandboxStrict)

def setupExecuteFiles (i j : Nat) (box : BoxFiles) (files : Files) : Files :=
  match setupExecute c i j box with
  | .ok true => launchExecuteFiles c i j files
  | _ => files

def finalizeExecuteFiles (i j : Nat) (files : Files) : Files :=
  let id := c.sub.submissionInternalId
  let output := executeBoxOutput id i j c.sub.sandboxStrict
  let dest := executeBoxFinalOutput id i j
  let files :=
    if isRegularFile (files output) then files.move output dest
    -- non-regular files treated as empty file
    else files.put dest (some (.regular []))
  let files := files.removeAll (workdir (executeBoxPath id i j))
  if 0 < j then files.removeAll (executeBoxPath id i (j - 1)) else files

/-- `ReadSpecjudgeResult`: the part that moves a file, in `ReadKattisSpecjudgeResult`. -/
def readSpecjudgeFiles (i j : Nat) (o : TaskOutcome) (files : Files) : Files :=
  let id := c.sub.submissionInternalId
  let nextpass := judgeDirFile id i j "nextpass.in"
  if !specjudgeFailed c.sub.specjudgeType o && c.sub.specjudgeType == .specjudgeKattis &&
      o.res.siStatus == 42 && !c.sub.lastStage j && isRegularFile (files nextpass) then
    files.move nextpass (scoringBoxUserOutput id i j)
  else files

/-- `FinalizeScoring`, until the user output is back in the execute box. -/
def moveUserOutputBack (i j : Nat) (o : TaskOutcome) (skipped : Bool) (files : Files) : Files :=
  let id := c.sub.submissionInternalId
  let td := scoringOutcome cfg c.sub j o skipped (c.result.tdResults[i]?.getD .new)
  let files := if skipped then files else readSpecjudgeFiles c i j o files
  if !c.sub.lastStage j && !skipped && !td.skipStage && c.sub.specjudgeType != .skip then
    files.move (scoringBoxUserOutput id i j) (executeBoxFinalOutput id i j)
  else files

/-- The rest of it: testdata-related files are removed. -/
def removeTestdataFiles (i j : Nat) (skipped : Bool) (files : Files) : Files :=
  let id := c.sub.submissionInternalId
  let files :=
    if c.sub.lastStage j then
      let files := files.removeAll (executeBoxPath id i (c.sub.numStages - 1))
      if skipped then files else files.removeAll (scoringBoxPath id i (c.sub.numStages - 1))
    else files
  if c.sub.judgeBetweenStages ∧ 0 < j then files.removeAll (scoringBoxPath id i (j - 1)) else files

def finalizeScoringFiles (i j : Nat) (o : TaskOutcome) (skipped : Bool) (files : Files) : Files :=
  removeTestdataFiles c i j skipped (moveUserOutputBack cfg c i j o skipped files)

/-- `SetupScoring`, when it returns `true`. -/
def launchScoringFiles (i j : Nat) (files : Files) : Files :=
  let id := c.sub.submissionInternalId
  let userOutput := executeBoxFinalOutput id i j
  let scoringUserOutput := scoringBoxUserOutput id i j
  let files :=
    if (files userOutput).isSome then files.move userOutput scoringUserOutput
    -- touch file if not exist (if multistage skipped)
    else files.put scoringUserOutput (some (.regular []))
  if c.sub.judgeBetweenStages = false ∨ j = 0 then files
  else files.moveAll (scoringBoxTempdir id i (j - 1)) (scoringBoxTempdir id i j)

def setupScoringFiles (i j : Nat) (box : BoxFiles) (files : Files) : Files :=
  let id := c.sub.submissionInternalId
  if c.result.verdict ≠ .nul then files
  else
    match c.sub.testdata[i]?, c.result.tdResults[i]? with
    | some item, some td =>
      if c.isCancelled item.tdGroups then files
      else if td.skipStage then files
      else if td.verdict ≠ .nul ∧ c.sub.judgeAbnormallyTerminated = false then
        finalizeScoringFiles cfg c i j ⟨.zero, box⟩ true files
      else if c.sub.specjudgeType = .skip then
        finalizeScoringFiles cfg c i j ⟨.zero, box⟩ false
          (files.move (executeBoxFinalOutput id i j) (scoringBoxOutput id i j))
      else launchScoringFiles c i j files
    | _, _ => files

/-- `SetupSummary`, when it returns `true`. -/
def setupSummaryFiles (files : Files) : Files :=
  let id := c.sub.submissionInternalId
  match setupSummary c with
  | .ok (true, _) =>
    let message := compileBoxMessage id .userprog
    if isRegularFile (files message) then files.move message (summaryBoxCEMessage id)
    else files.put (summaryBoxCEMessage id) (some (.regular []))
  | _ => files

def setupFiles (box : BoxFiles) (files : Files) : Task → Files
  | .compile _ => files
  | .execute subtask stage => setupExecuteFiles c subtask stage box files
  | .scoring subtask stage => setupScoringFiles cfg c subtask stage box files
  | .summary => setupSummaryFiles c files

def finalizeFiles (files : Files) : Task → Option TaskOutcome → Files
  | .execute subtask stage, some _ => finalizeExecuteFiles c subtask stage files
  | .scoring subtask stage, some o => finalizeScoringFiles cfg c subtask stage o false files
  | .summary, _ => files.removeAll (submissionRunPath c.sub.submissionInternalId)
  | _, _ => files

end Files

/-! ## What a task does not touch -/

section Paths

variable {path : Path} {id : Int} {i j : Nat} {strict : Bool} {name : String}

theorem below_workdir : path <+: workdir path := List.prefix_append _ _

theorem below_executeBoxInput : executeBoxPath id i j <+: executeBoxInput id i j strict := by
  unfold executeBoxInput executeBoxTdStrictPath workdir
  split <;> simp

theorem below_executeBoxOutput : executeBoxPath id i j <+: executeBoxOutput id i j strict := by
  unfold executeBoxOutput executeBoxTdStrictPath workdir
  split <;> simp

theorem below_executeBoxFinalOutput : executeBoxPath id i j <+: executeBoxFinalOutput id i j :=
  List.prefix_append _ _

theorem below_scoringBoxUserOutput : scoringBoxPath id i j <+: scoringBoxUserOutput id i j :=
  below_workdir.trans (List.prefix_append _ _)

theorem below_scoringBoxOutput : scoringBoxPath id i j <+: scoringBoxOutput id i j :=
  below_workdir.trans (List.prefix_append _ _)

theorem below_scoringBoxTempdir : scoringBoxPath id i j <+: scoringBoxTempdir id i j :=
  List.prefix_append _ _

theorem below_judgeDirFile : scoringBoxPath id i j <+: judgeDirFile id i j name :=
  below_scoringBoxTempdir.trans (List.prefix_append _ _)

theorem below_submissionRunPath {b : Box} : submissionRunPath id <+: boxPath id b :=
  List.prefix_append _ _

end Paths

/-- The path is below a directory in which the setup or the finalizer of the task changes files. -/
def Task.Touches (id : Int) (q : Path) : Task → Prop
  | .compile _ => False
  | .execute i j => executeBoxPath id i j <+: q ∨ executeBoxPath id i (j - 1) <+: q
  | .scoring i j =>
    scoringBoxPath id i j <+: q ∨ scoringBoxPath id i (j - 1) <+: q ∨ executeBoxPath id i j <+: q
  | .summary => submissionRunPath id <+: q

section Frame

open FileTree

variable {cfg : Config} {c : Ctx} {i j : Nat} {o : TaskOutcome} {skipped : Bool} {box : BoxFiles}
  {files : Files} {q : Path} {t : Task} {outcome : Option TaskOutcome}

theorem numStages_of_lastStage {sub : Submission} (last : sub.lastStage j = true) :
    sub.numStages - 1 = j := by
  simp only [Submission.lastStage, beq_iff_eq] at last
  simp only [Submission.numStages]
  omega

theorem setupExecuteFiles_outside (outside : ¬ Task.Touches c.sub.submissionInternalId q (.execute i j)) :
    setupExecuteFiles c i j box files q = files q := by
  obtain ⟨here, before⟩ := not_or.mp outside
  have launched : launchExecuteFiles c i j files q = files q := by
    unfold launchExecuteFiles
    split
    case' isFalse =>
      refine (move_outside below_executeBoxFinalOutput below_executeBoxInput before here).trans ?_
    all_goals
      split
      · rfl
      · exact removeAll_outside below_workdir here
  unfold setupExecuteFiles
  rcases setupExecute c i j box with _ | _ | _
  · rfl
  · rfl
  · exact launched

theorem finalizeExecuteFiles_outside
    (outside : ¬ Task.Touches c.sub.submissionInternalId q (.execute i j)) :
    finalizeExecuteFiles c i j files q = files q := by
  obtain ⟨here, before⟩ := not_or.mp outside
  unfold finalizeExecuteFiles
  split
  case' isTrue => refine (removeAll_other before).trans ?_
  all_goals
    refine (removeAll_outside below_workdir here).trans ?_
    split
    · exact move_outside below_executeBoxOutput below_executeBoxFinalOutput here here
    · exact put_outside below_executeBoxFinalOutput here

theorem readSpecjudgeFiles_outside (here : ¬ scoringBoxPath c.sub.submissionInternalId i j <+: q) :
    readSpecjudgeFiles c i j o files q = files q := by
  unfold readSpecjudgeFiles
  split
  · exact move_outside below_judgeDirFile below_scoringBoxUserOutput here here
  · rfl

theorem moveUserOutputBack_outside (here : ¬ scoringBoxPath c.sub.submissionInternalId i j <+: q)
    (execute : ¬ executeBoxPath c.sub.submissionInternalId i j <+: q) :
    moveUserOutputBack cfg c i j o skipped files q = files q := by
  unfold moveUserOutputBack
  split
  case' isTrue =>
    refine (move_outside below_scoringBoxUserOutput below_executeBoxFinalOutput here execute).trans ?_
  all_goals
    split
    · rfl
    · exact readSpecjudgeFiles_outside here

theorem removeTestdataFiles_outside
    (outside : ¬ Task.Touches c.sub.submissionInternalId q (.scoring i j)) :
    removeTestdataFiles c i j skipped files q = files q := by
  obtain ⟨here, outside⟩ := not_or.mp outside
  obtain ⟨before, execute⟩ := not_or.mp outside
  unfold removeTestdataFiles
  split
  case' isTrue => refine (removeAll_other before).trans ?_
  all_goals
    split
    · rename_i last
      rw [numStages_of_lastStage last]
      split
      case' isFalse => refine (removeAll_other here).trans ?_
      all_goals exact removeAll_other execute
    · rfl

theorem finalizeScoringFiles_outside
    (outside : ¬ Task.Touches c.sub.submissionInternalId q (.scoring i j)) :
    finalizeScoringFiles cfg c i j o skipped files q = files q := by
  obtain ⟨here, others⟩ := not_or.mp outside
  exact (removeTestdataFiles_outside outside).trans
    (moveUserOutputBack_outside here (not_or.mp others).2)

theorem setupScoringFiles_outside
    (outside : ¬ Task.Touches c.sub.submissionInternalId q (.scoring i j)) :
    setupScoringFiles cfg c i j box files q = files q := by
  obtain ⟨here, others⟩ := not_or.mp outside
  obtain ⟨before, execute⟩ := not_or.mp others
  have launched : launchScoringFiles c i j files q = files q := by
    unfold launchScoringFiles
    split
    case' isFalse =>
      refine (moveAll_outside below_scoringBoxTempdir below_scoringBoxTempdir before here).trans ?_
    all_goals
      split
      · exact move_outside below_executeBoxFinalOutput below_scoringBoxUserOutput execute here
      · exact put_outside below_scoringBoxUserOutput here
  unfold setupScoringFiles
  rcases c.sub.testdata[i]? with _ | item
  · simp
  · rcases c.result.tdResults[i]? with _ | td
    · simp
    · dsimp only
      split_ifs
      · rfl
      · rfl
      · rfl
      · exact finalizeScoringFiles_outside outside
      · refine (finalizeScoringFiles_outside outside).trans ?_
        exact move_outside below_executeBoxFinalOutput below_scoringBoxOutput execute here
      · exact launched

theorem setupSummaryFiles_outside (outside : ¬ Task.Touches c.sub.submissionInternalId q .summary) :
    setupSummaryFiles c files q = files q := by
  have message : submissionRunPath c.sub.submissionInternalId <+:
      compileBoxMessage c.sub.submissionInternalId .userprog :=
    below_submissionRunPath.trans (below_workdir.trans (List.prefix_append _ _))
  have dest : submissionRunPath c.sub.submissionInternalId <+:
      summaryBoxCEMessage c.sub.submissionInternalId :=
    below_submissionRunPath.trans (below_workdir.trans (List.prefix_append _ _))
  unfold setupSummaryFiles
  rcases setupSummary c with _ | ⟨_ | _, _⟩
  · rfl
  · rfl
  · dsimp only
    split
    · exact move_outside message dest outside outside
    · exact put_outside dest outside

theorem setupFiles_outside (outside : ¬ t.Touches c.sub.submissionInternalId q) :
    setupFiles cfg c box files t q = files q := by
  cases t with
  | compile => rfl
  | execute => exact setupExecuteFiles_outside outside
  | scoring => exact setupScoringFiles_outside outside
  | summary => exact setupSummaryFiles_outside outside

theorem finalizeFiles_outside (outside : ¬ t.Touches c.sub.submissionInternalId q) :
    finalizeFiles cfg c files t outcome q = files q := by
  cases t with
  | compile => cases outcome <;> rfl
  | execute =>
    cases outcome with
    | none => rfl
    | some => exact finalizeExecuteFiles_outside outside
  | scoring =>
    cases outcome with
    | none => rfl
    | some => exact finalizeScoringFiles_outside outside
  | summary => cases outcome <;> exact removeAll_other outside

end Frame

/-! ## The machine -/

structure BoxState where
  judge : State
  files : Files

inductive BoxLabel where
  /-- A step of the scheduler. -/
  | step (l : Label)
  /-- The task with the handle writes a file of its box, or removes it. -/
  | write (handle : Int) (path : Path) (file : Option File)

/-- The task that the handle belongs to. -/
def State.taskOf (s : State) (handle : Int) : Option TaskInfo :=
  (s.handleMap.lookup handle).bind fun tid => (s.graph.find tid).map fun n => n.data

/-- The finalizer of the task reads these files. What a compilation leaves is not looked at. -/
def Reads (files : Files) (id : Int) (box : BoxFiles) : Task → Prop
  | .compile subtask => box.compileMessage = fileText (files (compileBoxMessage id subtask))
  | .execute .. => True
  | .scoring i j =>
    let judgeDir := fun name => fileText (files (judgeDirFile id i j name))
    box.output = fileText (files (scoringBoxOutput id i j)) ∧
      box.nextpass = isRegularFile (files (judgeDirFile id i j "nextpass.in")) ∧
      box.scoreMultiplier = judgeDir "score_multiplier.txt" ∧ box.score = judgeDir "score.txt" ∧
      box.teammessage = judgeDir "teammessage.txt" ∧ box.judgemessage = judgeDir "judgemessage.txt"
  | .summary => box.output = fileText (files (summaryBoxOutput id))

instance (files : Files) (id : Int) (box : BoxFiles) : DecidablePred (Reads files id box)
  | .compile _ | .execute .. | .scoring .. | .summary => by
    unfold Reads
    infer_instance

def State.dispatchFiles (cfg : Config) (s : State) (tid : Nat) (box : BoxFiles) (files : Files) :
    Files :=
  match s.graph.find tid with
  | none => files
  | some n =>
    match s.submissionList.lookup n.data.submissionInternalId with
    | none => files
    | some entry =>
      match setup cfg (s.ctx entry) box n.data.task with
      | .error _ => files
      | .ok (true, _) => setupFiles cfg (s.ctx entry) box files n.data.task
      | .ok (false, c) =>
        finalizeFiles cfg c (setupFiles cfg (s.ctx entry) box files n.data.task) n.data.task none

def State.resultFiles (cfg : Config) (s : State) (handle : Int) (o : TaskOutcome) (files : Files) :
    Files :=
  match s.taskOf handle with
  | none => files
  | some info =>
    match s.submissionList.lookup info.submissionInternalId with
    | none => files
    | some entry => finalizeFiles cfg (s.ctx entry) files info.task (some o)

def filesAfter (cfg : Config) (s : State) (files : Files) : Label → Files
  | .dispatch tid _ box => s.dispatchFiles cfg tid box files
  | .result handle o => s.resultFiles cfg handle o files
  | .push .. | .wake | .block | .exit => files

/-- The setup of the task finds its input when it was moved from the stage before. The compiled
program and the input of the testdata are left open. -/
def Finds (files : Files) (c : Ctx) (box : BoxFiles) : Task → Prop
  | .execute i j => 0 < j → box.moved = (launchExecuteFiles c i j files
      (executeBoxInput c.sub.submissionInternalId i j c.sub.sandboxStrict)).isSome
  | _ => True

instance (files : Files) (c : Ctx) (box : BoxFiles) : DecidablePred (Finds files c box)
  | .compile _ | .execute .. | .scoring .. | .summary => by
    unfold Finds
    infer_instance

/-- A setup finds the files that are there, a result comes with the files that its box has, and a
task that runs writes to its own box. -/
def BoxEnabled (p : BoxState) : BoxLabel → Prop
  | .step (.dispatch tid _ box) =>
    ∀ n ∈ p.judge.graph.find tid, ∀ entry ∈ p.judge.submissionList.lookup n.data.submissionInternalId,
      Finds p.files (p.judge.ctx entry) box n.data.task
  | .step (.result handle o) =>
    ∀ info ∈ p.judge.taskOf handle, Reads p.files info.submissionInternalId o.files info.task
  | .step _ => True
  | .write handle path _ =>
    handle ∈ p.judge.running ∧ ∃ info ∈ p.judge.taskOf handle,
      boxPath info.submissionInternalId info.task.box <+: path

instance (p : BoxState) : DecidablePred (BoxEnabled p)
  | .step (.push ..) | .step .wake | .step (.dispatch ..) | .step .block | .step (.result ..)
  | .step .exit | .write .. => by
    unfold BoxEnabled
    infer_instance

/-- The scheduler with the files of the boxes. -/
def boxes (cfg : Config) : Machine BoxState BoxLabel where
  init := ⟨.init, fun _ => none⟩
  step p
    | .step l =>
      if BoxEnabled p (.step l) then
        ((judge cfg).step p.judge l).map fun s => ⟨s, filesAfter cfg p.judge p.files l⟩
      else none
    | .write handle path file =>
      if BoxEnabled p (.write handle path file) then some { p with files := p.files.put path file }
      else none

end TiojJudge.Judge
